import LayeredSettings.Proofs.Sectioned.Gathering
import LayeredSettings.Proofs.Sectioned.PlainForm
import LayeredSettings.Proofs.SettingsFile.Loading

/-!
# Files that are refused

A sectioned file is refused if it has the reserved section or an option outside of its sections.
Both are looked for in the finished tree, so that a section which moves can hide them: the reserved
section is no section of the file if it only leads to others, and an option is no option if a
section takes its name. What is not hidden is refused, whatever else the file has.

* `Document.Refuses` — the failures of files that are refused;
* `Document.Hidden`, `Document.Overridden` — what keeps a file from being refused;
* `load_sectioned` — all that can become of a sectioned file;
* `load_of_reserved` — a file with a header of the reserved section;
* `load_of_standsFirst` — a file with an option before all headers.
-/

namespace LayeredSettings.Sectioned

open Ini (Node Line)

namespace Document

/-! ## Failures -/

/-- The failures of files that have what no file may have. -/
inductive Refuses (location : String) : Failure → Prop
  | reserved : Refuses location (reserved location)
  | stray (name : String) : Refuses location (strayOption location name)

theorem Refuses.kind_eq {location : String} {failure : Failure} (h : Refuses location failure) :
    failure.kind = "ConfigError" := by
  cases h with
  | reserved => rfl
  | stray name => rfl

section

variable {location : String} {text : List Char}

/-- A text without a document is refused, or its lines make no tree. -/
theorem refuses_of_ofText {failure : Failure} (h : ofText location text = .error failure) :
    Refuses location failure ∨
      (∃ fault, failure = .malformed fault) ∧ ¬ Ini.Orderly (said text) := by
  have hdecode : Ini.decode (normalize text) = (Ini.build (said text)).bind Ini.nest := rfl
  rw [ofText] at h
  cases htree : Ini.decode (normalize text) with
  | error fault =>
    rw [htree] at h
    refine .inr ⟨⟨fault, (Except.error.inj h).symm⟩, fun horderly => ?_⟩
    obtain ⟨tree, hok, -⟩ := Ini.exists_nest horderly
    rw [hdecode, hok] at htree
    cases htree
  | ok tree =>
    simp only [htree] at h
    cases hsections : sectionsOf location [] tree with
    | ok sections =>
      rw [hsections] at h
      simp only [Except.bind, ofSections] at h
      split at h
      · obtain rfl := Except.error.inj h
        exact .inl .reserved
      · cases h
    | error fault =>
      rw [hsections] at h
      obtain rfl := Except.error.inj h
      rcases sectionsOf_eq_error hsections with ⟨name, rfl⟩ | ⟨fault, rfl⟩
      · exact .inl (.stray name)
      · refine .inr ⟨⟨fault, rfl⟩, fun horderly => ?_⟩
        obtain ⟨sound, hok, hsound⟩ := Ini.exists_nest horderly
        obtain rfl := Except.ok.inj (hok.symm.trans (hdecode.symm.trans htree))
        obtain ⟨name, hname⟩ :=
          sectionsOf_eq_error_of_sound hsound (Nat.succ_le_of_lt horderly.length_lt) hsections
        cases hname

/-- The sections of a document cover all that is at the top of its tree. The reserved section is
none of them, and the section of defaults is taken out. -/
theorem exists_tree_of_ofText {d : Document} (h : ofText location text = .ok d) :
    ∃ top tree sections, Ini.build (said text) = .ok top ∧ Ini.nest top = .ok tree ∧
      sections.has reservedSection = false ∧
      (∀ name, d.sections.has name = true ↔ name ≠ defaultSection ∧ sections.has name = true) ∧
      ∀ name node, tree.get? name = some node → Covers sections name node := by
  rw [ofText] at h
  cases htree : Ini.decode (normalize text) with
  | error fault =>
    rw [htree] at h
    cases h
  | ok tree =>
    simp only [htree] at h
    obtain ⟨sections, hsections, hdocument⟩ := bind_eq_ok h
    obtain ⟨top, hbuild, hnest⟩ := bind_eq_ok (x := Ini.build (said text)) htree
    rw [ofSections] at hdocument
    split at hdocument
    · cases hdocument
    · rename_i hreserved
      obtain rfl := Except.ok.inj hdocument
      refine ⟨top, tree, sections, hbuild, hnest, by simpa using hreserved, fun name => ?_, ?_⟩
      · rw [Members.has_eq_isSome, Members.get?_erase, Members.has_eq_isSome]
        split_ifs with hname
        · simp [hname]
        · simp [hname]
      · intro name node hget
        exact (covers_of_sectionsOf hsections).2 _ (Members.mem_of_get? hget)

/-! ## The reserved section -/

/-- How the reserved section of a text may come to be none: some option is an object, or sections
come to stand below it and take the place of all of its options. An option that stands before all
headers under its name keeps it from having any. -/
def Hidden (lines : List Line) : Prop :=
  (∃ key v, Line.option key v ∈ lines ∧ (Node.ofValue v).isObject = true) ∨
    Ini.Reached (Ini.Moves lines) reservedSection ∧
      ((∃ node, Ini.Standing lines reservedSection node ∧ node.isVoid = false) ∨
        ∀ option, option ≠ "__proto__" → Ini.GivesBelow lines reservedSection option →
          ∃ other rest, Ini.Stands (Ini.Moves lines) other (reservedSection :: option :: rest))

theorem addressOf_reservedSection : Ini.Address.of? reservedSection = none := by decide +kernel

/-- A reserved section that has nothing but sections in it in the end is hidden. -/
theorem hidden_of_nest {lines : List Line} {top tree : Members Node}
    (hbuild : Ini.build lines = .ok top) (hnest : Ini.nest top = .ok tree) {node : Node}
    (hget : top.get? reservedSection = some node)
    (hsections : ∀ final, tree.get? reservedSection = some final →
      ∃ ordinary members, final = .object ordinary members ∧ members ≠ [] ∧
        ∀ entry ∈ members, entry.2.isObject = true) :
    Hidden lines := by
  have hmoves : ∀ name node, top.get? name = some node → node.isMovable = true →
      Ini.Moves lines name := fun _ _ => Ini.moves_of_build hbuild
  by_contra hnot
  obtain ⟨hvalues, hnot⟩ := not_or.mp hnot
  have hvalues (key v : Value) (hmem : Line.option key v ∈ lines) :
      (Node.ofValue v).isObject = false := by
    rw [Bool.eq_false_iff]
    exact fun hobject => hvalues ⟨key, v, hmem, hobject⟩
  by_cases hreached : Ini.Reached (Ini.Moves lines) reservedSection
  · -- one of its options is still there
    obtain ⟨hvoid, hoption⟩ := not_or.mp (not_and.mp hnot hreached)
    push Not at hvoid hoption
    obtain ⟨option, hproto, hgives, hfree⟩ := hoption
    obtain ⟨own, hown, hheld⟩ := Ini.exists_option_of_givesBelow hbuild hgives (by decide) hproto
      hvalues fun node hnode => by simpa using hvoid node hnode
    obtain ⟨final, hfinal, members, leaf, rfl, hleaf, hobject⟩ :=
      Ini.hasOption_nest hnest hmoves addressOf_reservedSection (by decide) hfree hown hheld
    obtain ⟨_, _, hmembers, -, hall⟩ := hsections _ hfinal
    obtain ⟨rfl, rfl⟩ := Node.object.inj hmembers
    rw [hall _ (Members.mem_of_get? hleaf)] at hobject
    cases hobject
  · -- it is left as the lines have made it
    obtain ⟨ordinary, members, rfl, hne, hall⟩ :=
      hsections _ (Ini.get?_nest hnest hmoves hreached hget fun _ => addressOf_reservedSection)
    obtain ⟨entry, hentry⟩ := List.exists_mem_of_ne_nil members hne
    have hnone := Ini.isObject_of_mem_section hbuild hvalues hget entry hentry
    rw [hall entry hentry] at hnone
    cases hnone

/-- A document whose text has a header of the reserved section has sections below it instead. -/
theorem hidden_of_ofText {d : Document} (h : ofText location text = .ok d) {header : Line}
    (hheader : header ∈ said text) (hopens : header.Opens reservedSection) :
    Hidden (said text) ∧ d.sections.has reservedSection = false ∧
      ∃ other, Below reservedSection other ∧ d.sections.has other = true := by
  obtain ⟨top, tree, sections, hbuild, hnest, hreserved, hhas, hcovers⟩ := exists_tree_of_ofText h
  obtain ⟨node, hget, -⟩ := Ini.exists_of_opens hbuild hheader hopens (by decide)
  -- in the end the reserved section has nothing but sections below it
  have hbelow (final : Node) (hfinal : tree.get? reservedSection = some final) :
      ∃ ordinary members, final = .object ordinary members ∧ members ≠ [] ∧
        (∀ entry ∈ members, entry.2.isObject = true) ∧
          ∃ other, Below reservedSection other ∧ sections.has other = true := by
    obtain ⟨ordinary, members, rfl, hsection | hbelow⟩ := hcovers _ final hfinal
    · rw [hreserved] at hsection
      cases hsection
    · exact ⟨ordinary, members, rfl, hbelow⟩
  refine ⟨hidden_of_nest hbuild hnest hget fun final hfinal => ?_, ?_, ?_⟩
  · obtain ⟨ordinary, members, hmembers, hne, hall, -⟩ := hbelow final hfinal
    exact ⟨ordinary, members, hmembers, hne, hall⟩
  · rw [Bool.eq_false_iff]
    intro hsection
    rw [((hhas _).mp hsection).2] at hreserved
    cases hreserved
  · obtain ⟨final, hfinal⟩ := Option.isSome_iff_exists.mp
      (Ini.isSome_get?_nest hnest addressOf_reservedSection (by rw [hget]; rfl))
    obtain ⟨_, _, -, -, -, other, hother, hsection⟩ := hbelow final hfinal
    refine ⟨other, hother, (hhas other).mpr ⟨?_, hsection⟩⟩
    rintro rfl
    exact absurd hother (by decide)

/-! ## Options before all headers -/

/-- How an option before all headers may come to be none: it is an object, or a header has its name
and it is void, or it moves away itself, or sections come to stand under its name. A list they do
not replace by coming to stand below it. -/
inductive Overridden (lines : List Line) (name : String) : Prop
  | object {node : Node} : Ini.Standing lines name node → node.isObject = true →
      Overridden lines name
  | opened {node : Node} {header : Line} : Ini.Standing lines name node → node.isVoid = true →
      header ∈ lines → header.Opens name → Overridden lines name
  | moved {node : Node} : Ini.Standing lines name node → node.isMovable = true →
      Ini.Address.of? name ≠ none → Overridden lines name
  | covered {node : Node} : Ini.Standing lines name node → node.isContainer = false →
      Ini.Reached (Ini.Moves lines) name → Overridden lines name
  | replaced {other : String} : Ini.Stands (Ini.Moves lines) other [name] → Overridden lines name

/-- A text with an option before all headers has no document, unless that is none in the end. -/
theorem overridden_of_ofText {d : Document} (h : ofText location text = .ok d) {stray : Line}
    (hstray : stray ∈ Ini.strays (said text)) {name : String} {value : Node}
    (hgives : stray.Gives name value) (hname : name ≠ "__proto__") :
    Overridden (said text) name := by
  by_contra hnot
  obtain ⟨top, tree, sections, hbuild, hnest, -, -, hcovers⟩ := exists_tree_of_ofText h
  have hmoves : ∀ name node, top.get? name = some node → node.isMovable = true →
      Ini.Moves (said text) name := fun _ _ => Ini.moves_of_build hbuild
  obtain ⟨node, hnode⟩ := Ini.exists_standing hbuild hstray hgives hname
  have hobject : node.isObject = false := by
    rw [Bool.eq_false_iff]
    exact fun hobject => hnot (.object hnode hobject)
  have hstay (other : Node) (halike : node.Alike other) (hmovable : other.isMovable = true) :
      Ini.Address.of? name = none := by
    by_contra haddress
    exact hnot (.moved hnode (halike.isMovable_eq ▸ hmovable) haddress)
  obtain ⟨built, hget, halike⟩ := Ini.exists_alike_of_standing hbuild hnode
    fun hvoid header hheader hopens => hnot (.opened hnode hvoid hheader hopens)
  obtain ⟨final, hfinal, hend⟩ := Ini.keeps_of_nest node.Alike hnest hmoves hstay
    (fun other rest hstands => by
      refine ⟨?_, fun into hinto => ⟨?_, fun path last added result _ hplace => ?_⟩⟩
      · rintro rfl
        exact hnot (.replaced hstands)
      · rw [hinto.isContainer_eq, ← Bool.not_eq_false]
        exact fun hcontainer => hnot (.covered hnode hcontainer ⟨other, rest, hstands⟩)
      · exact hinto.trans (Node.alike_of_place hplace))
    hget halike
  obtain ⟨ordinary, members, rfl, -⟩ := hcovers _ final hfinal
  rw [← hend.isObject_eq] at hobject
  cases hobject

end

end Document

/-! ## Loading -/

open SettingsFile (formatOf load ofDocument)

/-- A file that is not loaded is refused, or has lines that make no tree. -/
theorem failure_of_load {w : World} {location : String} (h : formatOf location = .sectioned)
    (failure : Failure) (hfailure : (load location).outcome w = .error failure) :
    (Document.Refuses location failure ∧ failure.kind = "ConfigError") ∨
      (∃ fault, failure = .malformed fault) ∧ ¬ Ini.Orderly (said (w.textAt location)) := by
  rw [SettingsFile.outcome_load h] at hfailure
  cases hdocument : Document.ofText location (w.textAt location) with
  | ok d =>
    rw [hdocument] at hfailure
    cases hfailure
  | error other =>
    rw [hdocument] at hfailure
    obtain rfl := Except.error.inj hfailure
    exact (Document.refuses_of_ofText hdocument).imp_left fun hrefuses =>
      ⟨hrefuses, hrefuses.kind_eq⟩

/-- A sectioned file is loaded, refused, or has lines that make no tree. Only lines that are not
orderly make none, and a file that cannot be read is empty. -/
theorem load_sectioned {w : World} {location : String} (h : formatOf location = .sectioned) :
    (∀ file, (load location).outcome w = .ok file → file.location = location ∧
      file.sectionedDocument?.isSome = true ∧ file.yamlDocument? = none) ∧
    (∀ failure, (load location).outcome w = .error failure →
      (Document.Refuses location failure ∧ failure.kind = "ConfigError") ∨
      (∃ fault, failure = .malformed fault) ∧ ¬ Ini.Orderly (said (w.textAt location))) ∧
    (w.files.textOf? location = none → (load location).outcome w =
      .ok (ofDocument location { sections := [], defaults := [] })) := by
  refine ⟨fun file hfile => ?_, failure_of_load h, fun hnone => ?_⟩
  · rw [SettingsFile.outcome_load h] at hfile
    obtain ⟨d, -, rfl⟩ := map_eq_ok hfile
    exact ⟨rfl, rfl, rfl⟩
  · rw [SettingsFile.outcome_load h, World.textAt, hnone]
    rfl

/-- A text with an option before its only section. -/
def strayText : List Char := ['x', '=', '1', '\n', '[', 'b', ']']

/-- A world with a file of this text. -/
def strayWorld : World := .ofFile "c" [120, 61, 49, 10, 91, 98, 93]

theorem strayWorld_holds : strayWorld.Holds "c" strayText :=
  ⟨rfl, by decide +kernel, by decide +kernel⟩

theorem said_strayText :
    said strayText = [.option (.str "x") (.str "1"), .header (.str "b")] := rfl

theorem orderly_strayText : Ini.Orderly (said strayText) := by
  rw [said_strayText]
  refine Ini.orderly_of_forall (by decide) (by decide) ?_
  rintro line hline name ⟨key, v, o, rfl, ho, -, hbar⟩
  obtain ⟨rfl, rfl⟩ : key = .str "x" ∧ v = .str "1" := by simpa using hline
  obtain rfl := Except.ok.inj ho
  simp [Node.ofValue, Node.isNull] at hbar

/-- The file is not loaded, and only because of its option. -/
theorem load_strayText :
    formatOf "c" = .sectioned ∧ Ini.Orderly (said (strayWorld.textAt "c")) ∧
    (load "c").outcome strayWorld = .error (Document.strayOption "c" "x") ∧
    (Document.strayOption "c" "x").kind = "ConfigError" := by
  have hformat : formatOf "c" = .sectioned := rfl
  have horderly : Ini.Orderly (said (strayWorld.textAt "c")) := by
    rw [strayWorld_holds.textAt_eq]
    exact orderly_strayText
  have houtcome : (load "c").outcome strayWorld = .error (Document.strayOption "c" "x") := rfl
  refine ⟨hformat, horderly, houtcome, ?_⟩
  rcases (load_sectioned hformat).2.1 _ houtcome with ⟨-, hkind⟩ | ⟨-, hnot⟩
  · exact hkind
  · exact absurd horderly hnot

theorem exists_failure_of_not_ok {w : World} {location : String} {text : List Char}
    (hholds : w.Holds location text)
    (hnot : ∀ file, (load location).outcome w ≠ .ok file) :
    ∃ failure, (load location).outcome w = .error failure ∧
      ((Document.Refuses location failure ∧ failure.kind = "ConfigError") ∨
      (∃ fault, failure = .malformed fault) ∧ ¬ Ini.Orderly (said text)) := by
  have hall := failure_of_load (w := w) hholds.format
  rw [hholds.textAt_eq] at hall
  cases hload : (load location).outcome w with
  | ok file => exact absurd hload (hnot file)
  | error failure => exact ⟨failure, rfl, hall failure hload⟩

/-- A file with a header of the reserved section is refused, if its lines are orderly, unless that
section is hidden. Then there are sections below it in the document. -/
theorem load_of_reserved {w : World} {location : String} {text rest : List Char}
    (hholds : w.Holds location text) (hrest : Text.IsPadding rest)
    (hline : '[' :: ("internal".toList ++ ']' :: rest) ∈ Text.lines text) :
    (¬ Document.Hidden (said text) → ∃ failure, (load location).outcome w = .error failure ∧
      ((Document.Refuses location failure ∧ failure.kind = "ConfigError") ∨
      (∃ fault, failure = .malformed fault) ∧ ¬ Ini.Orderly (said text))) ∧
    ∀ file, (load location).outcome w = .ok file → Document.Hidden (said text) ∧
      ∃ d, file = ofDocument location d ∧ d.sections.has "internal" = false ∧
        ∃ other, Below "internal" other ∧ d.sections.has other = true := by
  have hheader : Line.header (.str "internal") ∈ said text :=
    header_mem_said hrest (by decide) (by decide) (by simp) hline
  have hescapes (file : SettingsFile) (hfile : (load location).outcome w = .ok file) :
      Document.Hidden (said text) ∧
        ∃ d, file = ofDocument location d ∧ d.sections.has reservedSection = false ∧
          ∃ other, Below reservedSection other ∧ d.sections.has other = true := by
    rw [SettingsFile.outcome_load hholds.format, hholds.textAt_eq] at hfile
    obtain ⟨d, hd, rfl⟩ := map_eq_ok hfile
    obtain ⟨hhidden, hbelow⟩ := Document.hidden_of_ofText hd hheader ⟨_, rfl, rfl⟩
    exact ⟨hhidden, d, rfl, hbelow⟩
  refine ⟨fun hhidden => ?_, hescapes⟩
  exact exists_failure_of_not_ok hholds fun file hfile => hhidden (hescapes file hfile).1

/-- A text with a header of the reserved section and an option. -/
def reservedText : List Char :=
  ['[', 'i', 'n', 't', 'e', 'r', 'n', 'a', 'l', ']', ' ', '\n', 'a', '=', '1']

/-- A world with a file of this text. -/
def reservedWorld : World :=
  .ofFile "c" [91, 105, 110, 116, 101, 114, 110, 97, 108, 93, 32, 10, 97, 61, 49]

theorem said_reservedText :
    said reservedText = [.header (.str "internal"), .option (.str "a") (.str "1")] := rfl

theorem orderly_reservedText : Ini.Orderly (said reservedText) := by
  rw [said_reservedText]
  refine Ini.orderly_of_forall (by decide) (by decide) ?_
  rintro line hline name ⟨key, v, o, rfl, ho, -, hbar⟩
  obtain ⟨rfl, rfl⟩ : key = .str "a" ∧ v = .str "1" := by simpa using hline
  obtain rfl := Except.ok.inj ho
  simp [Node.ofValue, Node.isNull] at hbar

theorem not_hidden_reservedText : ¬ Document.Hidden (said reservedText) := by
  rw [said_reservedText]
  rintro (⟨key, v, hmem, hobject⟩ | ⟨hreached, -⟩)
  · obtain ⟨rfl, rfl⟩ : key = .str "a" ∧ v = .str "1" := by simpa using hmem
    simp [Node.ofValue, Node.isObject] at hobject
  · refine Ini.not_reached_of_forall ?_ _ hreached
    rintro name (⟨line, hline, v, rfl, htext⟩ | ⟨node, ⟨first, hfirst, hget⟩, -⟩)
    · obtain rfl : v = .str "internal" := by simpa using hline
      obtain rfl := Except.ok.inj htext
      decide +kernel
    · obtain rfl := Except.ok.inj hfirst
      cases hget

/-- The file is refused. -/
theorem load_reservedText :
    reservedWorld.Holds "c" reservedText ∧ Text.IsPadding [' '] ∧
    '[' :: ("internal".toList ++ ']' :: [' ']) ∈ Text.lines reservedText ∧
    ¬ Document.Hidden (said reservedText) ∧
    ∃ failure, (load "c").outcome reservedWorld = .error failure ∧
      failure.kind = "ConfigError" := by
  have hholds : reservedWorld.Holds "c" reservedText := ⟨rfl, by decide +kernel, by decide +kernel⟩
  have hrest : Text.IsPadding [' '] := by decide
  have hline : '[' :: ("internal".toList ++ ']' :: [' ']) ∈ Text.lines reservedText := by
    decide +kernel
  refine ⟨hholds, hrest, hline, not_hidden_reservedText, ?_⟩
  obtain ⟨failure, hload, ⟨-, hkind⟩ | ⟨-, hnot⟩⟩ :=
    (load_of_reserved hholds hrest hline).1 not_hidden_reservedText
  · exact ⟨failure, hload, hkind⟩
  · exact absurd orderly_reservedText hnot

/-- A file with an option before all headers is refused, if its lines are orderly, unless that
option is none in the end. -/
theorem load_of_standsFirst {w : World} {location : String} {text key value : List Char}
    (hholds : w.Holds location text) (hfirst : StandsFirst text key value)
    (hname : Ini.keyName (String.ofList key) ≠ "__proto__")
    (hnot : ¬ Document.Overridden (said text) (Ini.keyName (String.ofList key))) :
    ∃ failure, (load location).outcome w = .error failure ∧
      ((Document.Refuses location failure ∧ failure.kind = "ConfigError") ∨
      (∃ fault, failure = .malformed fault) ∧ ¬ Ini.Orderly (said text)) := by
  refine exists_failure_of_not_ok hholds fun file hfile => hnot ?_
  rw [SettingsFile.outcome_load hholds.format, hholds.textAt_eq] at hfile
  obtain ⟨d, hd, rfl⟩ := map_eq_ok hfile
  exact Document.overridden_of_ofText hd (mem_strays_of_standsFirst hfirst)
    (Ini.gives_keyName _ _) hname

theorem standsFirst_strayText : StandsFirst strayText ['x'] ['1'] := by
  refine ⟨[], ['x', '=', '1'], ['1'], [], [['[', 'b', ']']], by decide +kernel, by simp,
    ⟨by decide, by simp, by simp, List.forall_mem_singleton.mpr rfl,
      List.forall_mem_singleton.mpr rfl, [], '=', ['1'], Text.isPadding_nil, rfl, rfl, rfl⟩,
    by simp, ?_, rfl⟩
  intro next hnext
  obtain rfl : next = ['[', 'b', ']'] := by simpa [eq_comm] using hnext
  decide

theorem not_overridden_strayText : ¬ Document.Overridden (said strayText) "x" := by
  rw [said_strayText]
  -- what the option leaves, whatever it is thought to be
  have hnode {name : String} {node : Node}
      (h : Ini.Standing [.option (.str "x") (.str "1"), .header (.str "b")] name node) :
      node = .text "1" := by
    obtain ⟨first, hfirst, hget⟩ := h
    obtain rfl := Except.ok.inj hfirst
    have hmem := Members.mem_of_get? hget
    exact (Prod.mk.inj (List.mem_singleton.mp hmem)).2
  have hnone : ∀ name,
      ¬ Ini.Reached (Ini.Moves [.option (.str "x") (.str "1"), .header (.str "b")]) name := by
    refine Ini.not_reached_of_forall ?_
    rintro name (⟨line, hline, v, rfl, htext⟩ | ⟨node, hstanding, hmovable⟩)
    · obtain rfl : v = .str "b" := by simpa using hline
      obtain rfl := Except.ok.inj htext
      decide +kernel
    · rw [hnode hstanding] at hmovable
      cases hmovable
  intro h
  cases h with
  | object hstanding hobject =>
    rw [hnode hstanding] at hobject
    cases hobject
  | opened hstanding hvoid _ _ =>
    rw [hnode hstanding] at hvoid
    simp [Node.isVoid] at hvoid
  | moved hstanding hmovable _ =>
    rw [hnode hstanding] at hmovable
    cases hmovable
  | covered _ _ hreached => exact hnone _ hreached
  | replaced hstands => exact hnone _ ⟨_, _, hstands⟩

/-- The file is refused, as its option comes before its header. -/
theorem load_strayText_of_standsFirst :
    strayWorld.Holds "c" strayText ∧ StandsFirst strayText ['x'] ['1'] ∧
    Ini.keyName (String.ofList ['x']) ≠ "__proto__" ∧
    ¬ Document.Overridden (said strayText) (Ini.keyName (String.ofList ['x'])) ∧
    ∃ failure, (load "c").outcome strayWorld = .error failure ∧ failure.kind = "ConfigError" := by
  have hname : Ini.keyName (String.ofList ['x']) ≠ "__proto__" := by decide +kernel
  refine ⟨strayWorld_holds, standsFirst_strayText, hname, not_overridden_strayText, ?_⟩
  obtain ⟨failure, hload, ⟨-, hkind⟩ | ⟨-, hnot⟩⟩ :=
    load_of_standsFirst strayWorld_holds standsFirst_strayText hname not_overridden_strayText
  · exact ⟨failure, hload, hkind⟩
  · exact absurd orderly_strayText hnot

end LayeredSettings.Sectioned
