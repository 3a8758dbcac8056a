import LayeredSettings.Proofs.Ini.Moving

/-!
# Trees that are made without faults

A tree is made of lines that hold nothing but texts, numbers and constants, unless a section would
have to move through an option that is null or a list. Its nodes all have texts or members.

* `Orderly` — such lines;
* `Node.Sound` — the nodes of their trees;
* `exists_build`, `exists_nest` — every line, and then every move, finds what it needs.
-/

namespace LayeredSettings

namespace Ini

namespace Node

/-! ## Nodes -/

/-- Whether a node is a text, a number or a constant. -/
def isScalar : Node → Bool
  | array _ _ | object _ _ => false
  | _ => true

/-- Whether no section can move through a node: it is null or a list. -/
def isBarrier : Node → Bool
  | null | array _ _ => true
  | _ => false

/-- Names of members that a list needs for its own use. -/
def ownNames : List String := "constructor" :: neededNames

/-- Nodes that are options with a text: scalars, and lists of scalars that are not too long. -/
def IsLeaf (size : Nat) : Node → Prop
  | array length members =>
    length ≤ size ∧ ∀ entry ∈ members, entry.2.isScalar = true ∧ entry.1 ∉ ownNames
  | object _ _ => False
  | _ => True

/-- Nodes made of options and sections, in which nothing bars the names that sections move along. -/
inductive Sound (walked : String → Prop) (size : Nat) : Node → Prop
  | leaf {node : Node} : node.IsLeaf size → Sound walked size node
  | branch {members : Members Node} : (∀ entry ∈ members, Sound walked size entry.2) →
      (∀ entry ∈ members, walked entry.1 → entry.2.isBarrier = false) →
      Sound walked size (object false members)

theorem isLeaf_of_isScalar {node : Node} (h : node.isScalar = true) (size : Nat) :
    node.IsLeaf size := by
  cases node with
  | array length members => cases h
  | object ordinary members => cases h
  | _ => trivial

theorem IsLeaf.mono {node : Node} {size more : Nat} (h : node.IsLeaf size) (hle : size ≤ more) :
    node.IsLeaf more := by
  cases node with
  | array length members => exact ⟨Nat.le_trans h.1 hle, h.2⟩
  | object ordinary members => exact h.elim
  | _ => trivial

theorem exists_text_of_isScalar {node : Node} (h : node.isScalar = true) :
    ∃ s, node.text? = .ok s := by
  cases node with
  | array length members => cases h
  | object ordinary members => cases h
  | _ => exact ⟨_, by rw [text?]⟩

theorem toString_not_mem_ownNames (i : Nat) : toString i ∉ ownNames := by
  -- an index has nothing but digits
  have hdigits : ∀ c ∈ (toString i).toList, c.isDigit = true := by
    intro c hc
    have hmem : c ∈ Nat.toDigits 10 i := by simpa [toString, Nat.repr] using hc
    exact Nat.isDigit_of_mem_toDigits (b := 10) (by decide) (by decide) hmem
  intro hmem
  have hname : ∀ name ∈ ownNames, name.toList.any (fun c => !c.isDigit) = true := by decide
  obtain ⟨c, hc, hdigit⟩ := List.any_eq_true.mp (hname (toString i) hmem)
  rw [hdigits c hc] at hdigit
  cases hdigit

/-- Options have texts. -/
theorem IsLeaf.exists_optionText {node : Node} {size : Nat} (h : node.IsLeaf size)
    (hsize : size ≤ longestJoined) : ∃ s, node.optionText = .ok s := by
  cases node with
  | object ordinary members => exact h.elim
  | array length members =>
    obtain ⟨hlength, hmembers⟩ := h
    have hfree (name : String) (hname : name ∈ ownNames) : Members.has members name = false := by
      rw [Members.has, List.any_eq_false]
      intro entry hentry heq
      exact (hmembers entry hentry).2 (by rwa [beq_iff_eq.mp heq])
    have hconstructor : Members.get? members "constructor" = none := by
      have hhas := hfree "constructor" (by decide)
      rw [Members.has_eq_isSome] at hhas
      simpa using hhas
    have htraversable : isTraversable members = true := by
      simp [isTraversable, neededNames, hfree "map" (by decide), hfree "__proto__" (by decide),
        hconstructor]
    have hitem (entry : String × Node) (hentry : entry ∈ members) :
        ∃ item, itemText? entry.1 entry.2 = .ok item := by
      obtain ⟨s, hs⟩ := exists_text_of_isScalar (hmembers entry hentry).1
      unfold itemText?
      split
      · exact ⟨_, by rw [hs]; rfl⟩
      · exact ⟨_, rfl⟩
    rw [optionText, if_pos htraversable]
    refine exists_mapM_bind hitem fun items => ?_
    simp [join, if_neg (Nat.not_lt.mpr (Nat.le_trans hlength hsize))]
  | _ => exact ⟨_, by rw [optionText, text?]; simp⟩

/-- What an option is once it is given a value has a text if it had one before. Its list has grown
by one item at most, or has become one of two. -/
theorem IsLeaf.joined {old : Option Node} {size : Nat}
    (hold : ∀ node, old = some node → node.IsLeaf size) (hsize : 0 < size) (bracketed : Bool)
    {value : Node} (hvalue : value.isScalar = true) :
    (Node.joined old bracketed value).IsLeaf (size + 1) := by
  have hitem (node : Node) (hnode : node.isScalar = true) (i : Nat) :
      node.isScalar = true ∧ toString i ∉ ownNames := ⟨hnode, toString_not_mem_ownNames i⟩
  unfold Node.joined
  split
  · rename_i length members
    obtain ⟨hlength, hmembers⟩ := hold _ rfl
    refine ⟨Nat.succ_le_succ hlength, fun entry hentry => ?_⟩
    rcases Members.mem_set hentry with rfl | hentry
    · exact hitem value hvalue length
    · exact hmembers entry hentry
  · rename_i node hlist
    have hnode : node.isScalar = true := by
      have hleaf := hold node rfl
      cases node with
      | array length members => exact absurd rfl (hlist length members)
      | object ordinary members => exact hleaf.elim
      | _ => rfl
    refine ⟨Nat.succ_le_succ hsize, fun entry hentry => ?_⟩
    have hcases : entry = (toString 0, node) ∨ entry = (toString 1, value) := by
      simpa using hentry
    rcases hcases with rfl | rfl
    · exact hitem node hnode 0
    · exact hitem value hvalue 1
  · refine ⟨Nat.succ_le_succ (Nat.zero_le size), fun entry hentry => ?_⟩
    have heq : entry = (toString 0, value) := by simpa using hentry
    rw [heq]
    exact hitem value hvalue 0
  · exact isLeaf_of_isScalar hvalue _

/-- An option bars the way only if it did before, is given null, or becomes a list. -/
theorem isBarrier_joined {old : Option Node} {bracketed : Bool} {value : Node}
    (hvalue : value.isScalar = true) (h : (Node.joined old bracketed value).isBarrier = true) :
    (bracketed = true ∨ value.isNull = true) ∨ ∃ node, old = some node ∧ node.isBarrier = true := by
  unfold Node.joined at h
  split at h
  · exact .inr ⟨_, rfl, rfl⟩
  · exact .inl (.inl rfl)
  · exact .inl (.inl rfl)
  · refine .inl (.inr ?_)
    cases value with
    | null => rfl
    | array length members => cases hvalue
    | _ => cases h

end Node

/-! ## Lines -/

/-- Whether a line has nothing but texts, numbers and constants. -/
def Line.isSimple : Line → Bool
  | .header name => (Node.ofValue name).isScalar
  | .option key v =>
    (Node.ofValue key).isScalar && !(Node.ofValue key).isNull && (Node.ofValue v).isScalar

/-- Whether a line makes an option of a name that no section can move through. -/
def Line.Bars (line : Line) (name : String) : Prop :=
  ∃ key v o, line = .option key v ∧ OptionName.of key = .ok o ∧ o.name.text? = .ok name ∧
    (o.bracketed = true ∨ (Node.ofValue v).isNull = true)

/-- Whether sections of lines may move along a name. -/
def Walked (lines : List Line) (part : String) : Prop :=
  ∃ name a, Names lines name ∧ Address.of? name = some a ∧ part ∈ a.place

/-- Lines without JSON in which no section has to move through a null or a list. A null or a list
before all headers has to stay where it is. -/
structure Orderly (lines : List Line) : Prop where
  isSimple : ∀ line ∈ lines, line.isSimple = true
  length_lt : lines.length < Node.longestJoined
  walked_free : ∀ line ∈ lines, ∀ name, line.Bars name → ¬ Walked lines name
  strays_free : ∀ line ∈ strays lines, ∀ name, line.Bars name →
    Address.of? name = none ∧ ∀ header ∈ lines, ¬ header.Opens name

/-- Lines without lists and nulls are orderly. -/
theorem orderly_of_forall {lines : List Line} (hsimple : ∀ line ∈ lines, line.isSimple = true)
    (hlength : lines.length < Node.longestJoined)
    (hbars : ∀ line ∈ lines, ∀ name, ¬ line.Bars name) : Orderly lines :=
  ⟨hsimple, hlength, fun line hline name hbar => absurd hbar (hbars line hline name),
    fun line hline name hbar =>
      absurd hbar (hbars line ((List.takeWhile_sublist _).subset hline) name)⟩

theorem OptionName.exists_of {key : Value} (hscalar : (Node.ofValue key).isScalar = true)
    (hnull : (Node.ofValue key).isNull = false) :
    ∃ o name, OptionName.of key = .ok o ∧ o.name.text? = .ok name := by
  cases key with
  | str s =>
    rw [OptionName.of]
    split
    · exact ⟨_, _, rfl, rfl⟩
    · exact ⟨_, _, rfl, rfl⟩
  | bool b => exact ⟨_, _, rfl, rfl⟩
  | num n => exact ⟨_, _, rfl, rfl⟩
  | list items =>
    rw [Node.ofValue] at hscalar
    cases hscalar
  | map members =>
    rw [Node.ofValue] at hscalar
    cases hscalar
  | _ =>
    rw [Node.ofValue] at hnull
    · cases hnull
    all_goals simp

/-! ## Building -/

/-- What has no members takes no option. -/
theorem Node.assign_of_isScalar {node : Node} (h : node.isScalar = true) (name : String)
    (bracketed : Bool) (value : Node) : node.assign name bracketed value = .ok node := by
  cases node with
  | array length members => cases h
  | object ordinary members => cases h
  | _ =>
    cases bracketed with
    | _ => rfl

/-- The nodes at the top before any section has moved: options, and sections of options only. -/
def Node.IsFlat (walked : String → Prop) (size : Nat) (node : Node) : Prop :=
  node.IsLeaf size ∨ ∃ members, node = object false members ∧
    ∀ entry ∈ members, entry.2.IsLeaf size ∧ (walked entry.1 → entry.2.isBarrier = false)

/-- A flat node that is not in the way: if it bars it, it has a name that nothing is to do with. -/
def Node.Fits (lines : List Line) (size : Nat) (name : String) (node : Node) : Prop :=
  node.IsFlat (Walked lines) size ∧ (node.isBarrier = true → ¬ Walked lines name ∧
    Address.of? name = none ∧ ∀ header ∈ lines, ¬ header.Opens name)

theorem Node.Fits.mono {lines : List Line} {size more : Nat} {name : String} {node : Node}
    (h : node.Fits lines size name) (hle : size ≤ more) : node.Fits lines more name := by
  refine ⟨?_, h.2⟩
  rcases h.1 with hleaf | ⟨members, rfl, hmembers⟩
  · exact .inl (hleaf.mono hle)
  · exact .inr ⟨members, rfl, fun entry hentry =>
      ⟨(hmembers entry hentry).1.mono hle, (hmembers entry hentry).2⟩⟩

theorem Node.fits_emptySection (lines : List Line) (size : Nat) (name : String) :
    emptySection.Fits lines size name :=
  ⟨.inr ⟨[], rfl, fun _ hentry => absurd hentry List.not_mem_nil⟩, fun h => nomatch h⟩

/-- A section takes an option unless that bars a name that sections move along. -/
theorem Node.IsFlat.exists_assign {walked : String → Prop} {size : Nat} {node : Node}
    (h : node.IsFlat walked size) (hbarrier : node.isBarrier = false) (hsize : 0 < size)
    {name : String} {bracketed : Bool} {value : Node} (hvalue : value.isScalar = true)
    (hfree : bracketed = true ∨ value.isNull = true → ¬ walked name) :
    ∃ changed, node.assign name bracketed value = .ok changed ∧
      changed.IsFlat walked (size + 1) ∧ changed.isBarrier = false := by
  rcases h with hleaf | ⟨members, rfl, hmembers⟩
  · have hscalar : node.isScalar = true := by
      cases node with
      | array length members => cases hbarrier
      | object ordinary members => exact hleaf.elim
      | _ => rfl
    exact ⟨node, assign_of_isScalar hscalar _ _ _, .inl (hleaf.mono (Nat.le_succ _)), hbarrier⟩
  · refine ⟨_, assign_section _ _ _ _, .inr ⟨_, rfl, fun entry hentry => ?_⟩, rfl⟩
    rcases Members.mem_set hentry with rfl | hentry
    · refine ⟨IsLeaf.joined ?_ hsize _ hvalue, fun hwalked => ?_⟩
      · exact fun old hold => (hmembers _ (Members.mem_of_get? hold)).1
      · rw [Bool.eq_false_iff]
        intro hjoined
        rcases isBarrier_joined hvalue hjoined with hbars | ⟨old, hold, holdBarrier⟩
        · exact hfree hbars hwalked
        · rw [(hmembers _ (Members.mem_of_get? hold)).2 hwalked] at holdBarrier
          cases holdBarrier
    · exact ⟨(hmembers entry hentry).1.mono (Nat.le_succ _), (hmembers entry hentry).2⟩

/-- A tree that some of the lines have made, those that came `before`. -/
structure Building.Flat (lines before : List Line) (b : Building) : Prop where
  top_fits : ∀ entry ∈ b.top, entry.2.Fits lines (before.length + 1) entry.1
  top_leaf : b.target = .top → ∀ entry ∈ b.top, entry.2.IsLeaf (before.length + 1)
  before_options : b.target = .top → ∀ line ∈ before, line.isOption = true
  target_opened : ∀ name, b.target = .inSection name → ∃ header ∈ lines, header.Opens name

section

variable {lines before rest : List Line} {b : Building}

theorem Building.Flat.fits (h : b.Flat lines before) {name : String} {node : Node}
    (hget : b.top.get? name = some node) : node.Fits lines (before.length + 1) name :=
  h.top_fits (name, node) (Members.mem_of_get? hget)

theorem length_concat_succ (before : List Line) (line : Line) :
    (before ++ [line]).length + 1 = before.length + 1 + 1 := by
  simp

theorem Building.Flat.top_mono (h : b.Flat lines before) (line : Line) :
    ∀ entry ∈ b.top, entry.2.Fits lines ((before ++ [line]).length + 1) entry.1 :=
  fun entry hentry => (h.top_fits entry hentry).mono (by simp)

/-- A tree with one more node that is not in the way. -/
theorem Building.Flat.set_top (h : b.Flat lines before) (line : Line) {name : String} {node : Node}
    (hnode : node.Fits lines ((before ++ [line]).length + 1) name) :
    ∀ entry ∈ b.top.set name node, entry.2.Fits lines ((before ++ [line]).length + 1) entry.1 := by
  intro entry hentry
  rcases Members.mem_set hentry with rfl | hentry
  · exact hnode
  · exact h.top_mono line entry hentry

/-- A header always opens its section. -/
theorem Building.Flat.openSection (h : b.Flat lines before) {v : Value}
    (hline : Line.header v ∈ lines) (hsimple : (Line.header v).isSimple = true) :
    ∃ next, b.openSection v = .ok next ∧ next.Flat lines (before ++ [.header v]) := by
  obtain ⟨name, hname⟩ := Node.exists_text_of_isScalar hsimple
  have hsection {top : Members Node}
      (htop : ∀ entry ∈ top, entry.2.Fits lines ((before ++ [Line.header v]).length + 1) entry.1) :
      Building.Flat lines (before ++ [.header v]) { top, target := .inSection name } :=
    ⟨htop, fun htarget => (nomatch htarget), fun htarget => (nomatch htarget), fun other hother =>
      ⟨_, hline, v, rfl, Target.inSection.inj hother ▸ hname⟩⟩
  have hset := h.set_top (.header v) (Node.fits_emptySection lines _ name)
  unfold Building.openSection
  split
  · exact ⟨_, rfl, h.top_mono _, fun htarget => (nomatch htarget),
      fun htarget => (nomatch htarget), fun _ htarget => (nomatch htarget)⟩
  · rw [hname]
    simp only [bind, Except.bind]
    split
    · split
      · exact ⟨_, rfl, hsection hset⟩
      · exact ⟨_, rfl, hsection (h.top_mono _)⟩
    · exact ⟨_, rfl, hsection hset⟩

theorem Building.Flat.before_concat (h : b.Flat lines before) (key v : Value)
    (htarget : b.target = .top) : ∀ line ∈ before ++ [.option key v], line.isOption = true := by
  intro line hline
  rcases List.mem_append.mp hline with hline | hline
  · exact h.before_options htarget line hline
  · rw [List.mem_singleton.mp hline]
    rfl

/-- An option always finds its place. -/
theorem Building.Flat.assign (horderly : Orderly lines) (h : b.Flat lines before) {key v : Value}
    (hlines : lines = before ++ .option key v :: rest) :
    ∃ next, b.assign key v = .ok next ∧ next.Flat lines (before ++ [.option key v]) := by
  have hmem : Line.option key v ∈ lines := by simp [hlines]
  have hsimple := horderly.isSimple _ hmem
  simp only [Line.isSimple, Bool.and_eq_true, Bool.not_eq_true'] at hsimple
  obtain ⟨⟨hkey, hkeyNull⟩, hvalue⟩ := hsimple
  obtain ⟨o, name, ho, hname⟩ := OptionName.exists_of hkey hkeyNull
  have hbars (h : o.bracketed = true ∨ (Node.ofValue v).isNull = true) :
      (Line.option key v).Bars name := ⟨key, v, o, rfl, ho, hname, h⟩
  have hsame : b.Flat lines (before ++ [.option key v]) :=
    ⟨h.top_mono _, fun htarget entry hentry => (h.top_leaf htarget entry hentry).mono (by simp),
      h.before_concat key v, h.target_opened⟩
  rw [Building.assign_eq, ho]
  simp only [Except.bind, hname]
  split
  · exact ⟨b, rfl, hsame⟩
  · unfold Building.give
    cases htarget : b.target with
    | dropped => exact ⟨b, rfl, hsame⟩
    | top =>
      have hstray : Line.option key v ∈ strays lines := by
        rw [hlines, strays, List.takeWhile_append_of_pos (h.before_options htarget),
          List.takeWhile_cons_of_pos rfl]
        exact List.mem_append_right _ List.mem_cons_self
      have hleaf : (Node.joined (b.top.get? name) o.bracketed (Node.ofValue v)).IsLeaf
          ((before ++ [Line.option key v]).length + 1) := by
        rw [length_concat_succ]
        exact Node.IsLeaf.joined (fun old hold => h.top_leaf htarget _ (Members.mem_of_get? hold))
          (Nat.succ_pos _) _ hvalue
      refine ⟨_, rfl, h.set_top _ ⟨.inl hleaf, fun hjoined => ?_⟩, fun _ entry hentry => ?_,
        fun _ => h.before_concat key v htarget, h.target_opened⟩
      · rcases Node.isBarrier_joined hvalue hjoined with hbar | ⟨old, hold, holdBarrier⟩
        · exact ⟨horderly.walked_free _ hmem name (hbars hbar),
            horderly.strays_free _ hstray name (hbars hbar)⟩
        · exact (h.fits hold).2 holdBarrier
      · rcases Members.mem_set hentry with rfl | hentry
        · exact hleaf
        · exact hsame.top_leaf htarget entry hentry
    | inSection sectionName =>
      cases hget : b.top.get? sectionName with
      | none => exact ⟨b, by simp [hget], hsame⟩
      | some node =>
        -- a header has opened the section, so that it bars nothing
        obtain ⟨header, hheader, hopens⟩ := h.target_opened sectionName htarget
        have hbarrier : node.isBarrier = false := by
          rw [Bool.eq_false_iff]
          exact fun hbarrier => ((h.fits hget).2 hbarrier).2.2 header hheader hopens
        obtain ⟨changed, hchanged, hflat, hchangedBarrier⟩ := (h.fits hget).1.exists_assign hbarrier
          (Nat.succ_pos _) hvalue fun hbar => horderly.walked_free _ hmem name (hbars hbar)
        have hfits :
            changed.Fits lines ((before ++ [Line.option key v]).length + 1) sectionName := by
          rw [length_concat_succ]
          exact ⟨hflat, by simp [hchangedBarrier]⟩
        refine ⟨b.put sectionName changed, by simp [hget, hchanged, Except.map],
          h.set_top _ hfits, fun htop => ?_, fun htop => ?_, h.target_opened⟩
        · cases htarget.symm.trans htop
        · cases htarget.symm.trans htop

/-- The lines make a tree. -/
theorem exists_build (h : Orderly lines) : ∃ top, build lines = .ok top ∧
    ∀ entry ∈ top, entry.2.Fits lines (lines.length + 1) entry.1 := by
  have hstep (line : Line) (rest : List Line) (b : Building)
      (hq : ∃ before, lines = before ++ line :: rest ∧ b.Flat lines before) :
      ∃ next, b.add line = .ok next ∧
        ∃ before, lines = before ++ rest ∧ next.Flat lines before := by
    obtain ⟨before, hlines, hflat⟩ := hq
    have hassoc : lines = before ++ [line] ++ rest := by simp [hlines]
    have hmem : line ∈ lines := by simp [hlines]
    cases line with
    | header v =>
      obtain ⟨next, hnext, hkept⟩ := hflat.openSection hmem (h.isSimple _ hmem)
      exact ⟨next, hnext, _, hassoc, hkept⟩
    | option key v =>
      obtain ⟨next, hnext, hkept⟩ := hflat.assign h hlines
      exact ⟨next, hnext, _, hassoc, hkept⟩
  have hstart : Building.Flat lines [] { top := [], target := .top } :=
    ⟨by simp, by simp, by simp, fun _ htarget => nomatch htarget⟩
  obtain ⟨final, hrun, before, hbefore, hflat⟩ := foldlM_isOk
    (q := fun rest b => ∃ before, lines = before ++ rest ∧ Building.Flat lines before b) hstep
    ⟨[], rfl, hstart⟩
  refine ⟨final.top, by rw [build, hrun]; rfl, ?_⟩
  rw [List.append_nil] at hbefore
  rw [← hbefore] at hflat
  exact hflat.top_fits

end

/-! ## Nesting -/

namespace Node

variable {walked : String → Prop} {size : Nat}

theorem IsFlat.sound {node : Node} (h : node.IsFlat walked size) : node.Sound walked size := by
  rcases h with hleaf | ⟨members, rfl, hmembers⟩
  · exact .leaf hleaf
  · exact .branch (fun entry hentry => .leaf (hmembers entry hentry).1)
      fun entry hentry => (hmembers entry hentry).2

theorem sound_empty : emptySection.Sound walked size :=
  .branch (fun _ hentry => absurd hentry List.not_mem_nil)
    fun _ hentry => absurd hentry List.not_mem_nil

theorem Sound.set {members : Members Node} (h : (object false members).Sound walked size)
    (name : String) {part : Node} (hpart : part.Sound walked size)
    (hbarrier : part.isBarrier = false) :
    (object false (members.set name part)).Sound walked size := by
  cases h with
  | leaf h => exact h.elim
  | branch hall hfree =>
    refine .branch (fun entry hentry => ?_) (fun entry hentry hwalked => ?_)
    · rcases Members.mem_set hentry with rfl | hentry
      · exact hpart
      · exact hall entry hentry
    · rcases Members.mem_set hentry with rfl | hentry
      · exact hbarrier
      · exact hfree entry hentry hwalked

/-- A node is put somewhere along names that nothing bars. -/
theorem Sound.exists_place {members : Members Node} (h : (object false members).Sound walked size)
    {path : List String} (hpath : ∀ part ∈ path, walked part) (name : String) {node : Node}
    (hnode : node.Sound walked size) (hbarrier : node.isBarrier = false) :
    ∃ head part, (object false members).place path name node =
      .ok (object false (members.set head part)) ∧
        part.Sound walked size ∧ part.isBarrier = false := by
  induction path generalizing members with
  | nil => exact ⟨name, node, rfl, hnode, hbarrier⟩
  | cons first rest ih =>
    have hset (child : Node) : (object false members).setMember first child =
        .ok (object false (members.set first child)) := rfl
    have hrest : ∀ part ∈ rest, walked part :=
      fun part hpart => hpath part (List.mem_cons_of_mem first hpart)
    -- the walk goes on in the section of the first name, or in a new one
    have hgo {below : Members Node} (hbelow : (object false below).Sound walked size) :
        ∃ child, (object false below).place rest name node = .ok child ∧
          child.Sound walked size ∧ child.isBarrier = false := by
      obtain ⟨head, part, hplace, hpart, hpartBarrier⟩ := ih hbelow hrest
      exact ⟨_, hplace, hbelow.set head hpart hpartBarrier, rfl⟩
    obtain ⟨child, hnew, hchild, hchildBarrier⟩ := hgo sound_empty
    rw [place]
    simp only [member?]
    cases hget : members.get? first with
    | none =>
      exact ⟨first, child, by simp only [bind, Except.bind, emptySection, hnew, hset], hchild,
        hchildBarrier⟩
    | some old =>
      cases h with
      | leaf h => exact h.elim
      | branch hall hfree =>
        have hmem := Members.mem_of_get? hget
        have hold := hall _ hmem
        have holdBarrier := hfree _ hmem (hpath first List.mem_cons_self)
        cases old with
        | null => cases holdBarrier
        | array length items => cases holdBarrier
        | object ordinary below =>
          cases hold with
          | leaf hleaf => exact hleaf.elim
          | branch hbelow hbelowFree =>
            obtain ⟨child, hplace, hchild, hchildBarrier⟩ := hgo (.branch hbelow hbelowFree)
            exact ⟨first, child, by
              simp only [bind, Except.bind, isContainer, if_true, hplace, hset], hchild,
              hchildBarrier⟩
        | _ =>
          exact ⟨first, child, by simp only [bind, Except.bind, isContainer, Bool.false_eq_true,
            if_false, emptySection, hnew, hset], hchild, hchildBarrier⟩

end Node

/-- A tree while its sections move along names that nothing bars. -/
structure Moving.Clear (lines : List Line) (m : Moving) : Prop where
  top_sound : ∀ entry ∈ m.top, entry.2.Sound (Walked lines) (lines.length + 1)
  top_free : ∀ entry ∈ m.top, entry.2.isBarrier = true →
    ¬ Walked lines entry.1 ∧ Address.of? entry.1 = none
  homes_walked : ∀ entry ∈ m.homes, ∀ home, entry.2 = some home → ∀ part ∈ home, Walked lines part

section

variable {lines : List Line} {m : Moving}

theorem Moving.Clear.top_branch (h : m.Clear lines) :
    (Node.object false m.top).Sound (Walked lines) (lines.length + 1) := by
  refine .branch h.top_sound fun entry hentry hwalked => ?_
  rw [Bool.eq_false_iff]
  exact fun hbarrier => (h.top_free entry hentry hbarrier).1 hwalked

/-- Sections are on their way along names that sections move along. -/
theorem Moving.Clear.walked_of_current (h : m.Clear lines) {path now : List String}
    (hpath : ∀ part ∈ path, Walked lines part) (hnow : m.current path = some now) :
    ∀ part ∈ now, Walked lines part := by
  unfold Moving.current at hnow
  split at hnow
  · obtain rfl := Option.some.inj hnow
    exact hpath
  · rename_i first rest
    split at hnow
    · rename_i found hlookup
      obtain ⟨home, rfl, rfl⟩ := Option.map_eq_some_iff.mp hnow
      obtain ⟨before, after, hhomes, -⟩ := List.lookup_eq_some_iff.mp hlookup
      intro part hpart
      rcases List.mem_append.mp hpart with hpart | hpart
      · exact h.homes_walked (first, some home) (by simp [hhomes]) home rfl part hpart
      · exact hpath part (List.mem_cons_of_mem first hpart)
    · obtain rfl := Option.some.inj hnow
      exact hpath

theorem mem_of_movedHome {name part : String} {place home moved : List String}
    (h : movedHome name place home = some moved) (hpart : part ∈ moved) :
    part ∈ place ∨ part ∈ home := by
  unfold movedHome at h
  split at h
  · obtain rfl := Option.some.inj h
    exact (List.mem_append.mp hpart).imp_right fun hdrop => List.mem_of_mem_drop hdrop
  · split at h
    · cases h
    · obtain rfl := Option.some.inj h
      exact .inr hpart

theorem walked_of_address {name : String} {a : Address} (hname : Names lines name)
    (ha : Address.of? name = some a) : ∀ part ∈ a.place, Walked lines part :=
  fun _ hpart => ⟨name, a, hname, ha, hpart⟩

/-- Where a section stands once it is put at its place. -/
theorem Moving.Clear.walked_place (h : m.Clear lines) {name : String} {a : Address}
    {path : List String} (hname : Names lines name) (ha : Address.of? name = some a)
    (hpath : m.current a.path = some path) : ∀ part ∈ path ++ [a.name], Walked lines part := by
  have hwalked := walked_of_address hname ha
  intro part hpart
  rcases List.mem_append.mp hpart with hpart | hpart
  · refine h.walked_of_current ?_ hpath part hpart
    exact fun other hother => hwalked other (List.mem_append_left _ hother)
  · exact hwalked part (List.mem_append_right _ hpart)

theorem Moving.Clear.walked_of_moved (h : m.Clear lines) {name : String} (hname : Names lines name)
    {after : Moving} (hmoved : m.Moved name after) :
    ∀ entry ∈ after.homes, ∀ home, entry.2 = some home → ∀ part ∈ home, Walked lines part := by
  cases hmoved with
  | stay => exact h.homes_walked
  | lose _ _ _ => exact h.homes_walked
  | put ha _ _ hcurrent _ _ hhomes =>
    have hplace := h.walked_place hname ha hcurrent
    intro entry hentry home hhome part hpart
    rcases hhomes entry hentry with ⟨-, hnew⟩ | ⟨old, hold, -, heq⟩
    · rw [hhome] at hnew
      obtain rfl := Option.some.inj hnew
      exact hplace part hpart
    · rw [hhome] at heq
      obtain ⟨oldHome, holdHome, hmovedHome⟩ := Option.bind_eq_some_iff.mp heq.symm
      rcases mem_of_movedHome hmovedHome hpart with hpart | hpart
      · exact hplace part hpart
      · exact h.homes_walked old hold oldHome holdHome part hpart

/-- The section of a name finds its place. -/
theorem Moving.Clear.exists_move (h : m.Clear lines) {name : String} (hname : Names lines name) :
    ∃ after, m.move name = .ok after ∧ after.Clear lines := by
  obtain ⟨after, hmove, hsound, hfree⟩ : ∃ after, m.move name = .ok after ∧
      (∀ entry ∈ after.top, entry.2.Sound (Walked lines) (lines.length + 1)) ∧
      ∀ entry ∈ after.top, entry.2.isBarrier = true →
        ¬ Walked lines entry.1 ∧ Address.of? entry.1 = none := by
    unfold Moving.move
    split
    · rename_i node a hget ha
      split
      · exact ⟨m, rfl, h.top_sound, h.top_free⟩
      · cases hcurrent : m.current a.path with
        | none => exact ⟨_, rfl, h.top_sound, h.top_free⟩
        | some path =>
          have hmem := Members.mem_of_get? hget
          have hbarrier : node.isBarrier = false := by
            rw [Bool.eq_false_iff]
            intro hbarrier
            rw [(h.top_free _ hmem hbarrier).2] at ha
            cases ha
          have hpath : ∀ part ∈ path, Walked lines part := fun part hpart =>
            h.walked_place hname ha hcurrent part (List.mem_append_left _ hpart)
          obtain ⟨head, part, hplace, hpart, hpartBarrier⟩ :=
            h.top_branch.exists_place hpath a.name (h.top_sound _ hmem) hbarrier
          simp only [hplace]
          refine ⟨_, rfl, fun entry hentry => ?_, fun entry hentry hentryBarrier => ?_⟩
          · rcases Members.mem_set hentry with rfl | hentry
            · exact hpart
            · exact h.top_sound entry hentry
          · rcases Members.mem_set hentry with rfl | hentry
            · rw [hpartBarrier] at hentryBarrier
              cases hentryBarrier
            · exact h.top_free entry hentry hentryBarrier
    · exact ⟨m, rfl, h.top_sound, h.top_free⟩
  exact ⟨after, hmove, hsound, hfree, h.walked_of_moved hname (moved_of_move hmove)⟩

/-- The sections of orderly lines make a tree of sound nodes. -/
theorem exists_nest (h : Orderly lines) : ∃ tree, (build lines).bind nest = .ok tree ∧
    ∀ entry ∈ tree, entry.2.Sound (Walked lines) (lines.length + 1) := by
  obtain ⟨top, hbuild, hfits⟩ := exists_build h
  have hnames : ∀ name ∈ top.names, Names lines name := by
    intro name hname
    rw [← Members.has_eq_true_iff, Members.has_eq_isSome, Option.isSome_iff_exists] at hname
    obtain ⟨node, hget⟩ := hname
    exact names_of_build hbuild hget
  have hstart : Moving.Clear lines { top, homes := [], left := [] } :=
    ⟨fun entry hentry => (hfits entry hentry).1.sound, fun entry hentry hbarrier =>
      ⟨((hfits entry hentry).2 hbarrier).1, ((hfits entry hentry).2 hbarrier).2.1⟩, by simp⟩
  have hstep (name : String) (rest : List String) (m : Moving)
      (hq : (∀ other ∈ name :: rest, Names lines other) ∧ m.Clear lines) :
      ∃ after, m.move name = .ok after ∧
        (∀ other ∈ rest, Names lines other) ∧ after.Clear lines := by
    obtain ⟨after, hmove, hkept⟩ := hq.2.exists_move (hq.1 name List.mem_cons_self)
    exact ⟨after, hmove, fun other hother => hq.1 other (List.mem_cons_of_mem name hother), hkept⟩
  obtain ⟨final, hrun, -, hclear⟩ := foldlM_isOk
    (q := fun rest m => (∀ other ∈ rest, Names lines other) ∧ Moving.Clear lines m) hstep
    ⟨hnames, hstart⟩
  refine ⟨final.top.filter fun entry => !final.left.contains entry.1, ?_, ?_⟩
  · rw [hbuild]
    simp only [Except.bind, nest, hrun]
    rfl
  · exact fun entry hentry => hclear.top_sound entry (List.mem_filter.mp hentry).1

end

end Ini

end LayeredSettings
