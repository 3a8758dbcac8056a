import LayeredSettings.Proofs.Sectioned.Loading

/-!
# Writing and reading sections

Sections that are written to a file and read back are the same sections, whatever the layout of the
file, as long as none of them is below another.

* `Document.IsOf` — the document that has just the sections and the options of some blocks;
* `load_of_isFileOf` — a file of separate blocks is loaded as their document.
-/

namespace LayeredSettings.Sectioned

/-- The options of some entries: their texts under their lower case names, and no more. -/
structure AreOptionsOf (entries : List Entry) (options : Options) : Prop where
  names : options.names.Perm (entries.map fun e => Text.lowerCase e.name)
  texts : ∀ e ∈ entries, options.get? (Text.lowerCase e.name) = some e.text

/-- The text of an option among some entries. -/
def textOf? (entries : List Entry) (option : String) : Option String :=
  (entries.find? fun e => Text.lowerCase e.name = Text.lowerCase option).map Entry.text

/-- The entries of the section whose options all sections have. -/
def defaultEntries (blocks : List Block) : List Entry :=
  match blocks.find? fun b => b.name = defaultSection with
  | some b => b.entries
  | none => []

/-- The document of some blocks: their sections with their options, and no more. A section answers
with its own options first and then with those that all sections have. -/
structure Document.IsOf (d : Document) (blocks : List Block) : Prop where
  names : d.sections.names.Perm ((blocks.map (·.name)).filter (· ≠ defaultSection))
  sections : ∀ b ∈ blocks, b.name ≠ defaultSection →
    ∃ options, d.sections.get? b.name = some options ∧ AreOptionsOf b.entries options
  defaults : AreOptionsOf (defaultEntries blocks) d.defaults
  answers : ∀ b ∈ blocks, b.name ≠ defaultSection → ∀ option, d.raw? b.name option =
    (textOf? b.entries option).or (textOf? (defaultEntries blocks) option)

/-- Whether no block is below another. -/
def Separate (blocks : List Block) : Prop :=
  ∀ b ∈ blocks, ∀ c ∈ blocks, b.path <+: c.path → b.path = c.path

instance (blocks : List Block) : Decidable (Separate blocks) :=
  inferInstanceAs (Decidable (∀ b ∈ blocks, ∀ c ∈ blocks, b.path <+: c.path → b.path = c.path))

/-! ## Separate blocks -/

variable {blocks : List Block}

/-- A separate block decides on every path that leads to it or into it. -/
theorem owner?_of_separate (hplain : PlainBlocks blocks) (h : Separate blocks) {b : Block}
    (hb : b ∈ blocks) (rest : List String) :
    owner? (placing blocks) (b.path ++ rest) = some b := by
  have hmeets : b.Meets (b.path ++ rest) := .inl (List.prefix_append _ _)
  cases howner : owner? (placing blocks) (b.path ++ rest) with
  | none => exact absurd hmeets (owner?_eq_none_iff.mp howner b (mem_placing.mpr hb))
  | some c =>
    obtain ⟨hc, hcMeets⟩ := mem_of_owner? howner
    rw [mem_placing] at hc
    have hpath : c.path = b.path := by
      rcases hcMeets.of_append with hpre | hpre
      · exact h c hc b hb hpre
      · exact (h b hb c hc hpre).symm
    rw [hplain.eq_of_path_eq hc hb hpath]

theorem hasOption_of_separate (hplain : PlainBlocks blocks) (h : Separate blocks) {b : Block}
    (hb : b ∈ blocks) {key value : String} :
    HasOption (placing blocks) b.path key value ↔
      ∃ e ∈ b.entries, Text.lowerCase e.name = key ∧ e.text = value := by
  constructor
  · rintro ⟨c, hpath, e, he, howner, hkey, hvalue⟩
    rw [owner?_of_separate hplain h hb, Option.some.injEq] at howner
    subst howner
    exact ⟨e, he, hkey, hvalue⟩
  · rintro ⟨e, he, hkey, hvalue⟩
    exact ⟨b, rfl, e, he, owner?_of_separate hplain h hb [e.name], hkey, hvalue⟩

theorem hasSection_of_separate (hplain : PlainBlocks blocks) (h : Separate blocks) {b : Block}
    (hb : b ∈ blocks) : HasSection (placing blocks) b.path := by
  have hall := hplain.plain_placing
  constructor
  · rw [spotOf_eq_branch_iff hall]
    have howner := owner?_of_separate hplain h hb []
    rw [List.append_nil] at howner
    exact ⟨b, howner, List.prefix_rfl⟩
  · -- there is nothing below a separate block but its options
    right
    intro name hspot
    obtain ⟨c, howner, hpre⟩ := (spotOf_eq_branch_iff hall).mp hspot
    rw [owner?_of_separate hplain h hb, Option.some.injEq] at howner
    subst howner
    have hlength := hpre.length_le
    rw [List.length_append, List.length_singleton] at hlength
    omega

theorem not_stuck_of_separate (h : Separate blocks) : ¬ Stuck blocks := by
  rintro ⟨before, c, between, b, after, hplacing, e, -, -, hpart, -⟩
  have hc : c ∈ blocks := by
    rw [← mem_placing, hplacing]
    simp
  have hb : b ∈ blocks := by
    rw [← mem_placing, hplacing]
    simp
  have hpre := hpart.trans (List.dropLast_prefix b.path)
  have hpath := h c hc b hb ((List.prefix_append _ _).trans hpre)
  have hlength := hpre.length_le
  rw [← hpath, List.length_append, List.length_singleton] at hlength
  omega

/-! ## The document -/

/-- Options that are found exactly where an entry says so are those of the entries. -/
theorem areOptionsOf_of_get?_iff {entries : List Entry} {options : Options}
    (hnodup : options.names.Nodup)
    (hdistinct : (entries.map fun e => Text.lowerCase e.name).Nodup)
    (hget : ∀ key value, options.get? key = some value ↔
      ∃ e ∈ entries, Text.lowerCase e.name = key ∧ e.text = value) :
    AreOptionsOf entries options := by
  constructor
  · rw [List.perm_ext_iff_of_nodup hnodup hdistinct]
    intro key
    rw [← Members.has_eq_true_iff, Members.has_eq_isSome, Option.isSome_iff_exists, List.mem_map]
    constructor
    · rintro ⟨value, hvalue⟩
      obtain ⟨e, he, hkey, -⟩ := (hget key value).mp hvalue
      exact ⟨e, he, hkey⟩
    · rintro ⟨e, he, hkey⟩
      exact ⟨e.text, (hget key e.text).mpr ⟨e, he, hkey, rfl⟩⟩
  · intro e he
    exact (hget _ _).mpr ⟨e, he, rfl, rfl⟩

theorem AreOptionsOf.get?_eq {entries : List Entry} {options : Options}
    (h : AreOptionsOf entries options) (option : String) :
    options.get? (Text.lowerCase option) = textOf? entries option := by
  unfold textOf?
  cases hfind : entries.find? fun e => Text.lowerCase e.name = Text.lowerCase option with
  | some e =>
    have hlower : Text.lowerCase e.name = Text.lowerCase option := by
      simpa using List.find?_some hfind
    rw [← hlower, h.texts e (List.mem_of_find?_eq_some hfind)]
    rfl
  | none =>
    have hname : Text.lowerCase option ∉ options.names := by
      rw [h.names.mem_iff, List.mem_map]
      rintro ⟨e, he, hlower⟩
      simpa [hlower] using List.find?_eq_none.mp hfind e he
    rw [← Members.has_eq_true_iff, Members.has_eq_isSome] at hname
    simpa using hname

namespace Document

variable {d : Document}

theorem Describes.mem_names_iff (hd : d.Describes (placing blocks)) (hplain : PlainBlocks blocks)
    (h : Separate blocks) {name : String} :
    name ∈ d.sections.names ↔ name ≠ defaultSection ∧ ∃ b ∈ blocks, b.name = name := by
  rw [← Members.has_eq_true_iff, Members.has_eq_isSome, hd.isSome_iff]
  refine and_congr_right fun _ => ⟨?_, ?_⟩
  · intro hsection
    obtain ⟨b, hb, hpath⟩ := hsection.exists_block hplain.plain_placing
    exact ⟨b, mem_placing.mp hb, Block.name_of_path_eq hpath⟩
  · rintro ⟨b, hb, rfl⟩
    exact hasSection_of_separate hplain h hb

theorem Describes.exists_options (hd : d.Describes (placing blocks)) (hplain : PlainBlocks blocks)
    (h : Separate blocks) {b : Block} (hb : b ∈ blocks) (hname : b.name ≠ defaultSection) :
    ∃ options, d.sections.get? b.name = some options ∧ AreOptionsOf b.entries options := by
  have hsome := (hd.isSome_iff b.name).mpr ⟨hname, hasSection_of_separate hplain h hb⟩
  obtain ⟨options, hget⟩ := Option.isSome_iff_exists.mp hsome
  refine ⟨options, hget, areOptionsOf_of_get?_iff (hd.option_names_nodup _ _ hget)
    (hplain.plain b hb).keys_distinct ?_⟩
  intro key value
  rw [hd.option_iff b.name options hget, ← hasOption_of_separate hplain h hb]
  rfl

theorem Describes.defaults_eq (hd : d.Describes (placing blocks)) (hplain : PlainBlocks blocks)
    (h : Separate blocks) : AreOptionsOf (defaultEntries blocks) d.defaults := by
  unfold defaultEntries
  cases hfind : blocks.find? fun b => b.name = defaultSection with
  | some b =>
    have hb := List.mem_of_find?_eq_some hfind
    have hname : b.name = defaultSection := by simpa using List.find?_some hfind
    have hpath : b.path = [defaultSection] := by
      rw [Block.path, hname, splitAt_defaultSection]
    refine areOptionsOf_of_get?_iff hd.default_names_nodup (hplain.plain b hb).keys_distinct ?_
    intro key value
    rw [hd.default_iff, ← hpath, hasOption_of_separate hplain h hb]
  | none =>
    -- options come from a block of this name only
    refine areOptionsOf_of_get?_iff hd.default_names_nodup List.nodup_nil ?_
    intro key value
    rw [hd.default_iff]
    refine iff_of_false ?_ (by simp)
    rintro ⟨b, hpath, e, -, howner, -⟩
    have hb := mem_placing.mp (mem_of_owner? howner).1
    rw [← splitAt_defaultSection] at hpath
    have hname := Block.name_of_path_eq hpath
    simpa [hname] using List.find?_eq_none.mp hfind b hb

theorem Describes.isOf (hd : d.Describes (placing blocks)) (hplain : PlainBlocks blocks)
    (h : Separate blocks) : d.IsOf blocks := by
  refine ⟨?_, fun b hb hname => hd.exists_options hplain h hb hname, hd.defaults_eq hplain h, ?_⟩
  · rw [List.perm_ext_iff_of_nodup hd.names_nodup (hplain.names_distinct.filter _)]
    intro name
    rw [hd.mem_names_iff hplain h, List.mem_filter, List.mem_map, and_comm]
    simp
  · intro b hb hname option
    obtain ⟨options, hget, hoptions⟩ := hd.exists_options hplain h hb hname
    rw [raw?, hget, Option.bind_some, hoptions.get?_eq, (hd.defaults_eq hplain h).get?_eq]

end Document

/-- A file of separate blocks is loaded, however it is laid out, and its document has exactly their
sections with exactly their options. -/
theorem load_of_isFileOf (hplain : PlainBlocks blocks) (hseparate : Separate blocks)
    {text : List Char} (hfile : IsFileOf blocks text) {w : World} {location : String}
    (hholds : w.Holds location text) :
    ∃ d : Document, (SettingsFile.load location).run w =
        (.ok (SettingsFile.ofDocument location d), w) ∧ d.IsOf blocks := by
  obtain ⟨d, hload, hd⟩ := exists_load hplain hfile hholds (not_stuck_of_separate hseparate)
  exact ⟨d, hload, hd.isOf hplain hseparate⟩

/-- A section with an option of two lines, and a section for all others. -/
def sampleBlocks : List Block :=
  [{ name := "a.b", entries := [{ key := ['K'], first := ['v'], more := [['w']] }] },
    { name := "DEFAULT", entries := [{ key := ['x'], first := ['y'], more := [] }] }]

/-- A file of these sections, with line ends of both kinds and a comment. -/
def sampleText : List Char :=
  ['[', 'a', '.', 'b', ']', '\r', '\n', 'K', ':', ' ', 'v', '\n', ' ', 'w', '\n', '#', '\n',
   '[', 'D', 'E', 'F', 'A', 'U', 'L', 'T', ']', '\n', 'x', '=', 'y']

/-- A world with this file. -/
def sampleWorld : World :=
  .ofFile "c" [91, 97, 46, 98, 93, 13, 10, 75, 58, 32, 118, 10, 32, 119, 10, 35, 10, 91, 68, 69, 70,
    65, 85, 76, 84, 93, 10, 120, 61, 121]

theorem isFileOf_sampleText : IsFileOf sampleBlocks sampleText := by
  have hnone := Text.isPadding_nil
  have hblank : Text.IsPadding [' '] := by decide
  have hending : Text.Ending [['[', 'a', '.', 'b', ']'], ['K', ':', ' ', 'v'], [' ', 'w'], ['#'],
      ['[', 'D', 'E', 'F', 'A', 'U', 'L', 'T', ']'], ['x', '=', 'y']] sampleText :=
    .carriage (by decide) <| .feed (by decide) <| .feed (by decide) <| .feed (by decide) <|
      .feed (by decide) <| .last (by decide)
  refine ⟨_, hending, ?_⟩
  refine .header ⟨[], [], [], hnone, hnone, hnone, by decide⟩ ?_
  refine @LaysOut.entry _ _ _ [[' ', 'w']] _
    ⟨[], ':', [' '], [], hnone, rfl, hblank, hnone, rfl⟩ ?_ ?_
  · exact .cons ⟨[' '], [], by simp, hblank, hnone, rfl⟩ .nil
  refine .idle (.inr (by decide)) ?_
  refine .header ⟨[], [], [], hnone, hnone, hnone, by decide⟩ ?_
  exact .single rfl ⟨[], '=', [], [], hnone, rfl, hnone, hnone, rfl⟩ .nil

/-- The file is loaded as its sections. -/
theorem load_sampleText :
    PlainBlocks sampleBlocks ∧ Separate sampleBlocks ∧ IsFileOf sampleBlocks sampleText ∧
    sampleWorld.Holds "c" sampleText ∧
    ∃ d : Document, (SettingsFile.load "c").run sampleWorld =
      (.ok (SettingsFile.ofDocument "c" d), sampleWorld) ∧ d.IsOf sampleBlocks := by
  have hplain : PlainBlocks sampleBlocks := by decide +kernel
  have hseparate : Separate sampleBlocks := by decide +kernel
  have hholds : sampleWorld.Holds "c" sampleText := ⟨rfl, by decide +kernel, by decide +kernel⟩
  exact ⟨hplain, hseparate, isFileOf_sampleText, hholds,
    load_of_isFileOf hplain hseparate isFileOf_sampleText hholds⟩

end LayeredSettings.Sectioned
