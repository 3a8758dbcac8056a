import LayeredSettings.Proofs.Sectioned.Loading

/-!
# One more section

A file that is given one more section does not always keep the sections that it had: a block that
is put in place later stands in the way of what an earlier one is called for. Of the earlier blocks,
exactly these are disturbed:

* one that is below the new block,
* one with an option that the new block is called like, or is below,
* one without options that the new block is below.

The file keeps what it had if there is no such block, and only then, unless a null keeps it from
being loaded at all.

* `Disturbs` — the blocks that do not survive;
* `load_inserted_iff` — a file keeps its sections exactly if none of them is disturbed.
-/

namespace LayeredSettings.Sectioned

namespace Document

/-- The options of a section, or those that all sections have. -/
def optionsOf (d : Document) (name : String) : Options :=
  if name = defaultSection then d.defaults else (d.sections.get? name).getD []

/-- Whether a document has the sections of another one, with the same options, and answers for them
as that one does. -/
structure Keeps (after before : Document) : Prop where
  sections : ∀ name, before.sections.has name = true → after.sections.has name = true
  options : ∀ name, name = defaultSection ∨ before.sections.has name = true →
    ∀ key, (after.optionsOf name).get? key = (before.optionsOf name).get? key
  answers : ∀ key : OptionKey, before.sections.has key.sectionName = true →
    after.get key = before.get key

end Document

/-- The blocks that are put in place before a block. -/
def earlier (blocks : List Block) (b : Block) : List Block :=
  (placing blocks).takeWhile fun c => c ≠ b

/-- Whether a later block `b` takes away something that a document has from a block `c`: the
section, an option of it, or the section because it has no options. -/
def Disturbs (d : Document) (b c : Block) : Prop :=
  (b.path <+: c.path ∧ d.sections.has c.name = true) ∨
  (∃ e ∈ c.entries, c.path ++ [e.name] <+: b.path ∧
    (d.optionsOf c.name).has (Text.lowerCase e.name) = true) ∨
  (c.path <+: b.path ∧ d.sections.get? c.name = some [])

/-! ## One more block -/

/-- Distinct blocks in the order in which they are put in place, one of them between the others. -/
structure Inserted (first : List Block) (b : Block) (later : List Block) : Prop where
  plain : ∀ c ∈ first ++ b :: later, c.Plain
  unique : ∀ c ∈ first ++ b :: later, ∀ c' ∈ first ++ b :: later, c.path = c'.path → c = c'
  nodup : (first ++ b :: later).Nodup

section

variable {first later : List Block} {b : Block}

theorem mem_inserted_of_mem {c : Block} (hc : c ∈ first ++ later) : c ∈ first ++ b :: later := by
  rw [List.mem_append] at hc
  rw [List.mem_append, List.mem_cons]
  tauto

theorem mem_of_mem_inserted {c : Block} (hc : c ∈ first ++ b :: later) (hne : c ≠ b) :
    c ∈ first ++ later := by
  rw [List.mem_append, List.mem_cons] at hc
  rw [List.mem_append]
  tauto

theorem Inserted.plain_old (h : Inserted first b later) : ∀ c ∈ first ++ later, c.Plain :=
  fun c hc => h.plain c (mem_inserted_of_mem hc)

theorem Inserted.path_ne (h : Inserted first b later) {c : Block} (hc : c ∈ first ++ later) :
    c.path ≠ b.path := by
  intro hpath
  have hcb := h.unique c (mem_inserted_of_mem hc) b (by simp) hpath
  subst hcb
  have hnot := List.nodup_middle.mp h.nodup
  exact (List.nodup_cons.mp hnot).1 hc

theorem Inserted.not_mem_later (h : Inserted first b later) {c : Block} (hc : c ∈ first) :
    c ∉ b :: later :=
  fun hlater => List.disjoint_of_nodup_append h.nodup hc hlater

theorem owner?_inserted (first later : List Block) (b : Block) (q : List String) :
    owner? (first ++ b :: later) q =
      (owner? later q).or (if b.Meets q then some b else owner? first q) := by
  rw [owner?_append, owner?_cons, Option.or_assoc]
  split_ifs
  · rfl
  · rfl

/-- A new block changes nothing for a path that does not meet it. -/
theorem owner?_of_not_meets {q : List String} (h : ¬ b.Meets q) :
    owner? (first ++ b :: later) q = owner? (first ++ later) q := by
  rw [owner?_inserted, if_neg h, owner?_append]

/-- A new block changes nothing for a path that meets a later one. -/
theorem owner?_of_later {q : List String} {c : Block} (hc : c ∈ later) (hmeets : c.Meets q) :
    owner? (first ++ b :: later) q = owner? (first ++ later) q := by
  rw [owner?_inserted, owner?_append]
  cases hlater : owner? later q with
  | none => exact absurd hmeets (owner?_eq_none_iff.mp hlater c hc)
  | some y => rfl

/-- Only a later block than the new one decides on a path that meets this one. -/
theorem mem_later_of_owner? {q : List String} {c : Block} (hmeets : b.Meets q)
    (howner : owner? (first ++ b :: later) q = some c) : c ∈ b :: later := by
  rw [owner?_inserted, if_pos hmeets, Option.or_eq_some_iff] at howner
  rcases howner with howner | ⟨-, howner⟩
  · exact List.mem_cons_of_mem b (mem_of_owner? howner).1
  · rw [Option.some.inj howner]
    exact List.mem_cons_self

/-! ## What stays -/

/-- No option is new in an old section. -/
theorem Inserted.hasOption_old (h : Inserted first b later) {c : Block} (hc : c ∈ first ++ later)
    {key value : String} (hoption : HasOption (first ++ b :: later) c.path key value) :
    HasOption (first ++ later) c.path key value := by
  obtain ⟨c', hpath, e, he, howner, hkey, hvalue⟩ := hoption
  obtain rfl := h.unique c' (mem_of_owner? howner).1 c (mem_inserted_of_mem hc) hpath
  refine ⟨c', rfl, e, he, ?_, hkey, hvalue⟩
  by_cases hmeets : b.Meets (c'.path ++ [e.name])
  · have hmem := mem_later_of_owner? hmeets howner
    have hne : c' ≠ b := fun heq => h.path_ne hc (by rw [heq])
    have hlater := (List.mem_cons.mp hmem).resolve_left hne
    rwa [owner?_of_later hlater (.inl (List.prefix_append _ _))] at howner
  · rwa [owner?_of_not_meets hmeets] at howner

/-- Where the same blocks decide, there are the same options and sections. -/
theorem hasOption_congr {placed placed' : List Block} {q : List String}
    (h : ∀ rest, owner? placed (q ++ rest) = owner? placed' (q ++ rest)) {key value : String} :
    HasOption placed q key value ↔ HasOption placed' q key value := by
  simp only [HasOption, h]

theorem hasSection_congr {placed placed' : List Block} {q : List String}
    (h : ∀ rest, owner? placed (q ++ rest) = owner? placed' (q ++ rest)) :
    HasSection placed q ↔ HasSection placed' q := by
  have hspot (rest : List String) : spotOf placed (q ++ rest) = spotOf placed' (q ++ rest) := by
    rw [spotOf, h, spotOf]
  have hnil := hspot []
  rw [List.append_nil] at hnil
  simp only [HasSection, hasOption_congr h, hspot, hnil]

/-- Only an earlier block above or below the new one is changed by it. -/
theorem agree_or {c : Block} (hc : c ∈ first ++ later) :
    (∀ rest, owner? (first ++ b :: later) (c.path ++ rest) =
      owner? (first ++ later) (c.path ++ rest)) ∨ (c ∈ first ∧ b.Meets c.path) := by
  by_cases hmeets : b.Meets c.path
  · rcases List.mem_append.mp hc with hc | hc
    · exact .inr ⟨hc, hmeets⟩
    · exact .inl fun rest => owner?_of_later hc (.inl (List.prefix_append _ _))
  · exact .inl fun rest => owner?_of_not_meets fun hrest => hmeets hrest.of_append

/-- An option stays that the new block is neither called like nor below. -/
theorem Inserted.hasOption_new (h : Inserted first b later) {c : Block} (hc : c ∈ first)
    (hpre : c.path <+: b.path) {key value : String}
    (hfree : ∀ e ∈ c.entries, c.path ++ [e.name] <+: b.path → Text.lowerCase e.name ≠ key)
    (hoption : HasOption (first ++ later) c.path key value) :
    HasOption (first ++ b :: later) c.path key value := by
  have hmem : c ∈ first ++ later := List.mem_append_left later hc
  obtain ⟨c', hpath, e, he, howner, hkey, hvalue⟩ := hoption
  have hc' := mem_inserted_of_mem (b := b) (mem_of_owner? howner).1
  obtain rfl := h.unique c' hc' c (mem_inserted_of_mem hmem) hpath
  refine ⟨c', rfl, e, he, ?_, hkey, hvalue⟩
  rw [owner?_of_not_meets, howner]
  rintro (hmeets | hmeets)
  · rcases List.prefix_concat_iff.mp hmeets with heq | habove
    · exact hfree e he (heq ▸ List.prefix_rfl) hkey
    · exact h.path_ne hmem (hpre.eq_of_length_le habove.length_le)
  · exact hfree e he hmeets hkey

/-! ## What goes -/

/-- An option goes that the new block is called like or below. -/
theorem Inserted.not_hasOption (h : Inserted first b later) {c : Block} (hc : c ∈ first)
    {e : Entry} (he : e ∈ c.entries) (hmeets : b.Meets (c.path ++ [e.name])) (value : String) :
    ¬ HasOption (first ++ b :: later) c.path (Text.lowerCase e.name) value := by
  rintro ⟨c', hpath, e', he', howner, hkey, -⟩
  have hmem : c ∈ first ++ b :: later := List.mem_append_left _ hc
  obtain rfl := h.unique c' (mem_of_owner? howner).1 c hmem hpath
  obtain rfl := List.inj_on_of_nodup_map (h.plain c' hmem).keys_distinct he' he hkey
  exact h.not_mem_later hc (mem_later_of_owner? hmeets howner)

/-- All options go of a block that is below the new one. -/
theorem Inserted.not_hasOption_below (h : Inserted first b later) {c : Block} (hc : c ∈ first)
    (hpre : b.path <+: c.path) (key value : String) :
    ¬ HasOption (first ++ b :: later) c.path key value := by
  intro hoption
  obtain ⟨c', hpath, e, he, howner, rfl, -⟩ := id hoption
  have hmem : c ∈ first ++ b :: later := List.mem_append_left _ hc
  obtain rfl := h.unique c' (mem_of_owner? howner).1 c hmem hpath
  refine h.not_hasOption hc he (.inl ?_) value hoption
  exact hpre.trans (List.prefix_append _ _)

/-- Above or below the new block only a section with options stays. -/
theorem Inserted.exists_hasOption (h : Inserted first b later) {c : Block} (hc : c ∈ first)
    (hmeets : b.Meets c.path) (hsection : HasSection (first ++ b :: later) c.path) :
    ∃ key value, HasOption (first ++ b :: later) c.path key value := by
  obtain ⟨z, howner, -⟩ := (spotOf_eq_branch_iff h.plain).mp hsection.1
  refine hsection.exists_hasOption h.plain howner ?_
  intro hpath
  have hmem : c ∈ first ++ b :: later := List.mem_append_left _ hc
  obtain rfl := h.unique z (mem_of_owner? howner).1 c hmem hpath
  exact h.not_mem_later hc (mem_later_of_owner? hmeets howner)

end

/-! ## Documents -/

variable {placed : List Block} {d : Document}

theorem Document.Describes.get?_optionsOf (hd : d.Describes placed)
    (hplain : ∀ b ∈ placed, b.Plain) {name key value : String} :
    (d.optionsOf name).get? key = some value ↔
      HasOption placed (Text.splitAt '.' name) key value := by
  unfold optionsOf
  split_ifs with hname
  · rw [hname, splitAt_defaultSection, hd.default_iff]
  · cases hget : d.sections.get? name with
    | some options => exact hd.option_iff name options hget key value
    | none =>
      refine iff_of_false (by simp [Members.get?]) ?_
      intro hoption
      have hsome := (hd.isSome_iff name).mpr
        ⟨hname, hoption.spotOf_eq_branch hplain, .inl ⟨key, value, hoption⟩⟩
      rw [hget] at hsome
      cases hsome

theorem Document.Describes.has_iff (hd : d.Describes placed) (name : String) :
    d.sections.has name = true ↔
      name ≠ defaultSection ∧ HasSection placed (Text.splitAt '.' name) := by
  rw [Members.has_eq_isSome, hd.isSome_iff]

/-- A section without options is there and has none. -/
theorem Document.Describes.get?_eq_nil_iff (hd : d.Describes placed) (name : String) :
    d.sections.get? name = some [] ↔ d.sections.has name = true ∧
      ∀ key value, ¬ HasOption placed (Text.splitAt '.' name) key value := by
  rw [Members.has_eq_isSome]
  constructor
  · intro hget
    refine ⟨by rw [hget]; rfl, ?_⟩
    intro key value hoption
    have hvalue := (hd.option_iff name [] hget key value).mpr hoption
    cases hvalue
  · rintro ⟨hsome, hnone⟩
    obtain ⟨options, hget⟩ := Option.isSome_iff_exists.mp hsome
    cases options with
    | nil => exact hget
    | cons entry rest =>
      have hvalue : Members.get? (entry :: rest) entry.1 = some entry.2 := by
        rw [Members.get?_cons, if_pos rfl]
      exact absurd ((hd.option_iff name _ hget _ _).mp hvalue) (hnone _ _)

theorem Document.raw?_eq {d : Document} {name : String} (hname : name ≠ defaultSection)
    (hsection : d.sections.has name = true) (option : String) :
    d.raw? name option = ((d.optionsOf name).get? (Text.lowerCase option)).or
      ((d.optionsOf defaultSection).get? (Text.lowerCase option)) := by
  rw [Members.has_eq_isSome] at hsection
  obtain ⟨options, hget⟩ := Option.isSome_iff_exists.mp hsection
  rw [raw?, optionsOf, if_neg hname, optionsOf, if_pos rfl, hget]
  rfl

section

variable {first later : List Block} {b : Block} {d' : Document}

/-- What a document has of an undisturbed block cannot be below the new block. -/
theorem Inserted.prefix_of_meets (h : Inserted first b later) {c : Block} (hc : c ∈ first)
    (hmeets : b.Meets c.path)
    (hsection : c.name = defaultSection ∨ d.sections.has c.name = true)
    (hfree : ¬ Disturbs d b c) : c.path <+: b.path := by
  refine hmeets.resolve_left ?_
  intro hpre
  rcases hsection with hname | hsection
  · have hpath : c.path = [defaultSection] := by
      rw [Block.path, hname, splitAt_defaultSection]
    have hlength : c.path.length ≤ b.path.length := by
      rw [hpath]
      exact List.length_pos_iff.mpr b.path_ne_nil
    exact h.path_ne (List.mem_append_left _ hc) (hpre.eq_of_length_le hlength).symm
  · exact hfree (.inl ⟨hpre, hsection⟩)

/-- A document that is kept has no disturbed block. -/
theorem Inserted.not_disturbs (h : Inserted first b later) (hd : d.Describes (first ++ later))
    (hd' : d'.Describes (first ++ b :: later)) (hkeeps : d'.Keeps d) {c : Block}
    (hc : c ∈ first) : ¬ Disturbs d b c := by
  rintro (⟨hpre, hsection⟩ | ⟨e, he, hpre, hoption⟩ | ⟨hpre, hnil⟩)
  · -- a section below the new block cannot be kept
    have hnew := ((hd'.has_iff c.name).mp (hkeeps.sections c.name hsection)).2
    obtain ⟨key, value, hoption⟩ := h.exists_hasOption hc (.inl hpre) hnew
    exact h.not_hasOption_below hc hpre key value hoption
  · -- an option on the way to the new block cannot be kept
    rw [Members.has_eq_isSome] at hoption
    obtain ⟨value, hvalue⟩ := Option.isSome_iff_exists.mp hoption
    have hold := (hd.get?_optionsOf h.plain_old).mp hvalue
    have hsection : c.name = defaultSection ∨ d.sections.has c.name = true := by
      by_cases hdefault : c.name = defaultSection
      · exact .inl hdefault
      · right
        rw [hd.has_iff]
        exact ⟨hdefault, hold.spotOf_eq_branch h.plain_old, .inl ⟨_, _, hold⟩⟩
    rw [← hkeeps.options c.name hsection, hd'.get?_optionsOf h.plain] at hvalue
    exact h.not_hasOption hc he (.inr hpre) value hvalue
  · -- a section on the way to the new block is kept only for its options
    obtain ⟨hsection, hnone⟩ := (hd.get?_eq_nil_iff c.name).mp hnil
    have hnew := ((hd'.has_iff c.name).mp (hkeeps.sections c.name hsection)).2
    obtain ⟨key, value, hoption⟩ := h.exists_hasOption hc (.inr hpre) hnew
    exact hnone key value (h.hasOption_old (List.mem_append_left _ hc) hoption)

/-- Without disturbed blocks, the old sections have the options that they had. -/
theorem Inserted.hasOption_iff (h : Inserted first b later) (hname : b.name ≠ defaultSection)
    (hd : d.Describes (first ++ later)) (hfree : ∀ c ∈ first, ¬ Disturbs d b c) {name : String}
    (hsection : name = defaultSection ∨ d.sections.has name = true) (key value : String) :
    HasOption (first ++ b :: later) (Text.splitAt '.' name) key value ↔
      HasOption (first ++ later) (Text.splitAt '.' name) key value := by
  by_cases hblock : ∃ c ∈ first ++ later, c.path = Text.splitAt '.' name
  · obtain ⟨c, hc, hpath⟩ := hblock
    obtain rfl := Block.name_of_path_eq hpath
    rcases agree_or hc with hagree | ⟨hc, hmeets⟩
    · exact hasOption_congr hagree
    · have hpre := h.prefix_of_meets hc hmeets hsection (hfree c hc)
      refine ⟨h.hasOption_old (List.mem_append_left _ hc), ?_⟩
      intro hold
      refine h.hasOption_new hc hpre ?_ hold
      rintro e he hbelow rfl
      refine hfree c hc (.inr (.inl ⟨e, he, hbelow, ?_⟩))
      rw [Members.has_eq_isSome, (hd.get?_optionsOf h.plain_old).mpr hold]
      rfl
  · -- no block is called so: this can only be the section whose options all have
    have hdefault : name = defaultSection := by
      refine hsection.resolve_right ?_
      intro hhas
      exact hblock (((hd.has_iff name).mp hhas).2.exists_block h.plain_old)
    constructor
    · rintro ⟨c, hpath, e, -, howner, -⟩
      have hne : c ≠ b := by
        rintro rfl
        exact hname ((Block.name_of_path_eq hpath).trans hdefault)
      exact absurd ⟨c, mem_of_mem_inserted (mem_of_owner? howner).1 hne, hpath⟩ hblock
    · rintro ⟨c, hpath, e, -, howner, -⟩
      exact absurd ⟨c, (mem_of_owner? howner).1, hpath⟩ hblock

/-- Without disturbed blocks, the old sections are still there. -/
theorem Inserted.has_section (h : Inserted first b later) (hname : b.name ≠ defaultSection)
    (hd : d.Describes (first ++ later)) (hd' : d'.Describes (first ++ b :: later))
    (hfree : ∀ c ∈ first, ¬ Disturbs d b c) {name : String}
    (hsection : d.sections.has name = true) : d'.sections.has name = true := by
  have hold := (hd.has_iff name).mp hsection
  rw [hd'.has_iff]
  refine ⟨hold.1, ?_⟩
  obtain ⟨c, hc, hpath⟩ := hold.2.exists_block h.plain_old
  obtain rfl := Block.name_of_path_eq hpath
  rcases agree_or hc with hagree | ⟨hc, hmeets⟩
  · exact (hasSection_congr hagree).mpr hold.2
  · have hpre := h.prefix_of_meets hc hmeets (.inr hsection) (hfree c hc)
    by_cases hsome : ∃ key value, HasOption (first ++ later) (Text.splitAt '.' c.name) key value
    · obtain ⟨key, value, hvalue⟩ := hsome
      have hnew := (h.hasOption_iff hname hd hfree (.inr hsection) key value).mpr hvalue
      exact ⟨hnew.spotOf_eq_branch h.plain, .inl ⟨key, value, hnew⟩⟩
    · refine absurd (.inr (.inr ⟨hpre, ?_⟩)) (hfree c hc)
      rw [hd.get?_eq_nil_iff]
      exact ⟨hsection, fun key value hvalue => hsome ⟨key, value, hvalue⟩⟩

/-- The document with one more block keeps the one without it exactly if the block disturbs none of
those that are put in place before. -/
theorem Inserted.keeps_iff (h : Inserted first b later) (hname : b.name ≠ defaultSection)
    (hd : d.Describes (first ++ later)) (hd' : d'.Describes (first ++ b :: later)) :
    d'.Keeps d ↔ ∀ c ∈ first, ¬ Disturbs d b c := by
  refine ⟨fun hkeeps c hc => h.not_disturbs hd hd' hkeeps hc, ?_⟩
  intro hfree
  have hsections : ∀ name, d.sections.has name = true → d'.sections.has name = true :=
    fun name => h.has_section hname hd hd' hfree
  have hoptions : ∀ name, name = defaultSection ∨ d.sections.has name = true → ∀ key,
      (d'.optionsOf name).get? key = (d.optionsOf name).get? key := by
    intro name hsection key
    apply Option.ext
    intro value
    rw [hd'.get?_optionsOf h.plain, hd.get?_optionsOf h.plain_old]
    exact h.hasOption_iff hname hd hfree hsection key value
  refine ⟨hsections, hoptions, ?_⟩
  intro key hsection
  have hne := ((hd.has_iff key.sectionName).mp hsection).1
  have hraw : d'.raw? key.sectionName key.option = d.raw? key.sectionName key.option := by
    rw [Document.raw?_eq hne (hsections _ hsection), Document.raw?_eq hne hsection,
      hoptions _ (.inr hsection), hoptions _ (.inl rfl)]
  rw [Document.get, Document.get, hraw]

end

/-! ## Files -/

/-- Where a new block comes in when the blocks are put in place. -/
theorem exists_placing_eq (before after : List Block) (b : Block) :
    ∃ first later, placing (before ++ b :: after) = first ++ b :: later ∧
      placing (before ++ after) = first ++ later := by
  simp only [placing, List.filter_append, List.filter_cons]
  cases isDotted b.name with
  | true =>
    refine ⟨before.filter (fun b => !isDotted b.name) ++ after.filter (fun b => !isDotted b.name) ++
      before.filter (fun b => isDotted b.name), after.filter fun b => isDotted b.name, ?_, ?_⟩
    · simp
    · simp
  | false =>
    refine ⟨before.filter fun b => !isDotted b.name, after.filter (fun b => !isDotted b.name) ++
      (before.filter (fun b => isDotted b.name) ++ after.filter fun b => isDotted b.name), ?_, ?_⟩
    · simp
    · simp

theorem PlainBlocks.nodup_placing {blocks : List Block} (h : PlainBlocks blocks) :
    (placing blocks).Nodup := by
  have hnodup : blocks.Nodup := h.names_distinct.of_map
  refine List.Nodup.append (hnodup.filter _) (hnodup.filter _) ?_
  intro b hfirst hlater
  have hfalse := (List.mem_filter.mp hfirst).2
  rw [(List.mem_filter.mp hlater).2] at hfalse
  cases hfalse

/-- A file that is given one more section still loads and keeps what it had, exactly if nothing has
to go through a null then, and the new block disturbs none of those that are put in place before
it. -/
theorem load_inserted_iff {before after : List Block} {b : Block}
    (hplain : PlainBlocks (before ++ b :: after)) (hname : b.name ≠ defaultSection)
    {text text' : List Char} (hfile : IsFileOf (before ++ after) text)
    (hfile' : IsFileOf (before ++ b :: after) text') {w w' : World} {location location' : String}
    (hholds : w.Holds location text) (hholds' : w'.Holds location' text') {d : Document}
    (hload : (SettingsFile.load location).run w =
      (.ok (SettingsFile.ofDocument location d), w)) :
    (∃ d' : Document, (SettingsFile.load location').run w' =
        (.ok (SettingsFile.ofDocument location' d'), w') ∧ d'.Keeps d) ↔
      ¬ Stuck (before ++ b :: after) ∧
        ∀ c ∈ earlier (before ++ b :: after) b, ¬ Disturbs d b c := by
  have hsublist : (before ++ after).Sublist (before ++ b :: after) :=
    List.Sublist.append_left (List.sublist_cons_self b after) before
  have hplainOld : PlainBlocks (before ++ after) :=
    ⟨fun c hc => hplain.plain c (hsublist.subset hc),
      hplain.names_distinct.sublist (hsublist.map _)⟩
  obtain ⟨first, later, hplacing, hplacingOld⟩ := exists_placing_eq before after b
  have hmem {c : Block} (hc : c ∈ first ++ b :: later) : c ∈ before ++ b :: after := by
    rwa [← hplacing, mem_placing] at hc
  have hinserted : Inserted first b later :=
    ⟨fun c hc => hplain.plain c (hmem hc),
      fun c hc c' hc' => hplain.eq_of_path_eq (hmem hc) (hmem hc'), hplacing ▸ hplain.nodup_placing⟩
  have hearlier : earlier (before ++ b :: after) b = first := by
    rw [earlier, hplacing]
    refine Text.takeWhile_append_cons ?_ (by simp) later
    intro c hc
    rw [decide_eq_true_iff]
    rintro rfl
    exact hinserted.not_mem_later hc List.mem_cons_self
  obtain ⟨-, hd⟩ := describes_of_load hplainOld hfile hholds hload
  rw [hplacingOld] at hd
  rw [hearlier]
  constructor
  · rintro ⟨d', hload', hkeeps⟩
    obtain ⟨hfree, hd'⟩ := describes_of_load hplain hfile' hholds' hload'
    rw [hplacing] at hd'
    exact ⟨hfree, (hinserted.keeps_iff hname hd hd').mp hkeeps⟩
  · rintro ⟨hfree, hundisturbed⟩
    obtain ⟨d', hload', hd'⟩ := exists_load hplain hfile' hholds' hfree
    rw [hplacing] at hd'
    exact ⟨d', hload', (hinserted.keeps_iff hname hd hd').mpr hundisturbed⟩

/-- A section with an option. -/
def outerBlock : Block :=
  { name := "a", entries := [{ key := ['b'], first := ['1'], more := [] }] }

/-- A section that is called like this option. -/
def innerBlock : Block :=
  { name := "a.b", entries := [{ key := ['c'], first := ['2'], more := [] }] }

/-- A file of the section with the option, and what it is once it is given the other section. -/
def outerText : List Char := ['[', 'a', ']', '\n', 'b', '=', '1']

@[inherit_doc outerText]
def nestedText : List Char :=
  ['[', 'a', ']', '\n', 'b', '=', '1', '\n', '[', 'a', '.', 'b', ']', '\n', 'c', '=', '2']

/-- The worlds with these files. -/
def outerWorld : World := .ofFile "c" [91, 97, 93, 10, 98, 61, 49]

@[inherit_doc outerWorld]
def nestedWorld : World :=
  .ofFile "c" [91, 97, 93, 10, 98, 61, 49, 10, 91, 97, 46, 98, 93, 10, 99, 61, 50]

theorem laysOut_outerBlock : LaysOut outerBlock.statements [['[', 'a', ']'], ['b', '=', '1']] := by
  have hnone := Text.isPadding_nil
  refine .header ⟨[], [], [], hnone, hnone, hnone, by decide⟩ ?_
  exact .single rfl ⟨[], '=', [], [], hnone, rfl, hnone, hnone, rfl⟩ .nil

theorem laysOut_innerBlock :
    LaysOut innerBlock.statements [['[', 'a', '.', 'b', ']'], ['c', '=', '2']] := by
  have hnone := Text.isPadding_nil
  refine .header ⟨[], [], [], hnone, hnone, hnone, by decide⟩ ?_
  exact .single rfl ⟨[], '=', [], [], hnone, rfl, hnone, hnone, rfl⟩ .nil

/-- A section that is called like an option of another section makes the file lose this option. -/
theorem load_nestedText :
    PlainBlocks ([outerBlock] ++ innerBlock :: []) ∧ innerBlock.name ≠ defaultSection ∧
    IsFileOf ([outerBlock] ++ []) outerText ∧
    IsFileOf ([outerBlock] ++ innerBlock :: []) nestedText ∧
    outerWorld.Holds "c" outerText ∧ nestedWorld.Holds "c" nestedText ∧
    ∃ d : Document, (SettingsFile.load "c").run outerWorld =
        (.ok (SettingsFile.ofDocument "c" d), outerWorld) ∧
      ¬ ∃ d' : Document, (SettingsFile.load "c").run nestedWorld =
        (.ok (SettingsFile.ofDocument "c" d'), nestedWorld) ∧ d'.Keeps d := by
  have hplain : PlainBlocks ([outerBlock] ++ innerBlock :: []) := by decide +kernel
  have hname : innerBlock.name ≠ defaultSection := by decide
  have hfile : IsFileOf ([outerBlock] ++ []) outerText :=
    ⟨_, .feed (by decide) <| .last (by decide), laysOut_outerBlock⟩
  have hfile' : IsFileOf ([outerBlock] ++ innerBlock :: []) nestedText :=
    ⟨_, .feed (by decide) <| .feed (by decide) <| .feed (by decide) <| .last (by decide),
      laysOut_outerBlock.append laysOut_innerBlock⟩
  have hholds : outerWorld.Holds "c" outerText := ⟨rfl, by decide +kernel, by decide +kernel⟩
  have hholds' : nestedWorld.Holds "c" nestedText := ⟨rfl, by decide +kernel, by decide +kernel⟩
  have hplainOuter : PlainBlocks ([outerBlock] ++ []) := by decide +kernel
  have hfree : ¬ Stuck ([outerBlock] ++ []) := by
    -- a single block is not in anyone's way
    rintro ⟨before, c, between, b, after, hplacing, -⟩
    have hone : (placing ([outerBlock] ++ [])).length = 1 := by decide +kernel
    simp only [hplacing, List.length_append, List.length_cons] at hone
    omega
  obtain ⟨d, hload, hd⟩ := exists_load hplainOuter hfile hholds hfree
  refine ⟨hplain, hname, hfile, hfile', hholds, hholds', d, hload, ?_⟩
  rw [load_inserted_iff hplain hname hfile hfile' hholds hholds' hload]
  rintro ⟨-, hundisturbed⟩
  -- the option of the outer block is on the way to the inner one
  have hearlier : outerBlock ∈ earlier ([outerBlock] ++ innerBlock :: []) innerBlock := by
    decide +kernel
  have hway : outerBlock.path ++ ["b"] <+: innerBlock.path := by decide +kernel
  have hoption : HasOption (placing ([outerBlock] ++ [])) outerBlock.path "b" "1" :=
    ⟨outerBlock, rfl, _, List.mem_cons_self, by decide +kernel, by decide +kernel, rfl⟩
  have hhas : (d.optionsOf outerBlock.name).has "b" = true := by
    rw [Members.has_eq_isSome, (hd.get?_optionsOf hplainOuter.plain_placing).mpr hoption]
    rfl
  exact hundisturbed outerBlock hearlier (.inr (.inl ⟨_, List.mem_cons_self, hway, hhas⟩))

end LayeredSettings.Sectioned
