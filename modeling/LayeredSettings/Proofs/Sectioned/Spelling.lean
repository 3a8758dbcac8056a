import LayeredSettings.Proofs.Sectioned.Assigned

/-!
# Options that are spelled otherwise

Names of options are lower case in a document, but the values of an option are collected under its
spellings, and those under the spelling that came up last are the ones that stay. So an option may
be spelled otherwise as long as the same spellings stay the same, and different ones different. Else
a file may say something else: which spelling came up last, and which values were given under it,
depends on all of them.

* `Assignment.Respelled`, `Stretch.Respelled` — the same values for options that are spelled
  otherwise;
* `KeepsApart`, `finalText?_eq_of_keepsApart` — spellings that stay the same, or different;
* `load_respelled` — what becomes of a file that is respelled.
-/

namespace LayeredSettings.Sectioned

/-! ## Respelled assignments -/

/-- The same value for the same option, which may be spelled otherwise. -/
structure Assignment.Respelled (a b : Assignment) : Prop where
  toGiven_eq : a.toGiven = b.toGiven
  lowerCase_eq : Text.lowerCase a.name = Text.lowerCase b.name
  /-- One name is that of no option, and no spelling of another one. -/
  proto_iff : a.name = "__proto__" ↔ b.name = "__proto__"

/-- The same header, and the same values for the same options in the same order. -/
structure Stretch.Respelled (s t : Stretch) : Prop where
  name_eq : s.name = t.name
  assignments : List.Forall₂ Assignment.Respelled s.assignments t.assignments

/-- Whether names that are the same stay the same, and different ones different. -/
def KeepsApart (pairs : List (Assignment × Assignment)) : Prop :=
  ∀ p ∈ pairs, ∀ q ∈ pairs, p.1.name = q.1.name ↔ p.2.name = q.2.name

theorem Assignment.Respelled.spells_iff {a b : Assignment} (h : a.Respelled b) (option : String) :
    Spells option a.name ↔ Spells option b.name := by
  unfold Spells
  rw [h.lowerCase_eq, ne_eq, ne_eq, h.proto_iff]

/-- The assignments to options of a section are respelled one by one. -/
theorem forall₂_assignedTo {stretches others : List Stretch}
    (h : List.Forall₂ Stretch.Respelled stretches others) (name : String) :
    List.Forall₂ Assignment.Respelled (assignedTo stretches name) (assignedTo others name) := by
  induction h with
  | nil => exact .nil
  | @cons s t rest more hfirst _ ih =>
    rw [assignedTo_cons, assignedTo_cons, hfirst.name_eq]
    split
    · exact List.rel_append hfirst.assignments ih
    · exact ih

section

variable {pairs : List (Assignment × Assignment)}

/-- Values that were given under one spelling are given under the one that takes its place. -/
theorem givenTo_respelled (hpairs : ∀ p ∈ pairs, p.1.Respelled p.2) {first second : String}
    (h : ∀ p ∈ pairs, p.1.name = first ↔ p.2.name = second) :
    givenTo (pairs.map Prod.fst) first = givenTo (pairs.map Prod.snd) second := by
  induction pairs with
  | nil => rfl
  | cons p rest ih =>
    have hrest := ih (fun q hq => hpairs q (List.mem_cons_of_mem p hq))
      fun q hq => h q (List.mem_cons_of_mem p hq)
    have hp := h p List.mem_cons_self
    rw [List.map_cons, List.map_cons, givenTo_cons, givenTo_cons, hrest]
    by_cases hfirst : p.1.name = first
    · rw [if_pos hfirst, if_pos (hp.mp hfirst), (hpairs p List.mem_cons_self).toGiven_eq]
    · rw [if_neg hfirst, if_neg (mt hp.mpr hfirst)]

/-- A spelling comes up where the one did whose place it takes. -/
theorem forall₂_spellings (hpairs : ∀ p ∈ pairs, p.1.Respelled p.2) (h : KeepsApart pairs)
    (option : String) :
    List.Forall₂ (fun first second => ∃ p ∈ pairs, p.1.name = first ∧ p.2.name = second)
      (spellings (pairs.map Prod.fst) option) (spellings (pairs.map Prod.snd) option) := by
  -- from the back, as spellings are listed: the last pair brings a new one on both sides or on none
  induction pairs using List.reverseRecOn with
  | nil => exact .nil
  | append_singleton pairs p ih =>
    have hinit := ih (fun q hq => hpairs q (List.mem_append_left [p] hq))
      fun q hq r hr => h q (List.mem_append_left [p] hq) r (List.mem_append_left [p] hr)
    have hlast : p ∈ pairs ++ [p] := List.mem_append_right pairs List.mem_cons_self
    have hmore := hinit.imp fun first second hpair => by
      obtain ⟨q, hq, hnames⟩ := hpair
      exact (⟨q, List.mem_append_left [p] hq, hnames⟩ :
        ∃ q ∈ pairs ++ [p], q.1.name = first ∧ q.2.name = second)
    have hnew : (∀ earlier ∈ pairs.map Prod.fst, earlier.name ≠ p.1.name) ↔
        ∀ earlier ∈ pairs.map Prod.snd, earlier.name ≠ p.2.name := by
      rw [List.forall_mem_map, List.forall_mem_map]
      exact forall₂_congr fun q hq => not_congr (h q (List.mem_append_left [p] hq) p hlast)
    simp only [List.map_append, List.map_cons, List.map_nil, spellings_concat,
      (hpairs p hlast).spells_iff option, hnew]
    split
    · exact List.rel_append hmore (.cons ⟨p, hlast, rfl, rfl⟩ .nil)
    · exact hmore

theorem getLast?_of_forall₂ {α β : Type} {r : α → β → Prop} {l : List α} {l' : List β}
    (h : List.Forall₂ r l l') :
    l.getLast? = none ∧ l'.getLast? = none ∨
      ∃ x y, l.getLast? = some x ∧ l'.getLast? = some y ∧ r x y := by
  have hreverse := List.rel_reverse h
  rw [← List.head?_reverse, ← List.head?_reverse]
  generalize l.reverse = first, l'.reverse = second at hreverse
  cases hreverse with
  | nil => exact .inl ⟨rfl, rfl⟩
  | cons hlast _ => exact .inr ⟨_, _, rfl, rfl, hlast⟩

/-- Where spellings stay the same or different, options keep their texts. -/
theorem finalText?_eq_of_keepsApart (hpairs : ∀ p ∈ pairs, p.1.Respelled p.2)
    (h : KeepsApart pairs) (option : String) :
    finalText? (pairs.map Prod.fst) option = finalText? (pairs.map Prod.snd) option := by
  unfold finalText?
  rcases getLast?_of_forall₂ (forall₂_spellings hpairs h option) with
    ⟨hfirst, hsecond⟩ | ⟨first, second, hfirst, hsecond, p, hp, rfl, rfl⟩
  · rw [hfirst, hsecond]
    rfl
  · rw [hfirst, hsecond, Option.map_some, Option.map_some,
      givenTo_respelled hpairs fun q hq => h q hq p hp]

end

/-! ## Respelled files -/

/-- Whether two documents have the same sections with the same options. -/
structure Document.SameOptions (d d' : Document) : Prop where
  sections : ∀ name,
    (d.sections.get? name).map Members.get? = (d'.sections.get? name).map Members.get?
  defaults : ∀ option, d.defaults.get? option = d'.defaults.get? option

theorem exists_name_iff {stretches others : List Stretch}
    (h : List.Forall₂ Stretch.Respelled stretches others) (name : String) :
    (∃ s ∈ stretches, s.name = name) ↔ ∃ t ∈ others, t.name = name := by
  induction h with
  | nil => simp
  | cons hfirst _ ih =>
    rw [List.exists_mem_cons_iff, List.exists_mem_cons_iff, hfirst.name_eq, ih]

/-- Documents of the same sections have the same options if these have the same texts. -/
theorem Document.IsOfStretches.sameOptions_iff {d d' : Document} {stretches others : List Stretch}
    (h : d.IsOfStretches stretches) (h' : d'.IsOfStretches others)
    (hnames : ∀ name, (∃ s ∈ stretches, s.name = name) ↔ ∃ t ∈ others, t.name = name) :
    d.SameOptions d' ↔ ∀ name option, finalText? (assignedTo stretches name) option =
      finalText? (assignedTo others name) option := by
  have hsections (name : String) : (d.sections.get? name).isSome = true ↔
      (d'.sections.get? name).isSome = true := by
    rw [h.section_iff, h'.section_iff, hnames]
  constructor
  · intro hsame name option
    by_cases hdefault : name = defaultSection
    · rw [hdefault, ← h.default_eq, ← h'.default_eq, hsame.defaults]
    · by_cases hstretch : ∃ s ∈ stretches, s.name = name
      · obtain ⟨options, hoptions⟩ :=
          Option.isSome_iff_exists.mp ((h.section_iff name).mpr ⟨hdefault, hstretch⟩)
        obtain ⟨others, hothers⟩ := Option.isSome_iff_exists.mp
          ((h'.section_iff name).mpr ⟨hdefault, (hnames name).mp hstretch⟩)
        have hget := hsame.sections name
        rw [hoptions, hothers, Option.map_some, Option.map_some, Option.some.injEq] at hget
        rw [← h.option_eq name options hoptions, ← h'.option_eq name others hothers, hget]
      · rw [assignedTo_eq_nil hstretch, assignedTo_eq_nil (mt (hnames name).mpr hstretch)]
  · intro hfinal
    refine ⟨fun name => ?_, fun option => ?_⟩
    · cases hoptions : d.sections.get? name with
      | none =>
        have hnone := mt (hsections name).mpr
        rw [hoptions, Option.isSome_none] at hnone
        have hothers : d'.sections.get? name = none := by simpa using hnone Bool.false_ne_true
        rw [hothers]
      | some options =>
        have hsome := (hsections name).mp (hoptions ▸ rfl)
        obtain ⟨others, hothers⟩ := Option.isSome_iff_exists.mp hsome
        have hget : Members.get? options = Members.get? others := by
          funext option
          rw [h.option_eq name options hoptions, h'.option_eq name others hothers, hfinal]
        rw [hothers, Option.map_some, Option.map_some, hget]
    · rw [h.default_eq, h'.default_eq, hfinal]

/-- A file and the same file respelled are both loaded. Each option has the text that was collected
under the spelling that came up last; the two documents have the same options if and only if these
texts are the same, as they are where spellings stay the same or different. -/
theorem load_respelled {stretches others : List Stretch} {text respelled : List Char}
    {w w' : World} {location : String} (hfile : IsStretchFile stretches text)
    (hfile' : IsStretchFile others respelled)
    (hrespelled : List.Forall₂ Stretch.Respelled stretches others)
    (hshort : text.length < Ini.Node.longestJoined)
    (hshort' : respelled.length < Ini.Node.longestJoined)
    (hholds : w.Holds location text) (hholds' : w'.Holds location respelled) :
    ∃ d d', (SettingsFile.load location).outcome w = .ok (.ofDocument location d) ∧
      (SettingsFile.load location).outcome w' = .ok (.ofDocument location d') ∧
      d.IsOfStretches stretches ∧ d'.IsOfStretches others ∧
      (d.SameOptions d' ↔ ∀ name option, finalText? (assignedTo stretches name) option =
        finalText? (assignedTo others name) option) ∧
      ((∀ name, KeepsApart ((assignedTo stretches name).zip (assignedTo others name))) →
        d.SameOptions d') := by
  obtain ⟨d, hd, hdocument⟩ := hfile.exists_ofText hshort location
  obtain ⟨d', hd', hdocument'⟩ := hfile'.exists_ofText hshort' location
  have hiff := hdocument.sameOptions_iff hdocument' (exists_name_iff hrespelled)
  refine ⟨d, d', ?_, ?_, hdocument, hdocument', hiff, fun hapart => hiff.mpr fun name option => ?_⟩
  · rw [SettingsFile.outcome_load_of_holds hholds, hd]
    rfl
  · rw [SettingsFile.outcome_load_of_holds hholds', hd']
    rfl
  · have hassigned := forall₂_assignedTo hrespelled name
    have hpairs : ∀ p ∈ (assignedTo stretches name).zip (assignedTo others name),
        p.1.Respelled p.2 := fun p hp => List.forall₂_zip hassigned hp
    have hlength := hassigned.length_eq
    have hfinal := finalText?_eq_of_keepsApart hpairs (hapart name) option
    rwa [List.map_fst_zip (Nat.le_of_eq hlength), List.map_snd_zip (Nat.le_of_eq hlength.symm)]
      at hfinal

/-- A section whose option is given three values, the second one under another spelling. -/
def spelledStretches (second : String) : List Stretch :=
  [{ name := "s", assignments := [{ name := "a", bracketed := false, value := "1" },
    { name := second, bracketed := false, value := "2" },
    { name := "a", bracketed := false, value := "3" }] }]

/-- A file of this section. -/
def spelledText (second : Char) : List Char :=
  ['[', 's', ']', '\n', 'a', '=', '1', '\n', second, '=', '2', '\n', 'a', '=', '3']

/-- A world with this file. -/
def spelledWorld (second : UInt8) : World :=
  .ofFile "c" [91, 115, 93, 10, 97, 61, 49, 10, second, 61, 50, 10, 97, 61, 51]

theorem isStretchFile_spelledText {second : Char} (h : second = 'a' ∨ second = 'A') :
    IsStretchFile (spelledStretches (String.singleton second)) (spelledText second) := by
  have hname : '.' ∉ "s".toList ∧ "s" ≠ "__proto__" ∧ "s" ≠ reservedSection := by decide +kernel
  have hhead : Heads "s" ['[', 's', ']'] :=
    .of_isHeader (by decide) (by decide +kernel) (by simp)
      ⟨[], [], [], Text.isPadding_nil, Text.isPadding_nil, Text.isPadding_nil, rfl⟩
  refine ⟨fun s hs => ?_, ?_⟩
  · obtain ⟨hundotted, hproto, hreserved⟩ := hname
    obtain rfl := List.mem_singleton.mp hs
    exact ⟨hundotted, hproto, hreserved⟩
  · rcases h with rfl | rfl
    · show StandOn _ [['[', 's', ']'], ['a', '=', '1'], ['a', '=', '2'], ['a', '=', '3']]
      exact .clause hhead <| .clause ⟨rfl, rfl, by decide⟩ <| .clause ⟨rfl, rfl, by decide⟩ <|
        .clause ⟨rfl, rfl, by decide⟩ .nil
    · show StandOn _ [['[', 's', ']'], ['a', '=', '1'], ['A', '=', '2'], ['a', '=', '3']]
      exact .clause hhead <| .clause ⟨rfl, rfl, by decide⟩ <| .clause ⟨rfl, rfl, by decide⟩ <|
        .clause ⟨rfl, rfl, by decide⟩ .nil

/-- Under two spellings the option has the value that was given under the second one, though another
value was given later; under one spelling it has the last value. -/
theorem load_spelledWorld :
    IsStretchFile (spelledStretches "A") (spelledText 'A') ∧
    IsStretchFile (spelledStretches "a") (spelledText 'a') ∧
    List.Forall₂ Stretch.Respelled (spelledStretches "A") (spelledStretches "a") ∧
    (spelledText 'A').length < Ini.Node.longestJoined ∧
    (spelledText 'a').length < Ini.Node.longestJoined ∧
    (spelledWorld 65).Holds "c" (spelledText 'A') ∧
    (spelledWorld 97).Holds "c" (spelledText 'a') ∧
    ∃ d d', (SettingsFile.load "c").outcome (spelledWorld 65) = .ok (.ofDocument "c" d) ∧
      (SettingsFile.load "c").outcome (spelledWorld 97) = .ok (.ofDocument "c" d') ∧
      (∃ options, d.sections.get? "s" = some options ∧ options.get? "a" = some "2") ∧
      (∃ options, d'.sections.get? "s" = some options ∧ options.get? "a" = some "3") ∧
      ¬ d.SameOptions d' := by
  have hfile : IsStretchFile (spelledStretches "A") (spelledText 'A') :=
    isStretchFile_spelledText (.inr rfl)
  have hfile' : IsStretchFile (spelledStretches "a") (spelledText 'a') :=
    isStretchFile_spelledText (.inl rfl)
  have hlower : Text.lowerCase "A" = Text.lowerCase "a" := by decide +kernel
  have hsame (a : Assignment) : a.Respelled a := ⟨rfl, rfl, Iff.rfl⟩
  have hrespelled : List.Forall₂ Stretch.Respelled (spelledStretches "A") (spelledStretches "a") :=
    .cons ⟨rfl, .cons (hsame _) (.cons ⟨rfl, hlower, by decide⟩ (.cons (hsame _) .nil))⟩ .nil
  have hshort : (spelledText 'A').length < Ini.Node.longestJoined := by decide
  have hshort' : (spelledText 'a').length < Ini.Node.longestJoined := by decide
  have hholds : (spelledWorld 65).Holds "c" (spelledText 'A') :=
    ⟨rfl, by decide +kernel, by decide +kernel⟩
  have hholds' : (spelledWorld 97).Holds "c" (spelledText 'a') :=
    ⟨rfl, by decide +kernel, by decide +kernel⟩
  obtain ⟨d, d', hload, hload', hdocument, hdocument', hiff, -⟩ :=
    load_respelled hfile hfile' hrespelled hshort hshort' hholds hholds'
  have htext : finalText? (assignedTo (spelledStretches "A") "s") "a" = some "2" := by
    decide +kernel
  have htext' : finalText? (assignedTo (spelledStretches "a") "s") "a" = some "3" := by
    decide +kernel
  refine ⟨hfile, hfile', hrespelled, hshort, hshort', hholds, hholds', d, d', hload, hload',
    ?_, ?_, fun h => ?_⟩
  · obtain ⟨options, hoptions⟩ := Option.isSome_iff_exists.mp
      ((hdocument.section_iff "s").mpr ⟨by decide, _, List.mem_cons_self, rfl⟩)
    exact ⟨options, hoptions, by rw [hdocument.option_eq "s" options hoptions, htext]⟩
  · obtain ⟨options, hoptions⟩ := Option.isSome_iff_exists.mp
      ((hdocument'.section_iff "s").mpr ⟨by decide, _, List.mem_cons_self, rfl⟩)
    exact ⟨options, hoptions, by rw [hdocument'.option_eq "s" options hoptions, htext']⟩
  · have htexts := hiff.mp h "s" "a"
    rw [htext, htext'] at htexts
    exact absurd htexts (by decide)

end LayeredSettings.Sectioned
