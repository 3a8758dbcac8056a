import LayeredSettings.Proofs.Sectioned.Assigned
import LayeredSettings.Proofs.SettingsFile.Lookup

/-!
# Options that are given values again

A section may be opened again, and an option may be given values again. Without brackets the last
value is the text of the option; brackets make a list of the value before the first of them and of
all values from there on. As a text such a list has commas between its items, and as a list it is
these items again, unless they have commas themselves.

* `SettingsFile.Collects` — how a file answers for an option that is given values;
* `load_repeated` — so answers a file of stretches for an option of one spelling.
-/

namespace LayeredSettings.SettingsFile

/-- How a file answers for an option that is given some values. -/
structure Collects (file : SettingsFile) (name option : String) (given : List Ini.Given) :
    Prop where
  /-- Without brackets the last value counts. -/
  as_last : (∀ g ∈ given, g.bracketed = false) → ∃ last, given.getLast? = some last ∧
    ∀ w, file.readAs .string name option w = .ok (.str last.value)
  /-- With brackets the value before the first of them counts, and all values from there on. -/
  as_joined : ∀ before g after, given = before ++ g :: after →
    (∀ earlier ∈ before, earlier.bracketed = false) → g.bracketed = true →
      ∀ w, file.readAs .string name option w = .ok (.str (Text.joinWith ','
        ((before.getLast?.toList ++ g :: after).map (·.value))))
  /-- As a list the option is the values that count, where they have no commas. -/
  as_list : (∀ value ∈ Ini.counted given, ',' ∉ value.toList) →
    ∀ w, file.readAs .list name option w = .ok (Value.strings (Ini.counted given))
  /-- Values with commas are divided. -/
  as_pieces : ∀ w, file.readAs .list name option w =
    .ok (Value.strings ((Ini.counted given).flatMap (Text.splitAt ',')))

/-- An option that has the text of its values is read as what they make. -/
theorem collects_of_raw? {location : String} {d : Sectioned.Document} {name option : String}
    {given : List Ini.Given} (hne : given ≠ [])
    (hraw : d.raw? name option = some (Ini.collected given)) :
    (ofDocument location d).Collects name option given := by
  have hcontent : (ofDocument location d).content = .sectioned d := rfl
  have htext (w : World) :
      (ofDocument location d).readAs .string name option w = .ok (.str (Ini.collected given)) :=
    (readAs_string_eq_ok_iff hcontent).mpr hraw
  have hlist (w : World) : (ofDocument location d).readAs .list name option w =
      .ok (Value.strings (Text.splitAt ',' (Ini.collected given))) := by
    rw [readAs_eq hcontent, Sectioned.Document.get, hraw]
    rfl
  have hcounted := Ini.counted_ne_nil hne
  refine ⟨?_, ?_, ?_, ?_⟩
  · intro hplain
    obtain ⟨last, hlast⟩ := Option.ne_none_iff_exists'.mp (mt List.getLast?_eq_none_iff.mp hne)
    refine ⟨last, hlast, fun w => ?_⟩
    rw [htext, Ini.collected, Ini.counted_of_forall hplain, hlast]
    simp [Text.joinWith]
  · rintro before g after rfl hbefore hg w
    rw [htext, Ini.collected, Ini.counted_append_cons hbefore hg, List.map_append, List.map_cons]
  · intro hcommas w
    rw [hlist, Ini.collected, Text.splitAt_joinWith hcommas hcounted]
  · intro w
    rw [hlist, Ini.collected, Text.splitAt_joinWith_eq_flatMap ',' hcounted]

end LayeredSettings.SettingsFile

namespace LayeredSettings.Sectioned

theorem Document.IsOfStretches.raw?_eq {d : Document} {stretches : List Stretch}
    (h : d.IsOfStretches stretches) {name option text : String} (hname : name ≠ defaultSection)
    (htext : finalText? (assignedTo stretches name) (Text.lowerCase option) = some text) :
    d.raw? name option = some text := by
  obtain ⟨spelling, hspelling, -⟩ := Option.map_eq_some_iff.mp htext
  obtain ⟨-, a, ha, -⟩ := mem_spellings.mp (List.mem_of_getLast? hspelling)
  have hsome := (h.section_iff name).mpr ⟨hname, exists_stretch_of_mem ha⟩
  obtain ⟨options, hoptions⟩ := Option.isSome_iff_exists.mp hsome
  rw [Document.raw?, hoptions, Option.bind_some, h.option_eq name options hoptions, htext,
    Option.some_or]

/-- A file of stretches is loaded, its text being shorter than the longest list that can be joined,
as all texts are. It has for each option of one spelling what all values make that the option is
given, in whichever stretches of its section. -/
theorem load_repeated {stretches : List Stretch} {text : List Char} {w : World} {location : String}
    (hfile : IsStretchFile stretches text) (hshort : text.length < Ini.Node.longestJoined)
    (hholds : w.Holds location text) :
    ∃ file, (SettingsFile.load location).outcome w = .ok file ∧
      ∀ name option, name ≠ defaultSection → option ≠ "__proto__" →
        (∃ a ∈ assignedTo stretches name, a.name = option) →
        (∀ a ∈ assignedTo stretches name, Spells (Text.lowerCase option) a.name →
          a.name = option) →
        file.Collects name option (givenTo (assignedTo stretches name) option) := by
  obtain ⟨d, hd, hdocument⟩ := hfile.exists_ofText hshort location
  refine ⟨.ofDocument location d, ?_, ?_⟩
  · rw [SettingsFile.outcome_load_of_holds hholds, hd]
    rfl
  · intro name option hname hoption hassigned honly
    have hfinal := finalText?_of_forall ⟨hoption, rfl⟩ hassigned honly
    exact SettingsFile.collects_of_raw? (givenTo_ne_nil hassigned)
      (hdocument.raw?_eq hname hfinal)

/-- A section that is opened twice, and an option of it with three values. -/
def repeatedStretches : List Stretch :=
  [{ name := "s", assignments := [{ name := "a", bracketed := false, value := "1" }] },
    { name := "t", assignments := [] },
    { name := "s", assignments := [{ name := "a", bracketed := true, value := "true" },
      { name := "a", bracketed := false, value := "" }] }]

/-- A file of these stretches. -/
def repeatedText : List Char :=
  ['[', 's', ']', '\n', 'a', '=', '1', '\n', '[', 't', ']', '\n', '[', 's', ']', '\n',
    'a', '[', ']', '=', 't', 'r', 'u', 'e', '\n', 'a', '=']

/-- A world with this file. -/
def repeatedWorld : World :=
  .ofFile "c" [91, 115, 93, 10, 97, 61, 49, 10, 91, 116, 93, 10, 91, 115, 93, 10, 97, 91, 93, 61,
    116, 114, 117, 101, 10, 97, 61]

theorem isStretchFile_repeatedText : IsStretchFile repeatedStretches repeatedText := by
  have hnames : ∀ name ∈ repeatedStretches.map (·.name),
      '.' ∉ name.toList ∧ name ≠ "__proto__" ∧ name ≠ reservedSection := by decide +kernel
  have hheads (name : String) (hname : name = "s" ∨ name = "t") :
      Heads name ('[' :: (name.toList ++ [']'])) := by
    have hplain : IsHeader name ('[' :: (name.toList ++ [']'])) :=
      ⟨[], [], [], Text.isPadding_nil, Text.isPadding_nil, Text.isPadding_nil, by simp⟩
    rcases hname with rfl | rfl
    · exact .of_isHeader (by decide) (by decide +kernel) (by simp) hplain
    · exact .of_isHeader (by decide) (by decide +kernel) (by simp) hplain
  refine ⟨fun s hs => ?_, ?_⟩
  · obtain ⟨hundotted, hproto, hreserved⟩ := hnames _ (List.mem_map_of_mem hs)
    exact ⟨hundotted, hproto, hreserved⟩
  · show StandOn _ [['[', 's', ']'], ['a', '=', '1'], ['[', 't', ']'], ['[', 's', ']'],
      ['a', '[', ']', '=', 't', 'r', 'u', 'e'], ['a', '=']]
    exact .clause (hheads "s" (.inl rfl)) <| .clause ⟨rfl, rfl, by decide⟩ <|
      .clause (hheads "t" (.inr rfl)) <| .clause (hheads "s" (.inl rfl)) <|
      .clause ⟨rfl, rfl, by decide⟩ <| .clause ⟨rfl, rfl, by decide⟩ .nil

/-- The option has all three values, of which one is the empty text. -/
theorem load_repeatedText :
    IsStretchFile repeatedStretches repeatedText ∧
    repeatedText.length < Ini.Node.longestJoined ∧
    repeatedWorld.Holds "c" repeatedText ∧
    ∃ file, (SettingsFile.load "c").outcome repeatedWorld = .ok file ∧
      (∀ w, file.readAs .string "s" "a" w = .ok (.str "1,true,")) ∧
      ∀ w, file.readAs .list "s" "a" w = .ok (Value.strings ["1", "true", ""]) := by
  have hshort : repeatedText.length < Ini.Node.longestJoined := by decide
  have hholds : repeatedWorld.Holds "c" repeatedText :=
    ⟨rfl, by decide +kernel, by decide +kernel⟩
  obtain ⟨file, hload, hfile⟩ := load_repeated isStretchFile_repeatedText hshort hholds
  have hall : ∀ a ∈ assignedTo repeatedStretches "s", a.name = "a" := by decide
  have hassigned : ∃ a ∈ assignedTo repeatedStretches "s", a.name = "a" :=
    ⟨_, List.mem_cons_self, rfl⟩
  have hgiven : givenTo (assignedTo repeatedStretches "s") "a" =
      [⟨false, "1"⟩] ++ ⟨true, "true"⟩ :: [⟨false, ""⟩] := rfl
  have hcollects := hfile "s" "a" (by decide) (by decide) hassigned fun a ha _ => hall a ha
  refine ⟨isStretchFile_repeatedText, hshort, hholds, file, hload, fun w => ?_, ?_⟩
  · exact hcollects.as_joined _ _ _ hgiven (by decide) rfl w
  · rw [hgiven] at hcollects
    exact hcollects.as_list (by decide)

end LayeredSettings.Sectioned
