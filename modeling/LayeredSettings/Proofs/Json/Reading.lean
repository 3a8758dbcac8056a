import LayeredSettings.Json.Writer
import LayeredSettings.Proofs.Json.Quote
import LayeredSettings.Proofs.Members.Order
import LayeredSettings.Proofs.Value.Path

/-!
# Reading back what was written

A value of lists, maps, texts, truth values and null is written as JSON that reads as the value
itself, and in which no control character stands.

* `Reads` — a text that reads as a value, whatever follows it;
* `reads_list`, `reads_map` — texts of parts joined to the text of the whole;
* `exists_reads`, `read?_of_reads` — what is written, and that it is read.
-/

namespace LayeredSettings

/-- The scalars that need no number. -/
inductive Value.IsWord : Value → Prop
  | null : IsWord .null
  | bool (b : Bool) : IsWord (.bool b)
  | str (s : String) : IsWord (.str s)

namespace Json

/-! ## Texts that read as a value -/

/-- Whether a text reads as a value, whatever follows. -/
structure Reads (form : List Char) (v : Value) : Prop where
  /-- The text begins with what neither is skipped nor closes a list. -/
  starts : ∃ first rest, form = first :: rest ∧ isSpace first = false ∧ first ≠ ']'
  /-- No control character stands in the text. -/
  shown : ∀ c ∈ form, 0x20 ≤ c.toNat
  /-- As much fuel as there are characters is enough. -/
  read : ∀ fuel rest, form.length ≤ fuel → readValue fuel (form ++ rest) = some (v, rest)

theorem skipSpace_cons {c : Char} (h : isSpace c = false) (rest : List Char) :
    skipSpace (c :: rest) = c :: rest :=
  List.dropWhile_cons_of_neg (by simp [h])

theorem Reads.length_pos {form : List Char} {v : Value} (h : Reads form v) : 0 < form.length := by
  obtain ⟨first, tail, rfl, -, -⟩ := h.starts
  exact Nat.succ_pos tail.length

/-- No text is empty, so that the fuel for it is never none. -/
theorem reads_of_succ {form : List Char} {v : Value}
    (starts : ∃ first rest, form = first :: rest ∧ isSpace first = false ∧ first ≠ ']')
    (shown : ∀ c ∈ form, 0x20 ≤ c.toNat)
    (read : ∀ fuel rest, form.length ≤ fuel + 1 →
      readValue (fuel + 1) (form ++ rest) = some (v, rest)) : Reads form v := by
  refine ⟨starts, shown, fun fuel rest hfuel => ?_⟩
  obtain ⟨first, tail, hform, -, -⟩ := starts
  have hne : fuel ≠ 0 := by
    rintro rfl
    rw [hform] at hfuel
    cases hfuel
  obtain ⟨fuel, rfl⟩ := Nat.exists_eq_add_one_of_ne_zero hne
  exact read fuel rest hfuel

/-! ## Scalars -/

theorem reads_null : Reads "null".toList .null := by
  have hshown : ∀ c ∈ "null".toList, 0x20 ≤ c.toNat := by simp
  exact reads_of_succ ⟨'n', ['u', 'l', 'l'], rfl, rfl, by decide⟩ hshown fun _ _ _ => rfl

theorem reads_bool (b : Bool) : Reads (if b then "true" else "false").toList (.bool b) := by
  cases b with
  | true =>
    have hshown : ∀ c ∈ "true".toList, 0x20 ≤ c.toNat := by simp
    exact reads_of_succ ⟨'t', ['r', 'u', 'e'], rfl, rfl, by decide⟩ hshown fun _ _ _ => rfl
  | false =>
    have hshown : ∀ c ∈ "false".toList, 0x20 ≤ c.toNat := by simp
    exact reads_of_succ ⟨'f', ['a', 'l', 's', 'e'], rfl, rfl, by decide⟩ hshown fun _ _ _ => rfl

/-- The signs of an escape are no control characters. -/
theorem le_of_isEscapeSign {c : Char} (h : isEscapeSign c = true) : 0x20 ≤ c.toNat := by
  have hlow : ∀ n < 0x20, isEscapeSign (Char.ofNat n) = false := by decide
  by_contra hnot
  have hc := hlow c.toNat (Nat.lt_of_not_le hnot)
  rw [Char.ofNat_toNat, h] at hc
  cases hc

theorem le_of_mem_quote {c : Char} {cs : List Char} (h : c ∈ quote cs) : 0x20 ≤ c.toNat := by
  cases hsign : isEscapeSign c with
  | true => exact le_of_isEscapeSign hsign
  | false => exact Nat.le_of_not_lt (mem_of_mem_quote hsign h).2

theorem quote_append (cs rest : List Char) :
    quote cs ++ rest = '"' :: (cs.flatMap escape ++ '"' :: rest) := by
  simp [quote]

theorem reads_quote (s : String) : Reads (quote s.toList) (.str s) := by
  refine reads_of_succ ⟨'"', _, rfl, rfl, by decide⟩ (fun c hc => le_of_mem_quote hc) ?_
  intro fuel rest _
  rw [quote_append, readValue, skipSpace_cons rfl]
  simp only [readString_quote, Option.map_some, String.ofList_toList]

/-! ## Lists -/

theorem readItems_intercalate {forms : List (List Char)} {items : List Value}
    (h : List.Forall₂ Reads forms items) (hne : forms ≠ []) {fuel : Nat}
    (hfuel : ([','].intercalate forms).length < fuel) (rest : List Char) :
    readItems fuel ([','].intercalate forms ++ ']' :: rest) = some (items, rest) := by
  induction h generalizing fuel with
  | nil => exact absurd rfl hne
  | @cons form item forms items hform hforms ih =>
    obtain ⟨fuel, rfl⟩ := Nat.exists_eq_add_one_of_ne_zero (Nat.ne_zero_of_lt hfuel)
    cases hforms with
    | nil =>
      rw [List.intercalate_singleton] at hfuel ⊢
      rw [readItems, hform.read fuel _ (Nat.le_of_lt_succ hfuel)]
      simp only [skipSpace_cons (c := ']') rfl]
    | cons hnext hforms =>
      rw [List.intercalate_cons_cons, List.length_append, List.length_append] at hfuel
      have hpos := hform.length_pos
      rw [List.intercalate_cons_cons, List.append_assoc, List.append_assoc, readItems,
        hform.read fuel _ (by omega)]
      simp only [List.singleton_append, skipSpace_cons (c := ',') rfl]
      rw [ih (List.cons_ne_nil _ _) (by omega), Option.map_some]

/-- A list that does not close at once is read item by item. -/
theorem readValue_list {first : Char} (hspace : isSpace first = false) (hclose : first ≠ ']')
    (fuel : Nat) (rest : List Char) :
    readValue (fuel + 1) ('[' :: first :: rest) =
      (readItems fuel (first :: rest)).map fun read => (.list read.1, read.2) := by
  rw [readValue, skipSpace_cons rfl]
  simp only [skipSpace_cons hspace]
  split
  · rename_i heq
    exact absurd (List.cons.inj heq).1 hclose
  · rfl

/-- The joined text of parts begins with the text of the first part. -/
theorem exists_intercalate_cons (form : List Char) (forms : List (List Char)) :
    ∃ tail, [','].intercalate (form :: forms) = form ++ tail := by
  cases forms with
  | nil => exact ⟨[], by rw [List.intercalate_singleton, List.append_nil]⟩
  | cons next forms => exact ⟨_, by rw [List.intercalate_cons_cons, List.append_assoc]⟩

/-- No control character comes in where texts are joined. -/
theorem le_of_mem_intercalate {forms : List (List Char)}
    (h : ∀ form ∈ forms, ∀ c ∈ form, 0x20 ≤ c.toNat) :
    ∀ c ∈ [','].intercalate forms, 0x20 ≤ c.toNat := by
  intro c hc
  induction forms with
  | nil => cases hc
  | cons form forms ih =>
    have hform := h form List.mem_cons_self
    cases forms with
    | nil =>
      rw [List.intercalate_singleton] at hc
      exact hform c hc
    | cons next forms =>
      rw [List.intercalate_cons_cons, List.append_assoc, List.mem_append, List.mem_append,
        List.mem_singleton] at hc
      rcases hc with hc | rfl | hc
      · exact hform c hc
      · decide
      · exact ih (fun form hmem => h form (List.mem_cons_of_mem _ hmem)) hc

theorem le_of_mem_enclosed {first last : Char} (hfirst : 0x20 ≤ first.toNat)
    (hlast : 0x20 ≤ last.toNat) {forms : List (List Char)}
    (h : ∀ form ∈ forms, ∀ c ∈ form, 0x20 ≤ c.toNat) :
    ∀ c ∈ first :: [','].intercalate forms ++ [last], 0x20 ≤ c.toNat := by
  intro c hc
  rw [List.cons_append, List.mem_cons, List.mem_append, List.mem_singleton] at hc
  rcases hc with rfl | hc | rfl
  · exact hfirst
  · exact le_of_mem_intercalate h c hc
  · exact hlast

/-- The texts of items make up the text of the list. -/
theorem reads_list {forms : List (List Char)} {items : List Value}
    (h : List.Forall₂ Reads forms items) :
    Reads ('[' :: [','].intercalate forms ++ [']']) (.list items) := by
  refine reads_of_succ ⟨'[', _, rfl, rfl, by decide⟩ ?_ ?_
  · exact le_of_mem_enclosed (by decide) (by decide)
      ((List.forall₂_and_left _ _).mp (h.imp fun _ _ hitem => ⟨hitem.shown, hitem⟩)).1
  · intro fuel rest hfuel
    rw [List.cons_append, List.cons_append, List.append_assoc, List.singleton_append]
    cases h with
    | nil => rfl
    | @cons form item forms items hform hforms =>
      obtain ⟨first, tail, hfirst, hspace, hclose⟩ := hform.starts
      obtain ⟨more, hmore⟩ := exists_intercalate_cons form forms
      have hlength : ([','].intercalate (form :: forms)).length < fuel :=
        Nat.lt_of_succ_le (by simpa using hfuel)
      have hitems := readItems_intercalate (.cons hform hforms) (List.cons_ne_nil form forms)
        hlength rest
      rw [hmore, hfirst, List.cons_append, List.cons_append] at hitems ⊢
      rw [readValue_list hspace hclose, hitems, Option.map_some]

/-! ## Maps -/

/-- Whether a text is the quoted name of an entry before a text that reads as its part. -/
def ReadsEntry (form : List Char) (entry : String × Value) : Prop :=
  ∃ part, form = quote entry.1.toList ++ ':' :: part ∧ Reads part entry.2

theorem ReadsEntry.shown {form : List Char} {entry : String × Value} (h : ReadsEntry form entry) :
    ∀ c ∈ form, 0x20 ≤ c.toNat := by
  obtain ⟨part, rfl, hpart⟩ := h
  intro c hc
  rw [List.mem_append, List.mem_cons] at hc
  rcases hc with hc | rfl | hc
  · exact le_of_mem_quote hc
  · decide
  · exact hpart.shown c hc

theorem readMembers_intercalate {forms : List (List Char)} {entries : List (String × Value)}
    (h : List.Forall₂ ReadsEntry forms entries) (hne : forms ≠ []) {fuel : Nat}
    (hfuel : ([','].intercalate forms).length < fuel) (rest : List Char) :
    readMembers fuel ([','].intercalate forms ++ '\x7d' :: rest) = some (entries, rest) := by
  induction h generalizing fuel with
  | nil => exact absurd rfl hne
  | @cons form entry forms entries hform hforms ih =>
    obtain ⟨fuel, rfl⟩ := Nat.exists_eq_add_one_of_ne_zero (Nat.ne_zero_of_lt hfuel)
    obtain ⟨part, rfl, hpart⟩ := hform
    cases hforms with
    | nil =>
      rw [List.intercalate_singleton, List.length_append, List.length_cons] at hfuel
      rw [List.intercalate_singleton, List.append_assoc, List.cons_append, quote_append,
        readMembers, skipSpace_cons rfl]
      simp only [readString_quote, skipSpace_cons (c := ':') rfl, hpart.read fuel _ (by omega),
        skipSpace_cons (c := '\x7d') rfl, String.ofList_toList]
    | cons hnext hforms =>
      rw [List.intercalate_cons_cons, List.length_append, List.length_append, List.length_append,
        List.length_cons] at hfuel
      rw [List.intercalate_cons_cons, List.append_assoc, List.append_assoc, List.append_assoc,
        List.cons_append, quote_append, readMembers, skipSpace_cons rfl]
      simp only [readString_quote, skipSpace_cons (c := ':') rfl, hpart.read fuel _ (by omega),
        List.singleton_append, skipSpace_cons (c := ',') rfl, String.ofList_toList]
      rw [ih (List.cons_ne_nil _ _) (by omega), Option.map_some]

/-- A map that begins with a name is read member by member. -/
theorem readValue_map (fuel : Nat) (rest : List Char) :
    readValue (fuel + 1) ('\x7b' :: '"' :: rest) =
      (readMembers fuel ('"' :: rest)).map fun read => (.map (Members.ofList read.1), read.2) := by
  rw [readValue, skipSpace_cons rfl]
  simp only [skipSpace_cons (c := '"') rfl]
  rfl

/-- The texts of members in listing order make up the text of the map. -/
theorem reads_map {forms : List (List Char)} {members : Members Value}
    (h : List.Forall₂ ReadsEntry forms members) (hnames : members.names.Nodup)
    (hlisted : members.IsListed) :
    Reads ('\x7b' :: [','].intercalate forms ++ ['\x7d']) (.map members) := by
  refine reads_of_succ ⟨'\x7b', _, rfl, rfl, by decide⟩ ?_ ?_
  · exact le_of_mem_enclosed (by decide) (by decide)
      ((List.forall₂_and_left _ _).mp (h.imp fun _ _ hentry => ⟨hentry.shown, hentry⟩)).1
  · intro fuel rest hfuel
    rw [List.cons_append, List.cons_append, List.append_assoc, List.singleton_append]
    cases h with
    | nil => rfl
    | @cons form entry forms members hform hforms =>
      obtain ⟨part, hpart, -⟩ := id hform
      obtain ⟨more, hmore⟩ := exists_intercalate_cons form forms
      have hlength : ([','].intercalate (form :: forms)).length < fuel :=
        Nat.lt_of_succ_le (by simpa using hfuel)
      have hmembers := readMembers_intercalate (.cons hform hforms) (List.cons_ne_nil form forms)
        hlength rest
      rw [hmore, hpart, List.append_assoc, List.append_assoc, quote_append] at hmembers ⊢
      rw [readValue_map, hmembers, Option.map_some, Members.ofList_of_isListed hnames hlisted]

/-! ## What is written -/

theorem forall₂_writeItems {items : List Value}
    (h : ∀ item ∈ items, ∃ form, write? item = some form ∧ Reads form item) :
    List.Forall₂ Reads (writeItems items) items := by
  induction items with
  | nil => exact .nil
  | cons item rest ih =>
    obtain ⟨form, hform, hreads⟩ := h item List.mem_cons_self
    rw [writeItems, hform]
    exact .cons hreads (ih fun other hother => h other (List.mem_cons_of_mem item hother))

theorem forall₂_writeMembers {members : Members Value}
    (h : ∀ entry ∈ members, ∃ form, write? entry.2 = some form ∧ Reads form entry.2) :
    List.Forall₂ ReadsEntry (writeMembers members) members := by
  induction members with
  | nil => exact .nil
  | cons entry rest ih =>
    obtain ⟨form, hform, hreads⟩ := h entry List.mem_cons_self
    rw [writeMembers, hform]
    exact .cons ⟨form, rfl, hreads⟩
      (ih fun other hother => h other (List.mem_cons_of_mem entry hother))

/-- A value without numbers is written as a text that reads as the value. -/
theorem exists_reads {v : Value} (h : v.BuiltFrom Value.IsWord)
    (hlisted : v.AllMaps Members.IsListed) : ∃ form, write? v = some form ∧ Reads form v := by
  induction h with
  | scalar h =>
    cases h with
    | null => exact ⟨_, rfl, reads_null⟩
    | bool b => exact ⟨_, rfl, reads_bool b⟩
    | str s => exact ⟨_, rfl, reads_quote s⟩
  | list h ih =>
    rw [Value.allMaps_list_iff] at hlisted
    have hforms := forall₂_writeItems fun item hitem => ih item hitem (hlisted item hitem)
    exact ⟨_, rfl, reads_list hforms⟩
  | map hnames h ih =>
    obtain ⟨hself, hparts⟩ := (Value.allMaps_map_iff hnames).mp hlisted
    have hforms := forall₂_writeMembers fun entry hentry => ih entry hentry (hparts entry hentry)
    exact ⟨_, rfl, reads_map hforms hnames hself⟩

theorem read?_of_reads {form : List Char} {v : Value} (h : Reads form v) :
    read? form = some v := by
  have hread := h.read (2 * form.length + 2) [] (by omega)
  rw [List.append_nil] at hread
  rw [read?, hread]
  rfl

end Json

end LayeredSettings
