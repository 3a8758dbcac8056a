import LayeredSettings.Proofs.Text.Case
import LayeredSettings.Proofs.Text.Trim

/-!
# Words in any letter case

The texts that are read as a word once they are trimmed and in lower case: white space, the word
with small or capital letters, white space. That needs a look at the table of case partners, since
two letters beyond ASCII have small letters of ASCII in their lower case form, the dotted capital I
and the Kelvin sign. So a word here has neither an `i` nor a `k`.

* `lowerFrom_eq_iff` — lower casing gives such a word exactly if lower casing in ASCII does;
* `lowerCase_trimmed_eq_iff` — the texts that spell a word.
-/

namespace LayeredSettings.Text

/-! ## Characters -/

/-- The characters of words: digits, the underscore and the small letters that nothing but their
ASCII capital is moved to. -/
def isWordChar (c : Char) : Bool :=
  isDigit c || c == '_' || ('a' ≤ c && c ≤ 'z' && c != 'i' && c != 'k')

/-- Where the code points of word characters lie. -/
theorem toNat_of_isWordChar {c : Char} (h : isWordChar c = true) :
    0x30 ≤ c.toNat ∧ c.toNat ≤ 0x7a ∧ ¬ (0x41 ≤ c.toNat ∧ c.toNat ≤ 0x5a) ∧ c.toNat ≠ 0x69 ∧
      c.toNat ≠ 0x6b := by
  have hne (d : Char) (hcd : c ≠ d) : c.toNat ≠ d.toNat := fun heq => hcd (Char.toNat_inj.mp heq)
  have hle (d e : Char) : d ≤ e ↔ d.toNat ≤ e.toNat := Iff.rfl
  simp only [isWordChar, isDigit, Bool.or_eq_true, Bool.and_eq_true, decide_eq_true_eq, beq_iff_eq,
    bne_iff_ne, hle] at h
  rcases h with (⟨hlow, hhigh⟩ | rfl) | ⟨⟨⟨hlow, hhigh⟩, hi⟩, hk⟩
  · have hlow : 0x30 ≤ c.toNat := hlow
    have hhigh : c.toNat ≤ 0x39 := hhigh
    omega
  · decide
  · have hlow : 0x61 ≤ c.toNat := hlow
    have hhigh : c.toNat ≤ 0x7a := hhigh
    have hi : c.toNat ≠ 0x69 := hne 'i' hi
    have hk : c.toNat ≠ 0x6b := hne 'k' hk
    omega

/-- Lower casing in ASCII moves the capital letters alone. -/
theorem toNat_toLower (c : Char) :
    c.toLower.toNat = if 0x41 ≤ c.toNat ∧ c.toNat ≤ 0x5a then c.toNat + 32 else c.toNat := by
  have hcapital : (c.val ≥ 'A'.val ∧ c.val ≤ 'Z'.val) ↔ 0x41 ≤ c.toNat ∧ c.toNat ≤ 0x5a := Iff.rfl
  unfold Char.toLower
  by_cases h : 0x41 ≤ c.toNat ∧ c.toNat ≤ 0x5a
  · rw [dif_pos (hcapital.mpr h), if_pos h]
    show (c.val + 32).toNat = c.val.toNat + 32
    have hsmall : c.val.toNat ≤ 0x5a := h.2
    have hoffset : (32 : UInt32).toNat = 32 := rfl
    rw [UInt32.toNat_add, hoffset]
    omega
  · rw [dif_neg (fun hc => h (hcapital.mp hc)), if_neg h]

/-- What holds of the first characters by their code points holds of all up to the last small
letter. -/
theorem forall_upto_small {p : Char → Prop} (h : ∀ n < 0x7b, p (Char.ofNat n)) (c : Char)
    (hc : c.toNat < 0x7b) : p c := by
  have happly := h c.toNat hc
  rwa [Char.ofNat_toNat] at happly

/-- A character that ASCII moves to a word character lies below the last small letter. -/
theorem toNat_of_toLower {c : Char} (h : isWordChar c.toLower = true) :
    0x30 ≤ c.toNat ∧ c.toNat < 0x7b := by
  obtain ⟨hlow, hhigh, -, -, -⟩ := toNat_of_isWordChar h
  rw [toNat_toLower] at hlow hhigh
  split_ifs at hlow hhigh with hcapital
  · omega
  · omega

/-- A range of capital letters is that of ASCII, or is moved beyond the word characters, or is the
Kelvin sign. -/
theorem range_cases {r : CaseRange} (hr : r ∈ lowerRanges) :
    (r.first = 0x41 ∧ r.last = 0x5a ∧ r.shift = 32) ∨ 0x7a < r.low ∨
      (r.low = 0x6b ∧ r.high = 0x6b) := by
  have hall : (lowerRanges.all fun r =>
      (Nat.beq r.first 0x41 && Nat.beq r.last 0x5a && r.shift == 32) || Nat.blt 0x7a r.low ||
        (Nat.beq r.low 0x6b && Nat.beq r.high 0x6b)) = true := by
    decide +kernel
  simpa [and_assoc, or_assoc] using List.all_eq_true.mp hall r hr

/-- The letters of a range are moved to between its ends. -/
theorem CaseRange.moved_bounds {r : CaseRange} (hr : r ∈ lowerRanges) {n : Nat}
    (hn : r.covers n = true) :
    r.low ≤ ((n : Int) + r.shift).toNat ∧ ((n : Int) + r.shift).toNat ≤ r.high := by
  have hshift := (misses_of_mem_lowerRanges hr List.mem_cons_self).1
  obtain ⟨hfirst, hlast, -⟩ := covers_eq_true_iff.mp hn
  unfold low high
  omega

/-- A letter that is moved to a word character is the capital letter of ASCII. -/
theorem toLower_of_partner? {c d : Char} (h : partner? lowerRanges c = some d)
    (hd : isWordChar d = true) : c.toLower = d := by
  obtain ⟨r, hfind, rfl⟩ := Option.map_eq_some_iff.mp h
  have hr := List.mem_of_find?_eq_some hfind
  have hcovers : r.covers c.toNat = true := by simpa using List.find?_some hfind
  obtain ⟨hlow, hhigh, -, -, hkelvin⟩ := toNat_of_isWordChar hd
  obtain ⟨habove, hbelow⟩ := CaseRange.moved_bounds hr hcovers
  -- what is no character reads as null, which is no word character
  have hvalue : (Char.ofNat ((c.toNat : Int) + r.shift).toNat).toNat =
      ((c.toNat : Int) + r.shift).toNat := by
    unfold Char.ofNat at hlow ⊢
    by_cases hvalid : ((c.toNat : Int) + r.shift).toNat.isValidChar
    · rw [dif_pos hvalid]
      rfl
    · rw [dif_neg hvalid] at hlow
      exact absurd hlow (by decide)
  rw [hvalue] at hlow hhigh hkelvin
  rcases range_cases hr with ⟨hfirst, hlast, hshift⟩ | hbeyond | ⟨hsame, hsame'⟩
  · obtain ⟨hge, hle, -⟩ := CaseRange.covers_eq_true_iff.mp hcovers
    rw [hfirst] at hge
    rw [hlast] at hle
    apply Char.toNat_inj.mp
    rw [toNat_toLower, if_pos ⟨hge, hle⟩, hvalue, hshift]
    omega
  · omega
  · omega

/-- A character is moved to a word character exactly if ASCII moves it there. -/
theorem lowerChar_eq_singleton_iff {c d : Char} (hd : isWordChar d = true) :
    lowerChar c = [d] ↔ c.toLower = d := by
  obtain ⟨-, -, hcapital, -, -⟩ := toNat_of_isWordChar hd
  constructor
  · intro h
    unfold lowerChar at h
    split_ifs at h with hdotted
    · cases (List.cons.inj h).2
    · cases hpartner : partner? lowerRanges c with
      | none =>
        rw [hpartner] at h
        obtain rfl : c = d := (List.cons.inj h).1
        apply Char.toNat_inj.mp
        rw [toNat_toLower, if_neg hcapital]
      | some partner =>
        rw [hpartner] at h
        obtain rfl : partner = d := (List.cons.inj h).1
        exact toLower_of_partner? hpartner hd
  · rintro rfl
    have hascii : ∀ n < 0x7b, lowerChar (Char.ofNat n) = [(Char.ofNat n).toLower] := by
      decide +kernel
    exact forall_upto_small (p := fun c => lowerChar c = [c.toLower]) hascii c
      (toNat_of_toLower hd).2

/-! ## Texts -/

/-- A text comes to a word in lower case exactly if it does in ASCII. -/
theorem lowerFrom_eq_iff {word : List Char} (hword : ∀ d ∈ word, isWordChar d = true)
    (before cs : List Char) : lowerFrom before cs = word ↔ cs.map Char.toLower = word := by
  induction cs generalizing before word with
  | nil => rfl
  | cons c rest ih =>
    rw [lowerFrom, List.map_cons]
    cases word with
    | nil =>
      refine iff_of_false ?_ (by simp)
      have hsome : lowerChar c ≠ [] := by
        unfold lowerChar
        split_ifs
        · simp
        · simp
      split_ifs
      · simp
      · simp
      · simp [hsome]
    | cons d ds =>
      have hd := hword d List.mem_cons_self
      have hds : ∀ e ∈ ds, isWordChar e = true := fun e he => hword e (List.mem_cons_of_mem d he)
      -- the letters whose form is longer, or depends on the text, come to no word character
      have hstep (first : Char) (hfirst : lowerChar c = [first]) (hsigma : c ≠ 'Σ') :
          (if c = 'Σ' then [if meetsLetter before && !meetsLetter rest then 'ς' else 'σ']
            else lowerChar c) ++ lowerFrom (c :: before) rest = d :: ds ↔
            c.toLower :: rest.map Char.toLower = d :: ds := by
        rw [if_neg hsigma, hfirst, List.singleton_append, List.cons.injEq, List.cons.injEq, ih hds,
          ← lowerChar_eq_singleton_iff hd, hfirst, List.cons.injEq, and_iff_left rfl]
      by_cases hsigma : c = 'Σ'
      · subst hsigma
        have hright : 'Σ'.toLower ≠ d := by
          rintro rfl
          exact absurd hd (by decide)
        refine iff_of_false ?_ fun h => hright (List.cons.inj h).1
        rw [if_pos rfl, List.singleton_append]
        intro h
        obtain rfl := (List.cons.inj h).1
        split_ifs at hd
        · exact absurd hd (by decide)
        · exact absurd hd (by decide)
      · by_cases hdotted : c = 'İ'
        · subst hdotted
          have hright : 'İ'.toLower ≠ d := by
            rintro rfl
            exact absurd hd (by decide)
          refine iff_of_false ?_ fun h => hright (List.cons.inj h).1
          rw [if_neg hsigma, lowerChar, if_pos rfl]
          intro h
          obtain rfl : 'i' = d := (List.cons.inj h).1
          exact absurd hd (by decide)
        · exact hstep _ (by rw [lowerChar, if_neg hdotted]) hsigma

/-- A text without white space has none at its ends. -/
theorem trim_of_forall {cs : List Char} (h : ∀ c ∈ cs, isBlank c = false) : trim cs = cs := by
  have hstart : trimStart cs = cs := by
    cases cs with
    | nil => rfl
    | cons c rest => exact List.dropWhile_cons_of_neg (by simp [h c List.mem_cons_self])
  rw [trim, hstart]
  cases hlast : cs.reverse with
  | nil =>
    rw [List.reverse_eq_nil_iff.mp hlast]
    rfl
  | cons c rest =>
    have hc : isBlank c = false := h c (List.mem_reverse.mp (hlast ▸ List.mem_cons_self))
    rw [trimEnd, hlast, List.dropWhile_cons_of_neg (by simp [hc]), ← hlast, List.reverse_reverse]

/-- Trimming takes white space from both ends. -/
theorem exists_padding (cs : List Char) :
    ∃ before after, cs = before ++ trim cs ++ after ∧ IsPadding before ∧ IsPadding after := by
  have hbefore : IsPadding (cs.takeWhile isBlank) := List.all_eq_true.mp List.all_takeWhile
  have hafter : IsPadding ((trimStart cs).reverse.takeWhile isBlank).reverse := by
    intro c hc
    exact List.all_eq_true.mp List.all_takeWhile c (List.mem_reverse.mp hc)
  have hend : trimStart cs =
      trim cs ++ ((trimStart cs).reverse.takeWhile isBlank).reverse := by
    rw [trim, trimEnd, ← List.reverse_append, List.takeWhile_append_dropWhile, List.reverse_reverse]
  refine ⟨_, _, ?_, hbefore, hafter⟩
  rw [List.append_assoc, ← hend, trimStart, List.takeWhile_append_dropWhile]

/-- Whether a text spells a word: white space may stand around it, and its letters may be capital
ones. -/
def Spells (raw word : String) : Prop :=
  ∃ before core after, raw.toList = before ++ core ++ after ∧ IsPadding before ∧ IsPadding after ∧
    core.map Char.toLower = word.toList

/-- No letter is white space, be it a capital one. -/
theorem isBlank_of_toLower {c : Char} (h : isWordChar c.toLower = true) : isBlank c = false := by
  obtain ⟨hlow, hhigh⟩ := toNat_of_toLower h
  have hascii : ∀ n < 0x7b, 0x30 ≤ (Char.ofNat n).toNat → isBlank (Char.ofNat n) = false := by
    decide +kernel
  exact forall_upto_small (p := fun c => 0x30 ≤ c.toNat → isBlank c = false) hascii c hhigh hlow

/-- The texts that are a word once they are trimmed and in lower case. -/
theorem lowerCase_trimmed_eq_iff {raw word : String}
    (hword : ∀ d ∈ word.toList, isWordChar d = true) :
    lowerCase (trimmed raw) = word ↔ Spells raw word := by
  have hlist : lowerCase (trimmed raw) = word ↔ lower (trim raw.toList) = word.toList := by
    rw [← String.toList_inj, toList_lowerCase, toList_trimmed]
  rw [hlist, lower, lowerFrom_eq_iff hword]
  constructor
  · intro h
    obtain ⟨before, after, hraw, hbefore, hafter⟩ := exists_padding raw.toList
    exact ⟨before, trim raw.toList, after, hraw, hbefore, hafter, h⟩
  · rintro ⟨before, core, after, hraw, hbefore, hafter, hcore⟩
    have hblank : ∀ c ∈ core, isBlank c = false := by
      intro c hc
      apply isBlank_of_toLower
      apply hword
      rw [← hcore]
      exact List.mem_map_of_mem hc
    rw [hraw, trim_pad hbefore hafter (trim_of_forall hblank)]
    exact hcore

end LayeredSettings.Text
