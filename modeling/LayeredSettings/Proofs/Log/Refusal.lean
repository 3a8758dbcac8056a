import LayeredSettings.Proofs.Log.Redaction
import LayeredSettings.Proofs.Value.Endless

/-!
# Calls that fail

A call of a logger fails if its level is enabled and what it shows has no end. Redaction makes an
end where all ways back go through sensitive names, and it never takes one away, so that calls
without an extra, or with one that is finite, do not fail.

* `redact_unroll` — an endless value is redacted part by part, like any other;
* `isEndless_redact` — what is finite stays so;
* `Logger.refusal?_eq_none`, `Logger.refusal?_eq_some_iff` — the calls that succeed and those that
  fail.
-/

namespace LayeredSettings.Log

variable {v whole : Value} {mark other : Nat}

/-! ## Redaction of endless values -/

/-- What is left of members is redacted one by one. -/
theorem redactMembers_eq (members : Members Value) :
    redactMembers members = (members.filter fun entry => !isDropped entry.1).map fun entry =>
      (entry.1, redactUnder entry.1 entry.2) := by
  induction members with
  | nil => rw [redactMembers, List.filter_nil, List.map_nil]
  | cons entry rest ih =>
    obtain ⟨name, part⟩ := entry
    rw [redactMembers_cons, ih]
    cases hdropped : isDropped name with
    | true => rw [if_pos rfl, List.filter_cons_of_neg (by simpa using hdropped)]
    | false =>
      rw [if_neg Bool.false_ne_true, List.filter_cons_of_pos (by simpa using hdropped),
        List.map_cons]
      rfl

theorem mem_redactMembers {members : Members Value} {entry : String × Value}
    (h : entry ∈ redactMembers members) :
    ∃ old ∈ members, entry = (old.1, redactUnder old.1 old.2) := by
  rw [redactMembers_eq] at h
  obtain ⟨old, hold, rfl⟩ := List.mem_map.mp h
  exact ⟨old, List.mem_of_mem_filter hold, rfl⟩

/-- A value that is redacted leads back to nothing new. -/
theorem mem_marks_redact (h : mark ∈ (redact v).marks) : mark ∈ v.marks := by
  induction v using Value.induct with
  | leaf v hleaf =>
    cases hleaf with
    | bytes data =>
      rw [redact, Value.mem_marks_map_iff] at h
      obtain ⟨entry, hentry, hmark⟩ := h
      obtain ⟨indexed, _, rfl⟩ := List.mem_map.mp hentry
      cases hmark
    | _ => cases h
  | again kept => rwa [redact] at h; all_goals simp
  | list items ih =>
    rw [redact, redactItems_eq, Value.mem_marks_list_iff] at h
    obtain ⟨shown, hshown, hmark⟩ := h
    obtain ⟨item, hitem, rfl⟩ := List.mem_map.mp hshown
    exact Value.mem_marks_list_iff.mpr ⟨item, hitem, ih item hitem hmark⟩
  | map members ih =>
    rw [redact, Value.mem_marks_map_iff] at h
    obtain ⟨shown, hshown, hmark⟩ := h
    obtain ⟨entry, hentry, rfl⟩ := mem_redactMembers hshown
    refine Value.mem_marks_map_iff.mpr ⟨entry, hentry, ?_⟩
    unfold redactUnder at hmark
    split at hmark
    · cases hmark
    · exact ih entry hentry hmark
  | loop inner v ih =>
    rw [redact, Value.mem_marks_closed_iff] at h
    exact Value.mem_marks_loop_iff.mpr ⟨ih h.1, h.2⟩

theorem marks_redact_eq_nil (h : v.marks = []) : (redact v).marks = [] := by
  rw [List.eq_nil_iff_forall_not_mem]
  intro mark hmark
  have hv := mem_marks_redact hmark
  rw [h] at hv
  cases hv

/-- To close a collection and to fill in another mark can be done in any order. -/
theorem closed_fill (hne : other ≠ mark) (hwhole : other ∉ whole.marks) :
    (Value.fill mark whole v).closed other = Value.fill mark whole (v.closed other) := by
  unfold Value.closed
  by_cases hback : other ∈ v.marks
  · rw [if_pos (List.contains_iff_mem.mpr (Value.mem_marks_fill hback hne)),
      if_pos (List.contains_iff_mem.mpr hback), Value.fill_loop, if_neg hne]
  · have hfilled : other ∉ (Value.fill mark whole v).marks := fun h =>
      hback (Value.of_mem_marks_fill h hwhole)
    rw [if_neg (mt List.contains_iff_mem.mp hfilled), if_neg (mt List.contains_iff_mem.mp hback)]

/-- What leads back nowhere is redacted alike wherever it is filled in. -/
theorem redact_fill (hwhole : whole.marks = []) :
    redact (Value.fill mark whole v) = Value.fill mark (redact whole) (redact v) := by
  have hshown := marks_redact_eq_nil hwhole
  induction v using Value.induct with
  | leaf v hleaf =>
    have hmark : mark ∉ (redact v).marks := by
      rw [marks_redact_eq_nil hleaf.marks_eq_nil]
      exact List.not_mem_nil
    rw [hleaf.fill_eq, Value.fill_of_not_mem hmark]
  | again kept =>
    have hagain : redact (.again kept) = .again kept := rfl
    rw [hagain, Value.fill_again, Value.fill_again]
    split
    · rfl
    · exact hagain
  | list items ih =>
    rw [Value.fill_list, redact, redact, redactItems_eq, redactItems_eq, Value.fill_list,
      List.map_map, List.map_map]
    exact congrArg Value.list (List.map_congr_left ih)
  | map members ih =>
    rw [Value.fill_map, redact, redact, redactMembers_eq, redactMembers_eq, Value.fill_map,
      List.filter_map, List.map_map, List.map_map]
    refine congrArg Value.map (List.map_congr_left fun entry hentry => Prod.ext rfl ?_)
    show redactUnder entry.1 _ = Value.fill mark (redact whole) (redactUnder entry.1 entry.2)
    by_cases hname : isSensitive entry.1 = true
    · rw [redactUnder, redactUnder, if_pos hname, if_pos hname]
      rfl
    · rw [redactUnder, redactUnder, if_neg hname, if_neg hname]
      exact ih entry (List.mem_of_mem_filter hentry)
  | loop inner v ih =>
    rw [Value.fill_loop, redact, redact]
    split
    · rename_i hsame
      subst hsame
      exact (Value.fill_of_not_mem fun h => (Value.mem_marks_closed_iff.mp h).2 rfl).symm
    · rename_i hne
      rw [ih]
      refine closed_fill hne ?_
      rw [hshown]
      exact List.not_mem_nil

/-- A node is redacted part by part, as it is looked into. -/
theorem redact_unroll (h : v.IsNode) : (redact v).unroll = redact v.unroll := by
  cases h with
  | @loop _ mark v hcollection hmark hv =>
    have hloop : (Value.loop mark v).IsNode := .loop hcollection hmark hv
    have hflat : (redact v).unroll = redact v := by
      cases hcollection with
      | list items => rfl
      | map members => rfl
    have hwhole : redact (.loop mark v) = (redact v).closed mark := by
      rw [redact]
    rw [Value.unroll, redact_fill hloop.marks_eq_nil, hwhole]
    by_cases hback : mark ∈ (redact v).marks
    · rw [Value.closed, if_pos (List.contains_iff_mem.mpr hback), Value.unroll]
    · rw [Value.closed, if_neg (mt List.contains_iff_mem.mp hback), hflat,
        Value.fill_of_not_mem hback]
  | scalar h => cases h with
    | plain h => cases h with
      | _ => rfl
    | _ => rfl
  | list h => rfl
  | map hnames h => rfl
  | again hmark => cases hmark

/-! ## Ends -/

/-- Redaction takes no end away. -/
theorem isEndless_redact (h : v.isEndless = false) : (redact v).isEndless = false := by
  induction v using Value.induct with
  | leaf v hleaf =>
    cases hleaf with
    | bytes data =>
      rw [redact, Value.isEndless_map_eq_false_iff]
      intro entry hentry
      obtain ⟨indexed, _, rfl⟩ := List.mem_map.mp hentry
      rfl
    | _ => rfl
  | again kept => cases h
  | list items ih =>
    rw [Value.isEndless_list_eq_false_iff] at h
    rw [redact, redactItems_eq, Value.isEndless_list_eq_false_iff]
    intro shown hshown
    obtain ⟨item, hitem, rfl⟩ := List.mem_map.mp hshown
    exact ih item hitem (h item hitem)
  | map members ih =>
    rw [Value.isEndless_map_eq_false_iff] at h
    rw [redact, Value.isEndless_map_eq_false_iff]
    intro shown hshown
    obtain ⟨entry, hentry, rfl⟩ := mem_redactMembers hshown
    show (redactUnder entry.1 entry.2).isEndless = false
    unfold redactUnder
    split
    · rfl
    · exact ih entry hentry (h entry hentry)
  | loop inner v _ => cases h

namespace Logger

variable {logger : Logger} {level message : String} {extra : Option (Members Value)}
  {members : Members Value}

@[simp] theorem hasEnd_none : logger.hasEnd none = true := by
  unfold hasEnd shown
  split
  · rfl
  · rfl

/-- What is finite has an end as it is shown. -/
theorem hasEnd_of_finite (h : (Value.map members).isEndless = false) :
    logger.hasEnd (some members) = true := by
  unfold hasEnd shown
  split
  · have hshown := isEndless_redact h
    rw [redact] at hshown
    rw [Option.map_some, Option.all_some, hshown]
    rfl
  · rw [Option.all_some, h]
    rfl

theorem hasEnd_text (name text : String) : logger.hasEnd (some [(name, .str text)]) = true :=
  hasEnd_of_finite rfl

/-! ## Calls -/

theorem refusal?_eq_none (h : logger.hasEnd extra = true) :
    logger.refusal? level extra = none := by
  simp [refusal?, h]

theorem record?_eq_some (henabled : logger.isEnabled level = true)
    (hend : logger.hasEnd extra = true) :
    logger.record? level message extra =
      some { level, logger := logger.name, message, extra := logger.shown extra } := by
  simp [record?, henabled, hend]

theorem record?_eq_none (henabled : logger.isEnabled level = false) :
    logger.record? level message extra = none := by
  simp [record?, henabled]

end Logger

end LayeredSettings.Log
