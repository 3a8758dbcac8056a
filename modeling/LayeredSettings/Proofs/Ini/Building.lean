import LayeredSettings.Ini.Nesting
import LayeredSettings.Proofs.Members
import LayeredSettings.Proofs.Steps

/-!
# Building the tree of any lines

What lines do to the tree that they build, whatever they say and in whatever order they come. A
name that is at the top stays there; what stands under it is a section or an option, and which of
the two it is can be told from the lines.

* `Building.Adds`, `adds_of_add` — all that a line can do to a tree;
* `Line.Turns`, `get?_of_run` — what lines make of what stands at the top under one name;
* `Names`, `Moves` — the names at the top, and those of sections that may move;
* `exists_of_opens`, `exists_alike_of_standing` — what a header and an option before all headers
  leave at the top;
* `exists_option_of_givesBelow` — an option that a section still has in the end.
-/

namespace LayeredSettings

namespace Ini

/-! ## What a line can do -/

/-- What an option is once it is given a value: a list takes it as an item, and a name in brackets
makes a list. -/
def Node.joined (old : Option Node) (bracketed : Bool) (value : Node) : Node :=
  match old, bracketed with
  | some (array length members), _ => push length members value
  | some old, true => ofItems [old, value]
  | none, true => ofItems [value]
  | _, false => value

theorem Node.assign_section (members : Members Node) (name : String) (bracketed : Bool)
    (value : Node) :
    (object false members).assign name bracketed value =
      .ok (object false (members.set name (joined (members.get? name) bracketed value))) := by
  have hset (part : Node) : (object false members).setMember name part =
      .ok (object false (members.set name part)) := rfl
  simp only [assign, isLength, Bool.false_eq_true, if_false, member?, hset, joined]
  cases Members.get? members name with
  | none =>
    cases bracketed with
    | _ => rfl
  | some old =>
    cases old with
    | array length items => rfl
    | _ =>
      cases bracketed with
      | _ => rfl

/-- The section that a line opens. -/
def Line.Opens (line : Line) (name : String) : Prop :=
  ∃ v, line = .header v ∧ (Node.ofValue v).text? = .ok name

/-- The option that a line gives a value. -/
def Line.Gives (line : Line) (name : String) (value : Node) : Prop :=
  ∃ key v o, line = .option key v ∧ OptionName.of key = .ok o ∧ o.name.text? = .ok name ∧
    Node.ofValue v = value

/-- Whether a line is an option. -/
def Line.isOption : Line → Bool
  | .header _ => false
  | .option _ _ => true

/-- The name of an option with a plain key. -/
def keyName (key : String) : String :=
  let cs := key.toList
  if 2 < cs.length ∧ cs.drop (cs.length - 2) = ['[', ']'] then
    String.ofList (cs.take (cs.length - 2))
  else key

theorem gives_keyName (key : String) (v : Value) :
    (Line.option (.str key) v).Gives (keyName key) (Node.ofValue v) := by
  simp only [keyName]
  split
  · rename_i hbrackets
    exact ⟨_, v, ⟨.text _, true⟩, rfl, by rw [OptionName.of, if_pos hbrackets], rfl, rfl⟩
  · rename_i hbrackets
    exact ⟨_, v, ⟨.text key, false⟩, rfl, by rw [OptionName.of, if_neg hbrackets], rfl, rfl⟩

/-- A tree with a node put under a name at the top. -/
def Building.put (b : Building) (name : String) (node : Node) : Building :=
  { b with top := b.top.set name node }

/-- Whether an option of this name is not kept. -/
def OptionName.isReserved (o : OptionName) : Bool :=
  match o.name with
  | .text s => s == "__proto__"
  | _ => false

theorem OptionName.isReserved_iff {o : OptionName} :
    o.isReserved = true ↔ o.name = .text "__proto__" := by
  unfold isReserved
  cases o.name with
  | text s => simp
  | _ => simp

/-- Gives an option a value where options belong. -/
def Building.give (b : Building) (name : String) (bracketed : Bool) (value : Node) :
    Except StructureFault Building :=
  match b.target with
  | .dropped => .ok b
  | .top => .ok (b.put name (Node.joined (b.top.get? name) bracketed value))
  | .inSection sectionName =>
    match b.top.get? sectionName with
    | some node => (node.assign name bracketed value).map (b.put sectionName)
    | none => .ok b

/-- An option gives its value to that of its name, unless the option is not kept. -/
theorem Building.assign_eq (b : Building) (key v : Value) :
    b.assign key v = (OptionName.of key).bind fun o =>
      if o.isReserved then .ok b
      else o.name.text?.bind fun name => b.give name o.bracketed (Node.ofValue v) := by
  rw [assign]
  cases OptionName.of key with
  | error e => rfl
  | ok o =>
    simp only [bind, Except.bind]
    change (if o.isReserved = true then pure b else _) = _
    cases o.isReserved with
    | true => rfl
    | false =>
      cases o.name.text? with
      | error e => rfl
      | ok name =>
        unfold give
        cases htarget : b.target with
        | dropped => rfl
        | top => simp [Node.assign_section, Building.put, htarget, pure, Except.pure]
        | inSection sectionName =>
          simp only
          cases b.top.get? sectionName with
          | none => rfl
          | some node =>
            simp only
            cases node.assign name o.bracketed (Node.ofValue v) with
            | error e => rfl
            | ok changed => simp [Building.put, htarget, pure, Except.pure, Except.map]

/-- The line of an option gives the option of its name its value, and does nothing else. -/
theorem Building.add_option {key : Value} {o : OptionName} {name : String}
    (hkey : OptionName.of key = .ok o) (htext : o.name.text? = .ok name)
    (hname : name ≠ "__proto__") (b : Building) (v : Value) :
    b.add (.option key v) = b.give name o.bracketed (Node.ofValue v) := by
  have hreserved : ¬ o.isReserved = true := by
    intro hreserved
    rw [OptionName.isReserved_iff.mp hreserved, Node.text?] at htext
    exact hname (Except.ok.inj htext).symm
  rw [add, assign_eq, hkey]
  simp only [Except.bind, if_neg hreserved, htext]

/-- A key that does not end in brackets is the name of its option. -/
theorem OptionName.of_unbracketed {key : String} (h : ¬ ['[', ']'] <:+ key.toList) :
    OptionName.of (.str key) = .ok { name := .text key, bracketed := false } := by
  have hnot : ¬ (2 < key.toList.length ∧
      key.toList.drop (key.toList.length - 2) = ['[', ']']) := by
    rintro ⟨-, hdrop⟩
    exact h (hdrop ▸ List.drop_suffix _ _)
  simp only [OptionName.of]
  rw [if_neg hnot]

/-- A key that ends in brackets after a name makes the option of the name a list. -/
theorem OptionName.of_bracketed {name : String} (hne : name ≠ "") :
    OptionName.of (.str (name ++ "[]")) = .ok { name := .text name, bracketed := true } := by
  have hpos : 0 < name.toList.length := by
    rw [List.length_pos_iff]
    exact fun hnil => hne (String.toList_injective hnil)
  have hkey : (name ++ "[]").toList = name.toList ++ ['[', ']'] := String.toList_append
  have hbrackets : 2 < (name ++ "[]").toList.length ∧
      (name ++ "[]").toList.drop ((name ++ "[]").toList.length - 2) = ['[', ']'] := by
    simp [hkey, hpos]
  have htake : (name ++ "[]").toList.take ((name ++ "[]").toList.length - 2) = name.toList := by
    simp [hkey]
  simp only [OptionName.of]
  rw [if_pos hbrackets, htake, String.ofList_toList]

/-- All that a line can do to a tree. -/
inductive Building.Adds (b : Building) (line : Line) : Building → Prop
  /-- The header of a section that is not kept. -/
  | drop : line = .header (.str "__proto__") → Adds b line { b with target := .dropped }
  /-- The header of a section that is there. -/
  | reopen {name : String} {node : Node} : line.Opens name → b.top.get? name = some node →
      node.isVoid = false → Adds b line { b with target := .inSection name }
  /-- The header of a new section, which takes the place of what is void. -/
  | openNew {name : String} : line.Opens name →
      (∀ node, b.top.get? name = some node → node.isVoid = true) →
      Adds b line { top := b.top.set name Node.emptySection, target := .inSection name }
  /-- An option that is not kept. Before all sections only one name is not. -/
  | ignore {key v : Value} : line = .option key v →
      (b.target = .top → ∃ o, OptionName.of key = .ok o ∧ o.name = .text "__proto__") →
      Adds b line b
  /-- An option before all sections. -/
  | stray {key v : Value} {o : OptionName} {name : String} : line = .option key v →
      OptionName.of key = .ok o → o.name.text? = .ok name → b.target = .top →
      Adds b line (b.put name (Node.joined (b.top.get? name) o.bracketed (Node.ofValue v)))
  /-- An option of a section. -/
  | inSection {key v : Value} {sectionName name : String} {node changed : Node}
      {bracketed : Bool} : line = .option key v → b.target = .inSection sectionName →
      b.top.get? sectionName = some node →
      node.assign name bracketed (Node.ofValue v) = .ok changed →
      Adds b line (b.put sectionName changed)

theorem adds_of_openSection {b b' : Building} {v : Value} (h : b.openSection v = .ok b') :
    b.Adds (.header v) b' := by
  unfold Building.openSection at h
  split at h
  · obtain rfl := Except.ok.inj h
    exact .drop rfl
  · obtain ⟨name, hname, hopen⟩ := bind_eq_ok h
    have hopens : (Line.header v).Opens name := ⟨v, rfl, hname⟩
    cases hget : b.top.get? name with
    | none =>
      rw [hget] at hopen
      obtain rfl := Except.ok.inj hopen
      exact .openNew hopens (by simp [hget])
    | some node =>
      simp only [hget] at hopen
      split at hopen
      · rename_i hvoid
        obtain rfl := Except.ok.inj hopen
        exact .openNew hopens (by simpa [hget] using hvoid)
      · rename_i hvoid
        obtain rfl := Except.ok.inj hopen
        exact .reopen hopens hget (by simpa using hvoid)

theorem adds_of_assign {b b' : Building} {key v : Value} (h : b.assign key v = .ok b') :
    b.Adds (.option key v) b' := by
  rw [Building.assign_eq] at h
  obtain ⟨o, ho, hassign⟩ := bind_eq_ok h
  split at hassign
  · rename_i hreserved
    obtain rfl := Except.ok.inj hassign
    exact .ignore rfl fun _ => ⟨o, ho, OptionName.isReserved_iff.mp hreserved⟩
  · obtain ⟨name, hname, hplace⟩ := bind_eq_ok hassign
    unfold Building.give at hplace
    cases htarget : b.target with
    | dropped =>
      simp only [htarget] at hplace
      obtain rfl := Except.ok.inj hplace
      exact .ignore rfl (by simp [htarget])
    | top =>
      simp only [htarget] at hplace
      obtain rfl := Except.ok.inj hplace
      exact .stray rfl ho hname htarget
    | inSection sectionName =>
      simp only [htarget] at hplace
      cases hget : b.top.get? sectionName with
      | none =>
        simp only [hget] at hplace
        obtain rfl := Except.ok.inj hplace
        exact .ignore rfl (by simp [htarget])
      | some node =>
        simp only [hget] at hplace
        cases hchanged : node.assign name o.bracketed (Node.ofValue v) with
        | error e =>
          rw [hchanged] at hplace
          cases hplace
        | ok changed =>
          rw [hchanged] at hplace
          obtain rfl := Except.ok.inj hplace
          exact .inSection rfl htarget hget hchanged

/-- A line does one of these things, or fails. -/
theorem adds_of_add {b b' : Building} {line : Line} (h : b.add line = .ok b') : b.Adds line b' := by
  cases line with
  | header v => exact adds_of_openSection h
  | option key v => exact adds_of_assign h

/-! ## What stands under a name -/

/-- Whether a node is a section, or an object that came as JSON. -/
def Node.isObject : Node → Bool
  | object _ _ => true
  | _ => false

/-- Nodes that are treated alike when sections open, when they move, and at the end. -/
structure Node.Alike (first second : Node) : Prop where
  isVoid_eq : second.isVoid = first.isVoid
  isMovable_eq : second.isMovable = first.isMovable
  isObject_eq : second.isObject = first.isObject
  isContainer_eq : second.isContainer = first.isContainer

theorem Node.Alike.refl (node : Node) : node.Alike node := ⟨rfl, rfl, rfl, rfl⟩

theorem Node.Alike.trans {first second third : Node} (h : first.Alike second)
    (hnext : second.Alike third) : first.Alike third :=
  ⟨hnext.isVoid_eq.trans h.isVoid_eq, hnext.isMovable_eq.trans h.isMovable_eq,
    hnext.isObject_eq.trans h.isObject_eq, hnext.isContainer_eq.trans h.isContainer_eq⟩

/-- A member makes nothing else of a node. -/
theorem Node.alike_of_setMember {node changed part : Node} {name : String}
    (h : node.setMember name part = .ok changed) : node.Alike changed := by
  cases node with
  | array length members =>
    rw [setMember] at h
    split at h
    · obtain ⟨n, -, hn⟩ := bind_eq_ok h
      obtain rfl := Except.ok.inj hn
      exact ⟨rfl, rfl, rfl, rfl⟩
    · obtain rfl := Except.ok.inj h
      exact ⟨rfl, rfl, rfl, rfl⟩
  | object ordinary members =>
    rw [setMember] at h
    split at h
    · obtain rfl := Except.ok.inj h
      split
      · exact ⟨rfl, rfl, rfl, rfl⟩
      · exact .refl _
    · obtain rfl := Except.ok.inj h
      exact ⟨rfl, rfl, rfl, rfl⟩
  | _ =>
    obtain rfl := Except.ok.inj h
    exact .refl _

/-- An option makes nothing else of the node that it is given to. -/
theorem Node.alike_of_assign {node changed value : Node} {name : String} {bracketed : Bool}
    (h : node.assign name bracketed value = .ok changed) : node.Alike changed := by
  unfold assign at h
  split at h
  · exact alike_of_setMember h
  · split at h
    · exact alike_of_setMember h
    · exact alike_of_setMember h
    · exact alike_of_setMember h
    · exact alike_of_setMember h

/-- What a line makes of what stands at the top under a name. Before all headers, `isFirst`, it may
give the name a value. -/
inductive Line.Turns (line : Line) (isFirst : Bool) (name : String) :
    Option Node → Option Node → Prop
  | keep {old : Option Node} : Turns line isFirst name old old
  | openNew {old : Option Node} : line.Opens name → (∀ node, old = some node → node.isVoid = true) →
      Turns line isFirst name old (some Node.emptySection)
  | give {old : Option Node} {value : Node} {bracketed : Bool} : isFirst = true →
      line.Gives name value → Turns line isFirst name old (some (Node.joined old bracketed value))
  | change {key v : Value} {option : String} {node changed : Node} {bracketed : Bool} :
      line = .option key v → node.assign option bracketed (Node.ofValue v) = .ok changed →
      Turns line isFirst name (some node) (some changed)

theorem Building.Adds.turns {b b' : Building} {line : Line} (h : b.Adds line b') (isFirst : Bool)
    (hfirst : line.isOption = true → b.target = .top → isFirst = true) (name : String) :
    line.Turns isFirst name (b.top.get? name) (b'.top.get? name) := by
  cases h with
  | drop _ => exact .keep
  | reopen _ _ _ => exact .keep
  | @openNew opened hopens hvoid =>
    show line.Turns isFirst name _ ((b.top.set opened Node.emptySection).get? name)
    rw [Members.get?_set]
    split_ifs with hname
    · rw [hname]
      exact .openNew hopens hvoid
    · exact .keep
  | ignore _ _ => exact .keep
  | @stray key v o given hline ho hgiven htarget =>
    show line.Turns isFirst name _ ((b.top.set given _).get? name)
    rw [Members.get?_set]
    split_ifs with hname
    · rw [hname]
      have hoption : line.isOption = true := by rw [hline]; rfl
      exact .give (hfirst hoption htarget) ⟨key, v, o, hline, ho, hgiven, rfl⟩
    · exact .keep
  | @inSection key v sectionName option node changed bracketed hline _ hget hchanged =>
    show line.Turns isFirst name _ ((b.top.set sectionName changed).get? name)
    rw [Members.get?_set]
    split_ifs with hname
    · rw [hname, hget]
      exact .change hline hchanged
    · exact .keep

/-! ## The lines before all headers -/

/-- The options before all headers. -/
def strays (lines : List Line) : List Line := lines.takeWhile Line.isOption

/-- After a header no option belongs to the top. -/
theorem Building.Adds.target_ne_top {b b' : Building} {line : Line} (h : b.Adds line b')
    (htarget : line.isOption = true → b.target ≠ .top) : b'.target ≠ .top := by
  cases h with
  | drop _ => exact fun heq => nomatch heq
  | reopen _ _ _ => exact fun heq => nomatch heq
  | openNew _ _ => exact fun heq => nomatch heq
  | ignore hline _ =>
    refine htarget ?_
    rw [hline]
    rfl
  | stray hline _ _ _ =>
    refine htarget ?_
    rw [hline]
    rfl
  | inSection hline _ _ _ =>
    refine htarget ?_
    rw [hline]
    rfl

theorem head_dropWhile_isOption {b : Building} (lines : List Line) :
    ∀ line, (lines.dropWhile Line.isOption).head? = some line → line.isOption = true →
      b.target ≠ .top := by
  intro line hline hoption
  have hheader := List.head?_dropWhile_not Line.isOption lines
  rw [hline] at hheader
  simp [hoption] at hheader

/-- After a header its section is there. -/
theorem next_of_opens {b b' : Building} {line : Line} {name : String} (hopens : line.Opens name)
    (hname : name ≠ "__proto__") (hadd : b.add line = .ok b') :
    (∃ node, b'.top.get? name = some node ∧ node.isVoid = false) ∧ b'.target = .inSection name := by
  obtain ⟨v, rfl, htext⟩ := hopens
  cases adds_of_add hadd with
  | drop heq =>
    obtain rfl := Line.header.inj heq
    rw [Node.ofValue, Node.text?] at htext
    exact absurd (Except.ok.inj htext).symm hname
  | reopen hother hget hvoid =>
    obtain ⟨_, ⟨⟩, hotherText⟩ := hother
    obtain rfl := Except.ok.inj (htext.symm.trans hotherText)
    exact ⟨⟨_, hget, hvoid⟩, rfl⟩
  | openNew hother _ =>
    obtain ⟨_, ⟨⟩, hotherText⟩ := hother
    obtain rfl := Except.ok.inj (htext.symm.trans hotherText)
    exact ⟨⟨Node.emptySection, by rw [Members.get?_set, if_pos rfl], rfl⟩, rfl⟩
  | ignore heq _ => cases heq
  | stray heq _ _ _ => cases heq
  | inSection heq _ _ _ => cases heq

/-! ## Whole texts -/

section

variable {lines : List Line} {b b' : Building} {q : Option Node → Prop} {name : String}

/-- What every line after a header keeps true of what stands under a name stays true. -/
theorem get?_of_rest
    (hready : ∀ line, lines.head? = some line → line.isOption = true → b.target ≠ .top)
    (hstep : ∀ line ∈ lines, ∀ old new, line.Turns false name old new → q old → q new)
    (h : q (b.top.get? name)) (hrun : lines.foldlM Building.add b = .ok b') :
    q (b'.top.get? name) := by
  induction lines generalizing b with
  | nil =>
    obtain rfl := Except.ok.inj hrun
    exact h
  | cons line rest ih =>
    rw [List.foldlM_cons] at hrun
    obtain ⟨next, hnext, hrest⟩ := bind_eq_ok hrun
    have hadds := adds_of_add hnext
    have htarget := hready line rfl
    have hturns := hadds.turns false fun hoption htop => absurd htop (htarget hoption)
    exact ih (fun _ _ _ => hadds.target_ne_top htarget)
      (fun other hother => hstep other (List.mem_cons_of_mem line hother))
      (hstep line List.mem_cons_self _ _ (hturns name) h) hrest

/-- What every line keeps true of what stands under a name stays true. Only the lines before all
headers can give the name a value. -/
theorem get?_of_run
    (hstep : ∀ line ∈ lines, ∀ isFirst, (isFirst = true → line ∈ strays lines) →
      ∀ old new, line.Turns isFirst name old new → q old → q new)
    (h : q (b.top.get? name)) (hrun : lines.foldlM Building.add b = .ok b') :
    q (b'.top.get? name) := by
  rw [← List.takeWhile_append_dropWhile (p := Line.isOption) (l := lines),
    List.foldlM_append] at hrun
  obtain ⟨mid, hmid, hafter⟩ := bind_eq_ok hrun
  refine get?_of_rest (head_dropWhile_isOption lines) ?_ ?_ hafter
  · intro line hline
    exact hstep line ((List.dropWhile_suffix _).subset hline) false (fun h => nomatch h)
  · refine foldlM_keeps (q := fun state => q (state.top.get? name)) ?_ h hmid
    intro line hline state next hstate hadd
    exact hstep line ((List.takeWhile_sublist _).subset hline) true (fun _ => hline) _ _
      ((adds_of_add hadd).turns true (fun _ _ => rfl) name) hstate

/-- The same of a whole text, which begins with nothing under any name. -/
theorem get?_of_build {top : Members Node}
    (hstep : ∀ line ∈ lines, ∀ isFirst, (isFirst = true → line ∈ strays lines) →
      ∀ old new, line.Turns isFirst name old new → q old → q new)
    (h : q none) (hbuild : build lines = .ok top) : q (top.get? name) := by
  obtain ⟨final, hrun, rfl⟩ := map_eq_ok hbuild
  exact get?_of_run (b := { top := [], target := .top }) hstep h hrun

end

/-! ## Headers and options at the top -/

theorem Node.joined_cases (old : Option Node) (bracketed : Bool) (value : Node) :
    joined old bracketed value = value ∨
      ∃ length members, joined old bracketed value = array length members := by
  unfold joined
  split
  · exact .inr ⟨_, _, rfl⟩
  · exact .inr ⟨_, _, rfl⟩
  · exact .inr ⟨_, _, rfl⟩
  · exact .inl rfl

theorem Node.isObject_joined (old : Option Node) (bracketed : Bool) {value : Node}
    (h : value.isObject = false) : (joined old bracketed value).isObject = false := by
  rcases joined_cases old bracketed value with heq | ⟨_, _, heq⟩
  · rwa [heq]
  · rw [heq]
    rfl

/-- Whether a node is a section with an option of a name. -/
def Node.HasOption (node : Node) (option : String) : Prop :=
  ∃ (members : Members Node) (leaf : Node), node = object false members ∧
    members.get? option = some leaf ∧ leaf.isObject = false

/-- An option stays one unless its value is an object. -/
theorem Node.HasOption.assign {node changed value : Node} {option other : String} {bracketed : Bool}
    (h : node.HasOption option) (hvalue : value.isObject = false)
    (hchanged : node.assign other bracketed value = .ok changed) : changed.HasOption option := by
  obtain ⟨members, leaf, rfl, hleaf, hobject⟩ := h
  rw [assign_section] at hchanged
  obtain rfl := Except.ok.inj hchanged
  by_cases hname : option = other
  · exact ⟨_, _, rfl, by rw [Members.get?_set, if_pos hname], isObject_joined _ _ hvalue⟩
  · exact ⟨_, leaf, rfl, by rw [Members.get?_set, if_neg hname, hleaf], hobject⟩

/-- Names that lines put at the top. -/
def Names (lines : List Line) (name : String) : Prop :=
  (∃ line ∈ lines, line.Opens name) ∨ ∃ line ∈ strays lines, ∃ value, line.Gives name value

/-- What the options before all headers leave under a name. -/
def Standing (lines : List Line) (name : String) (node : Node) : Prop :=
  ∃ first, build (strays lines) = .ok first ∧ first.get? name = some node

/-- Names whose sections may move on their own. -/
def Moves (lines : List Line) (name : String) : Prop :=
  (∃ line ∈ lines, line.Opens name) ∨ ∃ node, Standing lines name node ∧ node.isMovable = true

/-- Whether an option is given to a section right below one of its headers. -/
def GivesBelow (lines : List Line) (sectionName option : String) : Prop :=
  ∃ before header between line after value,
    lines = before ++ header :: (between ++ line :: after) ∧ header.Opens sectionName ∧
      (∀ other ∈ between, other.isOption = true) ∧ line.Gives option value

/-- An option that is kept goes to where options belong. -/
theorem Building.add_of_gives {line : Line} {name : String} {value : Node}
    (hgives : line.Gives name value) (hname : name ≠ "__proto__") (b : Building) :
    ∃ bracketed, b.add line = b.give name bracketed value := by
  obtain ⟨key, v, o, rfl, ho, htext, rfl⟩ := hgives
  exact ⟨o.bracketed, b.add_option ho htext hname v⟩

theorem target_of_options {lines : List Line} (h : ∀ line ∈ lines, line.isOption = true)
    {b b' : Building} (hrun : lines.foldlM Building.add b = .ok b') : b'.target = b.target := by
  refine foldlM_keeps (q := fun state => state.target = b.target) ?_ rfl hrun
  intro line hline mid next hmid hadd
  have hoption := h line hline
  cases adds_of_add hadd with
  | drop heq =>
    rw [heq] at hoption
    cases hoption
  | reopen hopens _ _ =>
    obtain ⟨v, rfl, -⟩ := hopens
    cases hoption
  | openNew hopens _ =>
    obtain ⟨v, rfl, -⟩ := hopens
    cases hoption
  | _ => exact hmid

section

variable {lines : List Line} {top : Members Node} {name : String}

/-- What stands at the top comes from a line. -/
theorem names_of_build (hbuild : build lines = .ok top) {node : Node}
    (hget : top.get? name = some node) : Names lines name := by
  refine get?_of_build (q := fun old => ∀ node, old = some node → Names lines name)
    ?_ (fun _ h => nomatch h) hbuild node hget
  intro line hline isFirst hstray old new hturns hold
  cases hturns with
  | keep => exact hold
  | openNew hopens _ => exact fun _ _ => .inl ⟨line, hline, hopens⟩
  | give hfirst hgives => exact fun _ _ => .inr ⟨line, hstray hfirst, _, hgives⟩
  | change _ _ => exact fun _ _ => hold _ rfl

/-- What every line keeps true of what the options before all headers leave under a name stays
true. -/
theorem get?_of_standing (hbuild : build lines = .ok top) : ∃ first,
    build (strays lines) = .ok first ∧ ∀ (q : Option Node → Prop) (name : String),
      (∀ line ∈ lines, ∀ old new, line.Turns false name old new → q old → q new) →
        q (first.get? name) → q (top.get? name) := by
  obtain ⟨final, hrun, rfl⟩ := map_eq_ok hbuild
  rw [← List.takeWhile_append_dropWhile (p := Line.isOption) (l := lines),
    List.foldlM_append] at hrun
  obtain ⟨mid, hmid, hafter⟩ := bind_eq_ok hrun
  refine ⟨mid.top, by rw [build, strays, hmid]; rfl, fun q name hstep hmidKept => ?_⟩
  exact get?_of_rest (head_dropWhile_isOption lines)
    (fun line hline => hstep line ((List.dropWhile_suffix _).subset hline)) hmidKept hafter

/-- What may move comes from a header, or is what the options before all headers leave. -/
theorem moves_of_build (hbuild : build lines = .ok top) {node : Node}
    (hget : top.get? name = some node) (hmovable : node.isMovable = true) : Moves lines name := by
  obtain ⟨first, hfirst, hrest⟩ := get?_of_standing hbuild
  refine hrest (fun old => ∀ node, old = some node → node.isMovable = true → Moves lines name) name
    ?_ (fun node hget hmovable => .inr ⟨node, ⟨first, hfirst, hget⟩, hmovable⟩) node hget hmovable
  intro line hline old new hturns hold
  cases hturns with
  | keep => exact hold
  | openNew hopens _ => exact fun _ _ _ => .inl ⟨line, hline, hopens⟩
  | give hfirst _ => cases hfirst
  | change _ hchanged =>
    rintro _ ⟨⟩ hmove
    rw [(Node.alike_of_assign hchanged).isMovable_eq] at hmove
    exact hold _ rfl hmove

/-- What the options before all headers leave under a name stays alike, unless a header makes a
section of what is void. -/
theorem exists_alike_of_standing (hbuild : build lines = .ok top) {node : Node}
    (hstanding : Standing lines name node)
    (hvoid : node.isVoid = true → ∀ header ∈ lines, ¬ header.Opens name) :
    ∃ changed, top.get? name = some changed ∧ node.Alike changed := by
  obtain ⟨first, hfirst, hrest⟩ := get?_of_standing hbuild
  obtain ⟨other, hother, hget⟩ := hstanding
  obtain rfl := Except.ok.inj (hfirst.symm.trans hother)
  refine hrest (fun old => ∃ changed, old = some changed ∧ node.Alike changed) name ?_
    ⟨node, hget, .refl node⟩
  rintro line hline old new hturns ⟨changed, rfl, halike⟩
  cases hturns with
  | keep => exact ⟨changed, rfl, halike⟩
  | openNew hopens hold =>
    have hnode : node.isVoid = true := halike.isVoid_eq.symm.trans (hold changed rfl)
    exact absurd hopens (hvoid hnode line hline)
  | give hfirst _ => cases hfirst
  | change _ hchanged => exact ⟨_, rfl, halike.trans (Node.alike_of_assign hchanged)⟩

/-- An option before all headers leaves something under its name. -/
theorem exists_standing (hbuild : build lines = .ok top) {line : Line} (hline : line ∈ strays lines)
    {value : Node} (hgives : line.Gives name value) (hname : name ≠ "__proto__") :
    ∃ node, Standing lines name node := by
  obtain ⟨first, hfirst, -⟩ := get?_of_standing hbuild
  obtain ⟨final, hrun, rfl⟩ := map_eq_ok hfirst
  obtain ⟨before, after, hsplit⟩ := List.append_of_mem hline
  have hoptions : ∀ stray ∈ before, stray.isOption = true := by
    intro stray hstray
    refine List.all_eq_true.mp List.all_takeWhile stray (?_ : stray ∈ strays lines)
    rw [hsplit]
    exact List.mem_append_left _ hstray
  rw [hsplit] at hrun
  obtain ⟨mid, next, hmid, hadd, hafter⟩ := foldlM_passes hrun
  obtain ⟨bracketed, hgiven⟩ := Building.add_of_gives hgives hname mid
  have htarget : mid.target = .top := target_of_options hoptions hmid
  have hnext : (next.top.get? name).isSome = true := by
    simp only [Building.give, htarget] at hgiven
    obtain rfl := Except.ok.inj (hgiven.symm.trans hadd)
    rw [Building.put, Members.get?_set, if_pos rfl]
    rfl
  have hkept : (final.top.get? name).isSome = true := by
    refine get?_of_run (q := fun old => old.isSome = true) ?_ hnext hafter
    intro other _ isFirst _ old new hturns hold
    cases hturns with
    | keep => exact hold
    | openNew _ _ => rfl
    | give _ _ => rfl
    | change _ _ => rfl
  obtain ⟨node, hnode⟩ := Option.isSome_iff_exists.mp hkept
  exact ⟨node, final.top, hfirst, hnode⟩

/-- Where a header stands, there is something in the end that is not void. -/
theorem exists_of_opens (hbuild : build lines = .ok top) {line : Line} (hline : line ∈ lines)
    (hopens : line.Opens name) (hname : name ≠ "__proto__") :
    ∃ node, top.get? name = some node ∧ node.isVoid = false := by
  obtain ⟨before, after, rfl⟩ := List.append_of_mem hline
  obtain ⟨final, hrun, rfl⟩ := map_eq_ok hbuild
  obtain ⟨mid, next, -, hadd, hafter⟩ := foldlM_passes hrun
  obtain ⟨hnext, htarget⟩ := next_of_opens hopens hname hadd
  refine get?_of_rest (q := fun old => ∃ node, old = some node ∧ node.isVoid = false)
    (fun _ _ _ => by simp [htarget]) ?_ hnext hafter
  rintro other - old new hturns ⟨node, rfl, hvoid⟩
  cases hturns with
  | keep => exact ⟨node, rfl, hvoid⟩
  | openNew _ hold => exact absurd (hold node rfl) (by simp [hvoid])
  | give hfirst _ => cases hfirst
  | change _ hchanged =>
    exact ⟨_, rfl, (Node.alike_of_assign hchanged).isVoid_eq.trans hvoid⟩

/-- Without values that are objects there is nothing with options below the sections. -/
theorem isObject_of_mem_section (hbuild : build lines = .ok top)
    (hvalues : ∀ key v, Line.option key v ∈ lines → (Node.ofValue v).isObject = false)
    {ordinary : Bool} {members : Members Node}
    (hget : top.get? name = some (.object ordinary members)) :
    ∀ entry ∈ members, entry.2.isObject = false := by
  refine (get?_of_build (q := fun old => ∀ ordinary members,
    old = some (.object ordinary members) → ordinary = false ∧
      ∀ entry ∈ members, entry.2.isObject = false) ?_ (fun _ _ h => nomatch h) hbuild _ _ hget).2
  intro line hline isFirst hstray old new hturns hold
  cases hturns with
  | keep => exact hold
  | openNew _ _ =>
    rintro _ _ ⟨⟩
    exact ⟨rfl, fun _ h => nomatch h⟩
  | @give _ value bracketed hfirst hgives =>
    obtain ⟨key, v, _, rfl, _, _, rfl⟩ := hgives
    intro _ _ heq
    have hobject := Node.isObject_joined old bracketed (hvalues key v hline)
    rw [Option.some.inj heq] at hobject
    cases hobject
  | @change key v option node changed bracketed heq hchanged =>
    rintro ordinary members ⟨⟩
    subst heq
    cases node with
    | object nodeOrdinary nodeMembers =>
      obtain ⟨rfl, hmembers⟩ := hold _ _ rfl
      rw [Node.assign_section] at hchanged
      obtain ⟨rfl, rfl⟩ := Node.object.inj (Except.ok.inj hchanged)
      refine ⟨rfl, fun entry hentry => ?_⟩
      rcases Members.mem_set hentry with rfl | hentry
      · exact Node.isObject_joined _ bracketed (hvalues key v hline)
      · exact hmembers entry hentry
    | _ =>
      have halike := Node.alike_of_assign hchanged
      exact absurd halike.isObject_eq (by simp [Node.isObject])

/-- Before all headers the lines after the first one do not count. -/
theorem strays_append_header {header : Line} (hheader : header.isOption = false)
    (before after : List Line) : strays (before ++ header :: after) = strays before := by
  have hnone : (header :: after).takeWhile Line.isOption = [] :=
    List.takeWhile_cons_of_neg (by simp [hheader])
  rw [strays, strays, List.takeWhile_append, hnone]
  split_ifs with hall
  · rw [List.append_nil]
    exact ((List.takeWhile_prefix _).eq_of_length hall).symm
  · rfl

/-- What is under the name of a header is a section, if no option before all headers is. -/
theorem exists_section_of_build (hbuild : build lines = .ok top)
    (hstanding : ∀ node, Standing lines name node → node.isVoid = true) {node : Node}
    (hget : top.get? name = some node) (hvoid : node.isVoid = false) :
    ∃ members, node = .object false members := by
  obtain ⟨first, hfirst, hkept⟩ := get?_of_standing hbuild
  have hcases := hkept (fun old => ∀ node, old = some node →
    node.isVoid = true ∨ ∃ members, node = .object false members) name ?_ ?_ node hget
  · exact hcases.resolve_left (by simp [hvoid])
  · intro line _ old new hturns hold
    cases hturns with
    | keep => exact hold
    | openNew _ _ =>
      rintro _ ⟨⟩
      exact .inr ⟨[], rfl⟩
    | give hfirst _ => cases hfirst
    | change _ hchanged =>
      rintro _ ⟨⟩
      rcases hold _ rfl with hvoid | ⟨members, rfl⟩
      · exact .inl ((Node.alike_of_assign hchanged).isVoid_eq.trans hvoid)
      · rw [Node.assign_section] at hchanged
        exact .inr ⟨_, (Except.ok.inj hchanged).symm⟩
  · exact fun node hnode => .inl (hstanding node ⟨first, hfirst, hnode⟩)

/-- After a header a section stays one. -/
theorem exists_section_of_rest {b b' : Building} (htarget : b.target ≠ .top)
    (h : ∃ members, b.top.get? name = some (.object false members))
    (hrun : lines.foldlM Building.add b = .ok b') :
    ∃ members, b'.top.get? name = some (.object false members) := by
  refine get?_of_rest (q := fun old => ∃ members, old = some (.object false members))
    (fun _ _ _ => htarget) ?_ h hrun
  rintro line - old new hturns ⟨members, rfl⟩
  cases hturns with
  | keep => exact ⟨members, rfl⟩
  | openNew _ _ => exact ⟨[], rfl⟩
  | give hfirst _ => cases hfirst
  | change _ hchanged =>
    rw [Node.assign_section] at hchanged
    exact ⟨_, congrArg some (Except.ok.inj hchanged).symm⟩

/-- After a header a section keeps its options, if no value is an object. -/
theorem hasOption_of_rest {b b' : Building} {option : String} (htarget : b.target ≠ .top)
    (hvalues : ∀ key v, Line.option key v ∈ lines → (Node.ofValue v).isObject = false)
    (h : ∃ node, b.top.get? name = some node ∧ node.HasOption option)
    (hrun : lines.foldlM Building.add b = .ok b') :
    ∃ node, b'.top.get? name = some node ∧ node.HasOption option := by
  refine get?_of_rest (q := fun old => ∃ node, old = some node ∧ node.HasOption option)
    (fun _ _ _ => htarget) ?_ h hrun
  rintro line hline old new hturns ⟨node, rfl, hnode⟩
  cases hturns with
  | keep => exact ⟨node, rfl, hnode⟩
  | openNew _ hold =>
    obtain ⟨members, _, rfl, _⟩ := hnode
    exact absurd (hold _ rfl) (by simp [Node.isVoid])
  | give hfirst _ => cases hfirst
  | @change key v _ _ changed _ heq hchanged =>
    exact ⟨changed, rfl, hnode.assign (hvalues key v (heq ▸ hline)) hchanged⟩

/-- An option that is given to a section is there in the end, if no value is an object and no option
stands in the way of the section. -/
theorem exists_option_of_givesBelow (hbuild : build lines = .ok top) {option : String}
    (hbelow : GivesBelow lines name option) (hname : name ≠ "__proto__")
    (hoption : option ≠ "__proto__")
    (hvalues : ∀ key v, Line.option key v ∈ lines → (Node.ofValue v).isObject = false)
    (hstanding : ∀ node, Standing lines name node → node.isVoid = true) :
    ∃ node, top.get? name = some node ∧ node.HasOption option := by
  obtain ⟨before, header, between, line, after, value, rfl, hopens, hbetween, hgives⟩ := hbelow
  obtain ⟨final, hrun, rfl⟩ := map_eq_ok hbuild
  obtain ⟨mid, opened, hmid, hheader, hrest⟩ := foldlM_passes hrun
  obtain ⟨current, given, hcurrent, hline, hafter⟩ := foldlM_passes hrest
  obtain ⟨⟨node, hnode, hvoid⟩, htarget⟩ := next_of_opens hopens hname hheader
  -- the header has opened a section, not an option of its name
  obtain ⟨members, rfl⟩ : ∃ members, node = .object false members := by
    have hprefix : build (before ++ [header]) = .ok opened.top := by
      rw [build, List.foldlM_append, hmid]
      simp only [bind, Except.bind, List.foldlM_cons, hheader, List.foldlM_nil]
      rfl
    refine exists_section_of_build hprefix (fun node hnode => hstanding node ?_) hnode hvoid
    have hoption : header.isOption = false := by
      obtain ⟨v, rfl, -⟩ := hopens
      rfl
    rwa [Standing, strays_append_header hoption, ← strays_append_header hoption before []]
  -- it is still open where the option stands, and later lines give the option no object
  obtain ⟨others, hothers⟩ :=
    exists_section_of_rest (by simp [htarget]) ⟨members, hnode⟩ hcurrent
  have hcurrentTarget : current.target = .inSection name :=
    (target_of_options hbetween hcurrent).trans htarget
  obtain ⟨bracketed, hadd⟩ := Building.add_of_gives hgives hoption current
  simp only [Building.give, hcurrentTarget, hothers, Node.assign_section] at hadd
  obtain rfl := Except.ok.inj (hadd.symm.trans hline)
  refine hasOption_of_rest (by simp [Building.put, hcurrentTarget])
    (fun key v hmem => hvalues key v (by simp [hmem])) ?_ hafter
  obtain ⟨key, v, _, rfl, _, _, rfl⟩ := hgives
  refine ⟨_, by rw [Building.put, Members.get?_set, if_pos rfl], _, _, rfl,
    by rw [Members.get?_set, if_pos rfl], ?_⟩
  exact Node.isObject_joined _ _ (hvalues key v (by simp))

end

end Ini

end LayeredSettings
