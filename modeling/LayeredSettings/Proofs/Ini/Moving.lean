import LayeredSettings.Proofs.Ini.Address
import LayeredSettings.Proofs.Ini.Building

/-!
# What moving sections leaves alone

Sections of any tree move to where their names say. A section that moves may take another along, or
put it in motion by taking its name, but all that stands at the top stays what it is unless some
section may come to stand there or below.

* `Stands`, `Reached` — where sections may come to stand;
* `Moving.Moved`, `moved_of_move` — all that one move can do;
* `Moving.Kept` — what moving one section after the other preserves;
* `keeps_of_nest`, `get?_nest`, `hasOption_nest` — what holds of a node at the top in the end if it
  held before.
-/

namespace LayeredSettings.Ini

/-! ## Places -/

/-- Where the section of a name may come to stand, if sections of some names move on their own. -/
inductive Stands (moves : String → Prop) : String → List String → Prop
  /-- It moves on its own to where its name says. -/
  | own {name : String} {a : Address} : moves name → Address.of? name = some a →
      Stands moves name a.place
  /-- It is made, or taken over, by a section that moves through its name, and then moves too. -/
  | taken {name other : String} {rest : List String} {a : Address} :
      Stands moves other (name :: rest) → Address.of? name = some a → Stands moves name a.place
  /-- It moves through another that is not at its old place any more. -/
  | through {name first : String} {a : Address} {rest home : List String} :
      Stands moves name a.place → Address.of? name = some a → a.path = first :: rest →
      Stands moves first home → Stands moves name (home ++ rest ++ [a.name])
  /-- It is taken along by another that it stands below. -/
  | carried {name other : String} {rest place : List String} :
      Stands moves name (other :: rest) → Stands moves other place →
      Stands moves name (place ++ rest)

/-- Whether a section may come to stand under a name at the top, or below. -/
def Reached (moves : String → Prop) (name : String) : Prop :=
  ∃ other rest, Stands moves other (name :: rest)

theorem stands_of_moves {moves : String → Prop} {name : String} {a : Address}
    (h : moves name ∨ Reached moves name) (ha : Address.of? name = some a) :
    Stands moves name a.place := by
  rcases h with h | ⟨other, rest, h⟩
  · exact .own h ha
  · exact .taken h ha

theorem Stands.ne_nil {moves : String → Prop} {name : String} {place : List String}
    (h : Stands moves name place) : place ≠ [] := by
  induction h with
  | own _ _ => simp [Address.place]
  | taken _ _ _ => simp [Address.place]
  | through _ _ _ _ _ _ => simp
  | carried _ _ _ ih => exact List.append_ne_nil_of_left_ne_nil ih _

/-- No section takes the place of one at the top whose name has no dots. -/
theorem Stands.dot_mem {moves : String → Prop} {other name : String}
    (h : Stands moves other [name]) : '.' ∈ name.toList := by
  have hown {other : String} {a : Address} (ha : Address.of? other = some a)
      (hplace : a.place = [name]) : '.' ∈ name.toList := by
    obtain ⟨hpath, hname⟩ : a.path = [] ∧ a.name = name := by
      simpa [Address.place, List.append_eq_singleton_iff] using hplace
    rw [← hname]
    exact Address.dot_mem_name ha hpath
  generalize hplace : [name] = place at h
  induction h with
  | own _ ha => exact hown ha hplace.symm
  | taken _ ha _ => exact hown ha hplace.symm
  | through _ _ _ hhome _ _ =>
    have hlength := congrArg List.length hplace
    have hne := List.length_pos_of_ne_nil hhome.ne_nil
    simp at hlength
    omega
  | @carried _ _ rest place _ hother _ ih =>
    have hlength := congrArg List.length hplace
    have hne := List.length_pos_of_ne_nil hother.ne_nil
    simp only [List.length_singleton, List.length_append] at hlength
    have hrest : rest = [] := List.length_eq_zero_iff.mp (by omega)
    rw [hrest, List.append_nil] at hplace
    exact ih hplace

/-- Where no name has an address nothing moves. -/
theorem not_reached_of_forall {moves : String → Prop}
    (h : ∀ name, moves name → Address.of? name = none) (name : String) :
    ¬ Reached moves name := by
  rintro ⟨other, rest, hstands⟩
  generalize name :: rest = place at hstands
  induction hstands with
  | own hmoves ha =>
    rw [h _ hmoves] at ha
    cases ha
  | taken _ _ ih => exact ih
  | through _ _ _ _ ih _ => exact ih
  | carried _ _ ih _ => exact ih

/-! ## One move -/

/-- A node that is put somewhere is put under a name, or into what a name leads to. If that has
members already, they are kept. -/
theorem Node.place_cases {members : Members Node} {path : List String} {name : String}
    {node result : Node} (h : (object false members).place path name node = .ok result) :
    (path = [] ∧ result = object false (members.set name node)) ∨
      ∃ head rest container part, path = head :: rest ∧
        result = object false (members.set head part) ∧ container.place rest name node = .ok part ∧
        ∀ old, members.get? head = some old → old.isContainer = true → container = old := by
  have hset (head : String) (part : Node) : (object false members).setMember head part =
      .ok (object false (members.set head part)) := rfl
  cases path with
  | nil => exact .inl ⟨rfl, (Except.ok.inj h).symm⟩
  | cons head rest =>
    have hgo {container : Node} (hplace : ((container.place rest name node).bind fun part =>
          (object false members).setMember head part) = .ok result)
        (hold : ∀ old, members.get? head = some old → old.isContainer = true → container = old) :
        ∃ head' rest' container part, head :: rest = head' :: rest' ∧
          result = object false (members.set head' part) ∧
          container.place rest' name node = .ok part ∧
          ∀ old, members.get? head' = some old → old.isContainer = true → container = old := by
      obtain ⟨part, hpart, hresult⟩ := bind_eq_ok hplace
      exact ⟨head, rest, container, part, rfl,
        (Except.ok.inj ((hset head part).symm.trans hresult)).symm, hpart, hold⟩
    right
    rw [place] at h
    simp only [member?] at h
    split at h
    · cases h
    · rename_i child hget
      split at h
      · exact hgo h fun old hold _ => Option.some.inj (hget.symm.trans hold)
      · rename_i hchild
        refine hgo h fun old hold hcontainer => ?_
        rw [hget] at hold
        rw [Option.some.inj hold] at hchild
        exact absurd hcontainer hchild
    · rename_i hget
      refine hgo h fun old hold _ => ?_
      rw [hget] at hold
      cases hold

/-- What a node is put into stays alike. -/
theorem Node.alike_of_place {container node result : Node} {path : List String} {name : String}
    (h : container.place path name node = .ok result) : container.Alike result := by
  cases path with
  | nil => exact alike_of_setMember h
  | cons head rest =>
    rw [place] at h
    split at h
    · cases h
    · split at h
      · obtain ⟨part, -, hpart⟩ := bind_eq_ok h
        exact alike_of_setMember hpart
      · obtain ⟨part, -, hpart⟩ := bind_eq_ok h
        exact alike_of_setMember hpart
    · obtain ⟨part, -, hpart⟩ := bind_eq_ok h
      exact alike_of_setMember hpart

/-- What is put into a section leaves its options alone, but for the one that it is put under. -/
theorem Node.HasOption.place {node added result : Node} {option last : String}
    {path : List String} (h : node.HasOption option)
    (hpath : (path ++ [last]).head? ≠ some option)
    (hplace : node.place path last added = .ok result) : result.HasOption option := by
  obtain ⟨members, leaf, rfl, hleaf, hobject⟩ := h
  rcases place_cases hplace with ⟨rfl, rfl⟩ | ⟨head, rest, container, part, rfl, rfl, -⟩
  · refine ⟨_, leaf, rfl, ?_, hobject⟩
    rw [Members.get?_set, if_neg, hleaf]
    rintro rfl
    exact hpath rfl
  · refine ⟨_, leaf, rfl, ?_, hobject⟩
    rw [Members.get?_set, if_neg, hleaf]
    rintro rfl
    exact hpath rfl

/-- All that the move of the section of a name can do. -/
inductive Moving.Moved (m : Moving) (name : String) : Moving → Prop
  /-- There is nothing that moves. -/
  | stay : Moved m name m
  /-- The way leads through a section that is nowhere. -/
  | lose {a : Address} {node : Node} : Address.of? name = some a → m.top.get? name = some node →
      node.isMovable = true → Moved m name { m with left := name :: m.left }
  /-- The section is put at its place. -/
  | put {a : Address} {node : Node} {path : List String} {after : Moving} :
      Address.of? name = some a → m.top.get? name = some node → node.isMovable = true →
      m.current a.path = some path →
      (Node.object false m.top).place path a.name node = .ok (.object false after.top) →
      after.left = name :: m.left →
      (∀ entry ∈ after.homes, (entry.1 = name ∧ entry.2 = some (path ++ [a.name])) ∨
        ∃ old ∈ m.homes, entry.1 = old.1 ∧
          entry.2 = old.2.bind (movedHome name (path ++ [a.name]))) →
      Moved m name after

theorem moved_of_move {m after : Moving} {name : String} (h : m.move name = .ok after) :
    m.Moved name after := by
  unfold Moving.move at h
  split at h
  · rename_i node a hget ha
    split at h
    · obtain rfl := Except.ok.inj h
      exact .stay
    · rename_i hmovable
      have hmovable : node.isMovable = true := by simpa using hmovable
      cases hcurrent : m.current a.path with
      | none =>
        simp only [hcurrent] at h
        obtain rfl := Except.ok.inj h
        exact .lose ha hget hmovable
      | some path =>
        simp only [hcurrent] at h
        obtain ⟨result, hplace, hresult⟩ := bind_eq_ok h
        obtain ⟨top, rfl⟩ : ∃ top, result = .object false top := by
          rcases Node.place_cases hplace with ⟨-, rfl⟩ | ⟨_, _, _, _, -, rfl, -⟩
          · exact ⟨_, rfl⟩
          · exact ⟨_, rfl⟩
        obtain rfl := Except.ok.inj hresult
        refine .put ha hget hmovable hcurrent hplace rfl fun entry hentry => ?_
        rcases List.mem_cons.mp hentry with rfl | hentry
        · exact .inl ⟨rfl, rfl⟩
        · obtain ⟨old, hold, rfl⟩ := List.mem_map.mp (List.mem_filter.mp hentry).1
          exact .inr ⟨old, hold, rfl, rfl⟩
  · obtain rfl := Except.ok.inj h
    exact .stay

/-- A name is not left unless what it holds moves to an address. -/
theorem Moving.Moved.not_mem_left {m after : Moving} {mover name : String} (h : m.Moved mover after)
    (hleft : name ∉ m.left)
    (hstay : ∀ node, m.top.get? name = some node → node.isMovable = true →
      Address.of? name = none) : name ∉ after.left := by
  have hother {a : Address} {moving : Node} (ha : Address.of? mover = some a)
      (hmoving : m.top.get? mover = some moving) (hmovable : moving.isMovable = true) :
      name ∉ mover :: m.left := by
    rw [List.mem_cons, not_or]
    refine ⟨?_, hleft⟩
    rintro rfl
    rw [hstay moving hmoving hmovable] at ha
    cases ha
  cases h with
  | stay => exact hleft
  | lose ha hmoving hmovable => exact hother ha hmoving hmovable
  | put ha hmoving hmovable _ _ hafterLeft _ =>
    rw [hafterLeft]
    exact hother ha hmoving hmovable

/-! ## All moves -/

/-- What moving sections preserves, if no sections but those of `moves` move on their own. -/
structure Moving.Kept (moves : String → Prop) (top : Members Node) (m : Moving) : Prop where
  top_kept : ∀ name, ¬ Reached moves name → m.top.get? name = top.get? name
  homes_stand : ∀ entry ∈ m.homes, ∀ home, entry.2 = some home → Stands moves entry.1 home

section

variable {moves : String → Prop} {top : Members Node} {m : Moving}

/-- A section that moves is one that moves on its own, or one that was put in motion. -/
theorem Moving.Kept.moves_or_reached (h : m.Kept moves top)
    (hmoves : ∀ name node, top.get? name = some node → node.isMovable = true → moves name)
    {name : String} {node : Node} (hget : m.top.get? name = some node)
    (hmovable : node.isMovable = true) : moves name ∨ Reached moves name := by
  by_cases hreached : Reached moves name
  · exact .inr hreached
  · rw [h.top_kept name hreached] at hget
    exact .inl (hmoves name node hget hmovable)

/-- A section is put where it may come to stand. -/
theorem Moving.Kept.stands (h : m.Kept moves top) {name : String} {a : Address}
    {path : List String} (hname : moves name ∨ Reached moves name)
    (ha : Address.of? name = some a) (hcurrent : m.current a.path = some path) :
    Stands moves name (path ++ [a.name]) := by
  have hown : Stands moves name (a.path ++ [a.name]) := stands_of_moves hname ha
  unfold Moving.current at hcurrent
  split at hcurrent
  · rename_i hpath
    obtain rfl := Option.some.inj hcurrent
    rwa [hpath] at hown
  · rename_i first rest hpath
    split at hcurrent
    · rename_i found hlookup
      obtain ⟨home, rfl, rfl⟩ := Option.map_eq_some_iff.mp hcurrent
      obtain ⟨before, after, hhomes, -⟩ := List.lookup_eq_some_iff.mp hlookup
      exact .through hown ha hpath (h.homes_stand (first, some home) (by simp [hhomes]) home rfl)
    · obtain rfl := Option.some.inj hcurrent
      exact hown

theorem Moving.Kept.moved (h : m.Kept moves top)
    (hmoves : ∀ name node, top.get? name = some node → node.isMovable = true → moves name)
    {name : String} {after : Moving} (hmoved : m.Moved name after) : after.Kept moves top := by
  cases hmoved with
  | stay => exact h
  | lose ha hget hmovable => exact ⟨h.top_kept, h.homes_stand⟩
  | @put a node path _ ha hget hmovable hcurrent hplace hleft hhomes =>
    have hname := h.moves_or_reached hmoves hget hmovable
    have hstands := h.stands hname ha hcurrent
    refine ⟨fun other hother => ?_, fun entry hentry home hhome => ?_⟩
    · rcases Node.place_cases hplace with ⟨rfl, htop⟩ | ⟨head, rest, container, part, rfl, htop, -⟩
      · rw [(Node.object.inj htop).2, Members.get?_set, if_neg, h.top_kept other hother]
        rintro rfl
        exact hother ⟨name, [], hstands⟩
      · rw [(Node.object.inj htop).2, Members.get?_set, if_neg, h.top_kept other hother]
        rintro rfl
        exact hother ⟨name, _, hstands⟩
    · rcases hhomes entry hentry with ⟨heq, hnew⟩ | ⟨old, hold, heq, hmovedHome⟩
      · rw [hhome] at hnew
        obtain rfl := Option.some.inj hnew
        rwa [heq]
      · -- a home moves along only with the section that it is below
        rw [hhome] at hmovedHome
        obtain ⟨oldHome, holdHome, hmovedHome⟩ := Option.bind_eq_some_iff.mp hmovedHome.symm
        have holdStands := h.homes_stand old hold oldHome holdHome
        rw [heq]
        unfold movedHome at hmovedHome
        split at hmovedHome
        · rename_i hhead
          obtain rfl := Option.some.inj hmovedHome
          obtain ⟨rest, rfl⟩ := List.head?_eq_some_iff.mp hhead
          exact .carried holdStands hstands
        · split at hmovedHome
          · cases hmovedHome
          · obtain rfl := Option.some.inj hmovedHome
            exact holdStands

/-- In the end a name that is not left holds what it holds after all moves. -/
theorem exists_run_of_nest {tree : Members Node} (hnest : nest top = .ok tree) :
    ∃ final : Moving, top.names.foldlM Moving.move { top, homes := [], left := [] } = .ok final ∧
      ∀ name, name ∉ final.left → tree.get? name = final.top.get? name := by
  obtain ⟨final, hrun, hfilter⟩ := bind_eq_ok hnest
  obtain rfl := Except.ok.inj hfilter
  refine ⟨final, hrun, fun name hleft => ?_⟩
  rw [Members.get?_filter final.top (fun name => !final.left.contains name) name,
    if_pos (by simpa using hleft)]

/-- What is true of a node at the top is true of it in the end if it stays where it is and every
section that may come to stand there is put into it and keeps that true. -/
theorem keeps_of_nest (keeps : Node → Prop) {tree : Members Node} (hnest : nest top = .ok tree)
    (hmoves : ∀ name node, top.get? name = some node → node.isMovable = true → moves name)
    {name : String}
    (hstay : ∀ node, keeps node → node.isMovable = true → Address.of? name = none)
    (hgrow : ∀ other rest, Stands moves other (name :: rest) → rest ≠ [] ∧
      ∀ node, keeps node → node.isContainer = true ∧ ∀ path last added result,
        rest = path ++ [last] → node.place path last added = .ok result → keeps result)
    {node : Node} (hget : top.get? name = some node) (hnode : keeps node) :
    ∃ final, tree.get? name = some final ∧ keeps final := by
  obtain ⟨final, hrun, hend⟩ := exists_run_of_nest hnest
  obtain ⟨-, hleft, last, hlast, hkeeps⟩ : final.Kept moves top ∧ name ∉ final.left ∧
      ∃ node, final.top.get? name = some node ∧ keeps node := by
    refine foldlM_keeps (q := fun m : Moving => m.Kept moves top ∧ name ∉ m.left ∧
      ∃ node, m.top.get? name = some node ∧ keeps node) ?_ ?_ hrun
    · rintro mover - m after ⟨hkept, hleft, node, hget, hnode⟩ hmove
      have hmoved := moved_of_move hmove
      have hafterLeft := hmoved.not_mem_left hleft fun other hother =>
        hstay other (Option.some.inj (hget.symm.trans hother) ▸ hnode)
      refine ⟨hkept.moved hmoves hmoved, hafterLeft, ?_⟩
      cases hmoved with
      | stay => exact ⟨node, hget, hnode⟩
      | lose _ _ _ => exact ⟨node, hget, hnode⟩
      | @put a moving path _ ha hmoving hmovable hcurrent hplace _ _ =>
        have hstands := hkept.stands (hkept.moves_or_reached hmoves hmoving hmovable) ha hcurrent
        rcases Node.place_cases hplace with
          ⟨rfl, htop⟩ | ⟨head, rest, container, part, rfl, htop, hpart, hold⟩
        · rw [(Node.object.inj htop).2, Members.get?_set, if_neg]
          · exact ⟨node, hget, hnode⟩
          · rintro rfl
            exact (hgrow mover [] hstands).1 rfl
        · rw [(Node.object.inj htop).2, Members.get?_set]
          split_ifs with hname
          · subst hname
            obtain ⟨hcontainer, hkeeps⟩ := (hgrow mover _ hstands).2 node hnode
            obtain rfl := hold node hget hcontainer
            exact ⟨part, rfl, hkeeps rest a.name _ part rfl hpart⟩
          · exact ⟨node, hget, hnode⟩
    · exact ⟨⟨fun _ _ => rfl, by simp⟩, by simp, node, hget, hnode⟩
  exact ⟨last, by rw [hend name hleft, hlast], hkeeps⟩

/-- What a name holds that no section comes to, and that does not move itself, it holds in the
end. -/
theorem get?_nest {tree : Members Node} (hnest : nest top = .ok tree)
    (hmoves : ∀ name node, top.get? name = some node → node.isMovable = true → moves name)
    {name : String} (hreached : ¬ Reached moves name) {node : Node}
    (hget : top.get? name = some node)
    (hstay : node.isMovable = true → Address.of? name = none) : tree.get? name = some node := by
  obtain ⟨final, hfinal, rfl⟩ := keeps_of_nest (· = node) hnest hmoves
    (fun _ heq hmovable => hstay (heq ▸ hmovable))
    (fun other rest hstands => absurd ⟨other, rest, hstands⟩ hreached) hget rfl
  exact hfinal

/-- A section whose name has no dots keeps an option that no section takes the place of. -/
theorem hasOption_nest {tree : Members Node} (hnest : nest top = .ok tree)
    (hmoves : ∀ name node, top.get? name = some node → node.isMovable = true → moves name)
    {name option : String} (haddress : Address.of? name = none) (hdot : '.' ∉ name.toList)
    (hfree : ∀ other rest, ¬ Stands moves other (name :: option :: rest)) {node : Node}
    (hget : top.get? name = some node) (hnode : node.HasOption option) :
    ∃ final, tree.get? name = some final ∧ final.HasOption option := by
  refine keeps_of_nest (fun node => node.HasOption option) hnest hmoves
    (fun _ _ _ => haddress) (fun other rest hstands => ?_) hget hnode
  refine ⟨?_, fun node hnode => ⟨?_, fun path last added result hrest hplace => ?_⟩⟩
  · rintro rfl
    exact hdot hstands.dot_mem
  · obtain ⟨members, _, rfl, _⟩ := hnode
    rfl
  · refine hnode.place (fun hhead => ?_) hplace
    rw [← hrest] at hhead
    obtain ⟨tail, rfl⟩ := List.head?_eq_some_iff.mp hhead
    exact hfree other tail hstands

/-- A name without an address is not left by what it holds. -/
theorem isSome_get?_nest {tree : Members Node} (hnest : nest top = .ok tree) {name : String}
    (haddress : Address.of? name = none) (hname : (top.get? name).isSome = true) :
    (tree.get? name).isSome = true := by
  obtain ⟨final, hrun, hend⟩ := exists_run_of_nest hnest
  obtain ⟨hsome, hleft⟩ : (final.top.get? name).isSome = true ∧ name ∉ final.left := by
    refine foldlM_keeps
      (q := fun m : Moving => (m.top.get? name).isSome = true ∧ name ∉ m.left) ?_ ?_ hrun
    · rintro mover - m after ⟨hsome, hleft⟩ hmove
      have hmoved := moved_of_move hmove
      refine ⟨?_, hmoved.not_mem_left hleft fun _ _ _ => haddress⟩
      have hset (head : String) (part : Node) :
          ((m.top.set head part).get? name).isSome = true := by
        rw [Members.get?_set]
        split_ifs
        · rfl
        · exact hsome
      cases hmoved with
      | stay => exact hsome
      | lose _ _ _ => exact hsome
      | put _ _ _ _ hplace _ _ =>
        rcases Node.place_cases hplace with ⟨-, htop⟩ | ⟨_, _, _, _, -, htop, -⟩
        · rw [(Node.object.inj htop).2]
          exact hset _ _
        · rw [(Node.object.inj htop).2]
          exact hset _ _
    · exact ⟨hname, by simp⟩
  rwa [hend name hleft]

end

end LayeredSettings.Ini
