import ClassRecovery.Proofs.Files.Located

/-!
What may be removed of a tree. Whether something is in the way of an entry is a matter of the
directories above it: all of them must let themselves be listed and searched, and its own must let
itself be written. A directory goes only with everything in it.
-/

namespace ClassRecovery.FileSystem

/-- The entry below node `i`, itself an entry of `parent`, cannot be removed for lack of
permission: its directory may not be written, or one above it may not be listed or searched. -/
def Denied (fs : FileSystem) : (parent i : Nat) → List String → Prop
  | parent, _, [] => fs.lets parent .write = false
  | _, i, name :: names => fs.lets i .read = false ∨ fs.lets i .search = false ∨
      ∃ j, fs.descend? i [name] = some j ∧ fs.Denied i j names

/-- The entry stays: it cannot be removed, or something below it cannot. -/
def Kept (fs : FileSystem) (parent i : Nat) (names : List String) : Prop :=
  ∃ rest, (fs.descend? i (names ++ rest)).isSome ∧ fs.Denied parent i (names ++ rest)

/-- A directory that nothing keeps from being removed but what it holds, of which it does not
tell. -/
def Sealed (fs : FileSystem) (parent i : Nat) (names : List String) : Prop :=
  ∃ j e entries mode, fs.descend? i names = some j ∧
    fs.node? j = some ⟨.directory (e :: entries), mode⟩ ∧ fs.lets j .read = false ∧
    ¬fs.Denied parent i names

/-- Where the link to an entry is: the directory that holds it and the name it has there. -/
def link? (fs : FileSystem) : (parent : Nat) → (name : String) → (i : Nat) → List String →
    Option (Nat × String)
  | parent, name, _, [] => some (parent, name)
  | _, _, i, name :: names => (fs.descend? i [name]).bind fun j => fs.link? i name j names

variable {fs : FileSystem} {path name n : String} {parent i j k : Nat} {names : List String}
  {e : String × Nat} {entries : List (String × Nat)} {mode : Nat} {gone : List (Nat × String)}

section Child

theorem denied_cons_iff (hread : fs.lets i .read = true) (hsearch : fs.lets i .search = true)
    (hj : fs.descend? i [n] = some j) :
    fs.Denied parent i (n :: names) ↔ fs.Denied i j names := by
  simp [Denied, hread, hsearch, hj]

theorem kept_cons_iff (hread : fs.lets i .read = true) (hsearch : fs.lets i .search = true)
    (hj : fs.descend? i [n] = some j) : fs.Kept parent i (n :: names) ↔ fs.Kept i j names := by
  refine exists_congr fun rest => ?_
  rw [List.cons_append, denied_cons_iff hread hsearch hj, descend?_cons, hj, Option.bind_some]

theorem sealed_cons_iff (hread : fs.lets i .read = true) (hsearch : fs.lets i .search = true)
    (hj : fs.descend? i [n] = some j) :
    fs.Sealed parent i (n :: names) ↔ fs.Sealed i j names := by
  unfold Sealed
  simp only [denied_cons_iff hread hsearch hj, descend?_cons fs i n names, hj, Option.bind_some]

theorem link?_cons (parent : Nat) (name : String) (hj : fs.descend? i [n] = some j)
    (names : List String) : fs.link? parent name i (n :: names) = fs.link? i n j names := by
  rw [link?, hj, Option.bind_some]

end Child

section Closed

/-- A directory that may not be listed or searched keeps all that is in it. -/
theorem denied_of_closed (h : fs.lets i .read = false ∨ fs.lets i .search = false) :
    fs.Denied parent i (n :: names) :=
  h.imp_right .inl

theorem kept_of_closed (h : fs.lets i .read = false ∨ fs.lets i .search = false)
    (hsome : (fs.descend? i (n :: names)).isSome) : fs.Kept parent i (n :: names) :=
  ⟨[], by rwa [List.append_nil], by rw [List.append_nil]; exact denied_of_closed h⟩

theorem not_sealed_of_closed (h : fs.lets i .read = false ∨ fs.lets i .search = false) :
    ¬fs.Sealed parent i (n :: names) := by
  rintro ⟨_, _, _, _, -, -, -, hdenied⟩
  exact hdenied (denied_of_closed h)

end Closed

/-- What is kept keeps what is above it. -/
theorem Kept.above {front : List String} (back : List String)
    (h : fs.Kept parent i (front ++ back)) : fs.Kept parent i front := by
  obtain ⟨rest, hsome, hdenied⟩ := h
  rw [List.append_assoc] at hsome hdenied
  exact ⟨back ++ rest, hsome, hdenied⟩

theorem denied_concat (hj : fs.descend? i names = some j) (hread : fs.lets j .read = false)
    (parent : Nat) (n : String) : fs.Denied parent i (names ++ [n]) := by
  induction names generalizing parent i with
  | nil =>
    cases hj
    exact denied_of_closed (.inl hread)
  | cons m names ih =>
    rw [descend?_cons] at hj
    obtain ⟨k, hk, hj⟩ := Option.bind_eq_some_iff.mp hj
    exact .inr (.inr ⟨k, hk, ih hj i⟩)

/-- A sealed directory stays: what it holds cannot be removed. -/
theorem Sealed.kept (h : fs.Sealed parent i names) : fs.Kept parent i names := by
  obtain ⟨j, e, entries, mode, hj, hnode, hread, -⟩ := h
  refine ⟨[e.1], ?_, denied_concat hj hread parent e.1⟩
  rw [descend?_append, hj, Option.bind_some, descend?_singleton hnode]
  simp

theorem descend?_isSome_of_link? {entry : Nat × String}
    (h : fs.link? parent name i names = some entry) : (fs.descend? i names).isSome := by
  induction names generalizing parent name i with
  | nil => rfl
  | cons n names ih =>
    obtain ⟨j, hj, hentry⟩ := Option.bind_eq_some_iff.mp h
    rw [descend?_cons, hj, Option.bind_some]
    exact ih hentry

/-- An entry below a node is in the directory that the node is an entry of, or in one at the node
or below. -/
theorem link?_eq_some {entry : Nat × String} (h : fs.link? parent name i names = some entry) :
    names = [] ∧ entry = (parent, name) ∨
      ∃ front, fs.descend? i front = some entry.1 ∧ fs.isDirectoryNode entry.1 = true := by
  induction names generalizing parent name i with
  | nil => exact .inl ⟨rfl, (Option.some.inj h).symm⟩
  | cons n names ih =>
    obtain ⟨j, hj, hentry⟩ := Option.bind_eq_some_iff.mp h
    rcases ih hentry with ⟨-, rfl⟩ | ⟨front, hfront, hdirectory⟩
    · obtain ⟨entries, mode, -, hnode, -⟩ := directory_of_descend?_cons hj
      exact .inr ⟨[], rfl, isDirectoryNode_of_node? hnode⟩
    · exact .inr ⟨n :: front, descend?_of_child hj hfront, hdirectory⟩

namespace Clear

/-- What is gone elsewhere does not matter. -/
theorem denied_iff (h : fs.Clear i gone) (parent : Nat) (names : List String) :
    (fs.without gone).Denied parent i names ↔ fs.Denied parent i names := by
  induction names generalizing parent i with
  | nil => simp [Denied]
  | cons name names ih =>
    simp only [Denied, lets_without, h.descend?]
    refine or_congr_right (or_congr_right (exists_congr fun j => and_congr_right fun hj => ?_))
    exact ih (h.child hj) i

theorem kept_iff (h : fs.Clear i gone) (parent : Nat) (names : List String) :
    (fs.without gone).Kept parent i names ↔ fs.Kept parent i names := by
  unfold Kept
  simp only [h.denied_iff, h.descend?]

theorem below (h : fs.Clear i gone) (hj : fs.descend? i names = some j) : fs.Clear j gone := by
  intro e he rest hrest
  refine h e he (names ++ rest) ?_
  rw [descend?_append, hj]
  exact hrest

theorem sealed_iff (h : fs.Clear i gone) (parent : Nat) (names : List String) :
    (fs.without gone).Sealed parent i names ↔ fs.Sealed parent i names := by
  unfold Sealed
  simp only [h.denied_iff, h.descend?, lets_without]
  refine exists_congr fun j => exists_congr fun e => exists_congr fun entries =>
    exists_congr fun mode => and_congr_right fun hj => ?_
  rw [(h.below hj).node?]

theorem link?_eq (h : fs.Clear i gone) (parent : Nat) (name : String) (names : List String) :
    (fs.without gone).link? parent name i names = fs.link? parent name i names := by
  induction names generalizing parent name i with
  | nil => rfl
  | cons n names ih =>
    rw [link?, link?, h.descend?]
    exact Option.bind_congr fun j hj => ih (h.child hj) i n

end Clear

end ClassRecovery.FileSystem
