import ClassRecovery.Proofs.Files.Written

/-!
A tree from which names were taken out. Nodes and modes stay as they are, so what can still be
reached is reached the way it was before, and what lies apart from the names looks the same.
-/

namespace ClassRecovery

namespace FileNode

/-- What is left of a node without the names that are gone from it. -/
def without (n : FileNode) (i : Nat) (gone : List (Nat × String)) : FileNode :=
  match n.content with
  | .directory entries => ⟨.directory (entries.filter fun e => (i, e.1) ∉ gone), n.mode⟩
  | .file _ => n

@[simp] theorem mode_without (n : FileNode) (i : Nat) (gone : List (Nat × String)) :
    (n.without i gone).mode = n.mode := by
  unfold without
  split <;> rfl

@[simp] theorem allows_without (n : FileNode) (i : Nat) (gone : List (Nat × String))
    (a : Access) : (n.without i gone).allows a = n.allows a := by
  simp [allows]

theorem without_of_notMem {i : Nat} {gone : List (Nat × String)} (h : ∀ e ∈ gone, e.1 ≠ i)
    (n : FileNode) : n.without i gone = n := by
  obtain ⟨content, mode⟩ := n
  cases content with
  | file b => rfl
  | directory entries =>
    have hall : entries.filter (fun e => (i, e.1) ∉ gone) = entries :=
      List.filter_eq_self.mpr fun e _ => decide_eq_true fun hmem => h _ hmem rfl
    simp only [without, hall]

theorem without_without (n : FileNode) (i : Nat) (first second : List (Nat × String)) :
    (n.without i first).without i second = n.without i (first ++ second) := by
  obtain ⟨content, mode⟩ := n
  cases content with
  | file b => rfl
  | directory entries =>
    simp [without, List.filter_filter, Bool.and_comm]

end FileNode

namespace FileSystem

/-- The tree without names that are gone from directories, each given by its number. -/
def without (fs : FileSystem) (gone : List (Nat × String)) : FileSystem :=
  { fs with nodes := fs.nodes.mapIdx fun i n => n.without i gone }

variable {fs : FileSystem} {gone : List (Nat × String)} {i j k : Nat} {name : String}
  {entries : List (String × Nat)} {mode : Nat} {place place' : Place} {names : List String}

theorem node?_without (fs : FileSystem) (gone : List (Nat × String)) (i : Nat) :
    (fs.without gone).node? i = (fs.node? i).map (·.without i gone) := by
  simp [node?, without]

theorem node?_without_directory (h : fs.node? i = some ⟨.directory entries, mode⟩)
    (gone : List (Nat × String)) : (fs.without gone).node? i =
      some ⟨.directory (entries.filter fun e => (i, e.1) ∉ gone), mode⟩ := by
  rw [node?_without, h]
  rfl

theorem node?_without_of_notMem (h : ∀ e ∈ gone, e.1 ≠ i) :
    (fs.without gone).node? i = fs.node? i := by
  rw [node?_without]
  simp [FileNode.without_of_notMem h]

theorem exists_of_node?_without_directory
    (h : (fs.without gone).node? i = some ⟨.directory entries, mode⟩) :
    ∃ before, fs.node? i = some ⟨.directory before, mode⟩ ∧
      entries = before.filter fun e => (i, e.1) ∉ gone := by
  rw [node?_without, Option.map_eq_some_iff] at h
  obtain ⟨⟨content, mode'⟩, hnode, hwithout⟩ := h
  cases content with
  | file b => cases hwithout
  | directory before =>
    cases hwithout
    exact ⟨before, hnode, rfl⟩

theorem isDirectoryNode_of_node? (h : fs.node? i = some ⟨.directory entries, mode⟩) :
    fs.isDirectoryNode i = true := by
  rw [isDirectoryNode, h]

@[simp] theorem isDirectoryNode_without (fs : FileSystem) (gone : List (Nat × String)) (i : Nat) :
    (fs.without gone).isDirectoryNode i = fs.isDirectoryNode i := by
  unfold isDirectoryNode
  rw [node?_without]
  cases fs.node? i with
  | none => rfl
  | some n =>
    obtain ⟨content, mode⟩ := n
    cases content <;> rfl

@[simp] theorem without_nil (fs : FileSystem) : fs.without [] = fs := by
  obtain ⟨nodes, working⟩ := fs
  have hnodes : (nodes.mapIdx fun i n => n.without i []) = nodes := by
    apply Array.ext_getElem?
    intro i
    rw [Array.getElem?_mapIdx]
    simp [FileNode.without_of_notMem]
  simp only [without, hnodes]

theorem without_without (fs : FileSystem) (first second : List (Nat × String)) :
    (fs.without first).without second = fs.without (first ++ second) := by
  unfold without
  simp [Array.mapIdx_mapIdx, Function.comp_def, FileNode.without_without]

/-- Taking one name out of a directory. -/
theorem unlink_eq_without {t : Target}
    (h : fs.node? t.directory = some ⟨.directory entries, mode⟩) :
    fs.unlink t = fs.without [(t.directory, t.name)] := by
  have hbound : t.directory < fs.nodes.size := (Array.getElem?_eq_some_iff.mp h).1
  have hunlink : fs.unlink t =
      fs.setNode t.directory ⟨.directory (entries.filter (·.1 ≠ t.name)), mode⟩ := by
    unfold unlink changeEntries
    rw [h]
  rw [hunlink, setNode, without]
  congr 1
  apply Array.ext_getElem?
  intro k
  rw [Array.getElem?_mapIdx]
  by_cases hk : k = t.directory
  · subst hk
    rw [Array.getElem?_setIfInBounds_self_of_lt hbound, show fs.nodes[t.directory]? = _ from h]
    simp [FileNode.without]
  · rw [Array.getElem?_setIfInBounds_ne (Ne.symm hk)]
    have hother : ∀ e ∈ [(t.directory, t.name)], e.1 ≠ k := by
      simpa using Ne.symm hk
    simp [FileNode.without_of_notMem hother]

theorem lookup_without (entries : List (String × Nat)) (gone : List (Nat × String)) (i : Nat)
    (name : String) : (entries.filter fun e => (i, e.1) ∉ gone).lookup name =
      if (i, name) ∈ gone then none else entries.lookup name := by
  induction entries with
  | nil => simp
  | cons e entries ih =>
    obtain ⟨n, j⟩ := e
    rw [List.filter_cons]
    by_cases hn : name = n
    · subst hn
      by_cases hg : (i, name) ∈ gone
      · simpa [hg] using ih
      · simp [hg]
    · have hbeq : (name == n) = false := by simpa using hn
      split
      · rw [List.lookup_cons, List.lookup_cons, hbeq, ih]
      · rw [ih, List.lookup_cons, hbeq]

section Walking

/-- Every directory that is passed on a walk is left by a name of which this holds. -/
def Along (fs : FileSystem) (P : Nat → String → Prop) : Place → List String → Prop
  | _, [] => True
  | place, name :: rest => (∀ p ∈ place.head?, P p.2 name) ∧
      ∀ next, fs.step place name = .ok next → fs.Along P next rest

theorem searchable_without (fs : FileSystem) (gone : List (Nat × String)) (place : Place) :
    (fs.without gone).searchable place = (fs.searchable place).map fun entries =>
      entries.filter fun e => ∀ p ∈ place.head?, (p.2, e.1) ∉ gone := by
  unfold searchable
  cases place.head? with
  | none => rfl
  | some p =>
    simp only [Option.bind_some, node?_without]
    cases fs.node? p.2 with
    | none => rfl
    | some n =>
      obtain ⟨content, mode⟩ := n
      cases content with
      | file b => rfl
      | directory entries =>
        simp only [Option.map_some, FileNode.without, Option.mem_def, Option.some.injEq,
          forall_eq']
        have hallows : ∀ content, FileNode.allows ⟨content, mode⟩ .search =
            FileNode.allows ⟨.directory entries, mode⟩ .search := fun _ => rfl
        rw [hallows]
        split <;> rfl

theorem step_without (h : ∀ p ∈ place.head?, (p.2, name) ∉ gone) :
    (fs.without gone).step place name = fs.step place name := by
  unfold step
  rw [searchable_without]
  cases fs.searchable place with
  | error e => rfl
  | ok entries =>
    cases hhead : place.head? with
    | none => simp [Except.map, bind, Except.bind]
    | some p =>
      have hp : (p.2, name) ∉ gone := h p hhead
      have hlookup := lookup_without entries gone p.2 name
      rw [if_neg hp] at hlookup
      simp only [Except.map, bind, Except.bind, Option.mem_def, Option.some.injEq, forall_eq',
        hlookup]

theorem walk_without (h : fs.Along (fun k n => (k, n) ∉ gone) place names) :
    (fs.without gone).walk place names = fs.walk place names := by
  induction names generalizing place with
  | nil => rfl
  | cons name names ih =>
    rw [walk, walk, step_without h.1]
    cases hstep : fs.step place name with
    | error e => rfl
    | ok next => exact ih (h.2 next hstep)

/-- What can still be reached was reached the same way before. -/
theorem step_of_without (h : (fs.without gone).step place name = .ok place') :
    fs.step place name = .ok place' := by
  unfold step at h ⊢
  rw [searchable_without] at h
  cases hentries : fs.searchable place with
  | error e =>
    rw [hentries] at h
    cases h
  | ok entries =>
    rw [hentries] at h
    cases hhead : place.head? with
    | none =>
      unfold searchable at hentries
      rw [hhead] at hentries
      cases hentries
    | some p =>
      simp only [hhead, Except.map, bind, Except.bind, Option.mem_def, Option.some.injEq,
        forall_eq', lookup_without] at h ⊢
      by_cases hgone : (p.2, name) ∈ gone
      · simp only [hgone, ↓reduceIte] at h
        split_ifs at h ⊢ <;> exact h
      · simpa only [hgone, ↓reduceIte] using h

theorem walk_of_without (h : (fs.without gone).walk place names = .ok place') :
    fs.walk place names = .ok place' := by
  induction names generalizing place with
  | nil => exact h
  | cons name names ih =>
    rw [walk] at h ⊢
    obtain ⟨next, hstep, hrest⟩ := bind_eq_ok_iff.mp h
    rw [step_of_without hstep]
    exact ih hrest

theorem Along.imp {P Q : Nat → String → Prop} (hpq : ∀ k n, P k n → Q k n)
    (h : fs.Along P place names) : fs.Along Q place names := by
  induction names generalizing place with
  | nil => trivial
  | cons name names ih =>
    exact ⟨fun p hp => hpq _ _ (h.1 p hp), fun next hstep => ih (h.2 next hstep)⟩

theorem Along.without {P : Nat → String → Prop}
    (hgone : fs.Along (fun k n => (k, n) ∉ gone) place names) (h : fs.Along P place names) :
    (fs.without gone).Along P place names := by
  induction names generalizing place with
  | nil => trivial
  | cons name names ih =>
    refine ⟨h.1, fun next hstep => ?_⟩
    rw [step_without hgone.1] at hstep
    exact ih (hgone.2 next hstep) (h.2 next hstep)

theorem along_append {P : Nat → String → Prop} {front back : List String}
    (hwalk : fs.walk place front = .ok place') :
    fs.Along P place (front ++ back) ↔ fs.Along P place front ∧ fs.Along P place' back := by
  induction front generalizing place with
  | nil =>
    cases hwalk
    simp [Along]
  | cons name front ih =>
    rw [walk] at hwalk
    cases hstep : fs.step place name with
    | error e =>
      rw [hstep] at hwalk
      cases hwalk
    | ok next =>
      rw [hstep] at hwalk
      simp only [List.cons_append, Along, hstep, Except.ok.injEq, forall_eq', and_assoc]
      rw [ih hwalk]

end Walking

section Descending

theorem descend?_cons (fs : FileSystem) (i : Nat) (name : String) (names : List String) :
    fs.descend? i (name :: names) =
      (fs.descend? i [name]).bind fun j => fs.descend? j names := by
  rw [← List.singleton_append, descend?_append]

theorem descend?_of_child (hchild : fs.descend? i [name] = some j)
    (h : fs.descend? j names = some k) : fs.descend? i (name :: names) = some k := by
  rw [descend?_cons, hchild]
  exact h

/-- Names that are gone lead nowhere, and all others where they led before. -/
theorem descend?_of_without (h : (fs.without gone).descend? i names = some j) :
    fs.descend? i names = some j := by
  induction names generalizing i with
  | nil => exact h
  | cons name names ih =>
    obtain ⟨entries, mode, k, hnode, hlookup, hk⟩ := directory_of_descend?_cons h
    obtain ⟨before, hbefore, rfl⟩ := exists_of_node?_without_directory hnode
    rw [lookup_without] at hlookup
    split at hlookup
    · cases hlookup
    · rw [descend?_directory hbefore, hlookup]
      exact ih hk

/-- Nothing is gone from the directories at a node and below. -/
def Clear (fs : FileSystem) (i : Nat) (gone : List (Nat × String)) : Prop :=
  ∀ e ∈ gone, ∀ names, fs.descend? i names ≠ some e.1

theorem Clear.node? (h : fs.Clear i gone) : (fs.without gone).node? i = fs.node? i :=
  node?_without_of_notMem fun e he heq => h e he [] (by rw [heq]; rfl)

theorem Clear.child (h : fs.Clear i gone) (hchild : fs.descend? i [name] = some j) :
    fs.Clear j gone := by
  intro e he names hnames
  exact h e he (name :: names) (descend?_of_child hchild hnames)

theorem Clear.descend? (h : fs.Clear i gone) (names : List String) :
    (fs.without gone).descend? i names = fs.descend? i names := by
  induction names generalizing i with
  | nil => rfl
  | cons name names ih =>
    rw [FileSystem.descend?, FileSystem.descend?, h.node?]
    cases hnode : fs.node? i with
    | none => rfl
    | some n =>
      obtain ⟨content, mode⟩ := n
      cases content with
      | file b => rfl
      | directory entries =>
        refine Option.bind_congr fun j hj => ?_
        have hchild : fs.descend? i [name] = some j := by
          rw [descend?_directory hnode, hj]
          rfl
        exact ih (h.child hchild)

end Descending

namespace Approach

variable {path : String} (a : fs.Approach path)

/-- A file that may be removed goes, and nothing else. -/
theorem removeFile_eq (hlookup : a.entries.lookup a.name = some k)
    (hslash : endsInSlash path = false) (hfile : fs.isDirectoryNode k = false) :
    fs.removeFile path = if fs.mayChange a.directory then
        .ok (fs.without [(a.directory, a.name)])
      else .error .permissionDenied := by
  have hunlink : fs.unlink ⟨a.directory, a.name, some k⟩ = fs.without [(a.directory, a.name)] :=
    unlink_eq_without a.node
  unfold removeFile
  rw [a.ending_eq]
  simp only [bind, Except.bind, a.target_eq, hlookup, hslash, hfile, hunlink]
  cases fs.mayChange a.directory <;> rfl

/-- Nothing is found by a name that was taken out. -/
theorem isPresent_without : (fs.without [(a.directory, a.name)]).isPresent path = false := by
  by_contra hpresent
  obtain ⟨⟨j, n⟩, hfind⟩ := isPresent_iff.mp (Bool.eq_true_of_not_eq_false hpresent)
  obtain ⟨origin, place, hstart, hwalk, -⟩ := find_eq_ok_iff.mp hfind
  have horigin : (fs.without [(a.directory, a.name)]).start path = .ok a.origin :=
    (start_congr rfl path).trans a.start
  obtain rfl : a.origin = origin := Except.ok.inj (horigin.symm.trans hstart)
  rw [a.pieces, walk_append] at hwalk
  obtain ⟨above, habove, hlast⟩ := bind_eq_ok_iff.mp hwalk
  obtain rfl : a.place = above := Except.ok.inj (a.walk.symm.trans (walk_of_without habove))
  obtain ⟨next, hstep, -⟩ := bind_eq_ok_iff.mp
    (show (fs.without [(a.directory, a.name)]).step a.place a.name >>= _ = _ from hlast)
  rw [step_name a.head (node?_without_directory a.node _) a.searched a.proper, lookup_without,
    if_pos List.mem_cons_self] at hstep
  cases hstep

end Approach

end FileSystem

end ClassRecovery
