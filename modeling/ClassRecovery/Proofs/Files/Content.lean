import ClassRecovery.Proofs.Files.Made
import ClassRecovery.Proofs.Files.Without

/-!
What stands at a path, and what becomes of it when a file is written there and removed again. In a
tree in which every name leads somewhere, what was written can be found, until it is removed.
-/

namespace ClassRecovery

def FileContent.entries : FileContent → List (String × Nat)
  | .directory entries => entries
  | .file _ => []

namespace FileSystem

/-- What stands at a path, if anything does. -/
def contentAt? (fs : FileSystem) (path : String) : Option FileContent :=
  (fs.find path).toOption.map (·.2.content)

/-- Every name in a directory leads to a node. -/
def Linked (fs : FileSystem) : Prop :=
  ∀ n ∈ fs.nodes.toList, ∀ e ∈ n.content.entries, e.2 < fs.nodes.size

instance (fs : FileSystem) : Decidable fs.Linked :=
  inferInstanceAs
    (Decidable (∀ n ∈ fs.nodes.toList, ∀ e ∈ n.content.entries, e.2 < fs.nodes.size))

/-- Whether the path ends in a name that may be removed. -/
def mayRemove (fs : FileSystem) (path : String) : Bool :=
  match fs.ending path with
  | .ok (.name i _) => fs.mayChange i
  | _ => false

variable {fs fs' : FileSystem} {path : String} {i : Nat} {b : Bytes} {n : FileNode}

theorem isFile_iff : fs.isFile path = true ↔ ∃ b, fs.contentAt? path = some (.file b) := by
  unfold isFile contentAt?
  cases fs.find path with
  | error e => simp [Except.toOption]
  | ok found =>
    obtain ⟨i, content, mode⟩ := found
    cases content <;> simp [Except.toOption]

theorem isPresent_eq_false_iff : fs.isPresent path = false ↔ fs.contentAt? path = none := by
  unfold isPresent contentAt?
  cases fs.find path <;> simp [Except.isOk, Except.toBool, Except.toOption]

theorem find_of_contentAt? (h : fs.contentAt? path = some (.file b)) :
    ∃ i mode, fs.find path = .ok (i, ⟨.file b, mode⟩) := by
  obtain ⟨⟨i, content, mode⟩, hfind, rfl⟩ := Option.map_eq_some_iff.mp h
  refine ⟨i, mode, ?_⟩
  cases hfound : fs.find path with
  | error e =>
    rw [hfound] at hfind
    cases hfind
  | ok found =>
    rw [hfound] at hfind
    cases hfind
    rfl

/-- What is found has a full path. -/
theorem canonical_of_isFile (h : fs.isFile path = true) : ∃ full, fs.canonical path = .ok full := by
  obtain ⟨b, hb⟩ := isFile_iff.mp h
  obtain ⟨i, mode, hfind⟩ := find_of_contentAt? hb
  obtain ⟨place, hplace, -⟩ := bind_eq_ok_iff.mp hfind
  refine ⟨"/" ++ "/".intercalate ((place.map (·.1)).reverse.drop 1), ?_⟩
  unfold canonical
  rw [hplace]
  rfl

section Linking

theorem linked_iff : fs.Linked ↔ ∀ {i entries mode},
    fs.node? i = some ⟨.directory entries, mode⟩ → ∀ e ∈ entries, e.2 < fs.nodes.size := by
  constructor
  · intro h i entries mode hnode
    exact h ⟨.directory entries, mode⟩ (Array.mem_toList_iff.mpr (Array.mem_of_getElem? hnode))
  · intro h n hn e he
    obtain ⟨i, hi⟩ := Array.mem_iff_getElem?.mp (Array.mem_toList_iff.mp hn)
    obtain ⟨content, mode⟩ := n
    cases content with
    | directory entries => exact h hi e he
    | file b => cases he

/-- A name that is added leads to the new node. -/
theorem Linked.added (h : fs.Linked) (a : fs.Approach path) (hn : n.content.entries = []) :
    (a.added n).Linked := by
  have hsize : (a.added n).nodes.size = fs.nodes.size + 1 := by
    simp [Approach.added, FileSystem.added, FileSystem.setNode]
  rw [linked_iff] at h ⊢
  intro k entries' mode' hk e he
  rw [hsize]
  rw [a.node?_added] at hk
  split at hk
  · cases hk
    rcases List.mem_append.mp he with he | he
    · exact Nat.lt_succ_of_lt (h a.node e he)
    · rw [List.mem_singleton.mp he]
      exact Nat.lt_succ_self _
  · split at hk
    · cases hk
      rw [show entries' = [] from hn] at he
      cases he
    · exact Nat.lt_succ_of_lt (h hk e he)

theorem Linked.makeDirectory (h : fs.Linked) (hmake : fs.makeDirectory path = .ok fs') :
    fs'.Linked := by
  obtain ⟨a, -, rfl⟩ := makeDirectory_eq_ok hmake
  exact h.added a rfl

theorem Linked.makeDirectories (h : fs.Linked) (path : String) :
    (fs.makeDirectories path).1.Linked :=
  keeps_makeDirectories Linked (fun _ hlinked hmake => hlinked.makeDirectory hmake)
    (List.Subset.refl _) h

/-- A name that leads nowhere is none. -/
theorem Linked.lookup_eq_none (h : fs.Linked) (a : fs.Approach path)
    (hmissing : (a.entries.lookup a.name).bind fs.node? = none) :
    a.entries.lookup a.name = none := by
  cases hlookup : a.entries.lookup a.name with
  | none => rfl
  | some j =>
    obtain ⟨before, behind, hentries, -⟩ := List.lookup_eq_some_iff.mp hlookup
    have hsome := linked_iff.mp h a.node (a.name, j) (by simp [hentries])
    rw [hlookup, Option.bind_some, node?, Array.getElem?_eq_none_iff] at hmissing
    exact absurd hsome (Nat.not_lt.mpr hmissing)

/-- A file that was written is there. -/
theorem contentAt?_of_write (h : fs.Linked) (hwrite : fs.write path b = .ok fs') :
    fs'.contentAt? path = some (.file b) := by
  obtain ⟨a, hslash, ⟨j, old, m, hlookup, hj, rfl⟩ | ⟨hmissing, rfl⟩⟩ := write_eq_ok hwrite
  · have hnode := node?_setNode (Array.getElem?_eq_some_iff.mp hj).1 ⟨.file b, m⟩ j
    have hfind := (a.overwritten hj b).find_of_lookup hlookup (hnode.trans (if_pos rfl))
      (by simp [hslash])
    rw [contentAt?, hfind]
    rfl
  · have hlookup := a.lookup_extended (h.lookup_eq_none a hmissing) ⟨.file b, 0o644⟩
    have hfind := (a.extended _).find_of_lookup hlookup (a.node?_extended _) (by simp [hslash])
    rw [contentAt?, hfind]
    rfl

end Linking

/-- A file that may be removed can be, and then nothing is there any more. -/
theorem removeFile_of_contentAt? (h : fs.contentAt? path = some (.file b))
    (hmay : fs.mayRemove path = true) :
    ∃ fs', fs.removeFile path = .ok fs' ∧ fs'.contentAt? path = none := by
  obtain ⟨k, mode, hfind⟩ := find_of_contentAt? h
  unfold mayRemove at hmay
  split at hmay
  · next i name hending =>
    obtain ⟨a, rfl, rfl⟩ := exists_approach hending (short_of_find hending hfind)
    obtain ⟨hlookup, hk⟩ := a.lookup_of_find hfind
    have hfile : fs.isDirectoryNode k = false := by rw [isDirectoryNode, hk]
    obtain ⟨_, _, -, -, -, -, hslash⟩ := find_eq_ok_iff.mp hfind
    refine ⟨_, (a.removeFile_eq hlookup ?_ hfile).trans (if_pos hmay), ?_⟩
    · simpa [hfile] using hslash
    · exact isPresent_eq_false_iff.mp a.isPresent_without
  · cases hmay

end FileSystem

end ClassRecovery
