import ClassRecovery.Proofs.Files.Absence
import ClassRecovery.Proofs.Files.Without

/-!
A path at which something stands, and the tree below it. What the path comes to, what is listed
there and what can be removed depends on the modes of the directories on the way alone.
-/

namespace ClassRecovery.FileSystem

/-- Whether the mode of a node lets its owner do this. -/
def lets (fs : FileSystem) (i : Nat) (a : Access) : Bool := (fs.node? i).any (·.allows a)

/-- A name that a directory can hold. -/
structure Proper (name : String) : Prop where
  slash : '/' ∉ name.toList
  nul : '\x00' ∉ name.toList
  filled : name ≠ ""
  names : Names [name]

/-- The names in a directory are proper, and each is there once. -/
def Orderly : FileContent → Prop
  | .directory entries => (entries.map (·.1)).Nodup ∧ ∀ e ∈ entries, Proper e.1
  | .file _ => True

/-- Below the node stands a tree, and all paths in it can be used. There is one way only to each
directory. -/
structure FileTree (fs : FileSystem) (path : String) (i : Nat) : Prop where
  listed : ∀ {names j}, fs.descend? i names = some j → ∃ node ∈ fs.node? j, Orderly node.content
  single : ∀ {front back j}, fs.descend? i front = some j → fs.descend? i back = some j →
    fs.isDirectoryNode j = true → front = back
  short : ∀ {names j}, fs.descend? i names = some j →
    byteLength (names.foldl Path.join path) ≤ pathLimit

/-- The path leads to a directory that may be searched and then by its last name to the node. On
the way to that directory it stays outside of what is below the node. -/
structure Located (fs : FileSystem) (path : String) (parent : Nat) (name : String) (i : Nat) :
    Prop where
  start : fs.start path = .ok (fs.origin path)
  above : ∃ front place, pieces path = front ++ [name] ∧
    fs.walk (fs.origin path) front = .ok place ∧ place.head?.map (·.2) = some parent
  apart : fs.Along (fun k _ => ∀ names, fs.descend? i names ≠ some k) (fs.origin path)
    (pieces path)
  searched : fs.lets parent .search = true
  entry : fs.descend? parent [name] = some i
  proper : Names [name]
  slash : endsInSlash path = true → fs.isDirectoryNode i = true

variable {fs : FileSystem} {path name n : String} {parent i j : Nat} {names : List String}
  {entries : List (String × Nat)} {mode : Nat} {gone : List (Nat × String)} {a : Access}

theorem lets_directory {content : FileContent} (h : fs.node? i = some ⟨content, mode⟩) :
    fs.lets i a = mode.testBit a.bit := by
  rw [lets, h]
  rfl

@[simp] theorem lets_without (fs : FileSystem) (gone : List (Nat × String)) (i : Nat)
    (a : Access) : (fs.without gone).lets i a = fs.lets i a := by
  unfold lets
  rw [node?_without]
  cases fs.node? i <;> simp

theorem descend?_singleton (h : fs.node? i = some ⟨.directory entries, mode⟩) (name : String) :
    fs.descend? i [name] = entries.lookup name := by
  rw [descend?_directory h]
  cases entries.lookup name <;> rfl

theorem Proper.inner (h : Proper name) : Path.Inner name :=
  Path.inner_of_notMem h.slash h.filled

theorem Proper.pieces (h : Proper name) : FileSystem.pieces name = [name] :=
  h.inner.pieces.trans (Text.split_of_notMem h.slash)

theorem Proper.reachable (h : Proper name) (hshort : byteLength (Path.join path name) ≤ pathLimit) :
    Reachable path name where
  inner := h.inner
  nul := h.nul
  names := h.pieces.symm ▸ h.names
  short := hshort

theorem Orderly.without {node : FileNode} (h : Orderly node.content) (i : Nat)
    (gone : List (Nat × String)) : Orderly (node.without i gone).content := by
  obtain ⟨content, mode⟩ := node
  cases content with
  | file b => trivial
  | directory entries =>
    exact ⟨h.1.sublist (List.filter_sublist.map _), fun e he => h.2 e (List.mem_of_mem_filter he)⟩

namespace FileTree

theorem root (h : FileTree fs path i) : ∃ node, fs.node? i = some node := by
  obtain ⟨node, hnode, -⟩ := h.listed (show fs.descend? i [] = some i from rfl)
  exact ⟨node, hnode⟩

theorem listing (h : FileTree fs path i)
    (hnode : fs.node? i = some ⟨.directory entries, mode⟩) :
    (entries.map (·.1)).Nodup ∧ ∀ e ∈ entries, Proper e.1 := by
  obtain ⟨node, hsome, horderly⟩ := h.listed (show fs.descend? i [] = some i from rfl)
  cases hnode.symm.trans hsome
  exact horderly

theorem descend?_iff_mem (h : FileTree fs path i)
    (hnode : fs.node? i = some ⟨.directory entries, mode⟩) :
    fs.descend? i [n] = some j ↔ (n, j) ∈ entries := by
  rw [descend?_singleton hnode, List.lookup_eq_some_iff]
  constructor
  · rintro ⟨front, back, rfl, -⟩
    simp
  · intro hmem
    obtain ⟨front, back, rfl⟩ := List.append_of_mem hmem
    refine ⟨front, back, rfl, fun e he => ?_⟩
    obtain ⟨hnodup, -⟩ := h.listing hnode
    rw [List.map_append, List.nodup_append] at hnodup
    exact bne_iff_ne.mpr (hnodup.2.2 e.1 (List.mem_map_of_mem he) n (by simp)).symm

theorem child (h : FileTree fs path i) (hchild : fs.descend? i [n] = some j) :
    FileTree fs (Path.join path n) j := by
  constructor
  · exact fun hk => h.listed (descend?_of_child hchild hk)
  · exact fun hfront hback hk => List.tail_eq_of_cons_eq
      (h.single (descend?_of_child hchild hfront) (descend?_of_child hchild hback) hk)
  · intro names k hk
    have hshort := h.short (descend?_of_child hchild hk)
    rwa [List.foldl_cons] at hshort

theorem short_child (h : FileTree fs path i) (hchild : fs.descend? i [n] = some j) :
    byteLength (Path.join path n) ≤ pathLimit := by
  have hshort := h.short hchild
  rwa [List.foldl_cons, List.foldl_nil] at hshort

/-- What is below a directory does not lead back to it. -/
theorem ne_of_child (h : FileTree fs path i) (hi : fs.isDirectoryNode i = true)
    (hchild : fs.descend? i [n] = some j) (names : List String) : fs.descend? j names ≠ some i := by
  intro hback
  have hround := descend?_of_child hchild hback
  exact List.cons_ne_nil _ _ (h.single hround rfl hi)

/-- Two names of a directory lead to different directories. -/
theorem eq_of_children (h : FileTree fs path i) {m : String} {k l : Nat} {front back : List String}
    (hj : fs.descend? i [n] = some j) (hk : fs.descend? i [m] = some k)
    (hfront : fs.descend? j front = some l) (hback : fs.descend? k back = some l)
    (hl : fs.isDirectoryNode l = true) : n = m := by
  have hn := descend?_of_child hj hfront
  have hm := descend?_of_child hk hback
  exact List.head_eq_of_cons_eq (h.single hn hm hl)

theorem without (h : FileTree fs path i) (gone : List (Nat × String)) :
    FileTree (fs.without gone) path i := by
  constructor
  · intro names j hj
    obtain ⟨node, hnode, horderly⟩ := h.listed (descend?_of_without hj)
    refine ⟨node.without j gone, ?_, horderly.without j gone⟩
    rw [node?_without, hnode]
    rfl
  · intro front back j hfront hback hj
    rw [isDirectoryNode_without] at hj
    exact h.single (descend?_of_without hfront) (descend?_of_without hback) hj
  · exact fun hj => h.short (descend?_of_without hj)

/-- Every directory on the way down is another one, so no way is longer than there are nodes. -/
theorem length_le (h : FileTree fs path i) (hj : fs.descend? i names = some j) :
    names.length ≤ fs.nodes.size := by
  have hpassed : ∀ k : Fin names.length, ∃ d : Fin fs.nodes.size,
      fs.descend? i (names.take k) = some d.1 ∧ fs.isDirectoryNode d.1 = true := by
    intro k
    have hparts : names = names.take k ++ names[k] :: names.drop (k + 1) := by simp
    rw [hparts, descend?_append] at hj
    obtain ⟨d, hd, hrest⟩ := Option.bind_eq_some_iff.mp hj
    obtain ⟨entries, mode, -, hnode, -⟩ := directory_of_descend?_cons hrest
    exact ⟨⟨d, (Array.getElem?_eq_some_iff.mp hnode).1⟩, hd, isDirectoryNode_of_node? hnode⟩
  choose d hd using hpassed
  have hinjective : Function.Injective d := by
    intro k l hkl
    have htake : names.take k = names.take l :=
      h.single (hd k).1 (hkl ▸ (hd l).1) (hd k).2
    have hlength := congrArg List.length htake
    simp only [List.length_take] at hlength
    exact Fin.ext (by omega)
  simpa using Fintype.card_le_of_injective d hinjective

end FileTree

namespace Located

theorem directory (h : Located fs path parent name i) :
    ∃ entries mode, fs.node? parent = some ⟨.directory entries, mode⟩ ∧
      entries.lookup name = some i ∧ mode.testBit Access.search.bit = true := by
  obtain ⟨entries, mode, k, hnode, hlookup, hk⟩ := directory_of_descend?_cons h.entry
  cases hk
  exact ⟨entries, mode, hnode, hlookup, (lets_directory hnode).symm.trans h.searched⟩

/-- The path comes to its name in the directory. -/
theorem approach (h : Located fs path parent name i) : ∃ a : fs.Approach path,
    a.origin = fs.origin path ∧ a.directory = parent ∧ a.name = name ∧
      a.entries.lookup a.name = some i := by
  obtain ⟨front, place, hpieces, hwalk, hhead⟩ := h.above
  obtain ⟨entries, mode, hnode, hlookup, hsearch⟩ := h.directory
  exact ⟨⟨fs.origin path, front, place, parent, entries, mode, name, h.start, hpieces, hwalk,
    hhead, hnode, hsearch, h.proper⟩, rfl, rfl, rfl, hlookup⟩

/-- The walk along the whole path. -/
theorem walk (h : Located fs path parent name i) :
    ∃ place, fs.walk (fs.origin path) (pieces path) = .ok ((name, i) :: place) := by
  obtain ⟨a, horigin, -, rfl, hlookup⟩ := h.approach
  exact ⟨a.place, horigin ▸ a.walk_of_lookup hlookup⟩

theorem find_eq (h : Located fs path parent name i) {node : FileNode}
    (hnode : fs.node? i = some node) : fs.find path = .ok (i, node) := by
  obtain ⟨a, -, -, -, hlookup⟩ := h.approach
  exact a.find_of_lookup hlookup hnode h.slash

theorem list_eq (h : Located fs path parent name i)
    (hnode : fs.node? i = some ⟨.directory entries, mode⟩) :
    fs.list path = if fs.lets i .read then
        .ok (entries.map fun e => (e.1, fs.isDirectoryNode e.2))
      else .error .permissionDenied := by
  rw [lets_directory hnode, list, h.find_eq hnode]
  rfl

theorem ending_eq (h : Located fs path parent name i) :
    fs.ending path = .ok (.name parent name) := by
  obtain ⟨a, -, rfl, rfl, -⟩ := h.approach
  exact a.ending_eq

theorem target_eq (h : Located fs path parent name i) :
    fs.target parent name = .ok ⟨parent, name, some i⟩ := by
  obtain ⟨a, -, rfl, rfl, hlookup⟩ := h.approach
  rw [a.target_eq, hlookup]

theorem mayChange_eq (h : Located fs path parent name i) :
    fs.mayChange parent = fs.lets parent .write := by
  obtain ⟨entries, mode, hnode, -, hsearch⟩ := h.directory
  simp [mayChange, lets, hnode, FileNode.allows, hsearch]

theorem unlink_eq (h : Located fs path parent name i) :
    fs.unlink ⟨parent, name, some i⟩ = fs.without [(parent, name)] := by
  obtain ⟨entries, mode, hnode, -⟩ := h.directory
  exact unlink_eq_without hnode

theorem removeFile_eq (h : Located fs path parent name i) (hi : fs.isDirectoryNode i = false) :
    fs.removeFile path = if fs.lets parent .write then .ok (fs.without [(parent, name)])
      else .error .permissionDenied := by
  have hslash : endsInSlash path = false := by
    cases hends : endsInSlash path with
    | false => rfl
    | true => exact absurd (h.slash hends) (by simp [hi])
  rw [← h.mayChange_eq]
  obtain ⟨a, -, rfl, rfl, hlookup⟩ := h.approach
  exact a.removeFile_eq hlookup hslash hi

theorem removeDirectory_eq (h : Located fs path parent name i)
    (hnode : fs.node? i = some ⟨.directory entries, mode⟩) :
    fs.removeDirectory path = if fs.lets parent .write then
        if entries = [] then .ok (fs.without [(parent, name)]) else .error .directoryNotEmpty
      else .error .permissionDenied := by
  unfold removeDirectory
  rw [h.ending_eq]
  simp only [bind, Except.bind, h.target_eq, Option.bind_some, hnode, h.mayChange_eq]
  cases fs.lets parent .write with
  | false => rfl
  | true =>
    cases entries with
    | nil => exact congrArg Except.ok h.unlink_eq
    | cons e entries => rfl

/-- Taking names out below the node leaves the way to it alone. -/
theorem without (h : Located fs path parent name i)
    (hgone : ∀ e ∈ gone, ∃ names, fs.descend? i names = some e.1) :
    Located (fs.without gone) path parent name i := by
  have hclear : fs.Along (fun k m => (k, m) ∉ gone) (fs.origin path) (pieces path) := by
    refine h.apart.imp fun k m hk hmem => ?_
    obtain ⟨names, hnames⟩ := hgone _ hmem
    exact hk names hnames
  obtain ⟨front, place, hpieces, hwalk, hplace⟩ := h.above
  have horigin : (fs.without gone).origin path = fs.origin path := rfl
  have hparent : ∀ m, (parent, m) ∉ gone := by
    intro m hmem
    obtain ⟨names, hnames⟩ := hgone _ hmem
    have hlast := h.apart
    rw [hpieces, along_append hwalk] at hlast
    obtain ⟨p, hp, rfl⟩ := Option.map_eq_some_iff.mp hplace
    exact hlast.2.1 p hp names hnames
  constructor
  · exact (start_congr rfl path).trans h.start
  · rw [hpieces, along_append hwalk] at hclear
    exact ⟨front, place, hpieces, (walk_without hclear.1).trans hwalk, hplace⟩
  · refine (hclear.without h.apart).imp fun k m hk names hnames => ?_
    exact hk names (descend?_of_without hnames)
  · rw [lets_without, h.searched]
  · obtain ⟨entries, mode, hnode, hlookup, -⟩ := h.directory
    rw [descend?_singleton (node?_without_directory hnode gone), lookup_without,
      if_neg (hparent name), hlookup]
  · exact h.proper
  · rw [isDirectoryNode_without]
    exact h.slash

section Child

variable (h : Located fs path parent name i) (hn : Proper n)

include h hn

theorem pieces_child : pieces (Path.join path n) = pieces path ++ [n] := by
  have hne : path ≠ "" := (start_eq_ok h.start).2.1
  rw [Path.pieces_join hne hn.inner.not_isAbsolute, hn.pieces]

variable (hshort : byteLength (Path.join path n) ≤ pathLimit)

include hshort

theorem start_child : fs.start (Path.join path n) = .ok (fs.origin path) :=
  start_join h.start (hn.reachable hshort)

/-- What stands in a directory that may be searched. -/
theorem child (hsearch : fs.lets i .search = true) (hj : fs.descend? i [n] = some j)
    (hback : ∀ names, fs.descend? j names ≠ some i) :
    Located fs (Path.join path n) i n j := by
  have hne : path ≠ "" := (start_eq_ok h.start).2.1
  have horigin : fs.origin (Path.join path n) = fs.origin path := by
    rw [origin, origin, Path.isAbsolute_join hne hn.inner.not_isAbsolute]
  obtain ⟨place, hwalk⟩ := h.walk
  constructor
  · rw [horigin]
    exact h.start_child hn hshort
  · rw [horigin]
    exact ⟨pieces path, _, h.pieces_child hn, hwalk, rfl⟩
  · rw [horigin, h.pieces_child hn, along_append hwalk]
    refine ⟨h.apart.imp fun k m hk names hnames => ?_, ?_, ?_⟩
    · exact hk (n :: names) (descend?_of_child hj hnames)
    · rintro p ⟨⟩
      exact hback
    · intro next hstep
      trivial
  · exact hsearch
  · exact hj
  · exact hn.names
  · rw [Path.endsInSlash_join hne hn.inner]
    exact fun hends => absurd hends (by simp)

/-- Behind a directory that may not be searched nothing can be found or removed. -/
theorem denied (hnode : fs.node? i = some ⟨.directory entries, mode⟩)
    (hsearch : fs.lets i .search = false) :
    fs.find (Path.join path n) = .error .permissionDenied ∧
      fs.ending (Path.join path n) = .error .permissionDenied := by
  obtain ⟨place, hwalk⟩ := h.walk
  have hsearchable : fs.searchable ((name, i) :: place) = .error .permissionDenied := by
    rw [lets_directory hnode] at hsearch
    simp [searchable, hnode, FileNode.allows, hsearch]
  constructor
  · unfold find FileSystem.place
    rw [h.start_child hn hshort, h.pieces_child hn]
    simp only [bind, Except.bind, walk_append, hwalk, FileSystem.walk, step, hsearchable]
  · unfold ending
    rw [h.start_child hn hshort, h.pieces_child hn]
    simp only [bind, Except.bind, List.getLast?_concat, List.dropLast_concat, hwalk, hsearchable]

end Child

end Located

section Listing

instance (name : String) : Decidable (Proper name) :=
  decidable_of_iff ('/' ∉ name.toList ∧ '\x00' ∉ name.toList ∧ name ≠ "" ∧
      name ≠ "." ∧ name ≠ ".." ∧ byteLength name ≤ nameLimit)
    ⟨fun ⟨hslash, hnul, hfilled, hnames⟩ => ⟨hslash, hnul, hfilled, by simpa [Names] using hnames⟩,
      fun h => ⟨h.slash, h.nul, h.filled, h.names name List.mem_cons_self⟩⟩

instance : (content : FileContent) → Decidable (Orderly content)
  | .directory entries =>
    inferInstanceAs (Decidable ((entries.map (·.1)).Nodup ∧ ∀ e ∈ entries, Proper e.1))
  | .file _ => .isTrue trivial

/-- All that is below a node, by paths of fewer names than the depth. -/
def reached (fs : FileSystem) : (depth : Nat) → Nat → List (List String × Nat)
  | 0, _ => []
  | depth + 1, i => ([], i) ::
    match fs.node? i with
    | some ⟨.directory entries, _⟩ => entries.flatMap fun e =>
        (fs.reached depth e.2).map fun p => (e.1 :: p.1, p.2)
    | _ => []

theorem mem_reached {depth : Nat} (hlength : names.length < depth)
    (h : fs.descend? i names = some j) : (names, j) ∈ fs.reached depth i := by
  induction depth generalizing names i with
  | zero => exact absurd hlength (Nat.not_lt_zero _)
  | succ depth ih =>
    cases names with
    | nil =>
      cases h
      exact List.mem_cons_self
    | cons name names =>
      obtain ⟨entries, mode, k, hnode, hlookup, hk⟩ := directory_of_descend?_cons h
      obtain ⟨front, back, hentries, -⟩ := List.lookup_eq_some_iff.mp hlookup
      have hmem : (name, k) ∈ entries := by simp [hentries]
      rw [reached, hnode]
      refine List.mem_cons_of_mem _ (List.mem_flatMap.mpr ⟨(name, k), hmem, ?_⟩)
      exact List.mem_map.mpr ⟨(names, j), ih (Nat.lt_of_succ_lt_succ hlength) hk, rfl⟩

/-- A tree that ends within the depth is listed to the end. -/
theorem mem_reached_of_length_lt {depth : Nat}
    (hends : ∀ p ∈ fs.reached (depth + 1) i, p.1.length < depth)
    (h : fs.descend? i names = some j) : (names, j) ∈ fs.reached depth i := by
  by_cases hlength : names.length < depth
  · exact mem_reached hlength h
  · rw [← List.take_append_drop depth names, descend?_append] at h
    obtain ⟨k, hk, -⟩ := Option.bind_eq_some_iff.mp h
    have htake : (names.take depth).length = depth := by
      rw [List.length_take]
      omega
    have hless := hends _ (mem_reached (by omega) hk)
    exact absurd htake hless.ne

theorem FileTree.of_reached (depth : Nat)
    (hends : ∀ p ∈ fs.reached (depth + 1) i, p.1.length < depth)
    (hlisted : ∀ p ∈ fs.reached depth i, ∃ node ∈ fs.node? p.2, Orderly node.content)
    (hsingle : ∀ p ∈ fs.reached depth i, ∀ q ∈ fs.reached depth i, p.2 = q.2 →
      fs.isDirectoryNode p.2 = true → p.1 = q.1)
    (hshort : ∀ p ∈ fs.reached depth i, byteLength (p.1.foldl Path.join path) ≤ pathLimit) :
    FileTree fs path i where
  listed hj := hlisted _ (mem_reached_of_length_lt hends hj)
  single hfront hback hj := hsingle _ (mem_reached_of_length_lt hends hfront) _
    (mem_reached_of_length_lt hends hback) rfl hj
  short {names j} hj := hshort (names, j) (mem_reached_of_length_lt hends hj)

end Listing

end ClassRecovery.FileSystem
