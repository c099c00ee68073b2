import Mathlib
import ClassRecovery.Outcome
import ClassRecovery.Proofs.Files.Pieces

/-!
What stands below a directory. Going down by names alone tells what a path below it comes to, as
long as only directories that may be searched are passed on the way.
-/

namespace ClassRecovery.FileSystem

/-- Goes down from a node by one name after the other. -/
def descend? (fs : FileSystem) : Nat → List String → Option Nat
  | i, [] => some i
  | i, name :: rest =>
    match fs.node? i with
    | some ⟨.directory entries, _⟩ => (entries.lookup name).bind fun j => fs.descend? j rest
    | _ => none

/-- Names as they stand in directories: none of them goes up or stays, and none is too long. -/
def Names (names : List String) : Prop :=
  ∀ name ∈ names, name ≠ "." ∧ name ≠ ".." ∧ byteLength name ≤ nameLimit

/-- Whatever the names lead to before the last is a directory that may be searched. -/
def Passable (fs : FileSystem) : Nat → List String → Prop
  | _, [] => True
  | i, name :: rest => ∃ entries mode, fs.node? i = some ⟨.directory entries, mode⟩ ∧
      mode.testBit Access.search.bit = true ∧ ∀ j, entries.lookup name = some j → fs.Passable j rest

variable {fs : FileSystem} {i j : Nat} {names : List String} {place : Place}

theorem descend?_append (fs : FileSystem) (i : Nat) (front back : List String) :
    fs.descend? i (front ++ back) = (fs.descend? i front).bind fun j => fs.descend? j back := by
  induction front generalizing i with
  | nil => rfl
  | cons name front ih =>
    simp only [List.cons_append, descend?]
    split
    · rw [Option.bind_assoc]
      simp only [ih]
    · rfl

/-- Only directories are passed. -/
theorem directory_of_descend?_cons {name : String}
    (h : fs.descend? i (name :: names) = some j) :
    ∃ entries mode k, fs.node? i = some ⟨.directory entries, mode⟩ ∧
      entries.lookup name = some k ∧ fs.descend? k names = some j := by
  rw [descend?] at h
  split at h
  · next entries mode hnode =>
    obtain ⟨k, hk, hj⟩ := Option.bind_eq_some_iff.mp h
    exact ⟨entries, mode, k, hnode, hk, hj⟩
  · cases h

theorem step_name {entries : List (String × Nat)} {mode : Nat} {name : String}
    (hplace : place.head?.map (·.2) = some i) (hnode : fs.node? i = some ⟨.directory entries, mode⟩)
    (hsearch : mode.testBit Access.search.bit = true) (hname : Names [name]) :
    fs.step place name = match entries.lookup name with
      | some j => .ok ((name, j) :: place)
      | none => .error .notFound := by
  obtain ⟨hhere, hup, hlong⟩ := hname name List.mem_cons_self
  obtain ⟨above, hhead, rfl⟩ := Option.map_eq_some_iff.mp hplace
  have hsearchable : fs.searchable place = .ok entries := by
    simp [searchable, hhead, hnode, FileNode.allows, hsearch]
  unfold step
  rw [hsearchable]
  simp only [bind, Except.bind, hhere, hup, Nat.not_lt.mpr hlong, ↓reduceIte]
  cases entries.lookup name <;> rfl

theorem descend?_directory {entries : List (String × Nat)} {mode : Nat}
    (hnode : fs.node? i = some ⟨.directory entries, mode⟩) (name : String) (names : List String) :
    fs.descend? i (name :: names) =
      (entries.lookup name).bind fun j => fs.descend? j names := by
  rw [descend?, hnode]

theorem Names.tail {name : String} (h : Names (name :: names)) : Names names :=
  fun n hn => h n (List.mem_cons_of_mem _ hn)

theorem Names.head {name : String} (h : Names (name :: names)) : Names [name] :=
  fun n hn => h n (List.mem_singleton.mp hn ▸ List.mem_cons_self)

theorem walk_of_descend? (hplace : place.head?.map (·.2) = some i) (hnames : Names names)
    (hpass : fs.Passable i names) (h : fs.descend? i names = some j) :
    ∃ place', fs.walk place names = .ok place' ∧ place'.head?.map (·.2) = some j := by
  induction names generalizing i place with
  | nil =>
    cases h
    exact ⟨place, rfl, hplace⟩
  | cons name names ih =>
    obtain ⟨entries, mode, hnode, hsearch, hrest⟩ := hpass
    rw [descend?_directory hnode] at h
    obtain ⟨k, hk, hj⟩ := Option.bind_eq_some_iff.mp h
    have hstep := step_name hplace hnode hsearch hnames.head
    rw [hk] at hstep
    rw [walk, hstep]
    exact ih rfl hnames.tail (hrest k hk) hj

theorem walk_of_not_descend? (hplace : place.head?.map (·.2) = some i) (hnames : Names names)
    (hpass : fs.Passable i names) (h : fs.descend? i names = none) :
    fs.walk place names = .error .notFound := by
  induction names generalizing i place with
  | nil => cases h
  | cons name names ih =>
    obtain ⟨entries, mode, hnode, hsearch, hrest⟩ := hpass
    rw [descend?_directory hnode] at h
    have hstep := step_name hplace hnode hsearch hnames.head
    rw [walk, hstep]
    cases hk : entries.lookup name with
    | none => rfl
    | some k =>
      rw [hk] at h
      exact ih rfl hnames.tail (hrest k hk) h

theorem walk_append (fs : FileSystem) (place : Place) (front back : List String) :
    fs.walk place (front ++ back) = fs.walk place front >>= fun p => fs.walk p back := by
  induction front generalizing place with
  | nil => rfl
  | cons name front ih =>
    simp only [List.cons_append, walk]
    cases fs.step place name with
    | error e => rfl
    | ok p => exact ih p

/-- A path below a directory that is not too long for use. -/
structure Reachable (directory path : String) : Prop where
  inner : Path.Inner path
  nul : '\x00' ∉ path.toList
  names : Names (pieces path)
  short : byteLength (Path.join directory path) ≤ pathLimit

variable {directory path : String} {n : FileNode}

theorem find_eq_ok_iff : fs.find path = .ok (i, n) ↔
    ∃ origin place, fs.start path = .ok origin ∧ fs.walk origin (pieces path) = .ok place ∧
      place.head?.map (·.2) = some i ∧ fs.node? i = some n ∧
      (endsInSlash path = true → fs.isDirectoryNode i = true) := by
  constructor
  · intro h
    unfold find at h
    obtain ⟨place, hplace, h⟩ := bind_eq_ok_iff.mp h
    unfold FileSystem.place at hplace
    obtain ⟨origin, hstart, hplace⟩ := bind_eq_ok_iff.mp hplace
    obtain ⟨_, hwalk, hplace⟩ := bind_eq_ok_iff.mp hplace
    split at hplace
    · next j hhead =>
      split at hplace
      · cases hplace
      · next hslash =>
        cases hplace
        rw [hhead] at h
        dsimp only at h
        split at h <;> cases h
        next hnode =>
        exact ⟨origin, place, hstart, hwalk, by rw [hhead]; rfl, hnode, by simpa using hslash⟩
    · cases hplace
  · rintro ⟨origin, place, hstart, hwalk, hhead, hnode, hslash⟩
    obtain ⟨last, hlast, rfl⟩ := Option.map_eq_some_iff.mp hhead
    have hcheck : (endsInSlash path && !fs.isDirectoryNode last.2) = false := by
      simpa [Bool.and_eq_false_imp] using hslash
    unfold find FileSystem.place
    simp only [hstart, hwalk, hlast, hnode, hcheck, bind, Except.bind, pure, Except.pure,
      Bool.false_eq_true, ↓reduceIte]

theorem isPresent_iff : fs.isPresent path = true ↔ ∃ found, fs.find path = .ok found := by
  unfold isPresent
  cases fs.find path <;> simp [Except.isOk, Except.toBool]

theorem start_eq_ok {origin : Place} (h : fs.start path = .ok origin) :
    '\x00' ∉ path.toList ∧ path ≠ "" ∧ byteLength path ≤ pathLimit ∧
      origin = if Path.isAbsolute path then rootPlace else fs.working := by
  unfold start at h
  split at h
  · cases h
  · split at h
    · cases h
    · split at h
      · cases h
      · next hnul hempty hlong =>
        cases h
        exact ⟨hnul, hempty, Nat.not_lt.mp hlong, rfl⟩

theorem start_join {origin : Place} (h : fs.start directory = .ok origin)
    (hpath : Reachable directory path) :
    fs.start (Path.join directory path) = .ok origin := by
  obtain ⟨hnul, hempty, -, rfl⟩ := start_eq_ok h
  have hnul' : '\x00' ∉ (Path.join directory path).toList := by
    intro hmem
    rcases Path.mem_join hempty hpath.inner.not_isAbsolute hmem with hd | hs | hp
    · exact hnul hd
    · exact absurd hs (by decide)
    · exact hpath.nul hp
  have hempty' : Path.join directory path ≠ "" := by
    intro he
    have hends := Path.endsInSlash_join hempty hpath.inner
    have habsolute := Path.pieces_join hempty hpath.inner.not_isAbsolute
    rw [he] at habsolute
    have hpieces : pieces path = [] := by
      have hnil : pieces "" = [] := by decide
      rw [hnil] at habsolute
      exact (List.append_eq_nil_iff.mp habsolute.symm).2
    rw [hpath.inner.pieces] at hpieces
    simp [Text.split, Text.splitChars_ne_nil] at hpieces
  unfold start
  rw [if_neg hnul', if_neg hempty', if_neg (Nat.not_lt.mpr hpath.short),
    Path.isAbsolute_join hempty hpath.inner.not_isAbsolute]

/-- What a path below a directory comes to. -/
theorem find_join (hdirectory : fs.find directory = .ok (i, n)) (hpath : Reachable directory path)
    (hpass : fs.Passable i (pieces path)) :
    fs.find (Path.join directory path) =
      match (fs.descend? i (pieces path)).bind fun j => (fs.node? j).map (j, ·) with
      | some found => .ok found
      | none => .error .notFound := by
  obtain ⟨origin, place, hstart, hwalk, hplace, -⟩ := find_eq_ok_iff.mp hdirectory
  have hempty : directory ≠ "" := (start_eq_ok hstart).2.1
  unfold find FileSystem.place
  rw [start_join hstart hpath, Path.pieces_join hempty hpath.inner.not_isAbsolute,
    Path.endsInSlash_join hempty hpath.inner]
  simp only [bind, Except.bind, walk_append, hwalk]
  cases hdescend : fs.descend? i (pieces path) with
  | none =>
    rw [walk_of_not_descend? hplace hpath.names hpass hdescend]
    rfl
  | some j =>
    obtain ⟨place', hwalk', hplace'⟩ := walk_of_descend? hplace hpath.names hpass hdescend
    obtain ⟨last, hlast, rfl⟩ := Option.map_eq_some_iff.mp hplace'
    rw [hwalk']
    simp only [hlast, Bool.false_and, Bool.false_eq_true, ↓reduceIte, pure, Except.pure,
      Option.bind_some]
    cases fs.node? last.2 <;> rfl

/-- Below a directory stand these files and nothing else, and all of it may be used. -/
structure Holds (fs : FileSystem) (i : Nat) (files : List (List String × Bytes)) : Prop where
  directory : ∃ entries mode, fs.node? i = some ⟨.directory entries, mode⟩
  file : ∀ {names b}, (names, b) ∈ files →
    ∃ j mode, fs.descend? i names = some j ∧ fs.node? j = some ⟨.file b, mode⟩
  only : ∀ {names j}, fs.descend? i names = some j →
    names = [] ∨ ∃ rest b, (names ++ rest, b) ∈ files
  readable : ∀ {names j n}, fs.descend? i names = some j → fs.node? j = some n →
    n.allows .read = true
  searchable : ∀ {names j entries mode}, fs.descend? i names = some j →
    fs.node? j = some ⟨.directory entries, mode⟩ → mode.testBit Access.search.bit = true

/-- Only the last name has an extension, so it is the name of a file and the others are not. -/
def FilePath (names : List String) : Prop :=
  ∃ front last, names = front ++ [last] ∧ '.' ∈ last.toList ∧ ∀ name ∈ front, '.' ∉ name.toList

theorem FilePath.ends {front back : List String} (h : FilePath front)
    (happend : FilePath (front ++ back)) : back = [] := by
  obtain ⟨front, last, rfl, hlast, -⟩ := h
  obtain ⟨front', last', heq, -, hfront'⟩ := happend
  rcases List.eq_nil_or_concat back with rfl | ⟨back, final, rfl⟩
  · rfl
  · rw [List.concat_eq_append, ← List.append_assoc] at heq
    have hfront := (List.append_inj' heq rfl).1
    exact absurd hlast (hfront' last (hfront ▸ by simp))

namespace Holds

variable {files : List (List String × Bytes)} {front : List String}

/-- What leads somewhere and is no file is a directory. -/
theorem directory_below (h : fs.Holds i files) (hfront : fs.descend? i front = some j)
    (hno : ∀ b, (front, b) ∉ files) :
    ∃ entries mode, fs.node? j = some ⟨.directory entries, mode⟩ := by
  rcases h.only hfront with rfl | ⟨rest, b, hmem⟩
  · cases hfront
    exact h.directory
  · obtain ⟨k, mode, hk, -⟩ := h.file hmem
    rw [descend?_append, hfront, Option.bind_some] at hk
    cases rest with
    | nil => exact absurd (List.append_nil front ▸ hmem) (hno b)
    | cons name rest =>
      obtain ⟨entries, mode, -, hnode, -⟩ := directory_of_descend?_cons hk
      exact ⟨entries, mode, hnode⟩

theorem passable (h : fs.Holds i files) (hfront : fs.descend? i front = some j)
    (hno : ∀ mid back b, names = mid ++ back → back ≠ [] → (front ++ mid, b) ∉ files) :
    fs.Passable j names := by
  induction names generalizing front j with
  | nil => trivial
  | cons name names ih =>
    obtain ⟨entries, mode, hnode⟩ := h.directory_below hfront fun b =>
      List.append_nil front ▸ hno [] (name :: names) b rfl (List.cons_ne_nil _ _)
    refine ⟨entries, mode, hnode, h.searchable hfront hnode, fun k hk => ?_⟩
    have hnext : fs.descend? i (front ++ [name]) = some k := by
      rw [descend?_append, hfront, Option.bind_some, descend?_directory hnode, hk]
      rfl
    refine ih hnext fun mid back b hmid hback => ?_
    rw [List.append_assoc]
    exact hno (name :: mid) back b (by rw [hmid]; rfl) hback

/-- A file that is there is read, and any other is missing. -/
theorem read_join (h : fs.Holds i files) (hfiles : ∀ file ∈ files, FilePath file.1)
    (hdirectory : fs.find directory = .ok (i, n)) (hpath : Reachable directory path)
    (hfile : FilePath (pieces path)) :
    (∀ b, (pieces path, b) ∈ files → fs.read (Path.join directory path) = .ok b) ∧
      ((∀ b, (pieces path, b) ∉ files) →
        fs.read (Path.join directory path) = .error .notFound) := by
  have hhere : fs.descend? i [] = some i := rfl
  have hpass : fs.Passable i (pieces path) := by
    refine h.passable hhere fun mid back b hmid hback hmem => hback ?_
    exact (hfiles _ hmem).ends (hmid ▸ hfile)
  have hfind := find_join hdirectory hpath hpass
  constructor
  · intro b hmem
    obtain ⟨j, mode, hj, hnode⟩ := h.file hmem
    rw [hj, Option.bind_some, hnode] at hfind
    have hread := h.readable hj hnode
    simp [read, openFile, readOpen, hfind, hread, hnode, bind, Except.bind, pure, Except.pure]
  · intro hno
    have hnone : fs.descend? i (pieces path) = none := by
      by_contra hsome
      obtain ⟨j, hj⟩ := Option.ne_none_iff_exists'.mp hsome
      rcases h.only hj with hnil | ⟨rest, b, hmem⟩
      · obtain ⟨front, last, hlast, -⟩ := hfile
        simp [hlast] at hnil
      · obtain rfl := hfile.ends (hfiles _ hmem)
        rw [List.append_nil] at hmem
        exact hno b hmem
    rw [hnone] at hfind
    simp [read, openFile, hfind, bind, Except.bind]

/-- The names in a directory are those that files below it go on with. -/
theorem mem_entries_iff (h : fs.Holds i files) (hfront : fs.descend? i front = some j)
    {entries : List (String × Nat)} {mode : Nat}
    (hnode : fs.node? j = some ⟨.directory entries, mode⟩) (name : String) :
    name ∈ entries.map (·.1) ↔ ∃ rest b, (front ++ name :: rest, b) ∈ files := by
  have hdescend : ∀ rest, fs.descend? i (front ++ name :: rest) =
      (entries.lookup name).bind fun k => fs.descend? k rest := by
    intro rest
    rw [descend?_append, hfront, Option.bind_some, descend?_directory hnode]
  constructor
  · intro hname
    have hsome : (entries.lookup name).isSome := by
      rw [List.lookup_isSome_iff]
      obtain ⟨e, he, rfl⟩ := List.mem_map.mp hname
      exact ⟨e, he, by simp⟩
    obtain ⟨k, hk⟩ := Option.isSome_iff_exists.mp hsome
    have hlast := hdescend []
    rw [hk] at hlast
    rcases h.only hlast with hnil | ⟨rest, b, hmem⟩
    · simp at hnil
    · exact ⟨rest, b, by simpa using hmem⟩
  · rintro ⟨rest, b, hmem⟩
    obtain ⟨k, mode, hk, -⟩ := h.file hmem
    rw [hdescend] at hk
    obtain ⟨l, hl, -⟩ := Option.bind_eq_some_iff.mp hk
    obtain ⟨e, he, hname⟩ := List.lookup_isSome_iff.mp (Option.isSome_of_eq_some hl)
    exact List.mem_map.mpr ⟨e, he, (eq_of_beq hname).symm⟩

/-- A listing tells the names that files go on with behind the names of the directory. -/
def Lists (files : List (List String × Bytes)) (front : List String) :
    Except IoError (List (String × Bool)) → Prop
  | .ok entries => ∀ name, name ∈ entries.map (·.1) ↔ ∃ rest b, (front ++ name :: rest, b) ∈ files
  | .error e => e = .notFound ∧ ∀ name rest b, (front ++ name :: rest, b) ∉ files

theorem lists_of_find (h : fs.Holds i files) (hfront : fs.descend? i front = some j)
    {entries : List (String × Nat)} {mode : Nat}
    (hnode : fs.node? j = some ⟨.directory entries, mode⟩)
    (hfind : fs.find path = .ok (j, ⟨.directory entries, mode⟩)) :
    Lists files front (fs.list path) := by
  have hread := h.readable hfront hnode
  have hlist : fs.list path = .ok (entries.map fun e => (e.1, fs.isDirectoryNode e.2)) := by
    simp [list, hfind, hread, bind, Except.bind, pure, Except.pure]
  rw [hlist]
  intro name
  rw [List.map_map]
  exact h.mem_entries_iff hfront hnode name

theorem lists_self (h : fs.Holds i files) (hdirectory : fs.find directory = .ok (i, n)) :
    Lists files [] (fs.list directory) := by
  obtain ⟨entries, mode, hnode⟩ := h.directory
  obtain ⟨-, -, -, -, -, hn, -⟩ := find_eq_ok_iff.mp hdirectory
  obtain rfl := Option.some.inj (hn.symm.trans hnode)
  exact h.lists_of_find rfl hnode hdirectory

theorem lists_join (h : fs.Holds i files) (hfiles : ∀ file ∈ files, FilePath file.1)
    (hdirectory : fs.find directory = .ok (i, n)) (hpath : Reachable directory path)
    (hplain : ∀ name ∈ pieces path, '.' ∉ name.toList) :
    Lists files (pieces path) (fs.list (Path.join directory path)) := by
  have hno : ∀ mid back b, pieces path = mid ++ back → (mid, b) ∉ files := by
    intro mid back b hmid hmem
    obtain ⟨front, last, rfl, hlast, -⟩ := hfiles _ hmem
    exact hplain last (hmid ▸ by simp) hlast
  have hhere : fs.descend? i [] = some i := rfl
  have hpass : fs.Passable i (pieces path) :=
    h.passable hhere fun mid back b hmid _ => hno mid back b hmid
  have hfind := find_join hdirectory hpath hpass
  cases hdescend : fs.descend? i (pieces path) with
  | none =>
    rw [hdescend] at hfind
    have hlist : fs.list (Path.join directory path) = .error .notFound := by
      simp [list, hfind, bind, Except.bind]
    rw [hlist]
    refine ⟨rfl, fun name rest b hmem => ?_⟩
    obtain ⟨j, mode, hj, -⟩ := h.file hmem
    rw [descend?_append, hdescend] at hj
    cases hj
  | some j =>
    obtain ⟨entries, mode, hnode⟩ := h.directory_below hdescend fun b =>
      hno _ [] b (List.append_nil _).symm
    rw [hdescend, Option.bind_some, hnode] at hfind
    exact h.lists_of_find hdescend hnode hfind

end Holds

end ClassRecovery.FileSystem
