import ClassRecovery.Proofs.Files.Approach

/-!
A file that was written. Writing adds at most one name behind those of a directory, so every walk
goes the way it went before, and what is read at the path of the file is what was written.
-/

namespace ClassRecovery.FileSystem

/-- Wherever it was possible to go before, it still is, and names were only added. -/
def Grows (fs fs' : FileSystem) : Prop :=
  ∀ place entries, fs.searchable place = .ok entries →
    ∃ more, fs'.searchable place = .ok (entries ++ more)

variable {fs fs' : FileSystem} {path : String} {place place' : Place} {i k : Nat}
  {names : List String}

theorem Grows.step (h : fs.Grows fs') {name : String} (hstep : fs.step place name = .ok place') :
    fs'.step place name = .ok place' := by
  unfold FileSystem.step at hstep ⊢
  cases hentries : fs.searchable place with
  | error e =>
    rw [hentries] at hstep
    cases hstep
  | ok entries =>
    obtain ⟨more, hmore⟩ := h place entries hentries
    rw [hentries] at hstep
    rw [hmore]
    simp only [bind, Except.bind] at hstep ⊢
    split at hstep
    · next hhere => simpa [hhere] using hstep
    · next hhere =>
      rw [if_neg hhere]
      split at hstep
      · next hup => simpa [hup] using hstep
      · next hup =>
        rw [if_neg hup]
        split at hstep
        · cases hstep
        · next hlong =>
          rw [if_neg hlong]
          cases hlookup : entries.lookup name with
          | none =>
            rw [hlookup] at hstep
            cases hstep
          | some k =>
            rw [List.lookup_append, hlookup]
            rw [hlookup] at hstep
            exact hstep

theorem Grows.walk (h : fs.Grows fs') (hwalk : fs.walk place names = .ok place') :
    fs'.walk place names = .ok place' := by
  induction names generalizing place with
  | nil => exact hwalk
  | cons name names ih =>
    rw [FileSystem.walk] at hwalk ⊢
    cases hstep : fs.step place name with
    | error e =>
      rw [hstep] at hwalk
      cases hwalk
    | ok p =>
      rw [hstep] at hwalk
      rw [h.step hstep]
      exact ih hwalk

/-- A file in the place of a file. -/
theorem grows_setNode {b b' : Bytes} {mode : Nat} (hnode : fs.node? i = some ⟨.file b, mode⟩) :
    fs.Grows (fs.setNode i ⟨.file b', mode⟩) := by
  intro place entries h
  refine ⟨[], ?_⟩
  rw [List.append_nil, ← h]
  unfold searchable
  cases place.head? with
  | none => rfl
  | some last =>
    simp only [Option.bind_some]
    by_cases hlast : last.2 = i
    · have hbound : i < fs.nodes.size := (Array.getElem?_eq_some_iff.mp hnode).1
      have hnode' : (fs.setNode i ⟨.file b', mode⟩).node? i = some ⟨.file b', mode⟩ := by
        simp [setNode, node?, hbound]
      rw [hlast, hnode, hnode']
    · have hother : (fs.setNode i ⟨.file b', mode⟩).node? last.2 = fs.node? last.2 := by
        simp [setNode, node?, Array.getElem?_setIfInBounds_ne (Ne.symm hlast)]
      rw [hother]

/-- A name that is added behind those of a directory, for a node that is new. -/
def added (fs : FileSystem) (i : Nat) (entries : List (String × Nat)) (mode : Nat) (name : String)
    (n : FileNode) : FileSystem :=
  let fs' := { fs with nodes := fs.nodes.push n }
  fs'.setNode i ⟨.directory (entries ++ [(name, fs.nodes.size)]), mode⟩

theorem start_congr (h : fs'.working = fs.working) (path : String) :
    fs'.start path = fs.start path := by
  unfold start
  rw [h]

theorem node?_setNode (h : k < fs.nodes.size) (n : FileNode) (i : Nat) :
    (fs.setNode k n).node? i = if i = k then some n else fs.node? i := by
  unfold node? setNode
  by_cases hi : i = k
  · subst hi
    simp [h]
  · rw [if_neg hi, Array.getElem?_setIfInBounds_ne (Ne.symm hi)]

namespace Approach

variable (a : fs.Approach path)

/-- The tree with a new node under the last name. -/
def added (n : FileNode) : FileSystem := fs.added a.directory a.entries a.mode a.name n

theorem directory_lt : a.directory < fs.nodes.size := (Array.getElem?_eq_some_iff.mp a.node).1

theorem node?_added (n : FileNode) (k : Nat) : (a.added n).node? k =
    if k = a.directory then some ⟨.directory (a.entries ++ [(a.name, fs.nodes.size)]), a.mode⟩
    else if k = fs.nodes.size then some n else fs.node? k := by
  unfold node? added FileSystem.added setNode
  dsimp only
  by_cases hk : k = a.directory
  · subst hk
    simp [Nat.lt_succ_of_lt a.directory_lt]
  · rw [if_neg hk, Array.getElem?_setIfInBounds_ne (Ne.symm hk), Array.getElem?_push]

theorem grows_added (n : FileNode) : fs.Grows (a.added n) := by
  intro place es h
  unfold FileSystem.searchable at h ⊢
  cases hhead : place.head? with
  | none =>
    rw [hhead] at h
    cases h
  | some last =>
    rw [hhead, Option.bind_some] at h
    rw [Option.bind_some, a.node?_added]
    by_cases hlast : last.2 = a.directory
    · rw [hlast, a.node] at h
      rw [if_pos hlast]
      simp only [FileNode.allows, a.searched, ↓reduceIte, Except.ok.injEq] at h ⊢
      exact ⟨_, congrArg (· ++ _) h⟩
    · by_cases hsize : last.2 = fs.nodes.size
      · -- Nothing was there before, so nothing could be searched there.
        rw [hsize, node?, Array.getElem?_eq_none (Nat.le_refl _)] at h
        cases h
      · rw [if_neg hlast, if_neg hsize, h]
        exact ⟨[], by rw [List.append_nil]⟩

/-- The path comes to its last name as before when a node is added under it. -/
def extended (n : FileNode) : (a.added n).Approach path where
  origin := a.origin
  front := a.front
  place := a.place
  directory := a.directory
  entries := a.entries ++ [(a.name, fs.nodes.size)]
  mode := a.mode
  name := a.name
  start := (start_congr rfl path).trans a.start
  pieces := a.pieces
  walk := (a.grows_added n).walk a.walk
  head := a.head
  node := (a.node?_added n a.directory).trans (if_pos rfl)
  searched := a.searched
  proper := a.proper

theorem node?_extended (n : FileNode) : (a.added n).node? fs.nodes.size = some n :=
  (a.node?_added n _).trans ((if_neg a.directory_lt.ne').trans (if_pos rfl))

theorem lookup_extended (hnone : a.entries.lookup a.name = none) (n : FileNode) :
    (a.extended n).entries.lookup (a.extended n).name = some fs.nodes.size := by
  change (a.entries ++ [(a.name, fs.nodes.size)]).lookup a.name = _
  rw [List.lookup_append, hnone]
  simp

/-- It comes there as before when a file is overwritten. -/
def overwritten {b : Bytes} {mode : Nat} (hk : fs.node? k = some ⟨.file b, mode⟩) (b' : Bytes) :
    (fs.setNode k ⟨.file b', mode⟩).Approach path where
  origin := a.origin
  front := a.front
  place := a.place
  directory := a.directory
  entries := a.entries
  mode := a.mode
  name := a.name
  start := (start_congr rfl path).trans a.start
  pieces := a.pieces
  walk := (grows_setNode hk).walk a.walk
  head := a.head
  node := by
    have hne : a.directory ≠ k := by
      rintro rfl
      rw [a.node] at hk
      cases hk
    rw [node?_setNode (Array.getElem?_eq_some_iff.mp hk).1, if_neg hne, a.node]
  searched := a.searched
  proper := a.proper

theorem create_eq_ok {n : FileNode} {t : Target} (hdirectory : t.directory = a.directory)
    (hname : t.name = a.name) (h : fs.create t n = .ok fs') : fs' = a.added n := by
  unfold create at h
  split at h
  · cases h
    have hpushed : (fs.nodes.push n)[a.directory]? = some ⟨.directory a.entries, a.mode⟩ := by
      rw [Array.getElem?_push, if_neg a.directory_lt.ne]
      exact a.node
    simp only [hdirectory, hname, changeEntries, node?, hpushed, added, FileSystem.added]
  · cases h

end Approach

/-- A write sets a file that is there, or adds one. -/
theorem write_eq_ok {b : Bytes} (h : fs.write path b = .ok fs') :
    ∃ a : fs.Approach path, endsInSlash path = false ∧
      ((∃ k old m, a.entries.lookup a.name = some k ∧ fs.node? k = some ⟨.file old, m⟩ ∧
          fs' = fs.setNode k ⟨.file b, m⟩) ∨
        ((a.entries.lookup a.name).bind fs.node? = none ∧ fs' = a.added ⟨.file b, 0o644⟩)) := by
  unfold write at h
  obtain ⟨ending, hending, hwrite⟩ := bind_eq_ok_iff.mp h
  split at hwrite
  · next i name =>
    split at hwrite
    · cases hwrite
    · next hslash =>
      obtain ⟨t, ht, hset⟩ := bind_eq_ok_iff.mp hwrite
      obtain ⟨a, rfl, rfl⟩ := exists_approach hending (short_of_target ht)
      rw [a.target_eq] at ht
      cases ht
      refine ⟨a, Bool.eq_false_of_not_eq_true hslash, ?_⟩
      dsimp only at hset
      split at hset
      · next k n hk =>
        obtain ⟨k', hlookup, hn⟩ := Option.bind_eq_some_iff.mp hk
        obtain ⟨⟨content, m⟩, hn', hpair⟩ := Option.map_eq_some_iff.mp hn
        obtain ⟨rfl, rfl⟩ := Prod.mk.inj hpair
        cases content with
        | directory _ => cases hset
        | file old =>
          dsimp only at hset
          split at hset
          · cases hset
            exact .inl ⟨k', old, m, hlookup, hn', rfl⟩
          · cases hset
      · next hnone =>
        refine .inr ⟨?_, a.create_eq_ok rfl rfl hset⟩
        rw [Option.bind_eq_none_iff] at hnone ⊢
        exact fun k hk => Option.map_eq_none_iff.mp (hnone k hk)
  · cases hwrite

/-- What is found at the path of a file that was written is a file with what was written. -/
theorem content_of_write {b : Bytes} {n : FileNode} (h : fs.write path b = .ok fs')
    (hfind : fs'.find path = .ok (k, n)) : n.content = .file b := by
  obtain ⟨a, -, ⟨j, old, m, hlookup, hj, rfl⟩ | ⟨hmissing, rfl⟩⟩ := write_eq_ok h
  · obtain ⟨hk, hn⟩ := (a.overwritten hj b).lookup_of_find hfind
    cases hlookup.symm.trans hk
    rw [node?_setNode (Array.getElem?_eq_some_iff.mp hj).1, if_pos rfl] at hn
    cases hn
    rfl
  · obtain ⟨hk, hn⟩ := (a.extended ⟨.file b, 0o644⟩).lookup_of_find hfind
    -- The name was not there, or led nowhere: what it leads to now is the new node.
    have hnew : k ≠ a.directory ∧ fs.node? k = none := by
      cases hlookup : a.entries.lookup a.name with
      | none =>
        cases (a.lookup_extended hlookup _).symm.trans hk
        exact ⟨a.directory_lt.ne', Array.getElem?_eq_none (Nat.le_refl _)⟩
      | some j =>
        change (a.entries ++ [(a.name, fs.nodes.size)]).lookup a.name = _ at hk
        rw [List.lookup_append, hlookup] at hk
        cases hk
        rw [hlookup, Option.bind_some] at hmissing
        refine ⟨?_, hmissing⟩
        rintro rfl
        rw [a.node] at hmissing
        cases hmissing
    rw [a.node?_added, if_neg hnew.1, hnew.2] at hn
    split at hn <;> cases hn
    rfl

/-- What can be read at the path of a file that was written is what was written. -/
theorem read_of_write {b b' : Bytes} (h : fs.write path b = .ok fs')
    (hread : fs'.read path = .ok b') : b' = b := by
  obtain ⟨i, hopen, hcontent⟩ := bind_eq_ok_iff.mp hread
  obtain ⟨⟨k, n⟩, hfind, hreadable⟩ := bind_eq_ok_iff.mp hopen
  obtain rfl : k = i := by
    dsimp only at hreadable
    split at hreadable
    · exact Except.ok.inj hreadable
    · cases hreadable
  obtain ⟨-, -, -, -, -, hnode, -⟩ := find_eq_ok_iff.mp hfind
  have hfile := content_of_write h hfind
  obtain ⟨content, mode⟩ := n
  cases hfile
  unfold readOpen at hcontent
  rw [hnode] at hcontent
  exact (Except.ok.inj hcontent).symm

end ClassRecovery.FileSystem
