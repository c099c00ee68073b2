import Mathlib
import ClassRecovery.Proofs.Files.Below

/-!
How a path comes to its last name. What is found at the path, and what can be made or taken away
there, depends on what the directory before it has under that name.
-/

namespace ClassRecovery.FileSystem

/-- The way of a path up to its last name, and the directory in which the name is looked up. -/
structure Approach (fs : FileSystem) (path : String) where
  origin : Place
  front : List String
  place : Place
  directory : Nat
  entries : List (String × Nat)
  mode : Nat
  name : String
  start : fs.start path = .ok origin
  pieces : FileSystem.pieces path = front ++ [name]
  walk : fs.walk origin front = .ok place
  head : place.head?.map (·.2) = some directory
  node : fs.node? directory = some ⟨.directory entries, mode⟩
  searched : mode.testBit Access.search.bit = true
  proper : Names [name]

variable {fs : FileSystem} {path name : String} {place next : Place} {i k : Nat} {n : FileNode}
  {entries : List (String × Nat)}

theorem searchable_eq_ok_iff : fs.searchable place = .ok entries ↔
    ∃ i mode, place.head?.map (·.2) = some i ∧ fs.node? i = some ⟨.directory entries, mode⟩ ∧
      mode.testBit Access.search.bit = true := by
  unfold searchable
  cases place.head? with
  | none => simp
  | some p =>
    simp only [Option.bind_some, Option.map_some, Option.some.injEq]
    constructor
    · intro h
      split at h
      · next entries' mode hnode =>
        split at h
        · next hmode =>
          cases h
          exact ⟨p.2, mode, rfl, hnode, hmode⟩
        · cases h
      · cases h
    · rintro ⟨i, mode, rfl, hnode, hmode⟩
      simp [hnode, FileNode.allows, hmode]

/-- Where a walk goes on there is a directory, and a name that leads on is in it. -/
theorem searchable_of_step (h : fs.step place name = .ok next) :
    ∃ entries, fs.searchable place = .ok entries ∧
      (name = "." ∨ name = ".." ∨ byteLength name ≤ nameLimit ∧ (entries.lookup name).isSome) := by
  unfold step at h
  obtain ⟨entries, hentries, hstep⟩ := bind_eq_ok_iff.mp h
  refine ⟨entries, hentries, ?_⟩
  by_cases hhere : name = "."
  · exact .inl hhere
  by_cases hup : name = ".."
  · exact .inr (.inl hup)
  refine .inr (.inr ?_)
  simp only [hhere, hup, ↓reduceIte] at hstep
  split at hstep
  · cases hstep
  · next hlong =>
    refine ⟨Nat.not_lt.mp hlong, ?_⟩
    split at hstep
    · next j hj => rw [hj]; rfl
    · cases hstep

theorem short_of_target {t : Target} (h : fs.target i name = .ok t) :
    byteLength name ≤ nameLimit := by
  unfold target at h
  split at h
  · cases h
  · next hlong => exact Nat.not_lt.mp hlong

theorem ending_eq_name (h : fs.ending path = .ok (.name i name)) :
    ∃ origin front place entries, fs.start path = .ok origin ∧ pieces path = front ++ [name] ∧
      fs.walk origin front = .ok place ∧ fs.searchable place = .ok entries ∧
      place.head?.map (·.2) = some i ∧ name ≠ "." ∧ name ≠ ".." := by
  unfold ending at h
  obtain ⟨origin, hstart, hpieces⟩ := bind_eq_ok_iff.mp h
  dsimp only at hpieces
  split at hpieces
  · cases hpieces
  · next final hlast =>
    obtain ⟨front, hfront⟩ := List.getLast?_eq_some_iff.mp hlast
    rw [hfront, List.dropLast_concat] at hpieces
    obtain ⟨place, hwalk, hplace⟩ := bind_eq_ok_iff.mp hpieces
    obtain ⟨entries, hentries, hend⟩ := bind_eq_ok_iff.mp hplace
    split at hend
    · cases hend
    · cases hend
    · next hhere hup hhead =>
      cases hend
      exact ⟨origin, front, place, entries, hstart, hfront, hwalk, hentries, by rw [hhead]; rfl,
        hhere, hup⟩
    · cases hend

theorem exists_approach (hending : fs.ending path = .ok (.name i name))
    (hshort : byteLength name ≤ nameLimit) :
    ∃ a : fs.Approach path, a.directory = i ∧ a.name = name := by
  obtain ⟨origin, front, place, entries, hstart, hpieces, hwalk, hentries, hhead, hhere, hup⟩ :=
    ending_eq_name hending
  obtain ⟨j, mode, hj, hnode, hsearch⟩ := searchable_eq_ok_iff.mp hentries
  obtain rfl : i = j := Option.some.inj (hhead.symm.trans hj)
  have hproper : Names [name] := by
    intro m hm
    rw [List.mem_singleton.mp hm]
    exact ⟨hhere, hup, hshort⟩
  exact ⟨⟨origin, front, place, i, entries, mode, name, hstart, hpieces, hwalk, hhead, hnode,
    hsearch, hproper⟩, rfl, rfl⟩

/-- A name by which something is found is not too long. -/
theorem short_of_find (hending : fs.ending path = .ok (.name i name))
    (hfind : fs.find path = .ok (k, n)) : byteLength name ≤ nameLimit := by
  obtain ⟨origin, front, place, -, -, hpieces, -, -, -, hhere, hup⟩ := ending_eq_name hending
  obtain ⟨_, _, -, hwalk, -⟩ := find_eq_ok_iff.mp hfind
  rw [hpieces, walk_append] at hwalk
  obtain ⟨above, -, hlast⟩ := bind_eq_ok_iff.mp hwalk
  obtain ⟨next, hstep, -⟩ := bind_eq_ok_iff.mp (show fs.step above name >>= _ = _ from hlast)
  obtain ⟨_, -, hname⟩ := searchable_of_step hstep
  exact ((hname.resolve_left hhere).resolve_left hup).1

namespace Approach

variable (a : fs.Approach path)

theorem short : byteLength a.name ≤ nameLimit := (a.proper a.name List.mem_cons_self).2.2

theorem searchable : fs.searchable a.place = .ok a.entries :=
  searchable_eq_ok_iff.mpr ⟨a.directory, a.mode, a.head, a.node, a.searched⟩

theorem step : fs.step a.place a.name = match a.entries.lookup a.name with
    | some j => .ok ((a.name, j) :: a.place)
    | none => .error .notFound :=
  step_name a.head a.node a.searched a.proper

theorem walk_of_lookup (h : a.entries.lookup a.name = some k) :
    fs.walk a.origin (FileSystem.pieces path) = .ok ((a.name, k) :: a.place) := by
  rw [a.pieces, walk_append, a.walk]
  simp only [bind, Except.bind, FileSystem.walk, a.step, h]

theorem find_of_lookup (h : a.entries.lookup a.name = some k) (hnode : fs.node? k = some n)
    (hslash : endsInSlash path = true → fs.isDirectoryNode k = true) :
    fs.find path = .ok (k, n) :=
  find_eq_ok_iff.mpr ⟨_, _, a.start, a.walk_of_lookup h, rfl, hnode, hslash⟩

/-- What is found is what the directory has under the name. -/
theorem lookup_of_find (h : fs.find path = .ok (k, n)) :
    a.entries.lookup a.name = some k ∧ fs.node? k = some n := by
  obtain ⟨origin, place, hstart, hwalk, hplace, hn, -⟩ := find_eq_ok_iff.mp h
  cases a.start.symm.trans hstart
  rw [a.pieces, walk_append, a.walk] at hwalk
  obtain ⟨p, hstep, hp⟩ := bind_eq_ok_iff.mp (show fs.walk a.place [a.name] = .ok place from hwalk)
  cases hp
  rw [a.step] at hstep
  cases hlookup : a.entries.lookup a.name with
  | none =>
    rw [hlookup] at hstep
    cases hstep
  | some j =>
    rw [hlookup] at hstep
    cases hstep
    cases hplace
    exact ⟨rfl, hn⟩

theorem ending_eq : fs.ending path = .ok (.name a.directory a.name) := by
  obtain ⟨hhere, hup, -⟩ := a.proper a.name List.mem_cons_self
  obtain ⟨⟨above, i⟩, hhead, hi⟩ := Option.map_eq_some_iff.mp a.head
  unfold ending
  rw [a.start]
  simp only [bind, Except.bind, a.pieces, List.getLast?_concat, List.dropLast_concat, a.walk,
    a.searchable, hhead, ← hi]
  rfl

theorem target_eq :
    fs.target a.directory a.name = .ok ⟨a.directory, a.name, a.entries.lookup a.name⟩ := by
  simp only [target, Nat.not_lt.mpr a.short, ↓reduceIte, a.node]

end Approach

end ClassRecovery.FileSystem
