import ClassRecovery.Proofs.Files.Absence
import ClassRecovery.Proofs.Loader.Definition
import ClassRecovery.Collector.Dump

/-!
The absence of a class below a directory. Where the file of a class is missing, a directory of dumps
and a loader over the directory both say so, and a chain goes on to its next collector. A file in
the place of a directory on the way is told apart from that: it is a failure, and the chain ends.
-/

namespace ClassRecovery

open FileSystem

variable {directory path name : String} {w : World}

theorem ClassRoot.readFile_of_find {e : IoError} (h : w.files.find path = .error e) :
    readFile path w = (if e.kind = .notFound then .ok none else .error e, w) := by
  have hread : w.files.read path = .error e := by
    simp [FileSystem.read, openFile, h, bind, Except.bind]
  unfold readFile
  rw [Attempt.get_bind, hread]
  simp only
  split <;> rfl

namespace Collector

theorem dumpPath_eq (directory name : String) :
    ∃ front, dumpPath directory name = front ++ ".class" := by
  unfold dumpPath Path.join ClassName.resourcePath
  split
  · exact ⟨_, rfl⟩
  · split
    · exact ⟨_, rfl⟩
    · split
      · exact ⟨directory ++ ClassName.toInternal name, by rw [String.append_assoc]⟩
      · exact ⟨directory ++ "/" ++ ClassName.toInternal name, by simp only [String.append_assoc]⟩

theorem dumpPath_ne_empty (directory name : String) : dumpPath directory name ≠ "" := by
  obtain ⟨front, hfront⟩ := dumpPath_eq directory name
  rw [hfront]
  intro h
  simpa using congrArg String.toList h

theorem endsInSlash_dumpPath (directory name : String) :
    endsInSlash (dumpPath directory name) = false := by
  obtain ⟨front, hfront⟩ := dumpPath_eq directory name
  rw [hfront, endsInSlash_append front (by decide)]
  decide

end Collector

namespace Chain

variable {collector : Collector World} {c : ClassRef}

theorem search_of_none (h : collector.collect c w = (.ok none, w)) (sole : Bool)
    (rest : List (Collector World)) :
    search sole c (collector :: rest) w = search sole c rest w := by
  rw [search, bind_apply, outcome, h]

theorem search_of_error {e : Error} (h : collector.collect c w = (.error e, w)) {sole : Bool}
    (hskip : isSkipped sole e = false) (rest : List (Collector World)) :
    search sole c (collector :: rest) w = (.error e, w) := by
  rw [search, bind_apply, outcome, h]
  simp only [hskip]
  rfl

end Chain

theorem Loader.load_of_find {e : IoError} (id : Nat)
    (h : w.files.find (Collector.dumpPath directory name) = .error e) :
    (archive id [.directory directory]).load name w =
      (if name.toList.head? = some '[' ∨ e.kind = .notFound then .ok none
        else .error (.resourceRead (ClassName.resourcePath name) e), w) := by
  have hread : readOwn id [.directory directory] (ClassName.resourcePath name) w =
      (if e.kind = .notFound then .ok none else .error e, w) := by
    rw [readOwn, List.zipIdx_singleton, readRoots, bind_apply]
    rw [show ClassRoot.readResource id 0 (.directory directory) (ClassName.resourcePath name) =
      ClassRoot.readFile (Collector.dumpPath directory name) from rfl, ClassRoot.readFile_of_find h]
    by_cases hkind : e.kind = .notFound
    · simp only [if_pos hkind]
      rfl
    · simp only [if_neg hkind]
  rw [load, define]
  by_cases harray : name.toList.head? = some '['
  · rw [if_pos harray, if_pos (.inl harray)]
    rfl
  · rw [if_neg harray, bind_apply, mapFailure]
    simp only [Loader.id, hread, harray, false_or]
    by_cases hkind : e.kind = .notFound
    · simp only [if_pos hkind]
      rfl
    · simp only [if_neg hkind]

namespace Collector

variable {settings : CollectorOptions} {active : Bool} {c : ClassRef}

theorem collect_of_find {e : IoError} (h : w.files.find (dumpPath directory c.name) = .error e) :
    (dumper settings directory active).collect c w =
      (if e.kind = .notFound then .ok none
        else .error (.resourceRead (dumpPath directory c.name) e), w) := by
  change mapFailure _ (ClassRoot.readFile (dumpPath directory c.name)) w = _
  rw [mapFailure, ClassRoot.readFile_of_find h]
  by_cases hkind : e.kind = .notFound
  · simp only [if_pos hkind]
  · simp only [if_neg hkind]

/-- A missing file is absence, unless the path to it goes on behind a file. -/
theorem directory_without_class (sole : Bool) (id : Nat) (rest : List (Collector World))
    (hopen : w.files.Accessible) (hpath : Usable (dumpPath directory c.name))
    (habsent : w.files.isPresent (dumpPath directory c.name) = false) :
    (¬ w.files.PassesFile (dumpPath directory c.name) →
      (dumper settings directory active).collect c w = (.ok none, w) ∧
      (Loader.archive id [.directory directory]).load c.name w = (.ok none, w) ∧
      Chain.search sole c (dumper settings directory active :: rest) w =
        Chain.search sole c rest w) ∧
    (w.files.PassesFile (dumpPath directory c.name) →
      (dumper settings directory active).collect c w =
        (.error (.resourceRead (dumpPath directory c.name) .notADirectory), w) ∧
      (Loader.archive id [.directory directory]).load c.name w =
        (if c.name.toList.head? = some '[' then .ok none
          else .error (.resourceRead (ClassName.resourcePath c.name) .notADirectory), w) ∧
      Chain.search sole c (dumper settings directory active :: rest) w =
        (.error (.resourceRead (dumpPath directory c.name) .notADirectory), w)) := by
  obtain ⟨hmissing, hfile⟩ := hopen.find_absent hpath (dumpPath_ne_empty _ _)
    (endsInSlash_dumpPath _ _) habsent
  constructor
  · intro hpasses
    have hcollect : (dumper settings directory active).collect c w = (.ok none, w) := by
      rw [collect_of_find (hmissing hpasses)]
      rfl
    refine ⟨hcollect, ?_, Chain.search_of_none hcollect sole rest⟩
    rw [Loader.load_of_find id (hmissing hpasses), if_pos (.inr rfl)]
  · intro hpasses
    have hcollect : (dumper settings directory active).collect c w =
        (.error (.resourceRead (dumpPath directory c.name) .notADirectory), w) := by
      rw [collect_of_find (hfile hpasses)]
      rfl
    refine ⟨hcollect, ?_, Chain.search_of_error hcollect rfl rest⟩
    rw [Loader.load_of_find id (hfile hpasses)]
    simp only [IoError.notADirectory, reduceCtorEq, or_false]

/-- A directory with a file `a`, where classes of a package `a` would be looked for. -/
def besideFile : World where
  files := {
    nodes := #[
      ⟨.directory [("d", 1)], 0o755⟩,
      ⟨.directory [("a", 2)], 0o755⟩,
      ⟨.file [], 0o644⟩]
    working := [("", 0)] }

def namedClass (name : String) : ClassRef := ⟨name, .topLevel, none, .named⟩

theorem accessible_besideFile : besideFile.files.Accessible where
  searchable {i entries mode} h := by
    rcases i with _ | _ | _ | i <;> cases h <;> decide
  listed {i entries mode} h := by
    rcases i with _ | _ | _ | i <;> cases h <;> decide
  root := ⟨by decide, by decide⟩
  working := ⟨by decide, by decide⟩
  rootDirectory := ⟨_, _, rfl⟩
  workingDirectory := ⟨_, _, rfl⟩

theorem resourcePath_a_B : ClassName.resourcePath "a.B" = "a/B.class" := by cbv

theorem dumpPath_a_B : dumpPath "d" "a.B" = "d/a/B.class" := by
  rw [dumpPath, resourcePath_a_B]
  decide

theorem dumpPath_c_D : dumpPath "d" "c.D" = "d/c/D.class" := by
  rw [dumpPath, show ClassName.resourcePath "c.D" = "c/D.class" by cbv]
  decide

theorem usable_besideFile :
    Usable (dumpPath "d" "a.B") ∧ Usable (dumpPath "d" "c.D") := by
  rw [dumpPath_a_B, dumpPath_c_D]
  exact ⟨⟨by decide, by decide, by decide⟩, ⟨by decide, by decide, by decide⟩⟩

theorem passesFile_besideFile : besideFile.files.PassesFile (dumpPath "d" "a.B") := by
  rw [dumpPath_a_B]
  exact ⟨"d/a", "B.class", by decide, by decide⟩

theorem not_passesFile_besideFile : ¬ besideFile.files.PassesFile (dumpPath "d" "c.D") := by
  intro h
  have hfind := h.find usable_besideFile.2 (endsInSlash_dumpPath _ _)
  rw [dumpPath_c_D] at hfind
  revert hfind
  decide

theorem missing_besideFile : besideFile.files.isPresent (dumpPath "d" "a.B") = false ∧
    besideFile.files.isPresent (dumpPath "d" "c.D") = false := by
  rw [dumpPath_a_B, dumpPath_c_D]
  decide

theorem directory_without_class_besideFile :
    besideFile.files.Accessible ∧
      (Usable (dumpPath "d" "c.D") ∧ besideFile.files.isPresent (dumpPath "d" "c.D") = false ∧
        ¬ besideFile.files.PassesFile (dumpPath "d" "c.D") ∧
        (dumper ⟨true, 500⟩ "d" true).collect (namedClass "c.D") besideFile =
          (.ok none, besideFile)) ∧
      Usable (dumpPath "d" "a.B") ∧ besideFile.files.isPresent (dumpPath "d" "a.B") = false ∧
        besideFile.files.PassesFile (dumpPath "d" "a.B") ∧
        (dumper ⟨true, 500⟩ "d" true).collect (namedClass "a.B") besideFile =
          (.error (.resourceRead (dumpPath "d" "a.B") .notADirectory), besideFile) := by
  obtain ⟨hmissing', hmissing⟩ := missing_besideFile
  refine ⟨accessible_besideFile, ⟨usable_besideFile.2, hmissing, not_passesFile_besideFile, ?_⟩,
    usable_besideFile.1, hmissing', passesFile_besideFile, ?_⟩
  · exact ((directory_without_class false 1 [] (c := namedClass "c.D") accessible_besideFile
      usable_besideFile.2 hmissing).1 not_passesFile_besideFile).1
  · exact ((directory_without_class false 1 [] (c := namedClass "a.B") accessible_besideFile
      usable_besideFile.1 hmissing').2 passesFile_besideFile).1

/-- All can be read and nothing is there, and yet it is a failure. -/
theorem file_on_the_way_fails :
    besideFile.files.Accessible ∧ (∀ n ∈ besideFile.files.nodes, n.allows .read = true) ∧
      Usable (dumpPath "d" "a.B") ∧ besideFile.files.isPresent (dumpPath "d" "a.B") = false ∧
      (dumper ⟨true, 500⟩ "d" true).collect (namedClass "a.B") besideFile =
        (.error (.resourceRead "d/a/B.class" .notADirectory), besideFile) ∧
      (Loader.archive 1 [.directory "d"]).load "a.B" besideFile =
        (.error (.resourceRead "a/B.class" .notADirectory), besideFile) := by
  have hfind : besideFile.files.find (dumpPath "d" "a.B") = .error .notADirectory :=
    passesFile_besideFile.find usable_besideFile.1 (endsInSlash_dumpPath _ _)
  refine ⟨accessible_besideFile, by decide, usable_besideFile.1, missing_besideFile.1, ?_, ?_⟩
  · rw [collect_of_find (c := namedClass "a.B") hfind,
      show (namedClass "a.B").name = "a.B" from rfl, dumpPath_a_B]
    rfl
  · rw [Loader.load_of_find 1 hfind, resourcePath_a_B, if_neg (by decide)]

end Collector

end ClassRecovery
