import ClassRecovery.Proofs.Files.Parents
import ClassRecovery.Proofs.Options.Keys

/-!
Where the jar of the agent lies. Its name is refused if it is empty or holds a slash, so it leads
into the directory of the agent; but the two names made of dots alone are not refused, and they
lead to the directory itself and to the one above.
-/

namespace ClassRecovery.Options

variable {o o' : Options} {value name : String}

theorem readFileName_eq_ok : readFileName value = .ok name ↔
    (value ≠ "" ∧ '/' ∉ value.toList ∧ '\\' ∉ value.toList) ∧ name = value := by
  unfold readFileName
  split
  · next h =>
    refine ⟨fun h' => (by cases h'), fun ⟨⟨hne, hslash, hback⟩, _⟩ => ?_⟩
    rcases h with h | h | h <;> contradiction
  · next h =>
    rw [not_or, not_or] at h
    exact ⟨fun h' => ⟨h, (Except.ok.inj h').symm⟩, fun h' => by rw [h'.2]⟩

theorem put_file_eq_ok (h : o.put "agent.file" value = (o', .ok ())) :
    (value ≠ "" ∧ '/' ∉ value.toList ∧ '\\' ∉ value.toList) ∧
      o' = Key.agentFile.write o value := by
  change o.put Key.agentFile.text value = _ at h
  rw [put_text] at h
  cases hread : Key.agentFile.read value with
  | error fault =>
    rw [hread] at h
    cases (Prod.mk.inj h).2
  | ok name =>
    rw [hread] at h
    obtain ⟨hplain, rfl⟩ := readFileName_eq_ok.mp hread
    exact ⟨hplain, (Prod.mk.inj h).1.symm⟩

/-- A name that is accepted leaves the directory of the agent as it is, and the jar lies in it
under this name, if it is not one of the two that dots make. -/
theorem artifact_liesIn_iff (h : o.put "agent.file" value = (o', .ok ())) :
    o'.agent.directory = o.agent.directory ∧
      (Path.LiesIn o'.agent.directory value o'.artifactPath ↔ value ≠ "." ∧ value ≠ "..") := by
  obtain ⟨⟨hne, hslash, -⟩, rfl⟩ := put_file_eq_ok h
  exact ⟨rfl, Path.liesIn_join_iff hslash hne⟩

/-- Options with a directory below the root. -/
def inService : Options := { agent.directory := "/srv/" }

/-- Three dots make a name as others do. -/
theorem artifact_liesIn_threeDots :
    inService.put "agent.file" "..." = ({ inService with agent.fileName := "..." }, .ok ()) ∧
      Path.LiesIn "/srv/" "..." "/srv/..." := by
  have hput : inService.put "agent.file" "..." =
      ({ inService with agent.fileName := "..." }, .ok ()) := by decide
  have hpath : ({ inService with agent.fileName := "..." } : Options).artifactPath =
      "/srv/..." := by decide
  have hlies := (artifact_liesIn_iff hput).2.mpr (by decide)
  rw [hpath] at hlies
  exact ⟨hput, hlies⟩

/-- Two dots are accepted, and the jar is then the directory above the one of the agent. -/
theorem dots_are_accepted :
    ∃ o o' : Options, o.put "agent.file" ".." = (o', .ok ()) ∧
      ¬ Path.LiesIn o'.agent.directory ".." o'.artifactPath ∧
      Path.components o'.artifactPath = Path.components o'.agent.directory ++ [.up] := by
  have hput : ({} : Options).put "agent.file" ".." =
      ({ agent.fileName := ".." }, .ok ()) := by decide
  refine ⟨{}, _, hput, fun h => ?_, by decide⟩
  exact absurd h.2 (by decide)

end ClassRecovery.Options
