import ClassRecovery.Agent.Artifact
import ClassRecovery.Proofs.Files.Content

/-!
Writing the jar of an agent. First the directories above it are made, then the file is opened, which
empties it, and filled. Up to that moment what is at its path is as it was.
-/

namespace ClassRecovery

variable {ε : Type} {path : String} {content : Bytes} {fs fs' : FileSystem} {w w' : World}

/-- What was found at the path is found there, in files that did not change, and where nothing was,
nothing is, unless the path goes up on its way. -/
structure FileSystem.Spared (path : String) (fs fs' : FileSystem) : Prop where
  present : fs.isPresent path = true → fs' = fs
  absent : fs.isPresent path = false → ".." ∉ pieces path → fs'.isPresent path = false

theorem FileSystem.Spared.refl (path : String) (fs : FileSystem) : Spared path fs fs :=
  ⟨fun _ => rfl, fun h _ => h⟩

/-- No file comes to be at a path that is spared. -/
theorem FileSystem.Spared.isFile (h : Spared path fs fs') (hup : ".." ∉ pieces path)
    (hfile : fs.isFile path = false) : fs'.isFile path = false := by
  cases hpresent : fs.isPresent path with
  | true => rwa [h.present hpresent]
  | false =>
    have habsent := h.absent hpresent hup
    unfold FileSystem.isPresent at habsent
    unfold FileSystem.isFile
    cases hfind : fs'.find path with
    | error e => rfl
    | ok found =>
      rw [hfind] at habsent
      cases habsent

namespace World

theorem changeFiles_apply (f : FileSystem → Except ε FileSystem) (w : World) :
    changeFiles f w = match f w.files with
      | .ok files => (.ok (), { w with files })
      | .error e => (.error e, w) := by
  unfold changeFiles
  rw [Attempt.get_bind]
  cases f w.files <;> rfl

theorem workFiles_apply (f : FileSystem → FileSystem × Except ε Unit) (w : World) :
    workFiles f w = ((f w.files).2, { w with files := (f w.files).1 }) := by
  unfold workFiles
  rw [Attempt.get_bind]
  rcases f w.files with ⟨files, e | ⟨⟨⟩⟩⟩ <;> rfl

/-- How opening a file and filling it can end. -/
inductive Filling (device : Bytes → Option (Bytes × IoError)) (path : String) (content : Bytes)
    (fs : FileSystem) : Except IoError Unit → FileSystem → Prop
  | filled {fs' : FileSystem} (hdevice : device content = none)
    (h : fs.write path content = .ok fs') : Filling device path content fs (.ok ()) fs'
  /-- The file could not be opened. -/
  | refused (e : IoError) : Filling device path content fs (.error e) fs
  /-- The file was opened, and only a part of what was meant for it got there. -/
  | cut {part : Bytes} {e : IoError} {fs' : FileSystem}
    (hdevice : device content = some (part, e)) (h : fs.write path part = .ok fs') :
    Filling device path content fs (.error e) fs'

theorem fillFile_cases {r : Except IoError Unit} (h : fillFile path content w = (r, w')) :
    w' = { w with files := w'.files } ∧ Filling w.device path content w.files r w'.files := by
  unfold fillFile at h
  rw [Attempt.get_bind] at h
  cases hdevice : w.device content with
  | none =>
    simp only [hdevice, changeFiles_apply] at h
    cases hwrite : w.files.write path content with
    | ok files =>
      rw [hwrite] at h
      cases h
      exact ⟨rfl, .filled hdevice hwrite⟩
    | error e =>
      rw [hwrite] at h
      cases h
      exact ⟨rfl, .refused e⟩
  | some fault =>
    obtain ⟨part, e⟩ := fault
    simp only [hdevice, bind_apply, changeFiles_apply] at h
    cases hwrite : w.files.write path part with
    | ok files =>
      rw [hwrite] at h
      cases h
      exact ⟨rfl, .cut hdevice hwrite⟩
    | error e' =>
      rw [hwrite] at h
      cases h
      exact ⟨rfl, .refused e'⟩

end World

namespace Agent.Artifact

open World

theorem makeParent_eq (path : String) : makeParent path = pure () ∨
    ∃ above, Path.GoesOn above path ∧ makeParent path = workFiles (·.makeDirectories above) := by
  unfold makeParent
  split
  · exact .inl rfl
  · exact .inl rfl
  · next above hfilled hparent => exact .inr ⟨above, Path.goesOn_of_parent? hparent hfilled, rfl⟩

theorem makeParent_spares {r : Except IoError Unit} (h : makeParent path w = (r, w')) :
    w' = { w with files := w'.files } ∧ w.files.Spared path w'.files ∧
      (w.files.Linked → w'.files.Linked) := by
  rcases makeParent_eq path with hmake | ⟨above, hgoes, hmake⟩
  · rw [hmake] at h
    cases h
    exact ⟨rfl, .refl path _, id⟩
  · rw [hmake, workFiles_apply] at h
    cases h
    exact ⟨rfl, ⟨fun hpresent => FileSystem.makeDirectories_of_present hpresent hgoes,
      fun habsent hup => FileSystem.isPresent_makeDirectories hup hgoes habsent⟩,
      fun hlinked => hlinked.makeDirectories above⟩

variable {agentClass : String} {classes : List (String × Bytes)} {extra : List (String × String)}

/-- All that writing the jar can do. -/
theorem write_cases {r : Except Error Unit} (h : write path agentClass classes extra w = (r, w')) :
    w' = { w with files := w'.files } ∧ ∃ fs filled, w.files.Spared path fs ∧
      (w.files.Linked → fs.Linked) ∧
      Filling w.device path (Archive.write (entries agentClass classes extra)) fs filled w'.files ∧
      r = filled.mapError (fault path) := by
  unfold write mapFailure at h
  rw [bind_apply] at h
  rcases hparent : makeParent path w with ⟨e | ⟨⟨⟩⟩, w₁⟩ <;> simp only [hparent] at h
  · cases h
    obtain ⟨hw, hspared, hlinked⟩ := makeParent_spares hparent
    exact ⟨hw, _, .error e, hspared, hlinked, .refused e, rfl⟩
  · obtain ⟨hw₁, hspared, hlinked⟩ := makeParent_spares hparent
    rcases hfill : fillFile path (Archive.write (entries agentClass classes extra)) w₁ with
      ⟨filled, w₂⟩
    obtain ⟨hw₂, hfilling⟩ := fillFile_cases hfill
    have hdevice : w₁.device = w.device := by rw [hw₁]
    rw [hdevice] at hfilling
    have hw' : w' = w₂ ∧ r = filled.mapError (fault path) := by
      rw [hfill] at h
      rcases filled with e | ⟨⟨⟩⟩ <;> cases h <;> exact ⟨rfl, rfl⟩
    obtain ⟨rfl, rfl⟩ := hw'
    refine ⟨?_, w₁.files, filled, hspared, hlinked, hfilling, rfl⟩
    rw [hw₂, hw₁]

/-- Of a jar that was written the last step was the file. -/
theorem write_eq_ok (h : write path agentClass classes extra w = (.ok (), w')) :
    ∃ fs : FileSystem, (w.files.Linked → fs.Linked) ∧
      fs.write path (Archive.write (entries agentClass classes extra)) = .ok w'.files := by
  obtain ⟨-, fs, filled, -, hlinked, hfilling, hr⟩ := write_cases h
  cases hfilling with
  | filled _ hwrite => exact ⟨fs, hlinked, hwrite⟩
  | refused | cut => cases hr

end Agent.Artifact

end ClassRecovery
