import ClassRecovery.Proofs.Agent.Building

/-!
What becomes of the jar of an agent over many calls. Each call finds the jar or builds it, asks for
it to be attached, and deletes it if that is the policy. What is at the path at the end of a call is
still there when the next one is made, so a jar that is kept is built once.
-/

namespace ClassRecovery.Agent

open World

/-- What the classpath has for the classes, one after the other, with the names of their files. -/
inductive Gives (boot : Loader) : World → List ClassRef → List (String × Bytes) → World → Prop
  | nil {w : World} : Gives boot w [] [] w
  | cons {w w' w'' : World} {c : ClassRef} {cs : List ClassRef} {b : Bytes}
    {classes : List (String × Bytes)}
    (h : Collector.readClasspath boot c w = (.ok (some b), w'))
    (rest : Gives boot w' cs classes w'') :
    Gives boot w (c :: cs) ((ClassName.resourcePath c.name, b) :: classes) w''

/-- The jar that is at its path now was made for the class: classes are found under the configured
names, in their order, and the jar is written from what the classpath has for them. -/
def Makes (a : Agent) (agentClass : String) (w w' : World) : Prop :=
  ∃ loader agent companions classes w₀ w₁ w₂,
    Host.systemLoader a.host w = (.ok loader, w₀) ∧
    Finds loader w₀ (agentClass :: a.options.agent.companions) (agent :: companions) w₁ ∧
    Gives (Host.bootLoader a.host) w₁ (agent :: companions) classes w₂ ∧
    w'.files.contentAt? a.options.artifactPath =
      some (.file (Archive.write (Artifact.entries agent.name classes [])))

/-- Builds the jar unless there is one to reuse. -/
def prepare (a : Agent) (agentClass : String) : Attempt Error Unit := do
  unless Threads.reuses a.options (← get).files do buildConfigured a agentClass

/-- Asks for the jar to be attached, and cleans up whatever comes of it. -/
def attachOnce (index : Nat) (o : Options) (full : String) : Attempt Error Unit := do
  andAlways (cleanUp o) (request index (.jarAgent full o.agent.args))
  mark index

variable {index : Nat} {a : Agent} {o : Options} {agentClass path : String} {w w' w₁ : World}

theorem mapM_classEntry_eq_ok {boot : Loader} {cs : List ClassRef}
    {classes : List (String × Bytes)} (h : cs.mapM (classEntry boot) w = (.ok classes, w')) :
    Gives boot w cs classes w' := by
  induction cs generalizing w classes with
  | nil =>
    cases h
    exact .nil
  | cons c cs ih =>
    rw [List.mapM_cons, bind_apply] at h
    unfold classEntry at h
    rw [bind_apply] at h
    unfold mapFailure at h
    rcases hread : Collector.readClasspath boot c w with ⟨e | _ | b, w₁⟩ <;> rw [hread] at h
    · cases h
    · cases h
    · change (List.mapM (classEntry boot) cs >>= _ : Attempt Error _) w₁ = _ at h
      rw [bind_apply] at h
      rcases hrest : cs.mapM (classEntry boot) w₁ with ⟨e | rest, w₂⟩ <;>
        rw [hrest] at h <;> cases h
      exact .cons hread (ih hrest)

theorem Gives.besideClasses {boot : Loader} {cs : List ClassRef} {classes : List (String × Bytes)}
    (h : Gives boot w cs classes w') : w'.besideClasses = w.besideClasses := by
  induction h with
  | nil => rfl
  | @cons w _ _ c _ _ _ h _ ih =>
    have hread := readClasspath_keeps boot c w
    rw [h] at hread
    exact ih.trans hread

theorem build_eq_ok {c : ClassRef} {companions : List ClassRef} {extra : List (String × String)}
    (h : a.build c companions extra w = (.ok path, w')) :
    ∃ classes w₁, Gives (Host.bootLoader a.host) w (c :: companions) classes w₁ ∧
      Artifact.write a.options.artifactPath c.name classes extra w₁ = (.ok (), w') := by
  unfold build at h
  rw [bind_apply] at h
  rcases hentries : (c :: companions).mapM (classEntry (Host.bootLoader a.host)) w with
    ⟨e | classes, w₁⟩ <;> rw [hentries] at h
  · cases h
  · dsimp only at h
    rw [bind_apply] at h
    rcases hwrite : Artifact.write a.options.artifactPath c.name classes extra w₁ with
      ⟨e | ⟨⟨⟩⟩, w₂⟩ <;> rw [hwrite] at h <;> cases h
    exact ⟨classes, w₁, mapM_classEntry_eq_ok hentries, hwrite⟩

theorem buildConfigured_makes (hlinked : w.files.Linked)
    (h : buildConfigured a agentClass w = (.ok (), w')) : Makes a agentClass w w' := by
  rcases buildConfigured_cases h with ⟨⟨e, he⟩, -⟩ | ⟨loader, agent, companions, w₀, w₁, built, w₂,
    hloader, hfinds, hbefore, hbuild, hr, hafter⟩
  · cases he
  · cases built with
    | error e => cases hr
    | ok full =>
      obtain ⟨classes, w₃, hgives, hwrite⟩ := build_eq_ok hbuild
      obtain ⟨fs, hfs, hfile⟩ := Artifact.write_eq_ok hwrite
      have hfiles : w₃.files = w.files := congrArg (·.files) (hgives.besideClasses.trans hbefore)
      refine ⟨loader, agent, companions, classes, w₀, w₁, w₃, hloader, hfinds, hgives, ?_⟩
      rw [show w'.files = w₂.files from congrArg (·.files) hafter]
      exact FileSystem.contentAt?_of_write (hfs (hfiles ▸ hlinked)) hfile

theorem prepare_apply (a : Agent) (agentClass : String) (w : World) :
    prepare a agentClass w = if Threads.reuses a.options w.files then (.ok (), w)
      else buildConfigured a agentClass w := by
  unfold prepare
  rw [Attempt.get_bind]
  split <;> rfl

/-- Building, or reusing, comes to a file at the path. -/
theorem isFile_of_prepare (hlinked : w.files.Linked)
    (h : prepare a agentClass w = (.ok (), w₁)) :
    (if Threads.reuses a.options w.files then w₁ = w else Makes a agentClass w w₁) ∧
      w₁.files.isFile a.options.artifactPath = true := by
  rw [prepare_apply] at h
  split at h
  · next hreuses =>
    cases h
    rw [if_pos hreuses]
    exact ⟨rfl, (by simpa [Threads.reuses] using hreuses : _ ∧ _).2⟩
  · next hreuses =>
    have hmakes := buildConfigured_makes hlinked h
    obtain ⟨_, _, _, _, _, _, _, -, -, -, hcontent⟩ := id hmakes
    rw [if_neg hreuses]
    exact ⟨hmakes, FileSystem.isFile_iff.mpr ⟨_, hcontent⟩⟩

theorem bringIn_eq_prepare (hlibrary : a.options.agent.library = none)
    (hclass : a.options.agent.agentClass = some agentClass) :
    bringIn index a w =
      (do prepare a agentClass; attachTarget index a.options : Attempt Error Unit) w := by
  rw [Threads.bringIn_class hlibrary hclass, bind_apply, bind_apply, prepare_apply]
  split <;> rfl

theorem existing_eq_ok {full : String} (hfile : w.files.isFile path = true)
    (hfull : w.files.canonical path = .ok full) : existing path w = (.ok full, w) := by
  unfold existing
  rw [Attempt.get_bind]
  simp only [hfile, hfull, ↓reduceIte]
  rfl

/-- What a call does once the file is there. -/
theorem ensureAttached_of_prepare {full : String} (ha : w.agents[index]? = some a)
    (hfresh : a.attached = false) (hlibrary : a.options.agent.library = none)
    (hclass : a.options.agent.agentClass = some agentClass)
    (h : prepare a agentClass w = (.ok (), w₁))
    (hfile : w₁.files.isFile a.options.artifactPath = true)
    (hfull : w₁.files.canonical a.options.artifactPath = .ok full) :
    ensureAttached index w = attachOnce index a.options full w₁ := by
  have hconfigured : a.options.agentConfigured = true := by
    simp [Options.agentConfigured, hclass]
  have htarget : attachTarget index a.options w₁ =
      andAlways (cleanUp a.options) (request index (.jarAgent full a.options.agent.args)) w₁ := by
    unfold attachTarget Threads.target
    rw [hlibrary, andAlways_apply, andAlways_apply, bind_apply, existing_eq_ok hfile hfull]
  rw [ensureAttached_of_unattached ha hfresh hconfigured, bind_apply,
    bringIn_eq_prepare hlibrary hclass, bind_apply, h]
  simp only [htarget]
  unfold attachOnce
  rw [bind_apply]

theorem attachOnce_files (index : Nat) (o : Options) (full : String) (w : World) :
    (attachOnce index o full w).2.files =
      (cleanUp o (request index (.jarAgent full o.agent.args) w).2).2.files := by
  unfold attachOnce
  rw [bind_apply, andAlways_apply]
  rcases (request index (.jarAgent full o.agent.args) w).1 with e | ⟨⟨⟩⟩ <;> rfl

theorem removeQuietly_files (path : String) (w : World) :
    (Attach.removeQuietly path w).2.files =
      match w.files.removeFile path with
      | .ok files => files
      | .error _ => w.files := by
  unfold Attach.removeQuietly
  rw [Action.get_bind]
  cases w.files.removeFile path <;> rfl

/-- A call that meets no faults but those of the provider: the jar can be built where one is needed,
the provider leaves it alone, and it may be removed then. -/
structure Fair (index : Nat) (a : Agent) (agentClass : String) (w : World) : Prop where
  linked : w.files.Linked
  builds : (prepare a agentClass w).1 = .ok ()
  spares : ∀ full, (prepare a agentClass w).2.files.canonical a.options.artifactPath = .ok full →
    (request index (.jarAgent full a.options.agent.args)
        (prepare a agentClass w).2).2.files.contentAt? a.options.artifactPath =
      (prepare a agentClass w).2.files.contentAt? a.options.artifactPath
  permits : a.options.agent.cache = .buildAttachDelete → ∀ full,
    (prepare a agentClass w).2.files.canonical a.options.artifactPath = .ok full →
    (request index (.jarAgent full a.options.agent.args)
      (prepare a agentClass w).2).2.files.mayRemove a.options.artifactPath = true

/-- The one thing that a call does for an agent that does not count as attached. -/
structure Attaches (index : Nat) (a : Agent) (agentClass : String) (w w₁ : World) (full : String) :
    Prop where
  prepared : if Threads.reuses a.options w.files then w₁ = w else Makes a agentClass w w₁
  file : w₁.files.isFile a.options.artifactPath = true
  canonical : w₁.files.canonical a.options.artifactPath = .ok full
  call : ensureAttached index w = attachOnce index a.options full w₁

theorem attaches_of_fair (ha : w.agents[index]? = some a) (hfresh : a.attached = false)
    (hlibrary : a.options.agent.library = none)
    (hclass : a.options.agent.agentClass = some agentClass) (hfair : Fair index a agentClass w) :
    ∃ w₁ full, Attaches index a agentClass w w₁ full ∧
      (ensureAttached index w).2.files.contentAt? a.options.artifactPath =
        if a.options.agent.cache = .buildAttachDelete then none
        else w₁.files.contentAt? a.options.artifactPath := by
  rcases hrun : prepare a agentClass w with ⟨r, w₁⟩
  obtain rfl : r = .ok () := by
    have hbuilds := hfair.builds
    rwa [hrun] at hbuilds
  obtain ⟨hprepared, hfile⟩ := isFile_of_prepare hfair.linked hrun
  obtain ⟨full, hfull⟩ := FileSystem.canonical_of_isFile hfile
  have hcall := ensureAttached_of_prepare ha hfresh hlibrary hclass hrun hfile hfull
  have hspares := hfair.spares full
  have hpermits := fun hcache => hfair.permits hcache full
  rw [hrun] at hspares hpermits
  refine ⟨w₁, full, ⟨hprepared, hfile, hfull, hcall⟩, ?_⟩
  rw [hcall, attachOnce_files, cleanUp, Threads.deletes, hlibrary]
  cases hcache : a.options.agent.cache with
  | buildAttachDelete =>
    obtain ⟨b, hb⟩ := FileSystem.isFile_iff.mp hfile
    obtain ⟨fs, hremove, hgone⟩ := FileSystem.removeFile_of_contentAt?
      ((hspares hfull).trans hb) (hpermits hcache hfull)
    simpa [removeQuietly_files, hremove] using hgone
  | reuseCached => exact hspares hfull

/-- Between two calls anything may happen, as long as it is not done to the agent or to what is at
the path of its jar. -/
structure Undisturbed (index : Nat) (path : String) (w w' : World) : Prop where
  standing : w'.standing index = w.standing index
  content : w'.files.contentAt? path = w.files.contentAt? path

/-- Calls for one agent, the latest first, each given by the world in which it is made. -/
inductive Calls (index : Nat) (o : Options) (agentClass : String) : List World → Prop
  | first {w : World} {a : Agent} (ha : w.agents[index]? = some a) (ho : a.options = o)
    (hfresh : a.attached = false) (hfair : Fair index a agentClass w) : Calls index o agentClass [w]
  | next {w w' : World} {earlier : List World} {a : Agent}
    (hearlier : Calls index o agentClass (w :: earlier))
    (hbetween : Undisturbed index o.artifactPath (ensureAttached index w).2 w')
    (ha : w'.agents[index]? = some a) (hfair : a.attached = false → Fair index a agentClass w') :
    Calls index o agentClass (w' :: w :: earlier)

namespace Calls

variable {calls : List World}

/-- The agent keeps its settings from call to call. -/
theorem agent (hclass : o.agent.agentClass = some agentClass) (h : Calls index o agentClass calls) :
    ∀ w ∈ calls, ∃ a, w.agents[index]? = some a ∧ a.options = o ∧
      (a.attached = false → Fair index a agentClass w) := by
  induction h with
  | first ha ho _ hfair =>
    intro w hw
    obtain rfl := List.mem_singleton.mp hw
    exact ⟨_, ha, ho, fun _ => hfair⟩
  | @next w w' earlier a _ hbetween ha hfair ih =>
    intro v hv
    rcases List.mem_cons.mp hv with rfl | hv
    · refine ⟨a, ha, ?_, hfair⟩
      obtain ⟨b, hb, rfl, -⟩ := ih w List.mem_cons_self
      have hconfigured : b.options.agentConfigured = true := by
        simp [Options.agentConfigured, hclass]
      obtain ⟨c, hc, hoptions, -⟩ := Threads.ensureAttached_stands hb hconfigured
      have hstanding := hbetween.standing
      rw [standing, standing, ha, hc] at hstanding
      exact (congrArg Prod.fst (Option.some.inj hstanding)).trans hoptions
    · exact ih v hv

/-- A jar that is to be deleted is gone after the call that attached it, and nothing comes back. -/
theorem deleted (hlibrary : o.agent.library = none) (hclass : o.agent.agentClass = some agentClass)
    (hcache : o.agent.cache = .buildAttachDelete) (h : Calls index o agentClass calls) :
    ∀ w ∈ calls, (ensureAttached index w).2.files.contentAt? o.artifactPath = none := by
  have hcall : ∀ {w a}, w.agents[index]? = some a → a.options = o → a.attached = false →
      Fair index a agentClass w →
      (ensureAttached index w).2.files.contentAt? o.artifactPath = none := by
    rintro w a ha rfl hfresh hfair
    obtain ⟨w₁, full, -, hcontent⟩ := attaches_of_fair ha hfresh hlibrary hclass hfair
    rwa [if_pos hcache] at hcontent
  induction h with
  | first ha ho hfresh hfair =>
    intro w hw
    obtain rfl := List.mem_singleton.mp hw
    exact hcall ha ho hfresh hfair
  | @next w w' earlier a hearlier hbetween ha hfair ih =>
    intro v hv
    rcases List.mem_cons.mp hv with rfl | hv
    · obtain ⟨b, hb, ho, -⟩ := (hearlier.next hbetween ha hfair).agent hclass v List.mem_cons_self
      cases ha.symm.trans hb
      cases hattached : a.attached with
      | false => exact hcall ha ho hattached (hfair hattached)
      | true =>
        rw [ensureAttached_of_attached ha hattached]
        exact hbetween.content.trans (ih w List.mem_cons_self)
    · exact ih v hv

/-- A call that finds a file leaves it. -/
theorem content_of_isFile (hlibrary : o.agent.library = none)
    (hclass : o.agent.agentClass = some agentClass) (hcache : o.agent.cache = .reuseCached)
    (ha : w.agents[index]? = some a) (ho : a.options = o)
    (hfair : a.attached = false → Fair index a agentClass w)
    (hfile : w.files.isFile o.artifactPath = true) :
    (ensureAttached index w).2.files.contentAt? o.artifactPath =
      w.files.contentAt? o.artifactPath := by
  cases hattached : a.attached with
  | true => rw [ensureAttached_of_attached ha hattached]
  | false =>
    subst ho
    obtain ⟨w₁, full, hattaches, hcontent⟩ :=
      attaches_of_fair ha hattached hlibrary hclass (hfair hattached)
    have hreuses : Threads.reuses a.options w.files = true := by
      simp [Threads.reuses, hcache, hfile]
    have hsame : w₁ = w := by
      have hprepared := hattaches.prepared
      rwa [if_pos hreuses] at hprepared
    rw [hcontent, hcache, if_neg (by decide), hsame]

/-- A jar that is kept is what the first call attached, whatever came of the calls. -/
theorem kept (hlibrary : o.agent.library = none) (hclass : o.agent.agentClass = some agentClass)
    (hcache : o.agent.cache = .reuseCached) (h : Calls index o agentClass calls) :
    ∃ b, (∀ w ∈ calls,
        (ensureAttached index w).2.files.contentAt? o.artifactPath = some (.file b)) ∧
      (∀ w ∈ calls.dropLast, w.files.contentAt? o.artifactPath = some (.file b)) ∧
      ∀ w ∈ calls.getLast?, w.files.isFile o.artifactPath = true →
        w.files.contentAt? o.artifactPath = some (.file b) := by
  induction h with
  | @first w a ha ho hfresh hfair =>
    subst ho
    obtain ⟨w₁, full, hattaches, hcontent⟩ := attaches_of_fair ha hfresh hlibrary hclass hfair
    obtain ⟨b, hb⟩ := FileSystem.isFile_iff.mp hattaches.file
    rw [hcache, if_neg (by decide)] at hcontent
    refine ⟨b, ?_, by simp, ?_⟩
    · intro v hv
      obtain rfl := List.mem_singleton.mp hv
      exact hcontent.trans hb
    · intro v hv hfile
      obtain rfl : w = v := Option.some.inj hv
      rw [← content_of_isFile hlibrary hclass hcache ha rfl (fun _ => hfair) hfile, hcontent, hb]
  | @next w w' earlier a hearlier hbetween ha hfair ih =>
    obtain ⟨b, hafter, hbefore, hfirst⟩ := ih
    have hfound : w'.files.contentAt? o.artifactPath = some (.file b) :=
      hbetween.content.trans (hafter w List.mem_cons_self)
    obtain ⟨a', ha', ho, -⟩ := (hearlier.next hbetween ha hfair).agent hclass w' List.mem_cons_self
    cases ha.symm.trans ha'
    refine ⟨b, ?_, ?_, ?_⟩
    · intro v hv
      rcases List.mem_cons.mp hv with rfl | hv
      · rw [content_of_isFile hlibrary hclass hcache ha ho hfair
          (FileSystem.isFile_iff.mpr ⟨b, hfound⟩), hfound]
      · exact hafter v hv
    · intro v hv
      rw [List.dropLast_cons_of_ne_nil (List.cons_ne_nil _ _)] at hv
      rcases List.mem_cons.mp hv with rfl | hv
      · exact hfound
      · exact hbefore v hv
    · rwa [List.getLast?_cons_cons]

end Calls

section Given

end Given

section Retried

end Retried

end ClassRecovery.Agent
