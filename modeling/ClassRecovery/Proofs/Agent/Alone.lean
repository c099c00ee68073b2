import ClassRecovery.Proofs.Agent.Attachment

/-!
One thread that nobody comes between does what a single call does: it answers the same and leaves the
same world. So threads that want one agent are many calls, cut at the moments at which others can
come between.
-/

namespace ClassRecovery.Agent

/-- Marks the agent as attached. -/
def mark (index : Nat) : Action Unit := World.updateAgent index fun a => { a with attached := true }

/-- Deletes the file if that is the policy. -/
def cleanUp (o : Options) : Action Unit :=
  if Threads.deletes o then Attach.removeQuietly o.artifactPath else pure ()

/-- Attaches the file that there is, and cleans up whatever comes of it. -/
def attachTarget (index : Nat) (o : Options) : Attempt Error Unit :=
  andAlways (cleanUp o) do
    request index ((Threads.target o).2 (← existing (Threads.target o).1))

theorem cleanUp_keeps (o : Options) : Keeps World.handlesAndStanding (cleanUp o) := by
  unfold cleanUp
  split
  · exact Attach.removeQuietly_keeps _
  · exact .pure _

theorem attachTarget_keeps (index : Nat) (o : Options) :
    Keeps World.handlesAndStanding (attachTarget index o) :=
  .andAlways (cleanUp_keeps o) (.attempt (existing_keeps _) fun _ => request_keeps index _)

/-- Builds the jar where one is wanted, and attaches. -/
def bringIn (index : Nat) (a : Agent) : Attempt Error Unit :=
  match a.options.agent.library, a.options.agent.agentClass with
  | some _, _ => attachTarget index a.options
  | none, some agentClass => do
    unless a.options.agent.cache = .reuseCached && (← get).files.isFile a.options.artifactPath do
      buildConfigured a agentClass
    attachTarget index a.options
  | none, none => return

theorem bringIn_keeps (index : Nat) (a : Agent) :
    Keeps World.handlesAndStanding (bringIn index a) := by
  unfold bringIn
  split
  · exact attachTarget_keeps index _
  · refine .attempt .get fun w => ?_
    dsimp only
    split
    · exact attachTarget_keeps index _
    · exact .attempt (World.keeps_of_building (buildConfigured_keeps a _)) fun _ =>
        attachTarget_keeps index _
  · exact .ok _

variable {index : Nat} {a : Agent} {w : World}

theorem attachLibrary_eq {library : String} (h : a.options.agent.library = some library) :
    attachLibrary index library a.options.agent.args = attachTarget index a.options := by
  funext w
  unfold attachTarget cleanUp Threads.deletes Threads.target
  rw [h, andAlways_apply]
  rfl

theorem attachConfiguredJar_eq {agentClass : String} (h : a.options.agent.library = none)
    (hclass : a.options.agent.agentClass = some agentClass) :
    attachConfiguredJar index a agentClass = bringIn index a := by
  unfold attachConfiguredJar bringIn attachTarget cleanUp Threads.deletes Threads.target
  rw [h, hclass]
  cases a.options.agent.cache <;> rfl

theorem at?_bind {ε β : Type} (f : Option Agent → Attempt ε β) (w : World) :
    ((liftM (at? index) : Attempt ε (Option Agent)) >>= f) w = f w.agents[index]? w :=
  Attempt.lift_bind w _ f

theorem ensureAttached_of_attached (ha : w.agents[index]? = some a) (h : a.attached = true) :
    ensureAttached index w = (.ok (), w) := by
  unfold ensureAttached
  rw [at?_bind, ha]
  simp only [h, ↓reduceIte]
  rfl

theorem ensureAttached_of_unconfigured (ha : w.agents[index]? = some a)
    (h : a.options.agentConfigured = false) : ensureAttached index w = (.ok (), w) := by
  cases hattached : a.attached with
  | true => exact ensureAttached_of_attached ha hattached
  | false =>
    obtain ⟨hlibrary, hclass⟩ := Bool.or_eq_false_iff.mp h
    rw [Option.isSome_eq_false_iff, Option.isNone_iff_eq_none] at hlibrary hclass
    unfold ensureAttached
    rw [at?_bind, ha]
    simp only [hattached, hlibrary, hclass, Bool.false_eq_true, ↓reduceIte]
    rfl

/-- An agent that does not count as attached is brought in, and counts as attached only if that came
to a good end. -/
theorem ensureAttached_of_unattached (ha : w.agents[index]? = some a) (h : a.attached = false)
    (hconfigured : a.options.agentConfigured = true) :
    ensureAttached index w = (do bringIn index a; mark index : Attempt Error Unit) w := by
  unfold ensureAttached
  rw [at?_bind, ha]
  simp only [h, Bool.false_eq_true, ↓reduceIte]
  cases hlibrary : a.options.agent.library with
  | some library =>
    simp only [attachLibrary_eq hlibrary, bringIn, hlibrary]
    rfl
  | none =>
    cases hclass : a.options.agent.agentClass with
    | some agentClass =>
      simp only [attachConfiguredJar_eq hlibrary hclass]
      rfl
    | none =>
      rw [Options.agentConfigured, hlibrary, hclass] at hconfigured
      cases hconfigured

/-- What an agent that counts as attached gives. -/
def collect (index : Nat) (host : AgentHost) : Attempt Error Instrument := do
  let delivered := (← at? index).bind (·.delivered)
  match ← Host.deliveredInstrument delivered host with
  | some i => return i
  | none => throw neverDelivered

theorem acquire_of_unconfigured (ha : w.agents[index]? = some a)
    (h : a.options.agentConfigured = false) : acquire index w = Host.instrument a.host w := by
  unfold acquire
  rw [at?_bind, ha]
  simp only [h, Bool.not_false, ↓reduceIte]

theorem acquire_of_configured (ha : w.agents[index]? = some a)
    (h : a.options.agentConfigured = true) :
    acquire index w =
      (do ensureAttached index; collect index a.host : Attempt Error Instrument) w := by
  unfold acquire
  rw [at?_bind, ha]
  simp only [h, Bool.not_true, Bool.false_eq_true, ↓reduceIte]
  rfl

namespace Threads

variable {t : Nat} {r : Request} {s s' : Shared} {o : Options}

theorem next_of_agent (ha : s.world.agents[index]? = some a) (phase : Phase) :
    (routine index).next t phase s = nextOf index t a phase s := by
  change next index t phase s = _
  rw [next, ha]
  rfl

/-- The agent is still the one that is asked about. -/
def Stands (index : Nat) (o : Options) (host : AgentHost) (w : World) : Prop :=
  ∃ a, w.agents[index]? = some a ∧ a.options = o ∧ a.host = host

theorem Stands.of_keeps {host : AgentHost} {α : Type} {b : Action α}
    (h : Stands index o host w) (hb : Keeps World.handlesAndStanding b) :
    Stands index o host (b w).2 := by
  obtain ⟨a, ha, rfl, rfl⟩ := h
  have hstanding : (b w).2.standing index = w.standing index := congrFun (congrArg Prod.snd (hb w)) _
  rw [World.standing, World.standing, ha] at hstanding
  obtain ⟨a', ha', hsame⟩ := Option.map_eq_some_iff.mp hstanding
  exact ⟨a', ha', congrArg Prod.fst hsame, congrArg (·.2.1) hsame⟩

theorem Stands.mark {host : AgentHost} (h : Stands index o host w) :
    Stands index o host (mark index w).2 := by
  obtain ⟨a, ha, ho, hhost⟩ := h
  refine ⟨{ a with attached := true }, ?_, ho, hhost⟩
  change (w.agents.modify index _)[index]? = _
  rw [Array.getElem?_modify, if_pos rfl, ha]
  rfl

/-- A thread that nobody comes between gets from one place to another, and makes this of the
world. It answers nothing on the way, and the lock stays as it was. -/
def Reaches (index t : Nat) (phase : Phase) (s : Shared) (phase' : Phase) (w : World) : Prop :=
  ∃ turns, ∀ s', (routine index).Alone t phase' { s with world := w, turns } s' →
    (routine index).Alone t phase s s'

theorem Reaches.refl (index t : Nat) (phase : Phase) (s : Shared) :
    Reaches index t phase s phase s.world := ⟨s.turns, fun _ h => h⟩

theorem Reaches.step {phase phase' phase'' : Phase} {s' : Shared} {w : World}
    (hnext : (routine index).next t phase s = some (some phase', s'))
    (hholder : s'.holder = s.holder) (hanswered : s'.answered = s.answered)
    (h : Reaches index t phase' s' phase'' w) : Reaches index t phase s phase'' w := by
  obtain ⟨turns, hrest⟩ := h
  rw [hholder, hanswered] at hrest
  exact ⟨turns, fun s'' hs'' => .step hnext (hrest s'' hs'')⟩

theorem note_world (s : Shared) (d : Deed) : (s.note d).world = s.world := by
  unfold Shared.note
  split <;> rfl

variable {host : AgentHost}

/-- Success is noted. -/
def conclude (index : Nat) : Except Error Unit → Action Unit
  | .ok () => mark index
  | .error _ => pure ()

theorem reaches_concluding (h : Stands index o host s.world) (result : Except Error Unit) :
    Reaches index t (concluding r result) s (.unlocking r result)
      (conclude index result s.world).2 := by
  obtain ⟨a, ha, -, -⟩ := h
  rcases result with e | ⟨⟨⟩⟩
  · exact .refl index t _ s
  · exact .step (next_of_agent ha _) rfl rfl (.refl index t _ _)

theorem reaches_cleaning (h : Stands index o host s.world) (result : Except Error Unit) :
    Reaches index t (.cleaning r result) s (.unlocking r result)
      (conclude index result (cleanUp o s.world).2).2 := by
  have hcleaned := h.of_keeps (cleanUp_keeps o)
  obtain ⟨a, ha, rfl, -⟩ := h
  have hnext := next_of_agent (t := t) ha (.cleaning r result)
  simp only [nextOf] at hnext
  unfold cleanUp at hcleaned ⊢
  by_cases hdeletes : deletes a.options = true
  · simp only [hdeletes, ↓reduceIte] at hnext hcleaned ⊢
    generalize (Attach.removeQuietly a.options.artifactPath s.world).2 = w' at hnext hcleaned ⊢
    refine .step hnext (note_holder _ _) (note_answered _ _) ?_
    have hconcluded := reaches_concluding (t := t) (r := r)
      (s := Shared.note (.deleted a.options.artifactPath) { s with world := w' })
      (by rw [note_world]; exact hcleaned) result
    rwa [note_world] at hconcluded
  · simp only [hdeletes, Bool.false_eq_true, ↓reduceIte] at hnext hcleaned ⊢
    exact .step hnext rfl rfl (reaches_concluding hcleaned result)

theorem attachTarget_eq (index : Nat) (o : Options) (w : World) :
    attachTarget index o w = match existing (target o).1 w with
      | (.error e, w') => (.error e, (cleanUp o w').2)
      | (.ok full, w') =>
        ((request index ((target o).2 full) w').1,
          (cleanUp o (request index ((target o).2 full) w').2).2) := by
  unfold attachTarget
  rw [andAlways_apply, bind_apply]
  rcases existing (target o).1 w with ⟨e | full, w'⟩ <;> rfl

/-- The attempt itself, and the note of its success. -/
theorem reaches_finding (h : Stands index o host s.world) :
    Reaches index t (.finding r) s (.unlocking r (attachTarget index o s.world).1)
      (conclude index (attachTarget index o s.world).1 (attachTarget index o s.world).2).2 := by
  have hfound := h.of_keeps (existing_keeps (target o).1)
  obtain ⟨a, ha, rfl, -⟩ := h
  have hnext := next_of_agent (t := t) ha (.finding r)
  simp only [nextOf] at hnext
  rw [attachTarget_eq]
  rcases hrun : existing (target a.options).1 s.world with ⟨e | full, w'⟩ <;>
    simp only [hrun] at hnext hfound ⊢
  · exact .step hnext rfl rfl (reaches_cleaning (s := { s with world := w' }) hfound (.error e))
  · have hasked := hfound.of_keeps (request_keeps index ((target a.options).2 full))
    refine .step hnext rfl rfl ?_
    obtain ⟨a', ha', -, -⟩ := hfound
    have hnext' := next_of_agent (t := t) (s := { s with world := w' }) ha'
      (.requesting r ((target a.options).2 full))
    rcases hrequest : request index ((target a.options).2 full) w' with ⟨result, w''⟩
    rw [hrequest] at hasked
    simp only [nextOf, hrequest] at hnext'
    refine .step hnext' (note_holder _ _) (note_answered _ _) ?_
    have hcleaned := reaches_cleaning (t := t) (r := r)
      (s := Shared.note (.attached ((target a.options).2 full) result) { s with world := w'' })
      (by rw [note_world]; exact hasked) result
    rwa [note_world] at hcleaned

/-- Whether an agent needs no new jar. -/
def reuses (o : Options) (files : FileSystem) : Bool :=
  o.agent.cache = .reuseCached && files.isFile o.artifactPath

theorem bringIn_class {agentClass : String} (hlibrary : a.options.agent.library = none)
    (hclass : a.options.agent.agentClass = some agentClass) (w : World) :
    bringIn index a w = if reuses a.options w.files then attachTarget index a.options w
      else (do buildConfigured a agentClass; attachTarget index a.options : Attempt Error Unit) w := by
  unfold bringIn reuses
  simp only [hlibrary, hclass, Attempt.get_bind]
  split <;> rfl

theorem first_class {agentClass : String} (hlibrary : a.options.agent.library = none)
    (hclass : a.options.agent.agentClass = some agentClass) (files : FileSystem) :
    first r a.options files =
      if reuses a.options files then .finding r else .building r agentClass := by
  unfold first reuses
  simp only [hlibrary, hclass]

theorem reaches_building {agentClass : String} (ha : s.world.agents[index]? = some a) :
    let attempt : Attempt Error Unit := do
      buildConfigured a agentClass
      attachTarget index a.options
    Reaches index t (.building r agentClass) s (.unlocking r (attempt s.world).1)
      (conclude index (attempt s.world).1 (attempt s.world).2).2 := by
  have hbuilt : Stands index a.options a.host (buildConfigured a agentClass s.world).2 :=
    Stands.of_keeps ⟨a, ha, rfl, rfl⟩ (World.keeps_of_building (buildConfigured_keeps a agentClass))
  have hnext := next_of_agent (t := t) ha (.building r agentClass)
  dsimp only
  rw [bind_apply]
  rcases hrun : buildConfigured a agentClass s.world with ⟨e | ⟨⟨⟩⟩, w'⟩ <;>
    rw [hrun] at hbuilt <;> simp only [nextOf, hrun] at hnext ⊢
  · have hend := Reaches.refl index t (.unlocking r (.error e))
      (Shared.note (.built (.error e)) { s with world := w' })
    rw [note_world] at hend
    exact .step hnext (note_holder _ _) (note_answered _ _) hend
  · have hfound := reaches_finding (t := t) (r := r) (o := a.options)
      (s := Shared.note (.built (.ok ())) { s with world := w' })
      (by rw [note_world]; exact hbuilt)
    rw [note_world] at hfound
    exact .step hnext (note_holder _ _) (note_answered _ _) hfound

theorem reaches_first (ha : s.world.agents[index]? = some a)
    (hconfigured : a.options.agentConfigured = true) :
    Reaches index t (first r a.options s.world.files) s
      (.unlocking r (bringIn index a s.world).1)
      (conclude index (bringIn index a s.world).1 (bringIn index a s.world).2).2 := by
  have hstands : Stands index a.options a.host s.world := ⟨a, ha, rfl, rfl⟩
  cases hlibrary : a.options.agent.library with
  | some library =>
    simp only [first, bringIn, hlibrary]
    exact reaches_finding hstands
  | none =>
    cases hclass : a.options.agent.agentClass with
    | some agentClass =>
      rw [first_class hlibrary hclass, bringIn_class hlibrary hclass]
      split
      · exact reaches_finding hstands
      · exact reaches_building ha
    | none =>
      rw [Options.agentConfigured, hlibrary, hclass] at hconfigured
      cases hconfigured

theorem reaches_checking (ha : s.world.agents[index]? = some a)
    (hconfigured : a.options.agentConfigured = true) :
    Reaches index t (.checking r) s (.unlocking r (ensureAttached index s.world).1)
      (ensureAttached index s.world).2 := by
  have hnext := next_of_agent (t := t) ha (.checking r)
  cases hattached : a.attached with
  | true =>
    rw [ensureAttached_of_attached ha hattached]
    simp only [nextOf, hattached, ↓reduceIte] at hnext
    exact .step hnext rfl rfl (.refl index t _ s)
  | false =>
    rw [ensureAttached_of_unattached ha hattached hconfigured]
    simp only [nextOf, hattached, Bool.false_eq_true, ↓reduceIte] at hnext
    have hfirst := reaches_first (t := t) (r := r) ha hconfigured
    rw [bind_apply]
    rcases hrun : bringIn index a s.world with ⟨e | ⟨⟨⟩⟩, w'⟩ <;> rw [hrun] at hfirst
    · exact .step hnext rfl rfl hfirst
    · exact .step hnext rfl rfl hfirst

/-- What is left of a request when the lock is given back. -/
def finish (index : Nat) (host : AgentHost) (r : Request) : Attempt Error (Option Instrument) :=
  match r with
  | .attach => return none
  | .acquire => some <$> collect index host

theorem collect_eq (ha : w.agents[index]? = some a) :
    (some <$> collect index a.host : Attempt Error (Option Instrument)) w =
      ((Answer.delivered (Host.deliveredInstrument a.delivered a.host w).1).result,
        (Host.deliveredInstrument a.delivered a.host w).2) := by
  have hcollect : collect index a.host w = (do
      match ← Host.deliveredInstrument a.delivered a.host with
      | some i => return i
      | none => throw neverDelivered : Attempt Error Instrument) w := by
    unfold collect
    rw [at?_bind, ha]
    rfl
  change (collect index a.host >>= fun i => pure (some i) : Attempt Error _) w = _
  rw [bind_apply, hcollect, bind_apply]
  rcases Host.deliveredInstrument a.delivered a.host w with ⟨e | _ | i, w'⟩ <;> rfl

theorem alone_unlocking (h : Stands index o host s.world) (result : Except Error Unit) :
    ∃ x w', (routine index).Alone t (.unlocking r result) s
        { s with world := w', holder := none, answered := x :: s.answered } ∧
      (do MonadExcept.ofExcept result; finish index host r :
        Attempt Error (Option Instrument)) s.world = (x.result, w') := by
  obtain ⟨a, ha, rfl, rfl⟩ := h
  have hnext := next_of_agent (t := t) ha (.unlocking r result)
  cases r with
  | attach => rcases result with e | ⟨⟨⟩⟩ <;> exact ⟨_, _, .done hnext, rfl⟩
  | acquire =>
    rcases result with e | ⟨⟨⟩⟩
    · exact ⟨_, _, .done hnext, rfl⟩
    · have hcollecting := next_of_agent (t := t) (s := { s with holder := none }) ha .collecting
      exact ⟨_, _, .step hnext (.done hcollecting), collect_eq ha⟩

theorem ask_of_configured (ha : w.agents[index]? = some a)
    (hconfigured : a.options.agentConfigured = true) (r : Request) :
    r.ask index w = (do ensureAttached index; finish index a.host r :
      Attempt Error (Option Instrument)) w := by
  cases r with
  | attach => rfl
  | acquire =>
    change (acquire index >>= fun i => pure (some i) : Attempt Error _) w = _
    rw [bind_apply, acquire_of_configured ha hconfigured, bind_apply, bind_apply]
    rcases ensureAttached index w with ⟨e | ⟨⟨⟩⟩, w'⟩
    · rfl
    · change _ = (collect index a.host >>= fun i => pure (some i) : Attempt Error _) w'
      rw [bind_apply]

theorem ensureAttached_stands (ha : w.agents[index]? = some a)
    (hconfigured : a.options.agentConfigured = true) :
    Stands index a.options a.host (ensureAttached index w).2 := by
  have hstands : Stands index a.options a.host w := ⟨a, ha, rfl, rfl⟩
  cases hattached : a.attached with
  | true =>
    rw [ensureAttached_of_attached ha hattached]
    exact hstands
  | false =>
    rw [ensureAttached_of_unattached ha hattached hconfigured, bind_apply]
    have hbrought := hstands.of_keeps (bringIn_keeps index a)
    rcases hrun : bringIn index a w with ⟨e | ⟨⟨⟩⟩, w'⟩ <;> rw [hrun] at hbrought
    · exact hbrought
    · exact hbrought.mark

/-- Apart from what is noted, nothing is different from what one thread does. -/
theorem alone_ask (ha : s.world.agents[index]? = some a) (hfree : s.holder = none) (r : Request) :
    ∃ x turns, (routine index).Alone t (.begun r) s
        ⟨(r.ask index s.world).2, none, turns, x :: s.answered⟩ ∧
      x.result = (r.ask index s.world).1 := by
  obtain ⟨w, holder, turns, answered⟩ := s
  obtain rfl : holder = none := hfree
  have hnext := next_of_agent (t := t) ha (.begun r)
  cases hconfigured : a.options.agentConfigured with
  | false =>
    simp only [nextOf, hconfigured, Bool.false_eq_true, ↓reduceIte] at hnext
    cases r with
    | attach =>
      have hask : Request.attach.ask index w = (.ok none, w) := by
        change (ensureAttached index >>= fun _ => pure none : Attempt Error _) w = _
        rw [bind_apply, ensureAttached_of_unconfigured ha hconfigured]
        rfl
      rw [hask]
      exact ⟨_, turns, .done hnext, rfl⟩
    | acquire =>
      have hask : Request.acquire.ask index w =
          ((Host.instrument a.host w).1.map some, (Host.instrument a.host w).2) := by
        change (acquire index >>= fun i => pure (some i) : Attempt Error _) w = _
        rw [bind_apply, acquire_of_unconfigured ha hconfigured]
        rcases Host.instrument a.host w with ⟨e | i, w'⟩ <;> rfl
      rw [hask]
      exact ⟨_, turns, .done hnext, rfl⟩
  | true =>
    simp only [nextOf, hconfigured, ↓reduceIte] at hnext
    have hlocking := next_of_agent (t := t) (s := ⟨w, none, turns, answered⟩) ha (.locking r)
    simp only [nextOf, ↓reduceIte] at hlocking
    obtain ⟨turns', hchecking⟩ := reaches_checking (t := t) (r := r)
      (s := ⟨w, some t, [] :: turns, answered⟩) ha hconfigured
    obtain ⟨x, w', halone, hfinish⟩ := alone_unlocking (t := t) (r := r)
      (s := ⟨(ensureAttached index w).2, some t, turns', answered⟩)
      (ensureAttached_stands ha hconfigured) (ensureAttached index w).1
    have hask : r.ask index w = (x.result, w') := by
      rw [← hfinish, ask_of_configured ha hconfigured, bind_apply]
      rcases ensureAttached index w with ⟨e | ⟨⟨⟩⟩, w₁⟩ <;> rfl
    rw [hask]
    exact ⟨x, turns', .step hnext (.step hlocking (hchecking _ halone)), rfl⟩

end Threads

end ClassRecovery.Agent
