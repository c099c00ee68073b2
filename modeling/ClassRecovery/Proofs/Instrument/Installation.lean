import ClassRecovery.Instrument.Machine
import ClassRecovery.Proofs.Jvm.Classes

/-!
Installing the hook of a process, as often as one likes, into a machine that may refuse each request
and may change its mind in between. The hook is known to the process before the machine has agreed
to call it. So whether an installed hook works is decided once, by the installation that made it
known: the later ones find it and look no further.
-/

namespace ClassRecovery

variable {τ ε α : Type}

namespace Jvm.Tool

/-- Whether the machine has a callback for class files, and whether the event is on. -/
def listening (m : Machine) : Bool × Bool := (m.setup.hooked, m.setup.enabled)

theorem requireFunction_keeps {view : Machine → τ} (tool : Nat) (function : String) :
    Keeps view (requireFunction tool function) := by
  refine Keeps.attempt (fun _ => rfl) fun m => ?_
  split
  · exact .throw _
  · exact .ok _

theorem call_keeps (tool : Nat) (function arguments : String) :
    Keeps listening (call tool function arguments) := by
  refine .attempt (requireFunction_keeps tool function) fun _ => ?_
  refine Keeps.attempt (.lift fun _ => rfl) fun code => ?_
  split
  · exact .throw _
  · exact .ok _

theorem listening_of_call {tool : Nat} {function arguments : String} {m m' : Machine}
    {r : Except JvmtiCode Unit} (h : call tool function arguments m = (r, m')) :
    listening m' = listening m := by
  have hkeeps := call_keeps tool function arguments m
  rwa [h] at hkeeps

theorem obtain_keeps : Keeps listening obtain := by
  have hend : ∀ answer : Int, Keeps listening
      (do if answer ≠ 0 then throw answer
          environment : ExceptT Int (StateM Machine) Nat) := by
    intro answer
    split
    · exact .throw _
    · exact .lift fun _ => rfl
  refine .attempt (.lift fun _ => rfl) fun _ => .attempt (fun _ => rfl) fun m => ?_
  dsimp only
  split
  · exact .attempt (.lift fun _ => rfl) fun _ => .attempt (fun _ => rfl) fun m => hend _
  · exact hend _

theorem setCallbacks_eq (tool : Nat) (hooked : Bool) (m : Machine) :
    (∃ e m', setCallbacks tool hooked m = (.error e, m') ∧ listening m' = listening m) ∨
      ∃ m', setCallbacks tool hooked m = (.ok (), m') ∧
        listening m' = (hooked, m.setup.enabled) := by
  unfold setCallbacks
  rw [bind_apply]
  rcases hrun : call tool "SetEventCallbacks" _ m with ⟨e | x, m'⟩
  · exact .inl ⟨e, m', rfl, listening_of_call hrun⟩
  · exact .inr ⟨_, rfl, congrArg (hooked, ·.2) (listening_of_call hrun)⟩

theorem enable_eq (tool : Nat) (m : Machine) :
    (∃ e m', setEventMode tool true classFileEvent m = (.error e, m') ∧
      listening m' = listening m) ∨
      ∃ m', setEventMode tool true classFileEvent m = (.ok (), m') ∧
        listening m' = (m.setup.hooked, true) := by
  unfold setEventMode
  rw [bind_apply]
  rcases hrun : call tool "SetEventNotificationMode" _ m with ⟨e | x, m'⟩
  · exact .inl ⟨e, m', rfl, listening_of_call hrun⟩
  · exact .inr ⟨_, rfl, congrArg (·.1, true) (listening_of_call hrun)⟩

end Jvm.Tool

namespace World

/-- Whether the hook is known, and what the machine was told about it. -/
def hooking (w : World) : Bool × Bool × Bool :=
  (w.hook.isSome, Jvm.Tool.listening w.link.machine)

theorem attemptMachine_keeps {a : ExceptT ε (StateM Jvm.Machine) α}
    (h : Keeps Jvm.Tool.listening a) : Keeps hooking (attemptMachine a) := by
  intro w
  exact congrArg (w.hook.isSome, ·) (h w.link.machine)

end World

namespace Hook

theorem use_keeps {a : Jvm.Tool.Use α} (h : Keeps Jvm.Tool.listening a) :
    Keeps World.hooking (use a) :=
  (World.attemptMachine_keeps h).mapFailure

theorem prepare_keeps (connection : Nat) : Keeps World.hooking (prepare connection) := by
  refine .attempt (World.attemptMachine_keeps Jvm.Tool.obtain_keeps).mapFailure fun tool => ?_
  refine .attempt (use_keeps ?_) fun potential => .attempt (use_keeps ?_) fun _ =>
    .attempt (use_keeps ?_) fun granted => .ok _
  · exact .attempt (Jvm.Tool.call_keeps _ _ _) fun _ => .attempt (fun _ => rfl) fun m => .ok _
  · exact .attempt (Jvm.Tool.call_keeps _ _ _) fun _ => .lift fun _ => rfl
  · exact .attempt (Jvm.Tool.call_keeps _ _ _) fun _ => .attempt (fun _ => rfl) fun m => .ok _

/-- What an installation comes to. Between `refused` and `complete` lies `halfway`: the hook is
known, but the machine did not take the callback, or did not turn the event on. -/
inductive Installs (w : World) : Except Error Instrument → World → Prop
  | found (known : w.hook.isSome) : Installs w (.ok .machine) w
  | refused (e : Error) (w' : World) (unknown : w.hook = none) (same : w'.hooking = w.hooking) :
      Installs w (.error e) w'
  | halfway (e : Error) (w' : World) (unknown : w.hook = none) (known : w'.hook.isSome)
      (same : w'.hooking.2.2 = w.hooking.2.2) : Installs w (.error e) w'
  | complete (w' : World) (unknown : w.hook = none) (works : w'.hooking = (true, true, true)) :
      Installs w (.ok .machine) w'

variable {w : World}

theorem use_eq_error {a : Jvm.Tool.Use α} {code : JvmtiCode} {m : Jvm.Machine}
    (h : a w.link.machine = (.error code, m)) :
    use a w = (.error (.jvmti code), { w with link := { w.link with machine := m } }) := by
  unfold use mapFailure World.attemptMachine World.attemptLink Jvm.Link.checked
  simp only [h]

theorem use_eq_ok {a : Jvm.Tool.Use α} {x : α} {m : Jvm.Machine}
    (h : a w.link.machine = (.ok x, m)) :
    use a w = (.ok x, { w with link := { w.link with machine := m } }) := by
  unfold use mapFailure World.attemptMachine World.attemptLink Jvm.Link.checked
  simp only [h]

/-- The last two requests of an installation: they make the machine call the hook. -/
def engage (tool : Nat) : Attempt Error Instrument := do
  use (Jvm.Tool.setCallbacks tool true)
  use (Jvm.Tool.setEventMode tool true Jvm.Tool.classFileEvent)
  return .machine

theorem install_of_known (connection : Nat) (h : w.hook.isSome) :
    install connection w = (.ok .machine, w) := by
  unfold install
  rw [Attempt.get_bind, if_pos h]
  rfl

theorem install_of_unknown (connection : Nat) (h : w.hook = none) :
    install connection w = (do
      let h ← prepare connection
      publish h
      engage h.tool : Attempt Error Instrument) w := by
  unfold install
  rw [Attempt.get_bind, h]
  rfl

/-- The machine is left as it was, half engaged, or listening. -/
theorem engage_cases (tool : Nat) (w : World) :
    (∃ e w', engage tool w = (.error e, w') ∧ w'.hook = w.hook ∧
      w'.hooking.2.2 = w.hooking.2.2) ∨
      ∃ w', engage tool w = (.ok .machine, w') ∧ w'.hook = w.hook ∧
        w'.hooking.2 = (true, true) := by
  unfold engage
  rw [bind_apply]
  rcases Jvm.Tool.setCallbacks_eq tool true w.link.machine with ⟨e, m, hset, hm⟩ | ⟨m, hset, hm⟩
  · rw [use_eq_error hset]
    exact .inl ⟨_, _, rfl, rfl, congrArg Prod.snd hm⟩
  rw [use_eq_ok hset]
  dsimp only
  rw [bind_apply]
  have henabled : (Jvm.Tool.listening m).2 = w.link.machine.setup.enabled := congrArg Prod.snd hm
  rcases Jvm.Tool.enable_eq tool m with ⟨e, m', hmode, hm'⟩ | ⟨m', hmode, hm'⟩
  · rw [use_eq_error hmode]
    exact .inl ⟨_, _, rfl, rfl, (congrArg Prod.snd hm').trans henabled⟩
  · rw [use_eq_ok hmode]
    refine .inr ⟨_, rfl, rfl, hm'.trans ?_⟩
    exact congrArg (·, true) (congrArg Prod.fst hm)

theorem install_installs (connection : Nat) (w : World) :
    Installs w (install connection w).1 (install connection w).2 := by
  cases hknown : w.hook with
  | some h =>
    have hsome : w.hook.isSome := by rw [hknown]; rfl
    rw [install_of_known connection hsome]
    exact .found hsome
  | none =>
    have hprepared := prepare_keeps connection w
    rw [install_of_unknown connection hknown, bind_apply]
    rcases hrun : prepare connection w with ⟨e | h, w₁⟩ <;> rw [hrun] at hprepared
    · exact .refused e w₁ hknown hprepared
    · dsimp only
      rw [Attempt.lift_bind]
      have hsame : w₁.hooking.2 = w.hooking.2 := congrArg Prod.snd hprepared
      rcases engage_cases h.tool (publish h w₁).2 with
        ⟨e, w₂, hrun', hhook, hlistening⟩ | ⟨w₂, hrun', hhook, hlistening⟩
      · rw [hrun']
        exact .halfway e w₂ hknown (by rw [hhook]; rfl) (hlistening.trans (congrArg Prod.snd hsame))
      · rw [hrun']
        refine .complete w₂ hknown ?_
        have hsome : w₂.hook.isSome = true := by rw [hhook]; rfl
        exact Prod.ext hsome hlistening

/-- The machine behaves as described from now on. -/
def redescribed (d : Jvm.Description) (w : World) : World :=
  { w with link := { w.link with machine := { w.link.machine with description := d } } }

/-- Installations one after the other, with what each answered and what it left. Before each the
machine may come to behave in another way. -/
def history : List (Jvm.Description × Nat) → World → List (Except Error Instrument × World)
  | [], _ => []
  | (d, connection) :: rest, w =>
    let answered := install connection (redescribed d w)
    answered :: history rest answered.2

/-- The installation answered with a failure, but the hook is known. -/
def IsHalfway (answered : Except Error Instrument × World) : Prop :=
  answered.1.isOk = false ∧ answered.2.hook.isSome

theorem isCalled_eq (w : World) : isCalled w = (w.hooking.2.1 && w.hooking.2.2) := rfl

/-- Once the hook is known nothing is asked of the machine any more. -/
theorem history_known (h : w.hook.isSome) (steps : List (Jvm.Description × Nat)) :
    ∀ answered ∈ history steps w, answered.1 = .ok .machine ∧ answered.2.hooking = w.hooking := by
  induction steps generalizing w with
  | nil => exact fun _ hx => by cases hx
  | cons step rest ih =>
    obtain ⟨d, connection⟩ := step
    intro answered hx
    rw [history, install_of_known (w := redescribed d w) connection h, List.mem_cons] at hx
    rcases hx with rfl | hx
    · exact ⟨rfl, rfl⟩
    · exact ih (w := redescribed d w) h answered hx

theorem not_isHalfway_of_ok {answered : Except Error Instrument × World}
    (h : answered.1 = .ok .machine) : ¬ IsHalfway answered := by
  rintro ⟨hfailed, -⟩
  rw [h] at hfailed
  cases hfailed

/-- An installation that succeeds leaves a hook that the machine calls if and only if no earlier
one failed halfway. So a failure that left no hook behind can be made good by a later installation,
and one that left a hook cannot. -/
theorem installed_is_called_iff {steps : List (Jvm.Description × Nat)} (hunknown : w.hook = none)
    (hoff : w.link.machine.setup.enabled = false)
    {before rest : List (Except Error Instrument × World)} {answer : Except Error Instrument}
    {after : World} (hsteps : history steps w = before ++ (answer, after) :: rest)
    (hok : answer.isOk = true) :
    isCalled after = true ↔ ∀ answered ∈ before, ¬ IsHalfway answered := by
  induction steps generalizing w before with
  | nil => cases before <;> cases hsteps
  | cons step steps ih =>
    obtain ⟨d, connection⟩ := step
    have hfirst := install_installs connection (redescribed d w)
    rw [history] at hsteps
    rcases hrun : install connection (redescribed d w) with ⟨r, w₁⟩
    simp only [hrun] at hsteps hfirst
    cases hfirst with
    | found known =>
      rw [show (redescribed d w).hook = none from hunknown] at known
      cases known
    | refused e _ _ same =>
      cases before with
      | nil =>
        cases hsteps
        cases hok
      | cons first before =>
        obtain ⟨rfl, hrest⟩ := List.cons.inj hsteps
        have hnone : w₁.hook = none := by
          have hsome := congrArg Prod.fst same
          rw [← Option.not_isSome_iff_eq_none]
          simpa [World.hooking, redescribed, hunknown] using hsome
        have hiff := ih hnone ((congrArg (·.2.2) same).trans hoff) hrest
        rw [hiff, List.forall_mem_cons, and_iff_right]
        rintro ⟨-, hsome⟩
        rw [hnone] at hsome
        cases hsome
    | halfway e _ _ known same =>
      cases before with
      | nil =>
        cases hsteps
        cases hok
      | cons first before =>
        obtain ⟨rfl, hrest⟩ := List.cons.inj hsteps
        have hafter := (history_known known steps (answer, after) (by simp [hrest])).2
        have hquiet : after.hooking.2.2 = false :=
          (congrArg (·.2.2) hafter).trans (same.trans hoff)
        refine iff_of_false ?_ fun hall => hall _ List.mem_cons_self ⟨rfl, known⟩
        rw [isCalled_eq, hquiet, Bool.and_false]
        exact Bool.false_ne_true
    | complete _ _ works =>
      have hknown : w₁.hook.isSome = true := congrArg Prod.fst works
      have hlater := history_known hknown steps
      have hcalled : ∀ v : World, v.hooking = w₁.hooking → isCalled v = true := by
        intro v hv
        rw [isCalled_eq, hv, works]
        rfl
      cases before with
      | nil =>
        cases hsteps
        exact iff_of_true (hcalled _ rfl) fun _ hx => by cases hx
      | cons first before =>
        obtain ⟨rfl, hrest⟩ := List.cons.inj hsteps
        rw [hrest] at hlater
        refine iff_of_true (hcalled _ (hlater (answer, after) (by simp)).2) ?_
        rw [List.forall_mem_cons]
        refine ⟨not_isHalfway_of_ok rfl, fun answered hx => ?_⟩
        exact not_isHalfway_of_ok (hlater answered (List.mem_append_left _ hx)).1

section Retrying

/-- A process whose machine was not asked for anything yet. -/
def unasked : World := { files := ⟨#[], []⟩ }

/-- A machine that has no tool interface at first, so that nothing is made known. -/
def afterRefusal : List (Jvm.Description × Nat) := [({ toolAnswer := -1 }, 0), ({}, 0)]

/-- A machine that at first does not take the callback. -/
def afterHalf : List (Jvm.Description × Nat) :=
  [({ toolErrors := [("SetEventCallbacks", 113)] }, 0), ({}, 0)]

/-- The second installation finds no hook, and sets everything up. -/
theorem installed_is_called_after_refusal :
    ∃ first second, history afterRefusal unasked = [first, second] ∧ first.1.isOk = false ∧
      second.1 = .ok .machine ∧ isCalled second.2 = true := by
  let first : Except Error Instrument × World :=
    install 0 (redescribed { toolAnswer := -1 } unasked)
  let second : Except Error Instrument × World := install 0 (redescribed {} first.2)
  have hsteps : history afterRefusal unasked = [first] ++ (second.1, second.2) :: [] := rfl
  have hwhole : ∀ answered ∈ [first], ¬ IsHalfway answered := by
    intro answered hx
    obtain rfl := List.mem_singleton.mp hx
    rintro ⟨-, hknown⟩
    have hnone : first.2.hook.isSome = false := by cbv
    rw [hnone] at hknown
    cases hknown
  have hok : second.1.isOk = true := by cbv
  exact ⟨first, second, rfl, by cbv, by cbv,
    (installed_is_called_iff rfl rfl hsteps hok).mpr hwhole⟩

/-- The second installation finds the hook of the first one and succeeds. The machine would take
every request by now, but it is not asked to call the hook. -/
theorem installed_is_not_called_after_half :
    ∃ first second, history afterHalf unasked = [first, second] ∧ first.1.isOk = false ∧
      second.1 = .ok .machine ∧ isCalled second.2 = false := by
  refine ⟨_, _, rfl, ?_, ?_, ?_⟩ <;> cbv

end Retrying

end Hook

end ClassRecovery
