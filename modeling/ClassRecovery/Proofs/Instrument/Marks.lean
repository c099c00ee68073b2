import ClassRecovery.Proofs.Instrument.Agreement
import ClassRecovery.Proofs.Instrument.Registering

/-!
The marks of a thread against its call stack. Foreign code runs as a thread and as its transformers;
it does what it wants, asks gateways for transformations, and cannot get at the marks. Told which
calls are not finished, one sees at every moment that the marks are just these, whatever other
threads do meanwhile.
-/

namespace ClassRecovery

/-- What foreign code does on a thread: it works on everything but the marks, has the machine load
class files, asks for transformations, and comes to an end. -/
inductive Conduct (α : Type)
  | done (x : α)
  | work (f : World → World) (next : World → Conduct α)
  | load (f : Hook.ClassFile) (next : Option Bytes → Conduct α)
  | ask (classes : List ClassRef) (on : Instrument) (next : Except Error Unit → Conduct α)

/-- Whatever is done, the marks of the thread stay. -/
def besideMarks (f : World → World) : Action Unit :=
  modify fun w => { f w with inFlight := w.inFlight }

theorem besideMarks_agrees {marks : List Nat} (f : World → World) :
    Agrees marks (besideMarks f) (besideMarks f) := .modify fun _ => rfl

/-- The transformers of foreign code, by their numbers. -/
abbrev Conducts := Nat → ClassFileEvent → Conduct Verdict

/-- A thread that is told which of its calls are not finished, the latest first. -/
structure Watch where
  /-- What happens at every moment. -/
  moment : (calls : List Nat) → Action Unit
  /-- The gateways that callbacks take to be at work. -/
  working : (calls marks : List Nat) → List Nat

namespace Watch

variable (k : Watch) {α : Type}

/-- A request for transformations. Each gateway on the way has an unfinished call meanwhile. -/
def request (run : List Nat → Runner) (classes : List ClassRef) (calls : List Nat) :
    Instrument → Attempt Error Unit
  | .machine => Hook.retransform (run calls) classes
  | .given index => Instrument.retransformGiven (run calls) index classes
  | .gateway index inner =>
    marked index (k.moment (index :: calls)) do
      k.moment (index :: calls)
      request run classes (index :: calls) inner

def perform (run : List Nat → Runner) (calls : List Nat) : Conduct α → Action α
  | .done x => do
    k.moment calls
    return x
  | .work f next => do
    k.moment calls
    besideMarks f
    perform run calls (next (← get))
  | .load f next => do
    k.moment calls
    perform run calls (next (← Hook.onClassFile (run calls) f))
  | .ask classes on next => do
    k.moment calls
    perform run calls (next (← (k.request run classes calls on).run))

/-- Transformers, which can nest as deep as `depth` says. Callbacks of gateways are no foreign
code. -/
def runNested (conduct : Conducts) : (depth : Nat) → (calls : List Nat) → Runner
  | 0, _, _, _ => return .unchanged
  | depth + 1, calls, t, event => do
    match (← get).actionOf t with
    | some (.callback gateway) =>
      k.moment calls
      let w ← get
      if gateway ∈ k.working calls w.inFlight then
        Transform.runQueue (runNested conduct depth calls) event
          ((w.gateways[gateway]?.map (·.queue)).getD [])
      else return .unchanged
    | _ => k.perform (runNested conduct depth) calls (conduct t event)

def run (conduct : Conducts) (limit : World → Nat) (calls : List Nat) : Runner :=
  fun t event => do k.runNested conduct (limit (← get)) calls t event

/-- All that a thread does. -/
def live (conduct : Conducts) (limit : World → Nat) (life : Conduct α) : Action α :=
  k.perform (k.run conduct limit) [] life

/-- Callbacks go by the marks. At every moment other threads do something, with marks of their
own. -/
def byMarks (others : World → World) : Watch where
  moment _ := besideMarks others
  working _ marks := marks

/-- Callbacks go by the calls that are not finished. There is alarm if the marks are not these. -/
def byCalls (others : World → World) (alarm : Action Unit) : Watch where
  moment calls := do
    besideMarks others
    unless (← get).inFlight = calls do alarm
  working calls _ := calls

section Agreement

variable {others : World → World} {alarm : Action Unit} {run run' : List Nat → Runner}

theorem moment_agrees (others : World → World) (alarm : Action Unit) (marks : List Nat) :
    Agrees marks ((byCalls others alarm).moment marks) ((byMarks others).moment marks) := by
  have hmoment : (byMarks others).moment marks = (do besideMarks others; return) := rfl
  rw [hmoment]
  refine (besideMarks_agrees others).bind fun _ w hw => ?_
  rw [Action.get_bind, if_pos hw]
  exact ⟨rfl, hw⟩

theorem request_agrees (hrun : ∀ marks, (run marks).Agree marks (run' marks))
    (classes : List ClassRef) (on : Instrument) (marks : List Nat) :
    Agrees marks ((byCalls others alarm).request run classes marks on)
      ((byMarks others).request run' classes marks on) := by
  induction on generalizing marks with
  | machine => exact Hook.retransform_agrees (hrun marks) classes
  | given index => exact Instrument.retransformGiven_agrees (hrun marks) index classes
  | gateway index inner ih =>
    have hmoment := moment_agrees others alarm (index :: marks)
    exact .marked (hmoment.lift.attempt fun _ => ih (index :: marks)) hmoment

theorem perform_agrees {α : Type} (hrun : ∀ marks, (run marks).Agree marks (run' marks))
    (conduct : Conduct α) (marks : List Nat) :
    Agrees marks ((byCalls others alarm).perform run marks conduct)
      ((byMarks others).perform run' marks conduct) := by
  have hmoment := moment_agrees others alarm marks
  induction conduct with
  | done x => exact hmoment.bind fun _ => .pure x
  | work f next ih =>
    exact hmoment.bind fun _ => (besideMarks_agrees f).bind fun _ => .get fun w _ => ih w
  | load f next ih =>
    exact hmoment.bind fun _ => (Hook.onClassFile_agrees (hrun marks) f).bind ih
  | ask classes on next ih =>
    exact hmoment.bind fun _ => (request_agrees hrun classes on marks).bind ih

theorem runNested_agrees (conduct : Conducts) (depth : Nat) (marks : List Nat) :
    ((byCalls others alarm).runNested conduct depth marks).Agree marks
      ((byMarks others).runNested conduct depth marks) := by
  induction depth generalizing marks with
  | zero => exact fun _ _ => .pure _
  | succ depth ih =>
    refine fun t event => .get fun w _ => ?_
    split
    · refine (moment_agrees others alarm marks).bind fun _ => .get fun v hv => ?_
      -- A callback finds its mark just when its gateway has an unfinished call.
      change Agrees marks (if _ ∈ marks then _ else _) (if _ ∈ v.inFlight then _ else _)
      rw [hv]
      split
      · exact Transform.runQueue_agrees (ih marks) _ _
      · exact .pure _
    · exact perform_agrees ih (conduct t event) marks

theorem run_agrees (others : World → World) (alarm : Action Unit) (conduct : Conducts)
    (limit : World → Nat) (marks : List Nat) :
    ((byCalls others alarm).run conduct limit marks).Agree marks
      ((byMarks others).run conduct limit marks) :=
  fun t event => .get fun w _ => runNested_agrees conduct (limit w) marks t event

end Agreement

end Watch

namespace Transform

/-- What a transformer that was not called before does besides its answer. -/
def firstConduct (action : TransformerAction) (rest : Conduct Verdict) : Conduct Verdict :=
  match action with
  | .retransform on classes => .work id fun w =>
    if on.isHeld w then .ask classes on fun _ => rest else rest
  | .add on r => .work id fun w =>
    if on.isHeld w then .work (fun w => (on.addTransformer r w).2) fun _ => rest else rest
  | .remove on t => .work id fun w =>
    if on.isHeld w then .work (fun w => (on.removeTransformer t w).2) fun _ => rest else rest
  | _ => rest

/-- The transformers of a world as foreign code. -/
def conduct : Conducts := fun t event => .work id fun w =>
  match w.transformers[t]? with
  | none => .done .unchanged
  | some x =>
    match x.action with
    | .capture cache => .work (fun w => (capture cache event w).2) fun _ => .done .unchanged
    | action =>
      .work (fun w => (World.updateTransformer t (fun x =>
        { x with called := true, seen := event :: x.seen }) w).2) fun _ =>
        if x.called then .done (answer event action)
        else firstConduct action (.done (answer event action))

end Transform

namespace Watch

section Program

variable {run : List Nat → Runner} {run₀ : Runner}

theorem perform_work {α : Type} (calls : List Nat) (f : World → World) (next : World → Conduct α)
    (w : World) (hf : (f w).inFlight = w.inFlight) :
    (byMarks id).perform run calls (.work f next) w =
      (byMarks id).perform run calls (next (f w)) (f w) := by
  have hsame : (besideMarks f w).2 = f w := by
    change { f w with inFlight := w.inFlight } = f w
    rw [← hf]
  change (byMarks id).perform run calls (next (besideMarks f w).2) (besideMarks f w).2 = _
  rw [hsame]

theorem request_eq (hrun : ∀ calls, run calls = run₀) (classes : List ClassRef) (calls : List Nat)
    (on : Instrument) :
    (byMarks id).request run classes calls on = on.retransformWith run₀ classes := by
  induction on generalizing calls with
  | machine => rw [request, hrun]; rfl
  | given index => rw [request, hrun]; rfl
  | gateway index inner ih =>
    -- The moments between come to nothing.
    have hinner : (do
        (byMarks id).moment (index :: calls)
        (byMarks id).request run classes (index :: calls) inner : Attempt Error Unit) =
        inner.retransformWith run₀ classes := ih (index :: calls)
    rw [request, hinner]
    rfl

theorem addTransformer_inFlight (on : Instrument) (r : Registration) (w : World) :
    (on.addTransformer r w).2.inFlight = w.inFlight := by
  induction on generalizing r w with
  | machine => rfl
  | given index => rfl
  | gateway index inner ih =>
    rw [Instrument.addTransformer_gateway]
    change (Instrument.installed index inner w).inFlight = w.inFlight
    unfold Instrument.installed Instrument.Threads.register
    split
    · rfl
    · split
      · exact ih _ w
      · rfl

theorem removeTransformer_inFlight (on : Instrument) (t : Nat) (w : World) :
    (on.removeTransformer t w).2.inFlight = w.inFlight := by
  cases on <;> rfl

theorem capture_inFlight (cache : Nat) (event : ClassFileEvent) (w : World) :
    (Transform.capture cache event w).2.inFlight = w.inFlight := by
  unfold Transform.capture
  cases event.redefined <;> rfl

theorem perform_firstConduct (hrun : ∀ calls, run calls = run₀) (calls : List Nat)
    (action : TransformerAction) (v : Verdict) (w : World) :
    (byMarks id).perform run calls (Transform.firstConduct action (.done v)) w =
      (v, (Transform.firstAct run₀ action w).2) := by
  cases action with
  | retransform on classes =>
    rw [Transform.firstConduct, perform_work _ _ _ _ rfl, id_eq, Transform.firstAct,
      Action.get_bind]
    split
    · rw [← request_eq hrun classes calls on]
      rfl
    · rfl
  | add on r =>
    rw [Transform.firstConduct, perform_work _ _ _ _ rfl, id_eq, Transform.firstAct,
      Action.get_bind]
    split
    · exact perform_work calls _ _ w (addTransformer_inFlight on r w)
    · rfl
  | remove on t =>
    rw [Transform.firstConduct, perform_work _ _ _ _ rfl, id_eq, Transform.firstAct,
      Action.get_bind]
    split
    · exact perform_work calls _ _ w (removeTransformer_inFlight on t w)
    · rfl
  | _ => rfl

/-- The transformers of a world do what they do as foreign code, with nothing besides. -/
theorem runNested_conduct (depth : Nat) (calls : List Nat) :
    (byMarks id).runNested Transform.conduct depth calls = Transform.runNested depth := by
  induction depth generalizing calls with
  | zero => rfl
  | succ depth ih =>
    funext t event w
    rw [runNested, Action.get_bind]
    cases hx : w.transformers[t]? with
    | none =>
      have hact : w.actionOf t = none := by simp [World.actionOf, hx]
      rw [hact, Transform.runNested, Action.get_bind, hx]
      dsimp only
      rw [Transform.conduct, perform_work _ _ _ _ rfl, id_eq, hx]
      rfl
    | some x =>
      obtain ⟨action, called, seen⟩ := x
      have hact : w.actionOf t = some action := by simp [World.actionOf, hx]
      rw [hact]
      cases action with
      | callback gateway =>
        rw [Transform.runNested_callback hact, ← ih calls]
        rfl
      | capture cache =>
        rw [Transform.runNested_capture hact]
        dsimp only
        rw [Transform.conduct, perform_work _ _ _ _ rfl, id_eq, hx]
        exact perform_work calls _ _ w (capture_inFlight cache event w)
      | _ =>
        rw [Transform.runNested, Action.get_bind, hx]
        dsimp only
        rw [Transform.conduct, perform_work _ _ _ _ rfl, id_eq, hx]
        dsimp only
        rw [perform_work _ _ _ _ rfl]
        cases called with
        | true => rfl
        | false =>
          rw [if_neg Bool.false_ne_true, perform_firstConduct ih]
          rfl

/-- What the program does, with nothing besides. -/
theorem retransform_eq (classes : List ClassRef) (calls : List Nat) (on : Instrument) :
    (byMarks id).request ((byMarks id).run Transform.conduct Transform.depthLimit)
      classes calls on = on.retransform classes := by
  refine request_eq (fun calls => ?_) classes calls on
  funext t event w
  rw [run, Action.get_bind, runNested_conduct, Transform.run, Action.get_bind]

end Program

/-- However foreign code asks gateways from within one another, and whatever other threads do: at
every moment the marks of a thread are the gateways of its unfinished calls, each as often as it has
such calls, so nothing can be told apart if callbacks go by these calls. That is so from the start
of a thread, which has no marks, to its end; it is so for a call amid others, which leaves the marks
as it found them, whether it fails or not; and the transformations of the program are such calls. A
thread that starts another one keeps its own marks. -/
theorem marks_are_unfinished_calls (conduct : Conducts) (limit : World → Nat)
    (others : World → World) (alarm : Action Unit) (w : World) :
    (∀ {α : Type} (life : Conduct α), Agrees []
      ((byCalls others alarm).live conduct limit life) ((byMarks others).live conduct limit life)) ∧
      (∀ classes on,
        let calls := w.inFlight
        let known := (byCalls others alarm).request ((byCalls others alarm).run conduct limit)
        let marked := (byMarks others).request ((byMarks others).run conduct limit)
        known classes calls on w = marked classes calls on w ∧
          (marked classes calls on w).2.inFlight = w.inFlight) ∧
      (∀ classes on,
        (byMarks id).request ((byMarks id).run Transform.conduct Transform.depthLimit) classes
          w.inFlight on = on.retransform classes) ∧
      ∀ {ε α : Type} (x : Attempt ε α),
        Instrument.onNewThread x w =
          ((x { w with inFlight := [] }).1,
            { (x { w with inFlight := [] }).2 with inFlight := w.inFlight }) := by
  have hrun := run_agrees others alarm conduct limit
  refine ⟨fun life => perform_agrees hrun life [], fun classes on => ?_,
    fun classes on => retransform_eq classes w.inFlight on, fun x => rfl⟩
  obtain ⟨hsame, hmarks⟩ := request_agrees hrun classes on w.inFlight w rfl
  exact ⟨hsame, hsame ▸ hmarks⟩

end Watch

end ClassRecovery
