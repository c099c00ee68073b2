import ClassRecovery.Proofs.Instrument.Isolation

/-!
What the callback of a gateway does while the gateway is at work. All that is registered when it
starts is asked about the same event, one after the other, whatever becomes of the queue meanwhile;
the last answer of a capable transformer counts, unless it leaves the bytes as they are.
-/

namespace ClassRecovery

/-- What an answer is worth: nothing, if its transformer is not asked again when a class changes. -/
def Registration.answer? (r : Registration) : Verdict → Option Bytes
  | .replaced bytes => if r.capable then some bytes else none
  | .unchanged | .panicked => none

namespace Transform

/-- Asks everything that is registered about the event, in order. -/
def askAll (run : Runner) (event : ClassFileEvent) (queue : List Registration) :
    Action (List Verdict) :=
  queue.mapM fun r => run r.transformer event

/-- What the capable transformers answered, in order. -/
def capableAnswers (queue : List Registration) (answers : List Verdict) : List Bytes :=
  (queue.zip answers).filterMap fun (r, v) => r.answer? v

variable {run : Runner} {event : ClassFileEvent} {w w' : World} {answers : List Verdict}

theorem askAll_cons_eq {r : Registration} {queue : List Registration}
    (h : askAll run event (r :: queue) w = (answers, w')) :
    ∃ v w₁ rest, run r.transformer event w = (v, w₁) ∧ askAll run event queue w₁ = (rest, w') ∧
      answers = v :: rest := by
  unfold askAll at h
  rw [List.mapM_cons] at h
  obtain ⟨rfl, rfl⟩ := Prod.mk.inj h
  exact ⟨_, _, _, rfl, rfl, rfl⟩

theorem capableAnswers_cons (r : Registration) (queue : List Registration) (v : Verdict)
    (rest : List Verdict) :
    capableAnswers (r :: queue) (v :: rest) =
      (r.answer? v).toList ++ capableAnswers queue rest := by
  simp only [capableAnswers, List.zip_cons_cons, List.filterMap_cons]
  cases r.answer? v <;> rfl

/-- An answer is kept until a later one that counts. -/
theorem askEach_of_askAll {finish : Option Bytes → Verdict} (queue : List Registration)
    (kept : Option Bytes) (h : askAll run event queue w = (answers, w'))
    (hpanic : .panicked ∉ answers) :
    askEach run (·.transformer) (fun _ => event)
        (fun r bytes kept => if r.capable then some bytes else kept) finish queue kept w =
      (finish ((capableAnswers queue answers).getLast?.or kept), w') := by
  induction queue generalizing w kept answers with
  | nil =>
    obtain ⟨rfl, rfl⟩ := Prod.mk.inj h
    rfl
  | cons r queue ih =>
    obtain ⟨v, w₁, rest, hr, hrest, rfl⟩ := askAll_cons_eq h
    rw [List.mem_cons, not_or] at hpanic
    rw [askEach, Action.bind_apply, hr, capableAnswers_cons, List.getLast?_append, Option.or_assoc]
    cases v with
    | panicked => exact absurd rfl hpanic.1
    | unchanged => exact ih kept hrest hpanic.2
    | replaced bytes =>
      refine (ih _ hrest hpanic.2).trans ?_
      rw [Registration.answer?]
      cases r.capable <;> rfl

theorem settle_eq_replaced_iff {kept : Option Bytes} {bytes : Bytes} :
    settle event kept = .replaced bytes ↔ kept = some bytes ∧ bytes ≠ event.bytes := by
  cases kept with
  | none => simp [settle]
  | some b =>
    by_cases hb : b = event.bytes
    · simp only [settle, hb, ↓reduceIte, reduceCtorEq, Option.some.injEq, false_iff, not_and,
        not_not]
      exact Eq.symm
    · simp only [settle, hb, ↓reduceIte, Verdict.replaced.injEq, Option.some.injEq]
      exact ⟨fun h => ⟨h, h ▸ hb⟩, And.left⟩

theorem settle_ne_panicked (event : ClassFileEvent) (kept : Option Bytes) :
    settle event kept ≠ .panicked := by
  cases kept with
  | none => simp [settle]
  | some b =>
    rw [settle]
    split <;> simp

/-- The callback of a gateway that is at work asks everything that is registered when it starts,
once, in order and about the same event, and answers with what the last capable transformer
answered, unless this is what the class was before. The callback of any other gateway asks nobody
and answers nothing. -/
theorem runCallback_keeps_last (run : Runner) (gateway : Nat) (event : ClassFileEvent) (w : World) :
    let queue := (w.gateways[gateway]?.map (·.queue)).getD []
    (gateway ∉ w.inFlight → runCallback run gateway event w = (.unchanged, w)) ∧
      (gateway ∈ w.inFlight → ∀ answers w', askAll run event queue w = (answers, w') →
        .panicked ∉ answers →
        ∃ v, runCallback run gateway event w = (v, w') ∧ v ≠ .panicked ∧
          ∀ bytes, v = .replaced bytes ↔
            (capableAnswers queue answers).getLast? = some bytes ∧ bytes ≠ event.bytes) := by
  intro queue
  unfold runCallback
  rw [Action.get_bind]
  constructor
  · intro hidle
    rw [if_neg hidle]
    rfl
  · intro hwork answers w' hasked hpanic
    rw [if_pos hwork, runQueue_eq, askEach_of_askAll queue none hasked hpanic, Option.or_none]
    exact ⟨_, rfl, settle_ne_panicked _ _, fun bytes => settle_eq_replaced_iff⟩

/-- The first transformer takes the second out of the queue and the third one brings in the last;
the fourth is not capable. -/
def meddling : World where
  files := ⟨#[], []⟩
  transformers := #[{ action := .callback 0 },
    { action := .remove (.gateway 0 (.given 0)) 2 }, { action := .append [10] },
    { action := .add (.gateway 0 (.given 0)) ⟨5, true⟩ }, { action := .replace [11] },
    { action := .replace [12] }]
  gateways := #[{
    queue := [⟨1, true⟩, ⟨2, true⟩, ⟨3, true⟩, ⟨4, false⟩], callback := 0, installed := true }]
  instruments := #[{ queue := [⟨0, true⟩] }]
  inFlight := [0]

theorem runCallback_keeps_last_meddling :
    let event : ClassFileEvent := ⟨none, some "a/T", none, [1, 2]⟩
    let r := runCallback Transform.run 0 event meddling
    r.1 = .replaced [1, 2, 10] ∧
      r.2.gateways[0]?.map (·.queue) = some [⟨1, true⟩, ⟨3, true⟩, ⟨4, false⟩, ⟨5, true⟩] := by
  intro event r
  let queue : List Registration := [⟨1, true⟩, ⟨2, true⟩, ⟨3, true⟩, ⟨4, false⟩]
  let answers : List Verdict := [.unchanged, .replaced [1, 2, 10], .unchanged, .replaced [11]]
  have hanswers : (askAll Transform.run event queue meddling).1 = answers := by cbv
  have hasked : askAll Transform.run event queue meddling =
      (answers, (askAll Transform.run event queue meddling).2) := Prod.ext hanswers rfl
  have hwork := (runCallback_keeps_last Transform.run 0 event meddling).2 (by decide) answers _
    hasked (by decide)
  obtain ⟨v, hv, -, hbytes⟩ := hwork
  refine ⟨?_, by cbv⟩
  rw [show r = _ from hv]
  exact (hbytes _).mpr ⟨rfl, by decide⟩

end Transform

end ClassRecovery
