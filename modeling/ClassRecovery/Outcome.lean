/-!
Operations that change a state and may fail. What was done before a failure stays done, so a caller
can go on after one.
-/

namespace ClassRecovery

/-- Takes a failure for a value; the attempt around it then cannot fail because of it. -/
def outcome {σ ε δ α : Type} (a : ExceptT ε (StateM σ) α) : ExceptT δ (StateM σ) (Except ε α) :=
  fun s => match a s with
    | (r, s) => (.ok r, s)

/-- Gives a failure another shape. -/
def mapFailure {σ ε δ α : Type} (f : ε → δ) (a : ExceptT ε (StateM σ) α) :
    ExceptT δ (StateM σ) α :=
  fun s => match a s with
    | (.ok x, s) => (.ok x, s)
    | (.error e, s) => (.error (f e), s)

def onFailure {σ ε α : Type} (cleanup : StateM σ Unit) (a : ExceptT ε (StateM σ) α) :
    ExceptT ε (StateM σ) α :=
  fun s => match a s with
    | (.ok x, s) => (.ok x, s)
    | (.error e, s) => (.error e, (cleanup s).2)

def andAlways {σ ε α : Type} (cleanup : StateM σ Unit) (a : ExceptT ε (StateM σ) α) :
    ExceptT ε (StateM σ) α :=
  fun s => match a s with
    | (r, s) => (r, (cleanup s).2)

theorem bind_eq_ok_iff {ε α β : Type} {a : Except ε α} {f : α → Except ε β} {y : β} :
    a >>= f = .ok y ↔ ∃ x, a = .ok x ∧ f x = .ok y := by
  cases a with
  | ok x => simp [bind, Except.bind]
  | error e => simp [bind, Except.bind]

theorem bind_eq_error_iff {ε α β : Type} {a : Except ε α} {f : α → Except ε β} {e : ε} :
    a >>= f = .error e ↔ a = .error e ∨ ∃ x, a = .ok x ∧ f x = .error e := by
  cases a with
  | ok x => simp [bind, Except.bind]
  | error e => simp [bind, Except.bind]

theorem bind_apply {σ ε α β : Type} (a : ExceptT ε (StateM σ) α) (f : α → ExceptT ε (StateM σ) β)
    (s : σ) :
    (a >>= f) s = match a s with
      | (.ok x, s') => f x s'
      | (.error e, s') => (.error e, s') := by
  change (ExceptT.bindCont f (a s).1 : StateM σ _) (a s).2 = _
  rcases a s with ⟨e | x, s'⟩ <;> rfl

theorem andAlways_apply {σ ε α : Type} (cleanup : StateM σ Unit) (a : ExceptT ε (StateM σ) α)
    (s : σ) : andAlways cleanup a s = ((a s).1, (cleanup (a s).2).2) := rfl

end ClassRecovery
