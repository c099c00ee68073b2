import Mathlib
import ClassRecovery.Outcome

/-!
What operations ensure. Of one that may fail it is said what holds if something comes out, and what
holds if nothing does.
-/

namespace ClassRecovery

variable {σ ε δ α β : Type}

def Ensures (P : σ → Prop) (a : StateM σ α) (Q : α → σ → Prop) : Prop :=
  ∀ s, P s → Q (a s).1 (a s).2

/-- `Q` if there is an answer, and `E` if there is none. -/
def Either (Q : α → σ → Prop) (E : σ → Prop) : Except ε α → σ → Prop
  | .ok x, s => Q x s
  | .error _, s => E s

def Attains (P : σ → Prop) (a : ExceptT ε (StateM σ) α) (Q : α → σ → Prop) (E : σ → Prop) : Prop :=
  Ensures (α := Except ε α) P a (Either Q E)

/-- What held before holds after, whatever comes of it. -/
abbrev Maintains (P : σ → Prop) (a : ExceptT ε (StateM σ) α) : Prop := Attains P a (fun _ => P) P

namespace Ensures

variable {P P' : σ → Prop} {Q Q' : α → σ → Prop} {a : StateM σ α}

theorem pure {x : α} (h : ∀ s, P s → Q x s) : Ensures P (pure x : StateM σ α) Q := h

theorem modify {f : σ → σ} {Q : PUnit → σ → Prop} (h : ∀ s, P s → Q ⟨⟩ (f s)) :
    Ensures P (modify f : StateM σ PUnit) Q := h

theorem modifyGet {f : σ → α × σ} (h : ∀ s, P s → Q (f s).1 (f s).2) :
    Ensures P (modifyGet f : StateM σ α) Q := h

theorem bind {f : α → StateM σ β} {R : α → σ → Prop} {Q : β → σ → Prop} (ha : Ensures P a R)
    (hf : ∀ x, Ensures (R x) (f x) Q) : Ensures P (a >>= f) Q :=
  fun s hs => hf (a s).1 (a s).2 (ha s hs)

/-- What is read of the state is known afterwards. -/
theorem get_bind {f : σ → StateM σ β} {Q : β → σ → Prop}
    (h : ∀ s, P s → Ensures (fun s' => s' = s ∧ P s') (f s) Q) :
    Ensures P (MonadState.get >>= f) Q :=
  fun s hs => h s hs s ⟨rfl, hs⟩

theorem imp (h : Ensures P a Q) (hQ : ∀ x s, Q x s → Q' x s) : Ensures P a Q' :=
  fun s hs => hQ _ _ (h s hs)

theorem of_imp (hP : ∀ s, P' s → P s) (h : Ensures P a Q) : Ensures P' a Q :=
  fun s hs => h s (hP s hs)

end Ensures

namespace Attains

variable {P P' : σ → Prop} {Q Q' : α → σ → Prop} {E E' : σ → Prop}
  {a : ExceptT ε (StateM σ) α}

theorem ok {x : α} (h : ∀ s, P s → Q x s) :
    Attains P (pure x : ExceptT ε (StateM σ) α) Q E := h

theorem throw {e : ε} (h : ∀ s, P s → E s) :
    Attains P (throw e : ExceptT ε (StateM σ) α) Q E := h

theorem lift {a : StateM σ α} (h : Ensures P a Q) :
    Attains P (liftM a : ExceptT ε (StateM σ) α) Q E := h

theorem bind {f : α → ExceptT ε (StateM σ) β} {R : α → σ → Prop} {Q : β → σ → Prop}
    (ha : Attains P a R E) (hf : ∀ x, Attains (R x) (f x) Q E) :
    Attains P (a >>= f : ExceptT ε (StateM σ) β) Q E := by
  intro s hs
  have has := ha s hs
  rw [bind_apply]
  rcases hrun : a s with ⟨e | x, s'⟩ <;> rw [hrun] at has
  · exact has
  · exact hf x s' has

theorem lift_bind {a : StateM σ α} {f : α → ExceptT ε (StateM σ) β} {R : α → σ → Prop}
    {Q : β → σ → Prop} (ha : Ensures P a R) (hf : ∀ x, Attains (R x) (f x) Q E) :
    Attains P ((liftM a : ExceptT ε (StateM σ) α) >>= f) Q E :=
  bind (lift ha) hf

theorem get_bind {f : σ → ExceptT ε (StateM σ) β} {Q : β → σ → Prop}
    (h : ∀ s, P s → Attains (fun s' => s' = s ∧ P s') (f s) Q E) :
    Attains P (MonadState.get >>= f) Q E :=
  fun s hs => h s hs s ⟨rfl, hs⟩

/-- Of some operations nothing is said. -/
theorem any : Attains (fun _ => True) a (fun _ _ => True) fun _ => True := by
  intro s _
  rcases a s with ⟨_ | _, _⟩ <;> trivial

theorem imp (h : Attains P a Q E) (hQ : ∀ x s, Q x s → Q' x s) (hE : ∀ s, E s → E' s) :
    Attains P a Q' E' := by
  intro s hs
  have has := h s hs
  rcases hrun : a s with ⟨e | x, s'⟩ <;> rw [hrun] at has
  · exact hE s' has
  · exact hQ x s' has

theorem of_imp (hP : ∀ s, P' s → P s) (h : Attains P a Q E) : Attains P' a Q E :=
  fun s hs => h s (hP s hs)

theorem map {f : α → β} {Q : β → σ → Prop} (h : Attains P a (fun x => Q (f x)) E) :
    Attains P (f <$> a : ExceptT ε (StateM σ) β) Q E :=
  bind h fun _ => ok fun _ hs => hs

theorem andAlways {cleanup : StateM σ Unit} {R : α → σ → Prop} {F : σ → Prop}
    (ha : Attains P a R F) (hok : ∀ x, Ensures (R x) cleanup fun _ => Q x)
    (herror : Ensures F cleanup fun _ => E) : Attains P (andAlways cleanup a) Q E := by
  intro s hs
  have has := ha s hs
  rw [andAlways_apply]
  rcases hrun : a s with ⟨e | x, s'⟩ <;> rw [hrun] at has
  · exact herror s' has
  · exact hok x s' has

theorem onFailure {cleanup : StateM σ Unit} {F : σ → Prop} (ha : Attains P a Q F)
    (herror : Ensures F cleanup fun _ => E) : Attains P (onFailure cleanup a) Q E := by
  intro s hs
  have has := ha s hs
  unfold ClassRecovery.onFailure
  rcases hrun : a s with ⟨e | x, s'⟩ <;> rw [hrun] at has
  · exact herror s' has
  · exact has

theorem mapFailure {f : ε → δ} (ha : Attains P a Q E) : Attains P (mapFailure f a) Q E := by
  intro s hs
  have has := ha s hs
  unfold ClassRecovery.mapFailure
  rcases hrun : a s with ⟨e | x, s'⟩ <;> rw [hrun] at has <;> exact has

end Attains

/-! ### Over lists -/

section Lists

variable {γ : Type} {P : σ → Prop}

theorem Maintains.forM {f : γ → ExceptT ε (StateM σ) PUnit} (h : ∀ x, Maintains P (f x))
    (xs : List γ) : Maintains P (xs.forM f) := by
  induction xs with
  | nil => exact .ok fun _ hs => hs
  | cons x xs ih => exact .bind (h x) fun _ => ih

theorem Maintains.mapM {f : γ → ExceptT ε (StateM σ) α} (h : ∀ x, Maintains P (f x))
    (xs : List γ) : Maintains P (xs.mapM f) := by
  induction xs with
  | nil => exact .ok fun _ hs => hs
  | cons x xs ih =>
    rw [List.mapM_cons]
    exact .bind (h x) fun _ => .bind ih fun _ => .ok fun _ hs => hs

end Lists

end ClassRecovery
