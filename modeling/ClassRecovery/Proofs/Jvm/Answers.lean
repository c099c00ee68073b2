import ClassRecovery.Proofs.Jvm.Classes

/-!
What a virtual machine answers about its classes. If asking comes to an end without a failure, the
answer is what the machine was described with.
-/

namespace ClassRecovery

theorem lift_bind_apply {σ ε α β : Type} (a : StateM σ α) (f : α → ExceptT ε (StateM σ) β)
    (s : σ) : ((liftM a : ExceptT ε (StateM σ) α) >>= f) s = f (a s).1 (a s).2 := rfl

theorem state_bind_apply {σ α β : Type} (a : StateM σ α) (f : α → StateM σ β) (s : σ) :
    (a >>= f) s = f (a s).1 (a s).2 := rfl

theorem state_get_bind {σ α : Type} (f : σ → StateM σ α) (s : σ) : (get >>= f) s = f s s := rfl

namespace Jvm

variable {α : Type} {o : Object} {m m' : Machine} {r : Option Reference}

namespace Machine

theorem turnThrows_cases (function subject : String) (m : Machine) :
    (∃ t, m.turn function subject = some (.throws t) ∧
      turnThrows function subject m = (true, (raise t m).2)) ∨
      turnThrows function subject m = (false, m) := by
  unfold turnThrows
  rw [state_get_bind]
  rcases hturn : m.turn function subject with _ | (t | _ | _)
  · exact .inr rfl
  · exact .inl ⟨t, rfl, rfl⟩
  · exact .inr rfl
  · exact .inr rfl

/-- A fault is one whose turn it is, or else one that is laid for the function. -/
theorem faults_cases (function subject : String) (m : Machine) :
    (∃ t, (m.turn function subject = some (.throws t) ∨
        m.description.throwOf function subject = some t) ∧
      faults function subject m = (true, (raise t m).2)) ∨
      faults function subject m = (false, m) := by
  unfold faults
  rw [state_bind_apply]
  rcases turnThrows_cases function subject m with ⟨t, hturn, hthrows⟩ | hthrows
  · rw [hthrows]
    exact .inl ⟨t, .inl hturn, rfl⟩
  · rw [hthrows]
    simp only [Bool.false_eq_true, ↓reduceIte]
    rw [state_get_bind]
    cases hlaid : m.description.throwOf function subject with
    | some t => exact .inl ⟨t, .inr rfl, rfl⟩
    | none => exact .inr rfl

/-- A method either throws or is carried out on a machine with the same classes. -/
theorem invoke_cases (receiver method : String) (arguments : List String) (subject : String)
    (fallback : α) (result : Native α) (m : Machine) :
    (∃ t, (invoke receiver method arguments subject fallback result m).1 = fallback ∧
      (invoke receiver method arguments subject fallback result m).2.pending = some t) ∨
    ∃ m', m'.classes = m.classes ∧
      invoke receiver method arguments subject fallback result m = result m' := by
  have hnote := note_keeps (.invoke receiver method arguments) m
  unfold invoke
  rw [state_bind_apply, state_bind_apply]
  rcases faults_cases method subject (note (.invoke receiver method arguments) m).2 with
    ⟨t, -, hfaults⟩ | hfaults
  · rw [hfaults]
    exact .inl ⟨t, rfl, rfl⟩
  · rw [hfaults]
    exact .inr ⟨_, hnote, rfl⟩

theorem newLocal?_object (o : Option Object) (m : Machine) :
    (newLocal? o m).1.map (·.object) = o := by
  cases o <;> rfl

theorem stringChars_string {content found : Bytes}
    (h : (stringChars (.string content) m).1 = some found) : found = content := by
  simp only [stringChars] at h
  rw [state_bind_apply] at h
  split at h
  · cases h
  rw [state_bind_apply] at h
  split at h
  · cases h
  · cases h
    rfl

theorem callObject_getName {s : Reference} (h : (callObject o "getName" m).1 = some s) :
    ∃ key t, o = .cls key ∧ m.description.nameOf key = some t ∧ s.object = .string t.bytes := by
  unfold callObject at h
  rcases invoke_cases o.describe "getName" [] o.subject none _ m with
    ⟨t, hnone, -⟩ | ⟨m', hm', hresult⟩
  · rw [hnone] at h
    cases h
  · rw [hresult, state_bind_apply] at h
    have hdescription : m'.description = m.description := congrArg Prod.fst hm'
    cases o with
    | cls key =>
      have hobject :=
        newLocal?_object ((m'.description.nameOf key).map fun t => .string t.bytes) m'
      rw [show (newLocal? ((m'.description.nameOf key).map fun t => .string t.bytes) m').1 = some s
        from h] at hobject
      obtain ⟨t, ht, hs⟩ := Option.map_eq_some_iff.mp hobject.symm
      exact ⟨key, t, rfl, hdescription ▸ ht, hs.symm⟩
    | _ => cases h

/-- Without an exception the loader is the one that the machine was described with. -/
theorem callObject_getClassLoader {key : String}
    (h : callObject (.cls key) "getClassLoader" m = (r, m')) (hpending : m'.pending = none) :
    r.map (·.object) = (m.description.classOf key).loader.map .loader := by
  unfold callObject at h
  rcases invoke_cases (Object.cls key).describe "getClassLoader" [] (Object.cls key).subject none _
    m with ⟨t, -, hthrown⟩ | ⟨m₁, hm₁, hresult⟩
  · rw [h, hpending] at hthrown
    cases hthrown
  · rw [hresult, state_bind_apply] at h
    have hdescription : m₁.description = m.description := congrArg Prod.fst hm₁
    have hobject := newLocal?_object ((m₁.description.classOf key).loader.map .loader) m₁
    rw [show newLocal? ((m₁.description.classOf key).loader.map .loader) m₁ = (r, m') from h]
      at hobject
    rw [← hdescription]
    exact hobject

end Machine

open Machine

theorem pin_object {p : Reference} (h : (pin o m).1 = some p) : p.object = o := by
  unfold pin newGlobal at h
  simp only [state_bind_apply] at h
  split at h
  · cases h
  · rw [state_bind_apply] at h
    split at h
    · cases h
    · cases h
      rfl

namespace Checked

theorem stringText_eq_some {name : String} (h : (stringText r m).1 = some name) :
    ∃ s content, r = some s ∧ (stringChars s.object m).1 = some content ∧
      name = Text.ModifiedUtf8.decodeLossy content := by
  cases r with
  | none => cases h
  | some s =>
    simp only [stringText] at h
    rw [state_bind_apply] at h
    cases hchars : (stringChars s.object m).1 with
    | none =>
      rw [hchars] at h
      cases h
    | some content =>
      rw [hchars] at h
      exact ⟨s, content, rfl, hchars, (Option.some.inj h).symm⟩

/-- A check that passes finds nothing pending. -/
theorem check_pending {context : String} (h : (check context m).1 = .ok ()) :
    m.pending = none := by
  cases hpending : m.pending with
  | none => rfl
  | some t =>
    obtain ⟨r, htaken⟩ : ∃ r, (takeException m).1 = some r := by
      have hoccurred : (exceptionOccurred m).1 = some ⟨m.locals.next, .throwable t⟩ := by
        unfold exceptionOccurred
        rw [state_get_bind, hpending]
        rfl
      unfold takeException
      rw [state_bind_apply, hoccurred]
      exact ⟨_, rfl⟩
    unfold check at h
    rw [lift_bind_apply, htaken] at h
    simp only at h
    rw [lift_bind_apply, lift_bind_apply] at h
    cases h

end Checked

namespace Link

/-- The name of a class is what the machine says. -/
theorem className_eq_ok {name : String} (h : (className o m).1 = .ok name) :
    ∃ key t, o = .cls key ∧ m.description.nameOf key = some t ∧
      name = Text.ModifiedUtf8.decodeLossy t.bytes := by
  unfold className Checked.withObject at h
  rw [bind_apply] at h
  have hrequire := Checked.requireMethod_keeps Checked.classClass "getName" "()Ljava/lang/String;" m
  rcases hrun : Checked.requireMethod Checked.classClass "getName" "()Ljava/lang/String;" m with
    ⟨e | _, m₁⟩ <;> rw [hrun] at h hrequire
  · cases h
  · simp only at h
    rw [lift_bind_apply] at h
    rcases hcall : callObject o "getName" m₁ with ⟨r, m₂⟩
    rw [hcall] at h
    simp only [Checked.holding, andAlways_apply] at h
    rw [bind_apply] at h
    rcases hcheck : Checked.check ("Class." ++ "getName") m₂ with ⟨e | _, m₃⟩ <;> rw [hcheck] at h
    · cases h
    · simp only at h
      rw [lift_bind_apply] at h
      cases htext : (Checked.stringText r m₃).1 with
      | none =>
        rw [htext] at h
        cases h
      | some text =>
        rw [htext] at h
        cases h
        obtain ⟨s, content, rfl, hchars, rfl⟩ := Checked.stringText_eq_some htext
        obtain ⟨key, t, rfl, ht, hs⟩ := callObject_getName (congrArg Prod.fst hcall)
        rw [hs] at hchars
        obtain rfl := stringChars_string hchars
        have hdescription : m₁.description = m.description := congrArg Prod.fst hrequire
        exact ⟨key, t, rfl, hdescription ▸ ht, rfl⟩

end Link

end Jvm

end ClassRecovery
