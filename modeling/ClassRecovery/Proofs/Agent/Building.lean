import ClassRecovery.Proofs.Agent.Alone
import ClassRecovery.Proofs.Agent.Artifact

/-!
A jar that could not be built. Whatever goes wrong, nobody is asked to attach anything. What was at
its path stays as it was, with two exceptions: a path that goes up on its way may lead somewhere
once the directories it passes are made, and a device that fails leaves the part of the jar that got
there.
-/

namespace ClassRecovery.Agent

open World

variable {path : String} {e : Error} {w w' : World} {a : Agent} {index : Nat}

/-- The file was opened, and a part of the jar is what got there. -/
def IsCut (path : String) (e : Error) (w w' : World) : Prop :=
  ∃ entries part fault, w.device (Archive.write entries) = some (part, fault) ∧
    e = Artifact.fault path fault ∧
    ∀ i n, w'.files.find path = .ok (i, n) → n.content = .file part

/-- What a build that fails leaves. -/
structure BuildFails (path : String) (e : Error) (w w' : World) : Prop where
  agents : w'.agents = w.agents
  listener : w'.listener = w.listener
  files : w.files.Spared path w'.files ∨ IsCut path e w w'

/-- Looking classes up makes no difference, before or after. -/
theorem BuildFails.of_besideClasses {w₁ w₂ : World} (h : BuildFails path e w₁ w₂)
    (hbefore : w₁.besideClasses = w.besideClasses) (hafter : w'.besideClasses = w₂.besideClasses) :
    BuildFails path e w w' := by
  have hfiles : w₁.files = w.files := congrArg (·.files) hbefore
  have hfiles' : w'.files = w₂.files := congrArg (·.files) hafter
  have hdevice : w₁.device = w.device := congrArg (·.device) hbefore
  refine ⟨?_, ?_, ?_⟩
  · exact (congrArg (·.agents) hafter).trans (h.agents.trans (congrArg (·.agents) hbefore))
  · exact (congrArg (·.listener) hafter).trans (h.listener.trans (congrArg (·.listener) hbefore))
  · have hleft := h.files
    unfold IsCut at hleft ⊢
    rwa [hfiles, hdevice, ← hfiles'] at hleft

/-- A lookup that fails leaves everything as it was. -/
theorem BuildFails.of_keeps {α : Type} {b : Attempt Error α} (hb : Keeps besideClasses b)
    (h : b w = (.error e, w')) : BuildFails path e w w' := by
  have hkept := hb w
  rw [h] at hkept
  exact BuildFails.of_besideClasses ⟨rfl, rfl, .inl (.refl path _)⟩ rfl hkept

/-- The loader finds these classes under the names, one after the other. -/
inductive Finds (loader : Loader) : World → List String → List ClassRef → World → Prop
  | nil {w : World} : Finds loader w [] [] w
  | cons {w w' w'' : World} {name : String} {names : List String} {c : ClassRef}
    {cs : List ClassRef} (h : loader.load name w = (.ok (some c), w'))
    (rest : Finds loader w' names cs w'') : Finds loader w (name :: names) (c :: cs) w''

theorem lookup_eq_ok {loader : Loader} {name : String} {c : ClassRef}
    (h : lookup loader name w = (.ok c, w')) : loader.load name w = (.ok (some c), w') := by
  unfold lookup at h
  rw [bind_apply] at h
  unfold mapFailure at h
  rcases hload : loader.load name w with ⟨e | _ | found, w₁⟩ <;> rw [hload] at h <;> cases h
  rfl

theorem lookupAll_eq_ok {loader : Loader} {names : List String} {found cs : List ClassRef}
    (h : lookupAll loader names found w = (.ok cs, w')) :
    ∃ more, cs = found.reverse ++ more ∧ Finds loader w names more w' := by
  induction names generalizing found w with
  | nil =>
    cases h
    exact ⟨[], (List.append_nil _).symm, .nil⟩
  | cons name names ih =>
    rw [lookupAll, bind_apply] at h
    unfold onFailure at h
    rcases hlookup : lookup loader name w with ⟨e | c, w₁⟩ <;> rw [hlookup] at h
    · cases h
    · obtain ⟨more, rfl, hmore⟩ := ih h
      exact ⟨c :: more, by simp, .cons (lookup_eq_ok hlookup) hmore⟩

theorem discard_apply {α : Type} (b : Attempt Error α) (w : World) :
    (discard b : Attempt Error Unit) w = ((b w).1.map fun _ => (), (b w).2) := by
  change (b >>= fun _ => pure () : Attempt Error Unit) w = _
  rw [bind_apply]
  rcases b w with ⟨e | x, w'⟩ <;> rfl

/-- All that building from the settings can do: classes are looked up, and if all are found, the jar
is built from them. What happens besides leaves its traces with the classes alone. -/
theorem buildConfigured_cases {agentClass : String} {r : Except Error Unit}
    (h : buildConfigured a agentClass w = (r, w')) :
    ((∃ e, r = .error e) ∧ w'.besideClasses = w.besideClasses) ∨
      ∃ loader agent companions w₀ w₁ built w₂,
        Host.systemLoader a.host w = (.ok loader, w₀) ∧
        Finds loader w₀ (agentClass :: a.options.agent.companions) (agent :: companions) w₁ ∧
        w₁.besideClasses = w.besideClasses ∧ a.build agent companions [] w₁ = (built, w₂) ∧
        r = built.map (fun _ => ()) ∧ w'.besideClasses = w₂.besideClasses := by
  have hsystem := systemLoader_keeps a.host w
  unfold buildConfigured at h
  rw [bind_apply] at h
  rcases hloader : Host.systemLoader a.host w with ⟨e | loader, w₀⟩ <;> rw [hloader] at h hsystem
  · cases h
    exact .inl ⟨⟨e, rfl⟩, hsystem⟩
  dsimp only at h
  have hlookup := lookup_keeps loader agentClass w₀
  rw [bind_apply] at h
  rcases hagent : lookup loader agentClass w₀ with ⟨e | agent, w₀'⟩ <;> rw [hagent] at h hlookup
  · cases h
    exact .inl ⟨⟨e, rfl⟩, hlookup.trans hsystem⟩
  dsimp only at h
  have hrelease := agent.release_keeps
  have hlookups := lookupAll_keeps loader a.options.agent.companions [] w₀'
  rw [andAlways_apply, bind_apply] at h
  rcases hall : lookupAll loader a.options.agent.companions [] w₀' with ⟨e | companions, w₁⟩ <;>
    rw [hall] at h hlookups
  · cases h
    exact .inl ⟨⟨e, rfl⟩, (hrelease w₁).trans (hlookups.trans (hlookup.trans hsystem))⟩
  dsimp only at h
  obtain ⟨_, rfl, hfinds⟩ := lookupAll_eq_ok hall
  rw [andAlways_apply, discard_apply] at h
  obtain ⟨rfl, rfl⟩ := Prod.mk.inj h
  exact .inr ⟨loader, agent, companions, w₀, w₁, _, _, rfl, .cons (lookup_eq_ok hagent) hfinds,
    hlookups.trans (hlookup.trans hsystem), rfl, rfl,
    (hrelease _).trans (ClassRef.releaseAll_keeps companions _)⟩

section Remains

end Remains

end ClassRecovery.Agent
