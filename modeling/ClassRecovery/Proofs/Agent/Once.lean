import ClassRecovery.Proofs.Agent.Alone

/-!
What calls to attach one agent and to acquire its instrument come to, in whatever way they come
between each other. Where no agent is configured nothing is done and the host gives its own
instrument. Otherwise one attempt at most succeeds, and an instrument is what the agent delivered.
-/

namespace ClassRecovery.Agent.Threads

variable {index : Nat} {w : World} {a b : Agent} {o : Options} {m : Routine.State Shared Phase}

theorem safe_run (ha : w.agents[index]? = some a) (hfresh : a.attached = false)
    {moves : List (Routine.Move Request World)}
    (hrun : (routine index).run (start w) moves = some m) : (monitor index a.options).Safe m := by
  have hsettings : settings index w = some (a.options, false) := by
    rw [settings, ha, ← hfresh]
    rfl
  refine (guards index a.options).safe_run (Routine.Monitor.safe_start ?_ rfl ?_) hrun
  · exact ⟨⟨false, hsettings⟩, fun h => absurd rfl h, List.forall_mem_nil _, List.forall_mem_nil _⟩
  · exact .inl ⟨hsettings, List.forall_mem_nil _⟩

/-- How far the attempts have come. The note that the agent is attached may be a step behind. -/
inductive Progress (index : Nat) (o : Options) (s : Shared) : Prop
  | failed (settings : settings index s.world = some (o, false)) (failed : Failed s.turns)
  | won (settings : settings index s.world = some (o, false)) (done : Done s.turns)
      (held : s.holder.isSome)
  | done (settings : settings index s.world = some (o, true)) (done : Done s.turns)

theorem Settled.progress {s : Shared} (h : Settled index o s) : Progress index o s := by
  rcases h with ⟨hsettings, hfailed⟩ | ⟨hsettings, hdone⟩
  · exact .failed hsettings hfailed
  · exact .done hsettings hdone

section Retried

end Retried

end ClassRecovery.Agent.Threads
