import Mathlib
import ClassRecovery.Jvm.Machine

/-!
References that are made and given back. What was made since some moment was either given back
since, and only once, or is still owed; and what there was at that moment is left alone.
-/

namespace ClassRecovery.Jvm.References

variable {b rs : References} {r : Reference} {owed owed' : List Reference}

/-- No reference that is to come is there already. -/
def Fresh (rs : References) : Prop := ∀ r ∈ rs.live, r.number < rs.next

/-- Since `b`, all that was made is owed or was given back once, and nothing else was given back. -/
structure Owes (b rs : References) (owed : List Reference) : Prop where
  fresh : b.Fresh
  later : b.next ≤ rs.next
  live : rs.live.Perm (owed ++ b.live)
  once : ∃ gone, rs.dropped = gone ++ b.dropped ∧
    ((gone ++ owed).map (·.number)).Perm (List.range' b.next (rs.next - b.next))

theorem fresh_empty : ({} : References).Fresh := fun r hr => by cases hr

theorem Owes.refl (h : b.Fresh) : b.Owes b [] where
  fresh := h
  later := le_rfl
  live := .refl _
  once := ⟨[], rfl, by simp⟩

theorem Owes.perm (h : b.Owes rs owed) (hperm : owed.Perm owed') : b.Owes rs owed' where
  fresh := h.fresh
  later := h.later
  live := h.live.trans (hperm.append_right _)
  once := by
    obtain ⟨gone, hgone, hnumbers⟩ := h.once
    exact ⟨gone, hgone, ((hperm.symm.append_left gone).map _).trans hnumbers⟩

/-- What is owed was made since. -/
theorem Owes.owed_number (h : b.Owes rs owed) (hr : r ∈ owed) :
    b.next ≤ r.number ∧ r.number < rs.next := by
  obtain ⟨gone, -, hnumbers⟩ := h.once
  have hmem := hnumbers.subset (List.mem_map_of_mem (List.mem_append_right gone hr))
  have hlater := h.later
  rw [List.mem_range'_1] at hmem
  omega

theorem Owes.fresh_after (h : b.Owes rs owed) : rs.Fresh := by
  intro r hr
  rcases List.mem_append.mp (h.live.subset hr) with howed | hlive
  · exact (h.owed_number howed).2
  · exact (h.fresh r hlive).trans_le h.later

/-- A new reference is owed. -/
theorem Owes.add (h : b.Owes rs owed) (o : Object) :
    b.Owes (rs.add o).2 ((rs.add o).1 :: owed) where
  fresh := h.fresh
  later := Nat.le_succ_of_le h.later
  live := h.live.cons _
  once := by
    obtain ⟨gone, hgone, hnumbers⟩ := h.once
    have hlater := h.later
    refine ⟨gone, hgone, ?_⟩
    have hsize : rs.next + 1 - b.next = (rs.next - b.next) + 1 := by omega
    have hlast : b.next + (rs.next - b.next) = rs.next := by omega
    change ((gone ++ (rs.add o).1 :: owed).map (·.number)).Perm (List.range' b.next
      (rs.next + 1 - b.next))
    rw [hsize, List.range'_1_concat, hlast]
    have hmiddle : (gone.map (·.number) ++ rs.next :: owed.map (·.number)).Perm
        (rs.next :: (gone.map (·.number) ++ owed.map (·.number))) := List.perm_middle
    simp only [List.map_append, List.map_cons, References.add] at hnumbers ⊢
    exact hmiddle.trans ((hnumbers.cons _).trans (List.perm_append_singleton _ _).symm)

/-- Only the reference that is given back has its number. -/
theorem Owes.number_ne (h : b.Owes rs (r :: owed)) {r' : Reference} (hr' : r' ∈ owed ++ b.live) :
    r'.number ≠ r.number := by
  have hnumber := (h.owed_number List.mem_cons_self).1
  rcases List.mem_append.mp hr' with howed | hlive
  · obtain ⟨gone, -, hnumbers⟩ := h.once
    have hnodup := hnumbers.nodup_iff.mpr List.nodup_range'
    rw [List.map_append, List.map_cons, List.nodup_append] at hnodup
    intro heq
    exact (List.nodup_cons.mp hnodup.2.1).1 (heq ▸ List.mem_map_of_mem howed)
  · exact Nat.ne_of_lt ((h.fresh r' hlive).trans_le hnumber)

theorem Owes.drop (h : b.Owes rs (r :: owed)) : b.Owes (rs.drop r) owed where
  fresh := h.fresh
  later := h.later
  live := by
    have hothers : (owed ++ b.live).filter (fun r' => r'.number ≠ r.number) = owed ++ b.live :=
      List.filter_eq_self.mpr fun r' hr' => by simpa using h.number_ne hr'
    have hfilter := h.live.filter fun r' => r'.number ≠ r.number
    rwa [List.cons_append, List.filter_cons_of_neg (by simp), hothers] at hfilter
  once := by
    obtain ⟨gone, hgone, hnumbers⟩ := h.once
    refine ⟨r :: gone, by simp [References.drop, hgone], ?_⟩
    refine (List.Perm.map _ ?_).trans hnumbers
    rw [List.cons_append]
    exact List.perm_middle.symm

end ClassRecovery.Jvm.References
