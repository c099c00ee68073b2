import Mathlib
import ClassRecovery.Bytes

/-!
Byte strings of a fixed length stand for numbers, one to one; so a field of a format is known by
its number as well as by its bytes.
-/

namespace ClassRecovery

namespace Bytes

theorem take?_go_eq_some {n : Nat} {b taken front rest : Bytes}
    (h : take?.go n b taken = some (front, rest)) :
    ∃ mid, b = mid ++ rest ∧ mid.length = n ∧ front = taken.reverse ++ mid := by
  induction n generalizing b taken with
  | zero =>
    simp only [take?.go, Option.some.injEq, Prod.mk.injEq] at h
    exact ⟨[], by simp [h.2], rfl, by simp [h.1]⟩
  | succ n ih =>
    cases b with
    | nil => simp [take?.go] at h
    | cons x b =>
      obtain ⟨mid, rfl, hl, hf⟩ := ih (by simpa [take?.go] using h)
      exact ⟨x :: mid, rfl, by simp [hl], by simp [hf]⟩

theorem take?_go_append (front rest taken : Bytes) :
    take?.go front.length (front ++ rest) taken = some (taken.reverse ++ front, rest) := by
  induction front generalizing taken with
  | nil => simp [take?.go]
  | cons x front ih => simp [take?.go, ih]

/-- Taking `n` bytes succeeds exactly on the byte strings that split after `n` bytes. -/
theorem take?_eq_some_iff {n : Nat} {b front rest : Bytes} :
    take? n b = some (front, rest) ↔ b = front ++ rest ∧ front.length = n := by
  constructor
  · intro h
    obtain ⟨mid, rfl, hl, rfl⟩ := take?_go_eq_some h
    exact ⟨by simp, by simpa using hl⟩
  · rintro ⟨rfl, rfl⟩
    simpa [take?] using take?_go_append front rest []

@[simp] theorem length_ofLittleEndian (width n : Nat) :
    (ofLittleEndian width n).length = width := by
  induction width generalizing n with
  | zero => rfl
  | succ w ih => simp [ofLittleEndian, ih]

@[simp] theorem length_ofBigEndian (width n : Nat) : (ofBigEndian width n).length = width := by
  simp [ofBigEndian]

theorem littleEndian_ofLittleEndian {width n : Nat} (h : n < 256 ^ width) :
    littleEndian (ofLittleEndian width n) = n := by
  induction width generalizing n with
  | zero => simp [littleEndian, ofLittleEndian]; omega
  | succ w ih =>
    have hq : n / 256 < 256 ^ w := by
      rw [Nat.pow_succ] at h
      exact Nat.div_lt_of_lt_mul (by omega)
    have hd := ih hq
    simp only [littleEndian, ofLittleEndian, List.foldr_cons, UInt8.toNat_ofNat'] at hd ⊢
    rw [hd]
    omega

theorem littleEndian_cons (x : UInt8) (b : Bytes) :
    littleEndian (x :: b) = littleEndian b * 256 + x.toNat := rfl

theorem littleEndian_lt (b : Bytes) : littleEndian b < 256 ^ b.length := by
  induction b with
  | nil => simp [littleEndian]
  | cons x b ih =>
    have hx := x.toNat_lt
    rw [littleEndian_cons, List.length_cons, Nat.pow_succ]
    omega

theorem ofLittleEndian_littleEndian (b : Bytes) :
    ofLittleEndian b.length (littleEndian b) = b := by
  induction b with
  | nil => rfl
  | cons x b ih =>
    have hx := x.toNat_lt
    have hq : (littleEndian b * 256 + x.toNat) / 256 = littleEndian b := by omega
    have hr : UInt8.ofNat (littleEndian b * 256 + x.toNat) = x := by
      apply UInt8.toNat_inj.mp
      rw [UInt8.toNat_ofNat']
      omega
    rw [littleEndian_cons, List.length_cons, ofLittleEndian, hq, hr, ih]

theorem bigEndian_eq_littleEndian_reverse (b : Bytes) : bigEndian b = littleEndian b.reverse := by
  simp [bigEndian, littleEndian]

/-- Numbers of a fixed width and byte strings of that length correspond one to one. -/
theorem bigEndian_eq_iff {b : Bytes} {n : Nat} :
    bigEndian b = n ↔ n < 256 ^ b.length ∧ b = ofBigEndian b.length n := by
  rw [bigEndian_eq_littleEndian_reverse]
  constructor
  · rintro rfl
    refine ⟨by simpa using littleEndian_lt b.reverse, ?_⟩
    have h := ofLittleEndian_littleEndian b.reverse
    rw [List.length_reverse] at h
    rw [ofBigEndian, h, List.reverse_reverse]
  · rintro ⟨hn, hb⟩
    rw [hb, ofBigEndian, List.reverse_reverse]
    exact littleEndian_ofLittleEndian hn

end Bytes

end ClassRecovery
