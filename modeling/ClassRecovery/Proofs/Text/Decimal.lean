import Mathlib
import ClassRecovery.Text.Decimal

/-!
Decimal numbers as a grammar: digits, with a sign in front or none. Reading takes exactly the
numerals whose number lies in the range, and a number that is written out is a numeral for it.
-/

namespace ClassRecovery.Text

def Digits (s : List Char) : Prop := s ≠ [] ∧ ∀ c ∈ s, c.isDigit = true

inductive Numeral : List Char → Int → Prop
  | plain {s : List Char} (h : Digits s) : Numeral s (Nat.ofDigitChars 10 s 0)
  | plus {s : List Char} (h : Digits s) : Numeral ('+' :: s) (Nat.ofDigitChars 10 s 0)
  | minus {s : List Char} (h : Digits s) : Numeral ('-' :: s) (-Nat.ofDigitChars 10 s 0)

namespace IntRange

def Holds (range : IntRange) (n : Int) : Prop := range.least ≤ n ∧ n ≤ range.greatest

instance (range : IntRange) (n : Int) : Decidable (range.Holds n) :=
  inferInstanceAs (Decidable (_ ∧ _))

/-- The end of the range that numbers of a sign come to is not passed. -/
def Reaches (range : IntRange) (negative : Bool) (n : Int) : Prop :=
  if negative then range.least ≤ n else n ≤ range.greatest

instance (range : IntRange) (negative : Bool) (n : Int) : Decidable (range.Reaches negative n) :=
  inferInstanceAs (Decidable (if negative then range.least ≤ n else n ≤ range.greatest))

end IntRange

def signed (negative : Bool) (value : Nat) : Int := if negative then -value else value

section Reading

variable {range : IntRange} {negative : Bool} {value : Nat} {c : Char} {s : List Char} {n : Int}

theorem digit?_eq_some_iff {d : Nat} :
    digit? c = some d ↔ c.isDigit = true ∧ c.toNat - '0'.toNat = d := by
  have hdigit : c.isDigit = true ↔ '0' ≤ c ∧ c ≤ '9' := by
    simp only [Char.isDigit, Bool.and_eq_true, decide_eq_true_eq, ge_iff_le]
    rfl
  rw [hdigit, digit?]
  split
  · next h => simp [h]
  · next h => simp [h]

theorem le_ofDigitChars (s : List Char) (value : Nat) : value ≤ Nat.ofDigitChars 10 s value := by
  induction s generalizing value with
  | nil => simp
  | cons c rest ih =>
    have hrest := ih (10 * value + (c.toNat - '0'.toNat))
    rw [Nat.ofDigitChars_cons]
    omega

/-- A number that is passed on the way to another of its sign. -/
theorem IntRange.Reaches.mono {last : Nat} (h : range.Reaches negative (signed negative last))
    (hvalue : value ≤ last) : range.Reaches negative (signed negative value) := by
  cases negative <;> simp only [Reaches, signed, Bool.false_eq_true, ↓reduceIte] at h ⊢ <;> omega

theorem readDigits_cons {d : Nat} (hd : digit? c = some d) (rest : List Char) :
    readDigits range negative (signed negative value) (c :: rest) =
      if range.Reaches negative (signed negative (10 * value + d)) then
        readDigits range negative (signed negative (10 * value + d)) rest
      else .error (if negative then .tooSmall else .tooLarge) := by
  cases negative with
  | false =>
    have hnext : (value : Int) * 10 + d = (10 * value + d : Nat) := by omega
    simp only [readDigits, hd, signed, IntRange.Reaches, Bool.false_eq_true, ↓reduceIte, hnext,
      ← Int.not_lt, ite_not]
  | true =>
    have hnext : -(value : Int) * 10 - d = -(10 * value + d : Nat) := by omega
    simp only [readDigits, hd, signed, IntRange.Reaches, ↓reduceIte, hnext, ← Int.not_lt, ite_not]

/-- Digits only take a number further from zero, so all that was passed is in the range if the last
number is. -/
theorem readDigits_eq_ok_iff (hvalue : range.Reaches negative (signed negative value)) :
    readDigits range negative (signed negative value) s = .ok n ↔
      (∀ c ∈ s, c.isDigit = true) ∧ n = signed negative (Nat.ofDigitChars 10 s value) ∧
        range.Reaches negative n := by
  induction s generalizing value with
  | nil =>
    simp only [readDigits, Except.ok.injEq, List.not_mem_nil, false_imp_iff, implies_true,
      Nat.ofDigitChars_nil, true_and]
    constructor
    · rintro rfl
      exact ⟨rfl, hvalue⟩
    · exact fun h => h.1.symm
  | cons c rest ih =>
    rw [List.forall_mem_cons, Nat.ofDigitChars_cons]
    cases hdigit : digit? c with
    | none =>
      simp only [readDigits, hdigit, reduceCtorEq, false_iff]
      rintro ⟨⟨hc, -⟩, -⟩
      rw [digit?_eq_some_iff.mpr ⟨hc, rfl⟩] at hdigit
      cases hdigit
    | some d =>
      obtain ⟨hc, rfl⟩ := digit?_eq_some_iff.mp hdigit
      rw [readDigits_cons hdigit]
      simp only [hc, true_and]
      split
      · next hnext => exact ih hnext
      · next hnext =>
        simp only [reduceCtorEq, false_iff]
        rintro ⟨-, rfl, hlast⟩
        exact absurd (hlast.mono (le_ofDigitChars rest _)) hnext

namespace Numeral

theorem iff_plain (hs : ∀ c ∈ s.head?, c ≠ '+' ∧ c ≠ '-') :
    Numeral s n ↔ Digits s ∧ n = signed false (Nat.ofDigitChars 10 s 0) := by
  constructor
  · intro h
    cases h with
    | plain h => exact ⟨h, rfl⟩
    | plus h => exact absurd rfl (hs '+' rfl).1
    | minus h => exact absurd rfl (hs '-' rfl).2
  · rintro ⟨h, rfl⟩
    exact plain h

theorem iff_sign (negative : Bool) (s : List Char) :
    Numeral ((if negative then '-' else '+') :: s) n ↔
      Digits s ∧ n = signed negative (Nat.ofDigitChars 10 s 0) := by
  have hsign : ¬ Digits ((if negative then '-' else '+') :: s) := by
    intro h
    have hdigit := h.2 _ List.mem_cons_self
    cases negative <;> cases hdigit
  constructor
  · intro h
    generalize hs : (if negative then '-' else '+') :: s = t at h
    cases h with
    | plain h => exact absurd (hs ▸ h) hsign
    | plus h =>
      cases negative <;> cases hs
      exact ⟨h, rfl⟩
    | minus h =>
      cases negative <;> cases hs
      exact ⟨h, rfl⟩
  · rintro ⟨h, rfl⟩
    cases negative
    · exact plus h
    · exact minus h

theorem exists_digit (h : Numeral s n) : ∃ c ∈ s, c.isDigit = true := by
  have hfirst : ∀ {t : List Char}, Digits t → ∃ c ∈ t, c.isDigit = true := by
    intro t ht
    obtain ⟨c, hc⟩ := List.exists_mem_of_ne_nil t ht.1
    exact ⟨c, hc, ht.2 c hc⟩
  cases h with
  | plain h => exact hfirst h
  | plus h | minus h =>
    obtain ⟨c, hc, hdigit⟩ := hfirst h
    exact ⟨c, List.mem_cons_of_mem _ hc, hdigit⟩

end Numeral

variable (hleast : range.least < 0) (hgreatest : 0 ≤ range.greatest)

include hleast hgreatest

/-- From zero on, the digits of either sign. -/
theorem readDigits_zero_eq_ok_iff (hs : s ≠ []) :
    readDigits range negative 0 s = .ok n ↔
      (Digits s ∧ n = signed negative (Nat.ofDigitChars 10 s 0)) ∧ range.Holds n := by
  have hzero : signed negative 0 = 0 := by cases negative <;> rfl
  have hreaches : ∀ value, range.Reaches negative (signed negative value) ↔
      range.Holds (signed negative value) := by
    intro value
    cases negative <;>
      simp only [IntRange.Reaches, IntRange.Holds, signed, Bool.false_eq_true, ↓reduceIte] <;> omega
  have hstart : range.Holds 0 := ⟨le_of_lt hleast, hgreatest⟩
  have hread := readDigits_eq_ok_iff (s := s) (n := n) ((hreaches 0).mpr (hzero ▸ hstart))
  rw [hzero] at hread
  rw [hread, Digits, and_iff_right hs, and_assoc]
  refine and_congr_right fun _ => and_congr_right ?_
  rintro rfl
  exact hreaches _

/-- What is read is a numeral, and every numeral is read whose number is in the range. -/
theorem readDecimal_eq_ok_iff {text : String} :
    readDecimal range text = .ok n ↔ Numeral text.toList n ∧ range.Holds n := by
  have hdigits : ∀ negative s, s ≠ [] → (readDigits range negative 0 s = .ok n ↔
      (Digits s ∧ n = signed negative (Nat.ofDigitChars 10 s 0)) ∧ range.Holds n) :=
    fun _ _ => readDigits_zero_eq_ok_iff hleast hgreatest
  have hnone : ∀ {s}, (∀ c ∈ s, c.isDigit = false) → ¬ (Numeral s n ∧ range.Holds n) := by
    rintro s hs ⟨h, -⟩
    obtain ⟨c, hc, hdigit⟩ := h.exists_digit
    rw [hs c hc] at hdigit
    cases hdigit
  unfold readDecimal
  split
  · next h => simpa [h] using hnone (s := []) (by simp)
  · next h => simpa [h] using hnone (s := ['+']) (List.forall_mem_singleton.mpr rfl)
  · next h => simpa [h] using hnone (s := ['-']) (List.forall_mem_singleton.mpr rfl)
  · next digits hne h =>
    rw [h, hdigits false digits hne, ← Numeral.iff_sign false]
    rfl
  · next digits hne h =>
    rw [if_pos hleast, h, hdigits true digits hne, ← Numeral.iff_sign true]
    rfl
  · next hnil _ _ hplus hminus =>
    have hunsigned : ∀ c ∈ text.toList.head?, c ≠ '+' ∧ c ≠ '-' := by
      intro c hc
      obtain ⟨rest, hrest⟩ := List.head?_eq_some_iff.mp hc
      exact ⟨fun h => hplus rest (h ▸ hrest), fun h => hminus rest (h ▸ hrest)⟩
    rw [hdigits false _ hnil, Numeral.iff_plain hunsigned]

end Reading

section Writing

variable {n : Int}

theorem digits_toDigits (n : Nat) : Digits (Nat.toDigits 10 n) :=
  ⟨Nat.toDigits_ne_nil, fun _ => Nat.isDigit_of_mem_toDigits (by decide) (by decide)⟩

/-- A number is written with a sign only if it is less than zero. -/
theorem toList_toString (n : Int) : (toString n).toList =
    if n < 0 then '-' :: Nat.toDigits 10 n.natAbs else Nat.toDigits 10 n.natAbs := by
  cases n with
  | ofNat n => simp [Int.toString_eq_repr, Int.repr]
  | negSucc n => simp [Int.toString_eq_repr, Int.repr]

theorem numeral_toString (n : Int) : Numeral (toString n).toList n := by
  have hvalue := Nat.ofDigitChars_toDigits (b := 10) (n := n.natAbs) (by decide) (by decide)
  have hdigits := digits_toDigits n.natAbs
  rw [toList_toString]
  split
  · next hn =>
    have h := Numeral.minus hdigits
    rwa [hvalue, Int.natCast_natAbs, abs_of_neg hn, neg_neg] at h
  · next hn =>
    have h := Numeral.plain hdigits
    rwa [hvalue, Int.natCast_natAbs, abs_of_nonneg (Int.not_lt.mp hn)] at h

/-- Nothing but digits and the sign is written. -/
theorem mem_toString {c : Char} (h : c ∈ (toString n).toList) : c = '-' ∨ c.isDigit = true := by
  rw [toList_toString] at h
  split at h
  · exact (List.mem_cons.mp h).imp_right fun h => (digits_toDigits _).2 c h
  · exact .inr ((digits_toDigits _).2 c h)

theorem toString_ne_nil (n : Int) : (toString n).toList ≠ [] := by
  rw [toList_toString]
  split
  · exact List.cons_ne_nil _ _
  · exact Nat.toDigits_ne_nil

end Writing

end ClassRecovery.Text
