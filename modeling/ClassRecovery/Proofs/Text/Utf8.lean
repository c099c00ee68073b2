import Mathlib
import ClassRecovery.Text.Utf8

/-!
Reading back what was written in UTF-8. The first byte of a character tells how many follow, and
narrows the second so that each character has one form; the low bytes are those of plain characters
alone.
-/

namespace ClassRecovery.Text.Utf8

theorem encode_append (s t : String) : encode (s ++ t) = encode s ++ encode t := by
  simp [encode]

theorem encode_join (parts : List String) : encode (String.join parts) = parts.flatMap encode := by
  induction parts with
  | nil => rfl
  | cons part parts ih => rw [String.join_cons, encode_append, ih, List.flatMap_cons]

section Bytes

variable {n : Nat} {b : UInt8}

theorem toNat_le_max (c : Char) : c.toNat < 0x110000 := by
  rcases c.valid with h | ⟨-, h⟩
  · exact Nat.lt_trans h (by decide)
  · exact h

theorem toNat_not_surrogate (c : Char) : c.toNat < 0xD800 ∨ 0xE000 ≤ c.toNat := by
  rcases c.valid with h | ⟨h, -⟩
  · exact .inl h
  · exact .inr h

/-- All bytes of a sequence that is longer than one have their highest bit set. -/
theorem mem_encodeScalar (hn : n < 0x110000) (hb : b.toNat < 0x80) (h : b ∈ encodeScalar n) :
    n = b.toNat := by
  have hhigh : ∀ m, 0x80 ≤ m → m < 0x100 → b ≠ .ofNat m := by
    rintro m hlow hm rfl
    rw [UInt8.toNat_ofNat_of_lt' hm] at hb
    omega
  unfold encodeScalar at h
  split at h
  · next hsmall =>
    rw [List.mem_singleton.mp h]
    exact (UInt8.toNat_ofNat_of_lt' (Nat.lt_trans hsmall (by decide))).symm
  · exfalso
    revert h
    repeat' split
    all_goals
      simp only [List.mem_cons, List.not_mem_nil, or_false, not_or, imp_false]
      and_intros <;> exact hhigh _ (by omega) (by omega)

/-- Only a plain character has its byte. -/
theorem mem_encodeChar {c : Char} (hb : b.toNat < 0x80) (h : b ∈ encodeChar c) :
    c.toNat = b.toNat :=
  mem_encodeScalar (toNat_le_max c) hb h

end Bytes

section Reading

variable {n : Nat}

/-- What a first byte announces, by its number. -/
theorem lead?_ofNat (hn : n < 0x100) : lead? (.ofNat n) =
    if n < 0x80 then some ⟨0, 0, 0⟩
    else if 0xC2 ≤ n ∧ n ≤ 0xDF then some ⟨1, 0x80, 0xBF⟩
    else if n = 0xE0 then some ⟨2, 0xA0, 0xBF⟩
    else if n = 0xED then some ⟨2, 0x80, 0x9F⟩
    else if 0xE1 ≤ n ∧ n ≤ 0xEF then some ⟨2, 0x80, 0xBF⟩
    else if n = 0xF0 then some ⟨3, 0x90, 0xBF⟩
    else if 0xF1 ≤ n ∧ n ≤ 0xF3 then some ⟨3, 0x80, 0xBF⟩
    else if n = 0xF4 then some ⟨3, 0x80, 0x8F⟩
    else none := by
  have hnat : (UInt8.ofNat n).toNat = n := UInt8.toNat_ofNat_of_lt' hn
  simp only [lead?, UInt8.lt_iff_toNat_lt, UInt8.le_iff_toNat_le, ← UInt8.toNat_inj, hnat,
    Bool.and_eq_true, decide_eq_true_eq]
  rfl

theorem isContinuation_ofNat (hn : n < 0x100) :
    isContinuation (.ofNat n) = decide (0x80 ≤ n ∧ n ≤ 0xBF) := by
  have hnat : (UInt8.ofNat n).toNat = n := UInt8.toNat_ofNat_of_lt' hn
  simp only [isContinuation, UInt8.le_iff_toNat_le, hnat, Bool.decide_and]
  rfl

/-- The six bits of a continuation byte. -/
theorem payload_ofNat (m : Nat) : payload (.ofNat (0x80 + m % 64)) = m % 64 := by
  rw [payload, UInt8.toNat_ofNat_of_lt' (show 0x80 + m % 64 < 0x100 by omega)]
  omega

theorem continueChar_ofNat (due seen value m : Nat) (rest : Bytes) :
    continueChar (due + 1) seen value (.ofNat (0x80 + m % 64) :: rest) =
      continueChar due (seen + 1) (value * 64 + m % 64) rest := by
  rw [continueChar, isContinuation_ofNat (by omega), payload_ofNat]
  exact if_pos (by simp only [decide_eq_true_eq]; omega)

/-- A second byte that the first allows. -/
theorem readChar_of_lead {due m : Nat} {low high first : UInt8}
    (hlead : lead? first = some ⟨due + 1, low, high⟩) (hlow : low.toNat ≤ 0x80 + m % 64)
    (hhigh : 0x80 + m % 64 ≤ high.toNat) (rest : Bytes) :
    readChar first (.ofNat (0x80 + m % 64) :: rest) =
      continueChar due 2 (leadPayload (due + 1) first * 64 + m % 64) rest := by
  have hallowed : (low ≤ .ofNat (0x80 + m % 64) && .ofNat (0x80 + m % 64) ≤ high) = true := by
    have hm : (UInt8.ofNat (0x80 + m % 64)).toNat = 0x80 + m % 64 :=
      UInt8.toNat_ofNat_of_lt' (show 0x80 + m % 64 < 0x100 by omega)
    simp only [UInt8.le_iff_toNat_le, hm, hlow, hhigh, decide_true, Bool.and_self]
  simp only [readChar, hlead, hallowed, payload_ofNat, ↓reduceIte]

/-- What the first of three bytes says of the second keeps out short forms and surrogates. -/
theorem lead?_three (hlow : 0x800 ≤ n) (hhigh : n < 0x10000)
    (hsurrogate : n < 0xD800 ∨ 0xE000 ≤ n) :
    ∃ low high, lead? (.ofNat (0xE0 + n / 4096)) = some ⟨2, low, high⟩ ∧
      low.toNat ≤ 0x80 + n / 64 % 64 ∧ 0x80 + n / 64 % 64 ≤ high.toNat := by
  rw [lead?_ofNat (by omega), if_neg (by omega), if_neg (by omega)]
  split
  · exact ⟨_, _, rfl, show 0xA0 ≤ _ by omega, show _ ≤ 0xBF by omega⟩
  · split
    · exact ⟨_, _, rfl, show 0x80 ≤ _ by omega, show _ ≤ 0x9F by omega⟩
    · rw [if_pos (by omega)]
      exact ⟨_, _, rfl, show 0x80 ≤ _ by omega, show _ ≤ 0xBF by omega⟩

theorem lead?_four (hlow : 0x10000 ≤ n) (hhigh : n < 0x110000) :
    ∃ low high, lead? (.ofNat (0xF0 + n / 262144)) = some ⟨3, low, high⟩ ∧
      low.toNat ≤ 0x80 + n / 4096 % 64 ∧ 0x80 + n / 4096 % 64 ≤ high.toNat := by
  rw [lead?_ofNat (by omega), if_neg (by omega), if_neg (by omega), if_neg (by omega),
    if_neg (by omega), if_neg (by omega)]
  split
  · exact ⟨_, _, rfl, show 0x90 ≤ _ by omega, show _ ≤ 0xBF by omega⟩
  · split
    · exact ⟨_, _, rfl, show 0x80 ≤ _ by omega, show _ ≤ 0xBF by omega⟩
    · rw [if_pos (by omega)]
      exact ⟨_, _, rfl, show 0x80 ≤ _ by omega, show _ ≤ 0x8F by omega⟩

/-- A scalar value is read back from its bytes. -/
theorem readChar_encodeScalar (hmax : n < 0x110000) (hsurrogate : n < 0xD800 ∨ 0xE000 ≤ n)
    {first : UInt8} {more : Bytes} (h : encodeScalar n = first :: more) (rest : Bytes) :
    readChar first (more ++ rest) = .char (.ofNat n) rest := by
  have hnat : ∀ {m}, m < 0x100 → (UInt8.ofNat m).toNat = m := UInt8.toNat_ofNat_of_lt'
  unfold encodeScalar at h
  split at h
  · cases h
    have hlead : lead? (.ofNat n) = some ⟨0, 0, 0⟩ := by
      rw [lead?_ofNat (by omega), if_pos (by assumption)]
    simp only [readChar, hlead, hnat (show n < 0x100 by omega), List.nil_append]
  · split at h
    · cases h
      have hlead : lead? (.ofNat (0xC0 + n / 64)) = some ⟨1, 0x80, 0xBF⟩ := by
        rw [lead?_ofNat (by omega), if_neg (by omega), if_pos (by omega)]
      have hbits : leadPayload 1 (.ofNat (0xC0 + n / 64)) * 64 + n % 64 = n := by
        simp only [leadPayload, hnat (show 0xC0 + n / 64 < 0x100 by omega)]
        omega
      rw [List.singleton_append, readChar_of_lead hlead (show 0x80 ≤ _ by omega)
        (show _ ≤ 0xBF by omega), hbits, continueChar]
    · split at h
      · cases h
        obtain ⟨low, high, hlead, hlow, hhigh⟩ := lead?_three (by omega) (by assumption) hsurrogate
        have hbits : (leadPayload 2 (.ofNat (0xE0 + n / 4096)) * 64 + n / 64 % 64) * 64 + n % 64 =
            n := by
          simp only [leadPayload, hnat (show 0xE0 + n / 4096 < 0x100 by omega)]
          omega
        rw [List.cons_append, List.singleton_append, readChar_of_lead hlead hlow hhigh,
          continueChar_ofNat, hbits, continueChar]
      · cases h
        obtain ⟨low, high, hlead, hlow, hhigh⟩ := lead?_four (n := n) (by omega) hmax
        have hbits : ((leadPayload 3 (.ofNat (0xF0 + n / 262144)) * 64 + n / 4096 % 64) * 64 +
            n / 64 % 64) * 64 + n % 64 = n := by
          simp only [leadPayload, hnat (show 0xF0 + n / 262144 < 0x100 by omega)]
          omega
        rw [List.cons_append, List.cons_append, List.singleton_append,
          readChar_of_lead hlead hlow hhigh, continueChar_ofNat, continueChar_ofNat, hbits,
          continueChar]

theorem encodeScalar_ne_nil (n : Nat) : encodeScalar n ≠ [] := by
  unfold encodeScalar
  repeat' split
  all_goals exact List.cons_ne_nil _ _

theorem decodeChars_encode (s read : List Char) :
    decodeChars (s.flatMap encodeChar) read = some (read.reverse ++ s) := by
  induction s generalizing read with
  | nil => simp [decodeChars]
  | cons c s ih =>
    obtain ⟨first, more, hc⟩ := List.exists_cons_of_ne_nil (encodeScalar_ne_nil c.toNat)
    have hread := readChar_encodeScalar (toNat_le_max c) (toNat_not_surrogate c) hc
      (s.flatMap encodeChar)
    rw [Char.ofNat_toNat] at hread
    rw [List.flatMap_cons, encodeChar, hc, List.cons_append, decodeChars]
    split
    · next d rest' h =>
      rw [hread] at h
      cases h
      rw [ih, List.reverse_cons, List.append_assoc, List.singleton_append]
    · next h =>
      rw [hread] at h
      cases h

theorem decode?_encode (s : String) : decode? (encode s) = some s := by
  rw [decode?, encode, decodeChars_encode]
  simp

end Reading

end ClassRecovery.Text.Utf8
