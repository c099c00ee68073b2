import ClassRecovery.Proofs.Files.Pieces

/-!
The first line of a text, and text that has no blanks at its ends.
-/

namespace ClassRecovery.Text

/-- What ends a line. -/
inductive LineEnd : String → Prop
  | feed : LineEnd "\n"
  | returnFeed : LineEnd "\r\n"

/-- Neither the first nor the last character is blank. -/
def Trimmed (s : List Char) : Prop :=
  (∀ c ∈ s.head?, isBlank c = false) ∧ ∀ c ∈ s.getLast?, isBlank c = false

variable {s : List Char}

theorem dropWhile_of_head? {p : Char → Bool} (h : ∀ c ∈ s.head?, p c = false) :
    s.dropWhile p = s := by
  cases s with
  | nil => rfl
  | cons c rest => rw [List.dropWhile_cons_of_neg (by simp [h c rfl])]

/-- Blanks around a text that neither begins nor ends with one are dropped. -/
theorem Trimmed.trimChars_padded {l s r : List Char} (h : Trimmed s)
    (hl : ∀ c ∈ l, isBlank c = true) (hr : ∀ c ∈ r, isBlank c = true) :
    trimChars (l ++ s ++ r) = s := by
  have hstart : trimStartChars (l ++ s ++ r) = trimStartChars (s ++ r) := by
    rw [trimStartChars, List.append_assoc, List.dropWhile_append_of_pos hl]
    rfl
  rw [trimChars, hstart]
  rcases eq_or_ne s [] with rfl | hne
  · have hnil : trimStartChars ([] ++ r) = [] := List.dropWhile_eq_nil_iff.mpr hr
    rw [hnil]
    rfl
  · have hhead : ∀ c ∈ (s ++ r).head?, isBlank c = false := by
      rw [List.head?_append_of_ne_nil _ hne]
      exact h.1
    have hlast : ∀ c ∈ s.reverse.head?, isBlank c = false := by
      rw [List.head?_reverse]
      exact h.2
    rw [trimStartChars, dropWhile_of_head? hhead, trimEndChars, List.reverse_append,
      List.dropWhile_append_of_pos (by simpa using hr), dropWhile_of_head? hlast,
      List.reverse_reverse]

theorem Trimmed.trimChars_eq (h : Trimmed s) : trimChars s = s := by
  have hpadded := h.trimChars_padded (l := []) (r := []) (by simp) (by simp)
  rwa [List.nil_append, List.append_nil] at hpadded

/-- A blank in front is dropped. -/
theorem Trimmed.trimChars_cons (h : Trimmed s) {c : Char} (hc : isBlank c = true) :
    trimChars (c :: s) = s := by
  have hpadded := h.trimChars_padded (l := [c]) (r := []) (by simpa using hc) (by simp)
  rwa [List.singleton_append, List.append_nil] at hpadded

theorem trimmed_of_forall (h : ∀ c ∈ s, isBlank c = false) : Trimmed s :=
  ⟨fun c hc => h c (List.mem_of_mem_head? hc), fun c hc => h c (List.mem_of_mem_getLast? hc)⟩

theorem lines_append_feed {a : String} (ha : '\n' ∉ a.toList) (b : String) :
    lines (a ++ "\n" ++ b) = .ofList (lines.dropReturn a.toList) :: lines b := by
  have hpieces : splitChars '\n' (a ++ "\n" ++ b).toList =
      a.toList :: splitChars '\n' b.toList := by
    have hfeed : (a ++ "\n" ++ b).toList = a.toList ++ '\n' :: b.toList := by simp
    rw [hfeed, splitChars_append_sep, splitChars_of_notMem ha]
    rfl
  obtain ⟨p, ps, hb⟩ := List.exists_cons_of_ne_nil (splitChars_ne_nil '\n' b.toList)
  simp only [lines, hpieces, hb, List.dropLast_cons_cons, List.getLast?_cons_cons, List.map_cons]
  split <;> rfl

/-- A line in front of a text, whichever way it ends. -/
theorem lines_append {line e : String} (hfeed : '\n' ∉ line.toList)
    (hreturn : line.toList.getLast? ≠ some '\r') (he : LineEnd e) (rest : String) :
    lines (line ++ e ++ rest) = line :: lines rest := by
  cases he with
  | feed =>
    rw [lines_append_feed hfeed, lines.dropReturn, if_neg hreturn, String.ofList_toList]
  | returnFeed =>
    have hsplit : line ++ "\r\n" ++ rest = (line ++ "\r") ++ "\n" ++ rest :=
      String.toList_inj.mp (by simp)
    rw [hsplit, lines_append_feed (by simpa using hfeed)]
    simp [lines.dropReturn]

end ClassRecovery.Text
