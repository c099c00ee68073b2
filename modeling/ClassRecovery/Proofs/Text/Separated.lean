import ClassRecovery.Proofs.Files.Pieces
import ClassRecovery.Proofs.Text.Lines

/-!
Pieces with a separator between them, and text with blanks around it. Both can be told from the
whole: the pieces are those that hold no separator, and the text is what neither begins nor ends
with a blank.
-/

namespace ClassRecovery.Text

variable {sep : Char}

theorem splitChars_intercalate {pieces : List (List Char)} (hne : pieces ≠ [])
    (h : ∀ piece ∈ pieces, sep ∉ piece) : splitChars sep ([sep].intercalate pieces) = pieces := by
  induction pieces with
  | nil => exact absurd rfl hne
  | cons piece rest ih =>
    have hpiece := splitChars_of_notMem (h piece List.mem_cons_self)
    cases rest with
    | nil => simpa [List.intercalate] using hpiece
    | cons next rest =>
      have hjoin : [sep].intercalate (piece :: next :: rest) =
          piece ++ sep :: [sep].intercalate (next :: rest) := by
        simp [List.intercalate]
      rw [hjoin, splitChars_append_sep, hpiece,
        ih (List.cons_ne_nil _ _) fun p hp => h p (List.mem_cons_of_mem _ hp)]
      rfl

variable {glue : String}

/-- What was put together from pieces falls into these again. -/
theorem split_intercalate (hglue : glue.toList = [sep]) {pieces : List String} (hne : pieces ≠ [])
    (h : ∀ piece ∈ pieces, sep ∉ piece.toList) : split sep (glue.intercalate pieces) = pieces := by
  have hpieces : ∀ piece ∈ pieces.map String.toList, sep ∉ piece := by
    simpa only [List.forall_mem_map] using h
  rw [split, String.toList_intercalate, hglue, splitChars_intercalate (by simpa using hne) hpieces]
  simp [Function.comp_def]

/-! ### Blanks around a text -/

/-- Nothing but blank characters. -/
def Blank (s : String) : Prop := ∀ c ∈ s.toList, isBlank c = true

theorem Blank.append {a b : String} (ha : Blank a) (hb : Blank b) : Blank (a ++ b) := by
  intro c hc
  rw [String.toList_append, List.mem_append] at hc
  exact hc.elim (ha c) (hb c)

theorem Blank.notMem {s : String} (h : Blank s) {c : Char} (hc : isBlank c = false) :
    c ∉ s.toList := by
  intro hmem
  rw [h c hmem] at hc
  cases hc

/-- Every text is one that neither begins nor ends with a blank, with blanks around it. -/
theorem exists_padded_chars (s : List Char) :
    ∃ l r, s = l ++ trimChars s ++ r ∧ (∀ c ∈ l, isBlank c = true) ∧ Trimmed (trimChars s) ∧
      ∀ c ∈ r, isBlank c = true := by
  let rest := trimStartChars s
  have hrest : s = s.takeWhile isBlank ++ rest := List.takeWhile_append_dropWhile.symm
  have hend : rest = trimChars s ++ rest.rtakeWhile isBlank :=
    List.rdropWhile_append_rtakeWhile.symm
  refine ⟨s.takeWhile isBlank, rest.rtakeWhile isBlank, ?_, fun c hc => List.mem_takeWhile_imp hc,
    ⟨fun c hc => ?_, fun c hc => ?_⟩, fun c hc => List.mem_rtakeWhile_imp hc⟩
  · rw [List.append_assoc, ← hend, ← hrest]
  · -- The first character left is the first one behind the blanks in front.
    have hhead : c ∈ rest.head? := by
      rw [hend]
      exact List.mem_head?_append_of_mem_head? hc
    have hne : rest ≠ [] := by
      rintro hnil
      rw [hnil] at hhead
      cases hhead
    have hfirst := List.head_dropWhile_not isBlank hne
    rw [List.head?_eq_some_head hne, Option.mem_some_iff] at hhead
    rw [← hhead]
    exact hfirst
  · have hne : trimChars s ≠ [] := by
      rintro hnil
      rw [hnil] at hc
      cases hc
    have hlast := List.rdropWhile_last_not isBlank rest hne
    rw [List.getLast?_eq_some_getLast hne, Option.mem_some_iff] at hc
    rw [← hc]
    exact Bool.eq_false_of_not_eq_true hlast

theorem exists_padded (s : String) :
    ∃ l r, s = l ++ trim s ++ r ∧ Blank l ∧ Trimmed (trim s).toList ∧ Blank r := by
  obtain ⟨l, r, hs, hl, htrim, hr⟩ := exists_padded_chars s.toList
  refine ⟨.ofList l, .ofList r, ?_, ?_, ?_, ?_⟩
  · apply String.toList_inj.mp
    simpa [trim] using hs
  · simpa [Blank] using hl
  · simpa [trim] using htrim
  · simpa [Blank] using hr

theorem trim_padded {l s r : String} (hl : Blank l) (hs : Trimmed s.toList) (hr : Blank r) :
    trim (l ++ s ++ r) = s := by
  rw [trim, String.toList_append, String.toList_append, hs.trimChars_padded hl hr,
    String.ofList_toList]

/-- Blanks around a text do not count, whatever the text begins and ends with. -/
theorem trim_blanks {l r : String} (hl : Blank l) (s : String) (hr : Blank r) :
    trim (l ++ s ++ r) = trim s := by
  obtain ⟨l', r', hs, hl', htrim, hr'⟩ := exists_padded s
  have hpadded : l ++ s ++ r = (l ++ l') ++ trim s ++ (r' ++ r) := by
    nth_rewrite 1 [hs]
    simp only [String.append_assoc]
  rw [hpadded, trim_padded (hl.append hl') htrim (hr'.append hr)]

theorem trim_eq_empty_iff {s : String} : trim s = "" ↔ Blank s := by
  constructor
  · intro h
    obtain ⟨l, r, hs, hl, -, hr⟩ := exists_padded s
    rw [hs, h, String.append_empty]
    exact hl.append hr
  · intro h
    have htrim := trim_padded (s := "") h (trimmed_of_forall (by simp)) (r := "") (by simp [Blank])
    simpa using htrim

end ClassRecovery.Text
