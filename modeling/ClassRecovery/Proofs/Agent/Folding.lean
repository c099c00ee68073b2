import ClassRecovery.Agent.Manifest
import ClassRecovery.Proofs.Text.Utf8

/-!
The lines of a manifest. A line that is too long goes on in lines that are marked by a space, and
joining these to the line before gives back the attributes, whatever characters they are made of.
-/

namespace ClassRecovery.Agent.Manifest

def encodeChars (s : List Char) : Bytes := s.flatMap Text.Utf8.encodeChar

/-- What ends a line: a carriage return and a line feed. -/
def lineEnd : Bytes := [13, 10]

/-- The lines of a byte string; the last one is what stands behind the last end of a line. -/
def physicalLines : Bytes → List Bytes
  | [] => [[]]
  | 13 :: 10 :: rest => [] :: physicalLines rest
  | b :: rest =>
    match physicalLines rest with
    | [] => [[b]]
    | line :: lines => (b :: line) :: lines

/-- A line that starts with a space goes on with the one before, of which `done` has the latest
first. -/
def joinLine : (done : List (List Char)) → (line : List Char) → List (List Char)
  | last :: done, ' ' :: line => (last ++ line) :: done
  | done, line => line :: done

/-- The lines with every continuation joined to the line it belongs to. -/
def joinLines (lines : List (List Char)) : List (List Char) := (lines.foldl joinLine []).reverse

def attributeLine (a : String × String) : List Char := (a.1 ++ ": " ++ a.2).toList

/-- Free of the characters that end a line. -/
def Unbroken (s : List Char) : Prop := '\r' ∉ s ∧ '\n' ∉ s

instance (s : List Char) : Decidable (Unbroken s) := inferInstanceAs (Decidable (_ ∧ _))

/-- An attribute that can be told from what stands before and behind it. -/
structure Separate (a : String × String) : Prop where
  name : Unbroken a.1.toList
  value : Unbroken a.2.toList
  named : a.1 ≠ ""
  unmarked : a.1.toList.head? ≠ some ' '

/-- The text is made of these lines and an empty one; they are not empty, have at most 72 bytes
each, and are the attributes when they are joined. -/
structure Folded (text : String) (lines : List (List Char))
    (attributes : List (String × String)) : Prop where
  written : Text.Utf8.encode text =
    (lines.flatMap fun line => encodeChars line ++ lineEnd) ++ lineEnd
  fits : ∀ line ∈ lines, line ≠ [] ∧ (encodeChars line).length ≤ 72
  joined : joinLines lines = attributes.map attributeLine

section Cut

variable {room : Nat} {s : List Char}

@[simp] theorem encodeChars_nil : encodeChars [] = [] := rfl

@[simp] theorem encodeChars_cons (c : Char) (s : List Char) :
    encodeChars (c :: s) = Text.Utf8.encodeChar c ++ encodeChars s := rfl

theorem length_encodeChars_cut (room : Nat) (s : List Char) :
    (encodeChars (cut room s).1).length ≤ room := by
  induction s generalizing room with
  | nil => simp [cut]
  | cons c rest ih =>
    rw [cut]
    split
    · next hroom =>
      have hrest := ih (room - byteLength c)
      have hc : (Text.Utf8.encodeChar c).length = byteLength c := rfl
      simp only [encodeChars_cons, List.length_append, hc]
      omega
    · simp

/-- There is room for any character in four bytes. -/
theorem head?_cut (h : 4 ≤ room) (s : List Char) : (cut room s).1.head? = s.head? := by
  cases s with
  | nil => rfl
  | cons c rest => simp only [cut, Nat.le_trans (byteLength_le_four c) h, ↓reduceIte,
      List.head?_cons]

theorem cut_ne_nil (h : 4 ≤ room) (hs : s ≠ []) : (cut room s).1 ≠ [] := by
  intro hnil
  have hhead := head?_cut h s
  rw [hnil, List.head?_nil, eq_comm, List.head?_eq_none_iff] at hhead
  exact hs hhead

end Cut

section Continuation

variable {line s : List Char} {done : List (List Char)}

theorem mem_continuation (h : line ∈ continuation s) :
    line ≠ [] ∧ (encodeChars line).length ≤ lineLimit - 1 := by
  induction s using continuation.induct with
  | case1 => simp [continuation] at h
  | case2 c rest ih =>
    rw [continuation, List.mem_cons] at h
    rcases h with rfl | h
    · exact ⟨cut_ne_nil (by decide) (List.cons_ne_nil c rest), length_encodeChars_cut _ _⟩
    · exact ih h

/-- Nothing is lost between the lines. -/
theorem flatten_continuation (s : List Char) : (continuation s).flatten = s := by
  induction s using continuation.induct with
  | case1 => simp [continuation]
  | case2 c rest ih => rw [continuation, List.flatten_cons, ih, cut_append]

/-- Marked lines all go to the line before. -/
theorem foldl_joinLine_marked (last : List Char) (done lines : List (List Char)) :
    (lines.map (' ' :: ·)).foldl joinLine (last :: done) = (last ++ lines.flatten) :: done := by
  induction lines generalizing last with
  | nil => simp
  | cons line lines ih =>
    rw [List.map_cons, List.foldl_cons, joinLine, ih, List.flatten_cons, List.append_assoc]

theorem joinLine_unmarked (done : List (List Char)) (h : line.head? ≠ some ' ') :
    joinLine done line = line :: done := by
  unfold joinLine
  split
  · exact absurd rfl h
  · rfl

end Continuation

section Field

variable {name value : String} {line : List Char}

theorem attributeLine_ne_nil (a : String × String) : attributeLine a ≠ [] := by
  simp [attributeLine]

theorem head?_attributeLine (h : name.toList.head? ≠ some ' ') (value : String) :
    (attributeLine (name, value)).head? ≠ some ' ' := by
  simp only [attributeLine, String.toList_append, List.append_assoc, List.head?_append]
  cases hname : name.toList.head? with
  | none => simp
  | some c =>
    rw [hname] at h
    simpa using h

/-- One attribute is joined to one line. -/
theorem foldl_joinLine_fieldLines (h : name.toList.head? ≠ some ' ') (value : String)
    (done : List (List Char)) :
    (fieldLines name value).foldl joinLine done = attributeLine (name, value) :: done := by
  have hfront : (cut lineLimit (attributeLine (name, value))).1.head? ≠ some ' ' := by
    rw [head?_cut (by decide)]
    exact head?_attributeLine h value
  change List.foldl joinLine done ((cut lineLimit (attributeLine (name, value))).1 ::
    (continuation (cut lineLimit (attributeLine (name, value))).2).map (' ' :: ·)) = _
  rw [List.foldl_cons, joinLine_unmarked done hfront, foldl_joinLine_marked, flatten_continuation,
    cut_append]

theorem fieldLines_fit (h : line ∈ fieldLines name value) :
    line ≠ [] ∧ (encodeChars line).length ≤ 72 := by
  rcases List.mem_cons.mp h with rfl | h
  · exact ⟨cut_ne_nil (by decide) (attributeLine_ne_nil (name, value)),
      length_encodeChars_cut lineLimit _⟩
  · obtain ⟨rest, hrest, rfl⟩ := List.mem_map.mp h
    have hspace : (Text.Utf8.encodeChar ' ').length = 1 := rfl
    have hlength := (mem_continuation hrest).2
    rw [lineLimit] at hlength
    refine ⟨List.cons_ne_nil _ _, ?_⟩
    rw [encodeChars_cons, List.length_append, hspace]
    omega

theorem mem_fieldLines {c : Char} (h : line ∈ fieldLines name value) (hc : c ∈ line) :
    c = ' ' ∨ c ∈ attributeLine (name, value) := by
  rw [← cut_append lineLimit (attributeLine (name, value)), List.mem_append]
  rcases List.mem_cons.mp h with rfl | h
  · exact .inr (.inl hc)
  · obtain ⟨rest, hrest, rfl⟩ := List.mem_map.mp h
    refine (List.mem_cons.mp hc).imp_right fun hc => .inr ?_
    rw [← flatten_continuation (cut lineLimit (attributeLine (name, value))).2]
    exact List.mem_flatten_of_mem hrest hc

theorem unbroken_fieldLines (hname : Unbroken name.toList) (hvalue : Unbroken value.toList)
    (h : line ∈ fieldLines name value) : Unbroken line := by
  have hattribute : Unbroken (attributeLine (name, value)) := by
    obtain ⟨hn, hn'⟩ := hname
    obtain ⟨hv, hv'⟩ := hvalue
    simp [Unbroken, attributeLine, hn, hn', hv, hv']
  constructor
  · exact fun hc => (mem_fieldLines h hc).elim (by decide) hattribute.1
  · exact fun hc => (mem_fieldLines h hc).elim (by decide) hattribute.2

end Field

section Encoding

theorem encode_field (name value : String) :
    Text.Utf8.encode (field name value) =
      (fieldLines name value).flatMap fun line => encodeChars line ++ lineEnd := by
  rw [field, Text.Utf8.encode_join, List.flatMap_map]
  congr 1
  funext line
  rw [Text.Utf8.encode_append, Text.Utf8.encode, String.toList_ofList]
  rfl

/-- Only the carriage return itself has its byte. -/
theorem thirteen_notMem_encodeChar {c : Char} (h : c ≠ '\r') :
    (13 : UInt8) ∉ Text.Utf8.encodeChar c :=
  fun hmem => h (Char.toNat_inj.mp (Text.Utf8.mem_encodeChar (by decide) hmem))

theorem physicalLines_cons {b : UInt8} (hb : b ≠ 13) (line rest : Bytes) (lines : List Bytes)
    (h : physicalLines rest = line :: lines) :
    physicalLines (b :: rest) = (b :: line) :: lines := by
  rw [physicalLines, h]
  rintro tail rfl
  exact absurd rfl hb

theorem physicalLines_append {part : Bytes} (h : 13 ∉ part) (rest : Bytes) :
    physicalLines (part ++ lineEnd ++ rest) = part :: physicalLines rest := by
  induction part with
  | nil => rfl
  | cons b part ih =>
    rw [List.mem_cons, not_or] at h
    exact physicalLines_cons (Ne.symm h.1) _ _ _ (ih h.2)

theorem thirteen_notMem_encodeChars {line : List Char} (h : '\r' ∉ line) :
    13 ∉ encodeChars line := by
  rw [encodeChars, List.mem_flatMap]
  rintro ⟨c, hc, hmem⟩
  exact thirteen_notMem_encodeChar (fun he => h (he ▸ hc)) hmem

theorem physicalLines_written {lines : List (List Char)} (h : ∀ line ∈ lines, '\r' ∉ line) :
    physicalLines ((lines.flatMap fun line => encodeChars line ++ lineEnd) ++ lineEnd) =
      lines.map encodeChars ++ [[], []] := by
  induction lines with
  | nil => rfl
  | cons line lines ih =>
    have hline := thirteen_notMem_encodeChars (h line List.mem_cons_self)
    rw [List.flatMap_cons, List.append_assoc, physicalLines_append hline,
      ih fun l hl => h l (List.mem_cons_of_mem _ hl), List.map_cons, List.cons_append]

end Encoding

section Render

variable {agentClass : String} {attributes extra : List (String × String)}

def allLines (attributes : List (String × String)) : List (List Char) :=
  attributes.flatMap fun a => fieldLines a.1 a.2

theorem encode_render (agentClass : String) (extra : List (String × String)) :
    Text.Utf8.encode (render agentClass extra) =
      ((allLines (agentAttributes agentClass ++ extra)).flatMap fun line =>
        encodeChars line ++ lineEnd) ++ lineEnd := by
  rw [render, Text.Utf8.encode_append, Text.Utf8.encode_join, List.flatMap_map, allLines,
    List.flatMap_assoc]
  simp only [encode_field]
  rfl

theorem foldl_joinLine_allLines (h : ∀ a ∈ attributes, a.1.toList.head? ≠ some ' ')
    (done : List (List Char)) :
    (allLines attributes).foldl joinLine done = (attributes.map attributeLine).reverse ++ done := by
  induction attributes generalizing done with
  | nil => rfl
  | cons a attributes ih =>
    have hrest := ih (fun b hb => h b (List.mem_cons_of_mem _ hb)) (attributeLine a :: done)
    rw [allLines, List.flatMap_cons, List.foldl_append,
      foldl_joinLine_fieldLines (h a List.mem_cons_self), ← allLines, hrest]
    simp

theorem unmarked_agentAttributes (agentClass : String) :
    ∀ a ∈ agentAttributes agentClass, a.1.toList.head? ≠ some ' ' := by
  intro a ha
  simp only [agentAttributes, List.mem_cons, List.not_mem_nil, or_false] at ha
  rcases ha with rfl | rfl | rfl | rfl | rfl | rfl <;> simp

theorem unbroken_agentAttributes (h : Unbroken agentClass.toList) :
    ∀ a ∈ agentAttributes agentClass, Unbroken a.1.toList ∧ Unbroken a.2.toList := by
  intro a ha
  simp only [agentAttributes, List.mem_cons, List.not_mem_nil, or_false] at ha
  rcases ha with rfl | rfl | rfl | rfl | rfl | rfl
  case inr.inr.inl | inr.inr.inr.inl => exact ⟨by simp [Unbroken], h⟩
  all_goals simp [Unbroken]

/-- A manifest is made of lines that are not too long and that give back its attributes when the
marked ones are joined to those before. If the name of the class breaks no line either, these are
the lines that can be seen in it, and the only empty one is the last. -/
theorem render_unfolds (agentClass : String) (extra : List (String × String))
    (h : ∀ a ∈ extra, Separate a) :
    ∃ lines, Folded (render agentClass extra) lines (agentAttributes agentClass ++ extra) ∧
      (Unbroken agentClass.toList →
        physicalLines (Text.Utf8.encode (render agentClass extra)) =
            lines.map encodeChars ++ [[], []] ∧
          ∀ line ∈ lines, Unbroken line) := by
  refine ⟨allLines (agentAttributes agentClass ++ extra), ⟨encode_render agentClass extra, ?_, ?_⟩,
    fun hclass => ?_⟩
  · intro line hline
    obtain ⟨a, -, ha⟩ := List.mem_flatMap.mp hline
    exact fieldLines_fit ha
  · have hunmarked : ∀ a ∈ agentAttributes agentClass ++ extra, a.1.toList.head? ≠ some ' ' := by
      intro a ha
      rcases List.mem_append.mp ha with ha | ha
      · exact unmarked_agentAttributes agentClass a ha
      · exact (h a ha).unmarked
    rw [joinLines, foldl_joinLine_allLines hunmarked, List.append_nil, List.reverse_reverse]
  · have hlines : ∀ line ∈ allLines (agentAttributes agentClass ++ extra), Unbroken line := by
      intro line hline
      obtain ⟨a, ha, hline⟩ := List.mem_flatMap.mp hline
      rcases List.mem_append.mp ha with ha | ha
      · obtain ⟨hname, hvalue⟩ := unbroken_agentAttributes hclass a ha
        exact unbroken_fieldLines hname hvalue hline
      · exact unbroken_fieldLines (h a ha).name (h a ha).value hline
    refine ⟨?_, hlines⟩
    rw [encode_render]
    exact physicalLines_written fun line hline => (hlines line hline).1

/-- A value of characters that take three bytes, so that the first line ends before its limit. -/
def wideValue : String := .ofList (List.replicate 30 '€')

theorem render_unfolds_wideValue :
    Separate ("Note", wideValue) ∧ ∃ lines,
      physicalLines (Text.Utf8.encode (render "p.Agent" [("Note", wideValue)])) =
          lines.map encodeChars ++ [[], []] ∧
        joinLines lines =
          (agentAttributes "p.Agent" ++ [("Note", wideValue)]).map attributeLine := by
  have hseparate : Separate ("Note", wideValue) :=
    ⟨by decide, by decide, by decide, by decide⟩
  obtain ⟨lines, hfolded, hclass⟩ := render_unfolds "p.Agent" [("Note", wideValue)] fun a ha =>
    List.mem_singleton.mp ha ▸ hseparate
  exact ⟨hseparate, lines, (hclass (by decide)).1, hfolded.joined⟩

end Render

end ClassRecovery.Agent.Manifest
