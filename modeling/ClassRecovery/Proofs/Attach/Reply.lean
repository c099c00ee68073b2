import ClassRecovery.Attach.Reply
import ClassRecovery.Proofs.Text.Decimal
import ClassRecovery.Proofs.Text.Lines

/-!
What a reply says. Its first line says the status and its second the return code of the agent, with
a label or without; a reply is accepted if both are zero, and a second line without a number says
nothing. Everything else is refused with the number that was not zero.
-/

namespace ClassRecovery.Attach.Reply

open Text (Numeral Trimmed LineEnd isBlank trim trimChars)

def IsInt32 (n : Int) : Prop := Text.IntRange.signed32.Holds n

/-- A line that is a number, apart from blanks at its ends. -/
def Says (line : String) (n : Int) : Prop := Numeral (trim line).toList n ∧ IsInt32 n

/-- What is left of a line without the label. -/
inductive Unlabelled : List Char → List Char → Prop
  | labelled (rest : List Char) : Unlabelled ("return code:".toList ++ rest) rest
  | bare {line : List Char} (h : ¬ "return code:".toList <+: line) : Unlabelled line line

def SaysCode (line : String) (n : Int) : Prop :=
  ∃ rest, Unlabelled (trim line).toList rest ∧ Says (.ofList rest) n

/-- How a reply is to be judged. -/
structure Judged (reply : String) (verdict : Except Fault Unit) : Prop where
  /-- Both dialects, with any words behind and any ends of lines. -/
  dialects : ∀ {status code : Int} {label e e' words : String}, IsInt32 status → IsInt32 code →
    label = "return code: " ∨ label = "" → LineEnd e → LineEnd e' →
    reply = toString status ++ e ++ (label ++ toString code ++ e' ++ words) →
    (verdict = .ok () ↔ status = 0 ∧ code = 0)
  /-- Where no return code is said, the status alone counts. -/
  statusOnly : ∀ {first : String} {rest : List String} {status : Int},
    Text.lines reply = first :: rest → Says first status →
    (∀ second ∈ rest.head?, ∀ code, ¬ SaysCode second code) → (verdict = .ok () ↔ status = 0)
  unreadable : (∀ first ∈ (Text.lines reply).head?, ∀ status, ¬ Says first status) →
    verdict ≠ .ok ()
  refusal : ∀ {fault : Fault}, verdict = .error fault → ∃ reason, fault.error = .attach reason ∧
    ∀ {first : String} {rest : List String} {status : Int},
      Text.lines reply = first :: rest → Says first status →
      status ≠ 0 ∧ reason = s!"status {status}: {words rest}" ∨
        status = 0 ∧ ∃ second more code, rest = second :: more ∧ SaysCode second code ∧ code ≠ 0 ∧
          reason = s!"agent failed to initialize (return code {code}): {words more}"

variable {reply line first second : String} {rest more : List String} {n status code : Int}

theorem readStatus?_eq_some_iff {text : String} :
    readStatus? text = some n ↔ Numeral text.toList n ∧ IsInt32 n := by
  rw [readStatus?, IsInt32, ← Text.readDecimal_eq_ok_iff (by decide) (by decide)]
  cases Text.readDecimal .signed32 text <;> simp [Except.toOption]

theorem readStatus?_trim_iff : readStatus? (trim line) = some n ↔ Says line n :=
  readStatus?_eq_some_iff

theorem unlabelled_iff {line rest : List Char} :
    Unlabelled line rest ↔
      (if label.isPrefixOf line then line.drop label.length else line) = rest := by
  constructor
  · rintro (_ | h)
    · have hprefix : label.isPrefixOf (label ++ rest) = true := by simp
      change (if label.isPrefixOf (label ++ rest) then _ else _) = _
      rw [if_pos hprefix]
      exact List.drop_left
    · exact if_neg (mt List.isPrefixOf_iff_prefix.mp h)
  · rintro rfl
    split
    · next h =>
      obtain ⟨rest, rfl⟩ := List.isPrefixOf_iff_prefix.mp h
      rw [List.drop_left]
      exact .labelled rest
    · next h => exact .bare (mt List.isPrefixOf_iff_prefix.mpr h)

theorem returnCode?_eq_some_iff : returnCode? line = some n ↔ SaysCode line n := by
  have hline : (trim line).toList = trimChars line.toList := String.toList_ofList
  simp only [SaysCode, unlabelled_iff, exists_eq_left', ← readStatus?_trim_iff, hline]
  rw [returnCode?, trim, String.toList_ofList]

theorem returnCode?_eq_none_iff : returnCode? line = none ↔ ∀ n, ¬ SaysCode line n := by
  simp [Option.eq_none_iff_forall_ne_some, returnCode?_eq_some_iff]

section Parse

theorem parse_of_unreadable (h : ∀ first ∈ (Text.lines reply).head?, ∀ n, ¬ Says first n) :
    parse reply = .error .empty ∨ parse reply = .error (.unexpected reply) := by
  unfold parse
  split
  · exact .inl rfl
  · next first rest hlines =>
    have hnone : readStatus? (trim first) = none := by
      rw [Option.eq_none_iff_forall_ne_some]
      intro n hn
      exact h first (by rw [hlines]; rfl) n (readStatus?_trim_iff.mp hn)
    exact .inr (by simp only [hnone])

variable (hlines : Text.lines reply = first :: rest) (hfirst : Says first status)

include hlines hfirst

theorem parse_of_status (hstatus : status ≠ 0) :
    parse reply = .error (.refused status (words rest)) := by
  unfold parse
  simp only [hlines, readStatus?_trim_iff.mpr hfirst, ne_eq, hstatus, not_false_eq_true, ↓reduceIte]

theorem parse_of_bare (hstatus : status = 0)
    (hrest : ∀ second ∈ rest.head?, ∀ n, ¬ SaysCode second n) : parse reply = .ok () := by
  unfold parse
  simp only [hlines, readStatus?_trim_iff.mpr hfirst, hstatus, ne_eq, not_true_eq_false, ↓reduceIte]
  split
  · rfl
  · next second more =>
    simp only [returnCode?_eq_none_iff.mpr (hrest second rfl)]

theorem parse_of_code (hstatus : status = 0) (hrest : rest = second :: more)
    (hsecond : SaysCode second code) :
    parse reply = if code = 0 then .ok () else .error (.agentFailed code (words more)) := by
  unfold parse
  simp only [hlines, readStatus?_trim_iff.mpr hfirst, hstatus, hrest,
    returnCode?_eq_some_iff.mpr hsecond, ne_eq, not_true_eq_false, ↓reduceIte, ite_not]

/-- A status that can be read decides alone or together with the return code. -/
theorem parse_cases :
    status ≠ 0 ∧ parse reply = .error (.refused status (words rest)) ∨
      status = 0 ∧ ((∀ second ∈ rest.head?, ∀ n, ¬ SaysCode second n) ∧ parse reply = .ok () ∨
        ∃ second more code, rest = second :: more ∧ SaysCode second code ∧
          parse reply = if code = 0 then .ok () else .error (.agentFailed code (words more))) := by
  by_cases hstatus : status = 0
  · refine .inr ⟨hstatus, ?_⟩
    by_cases hrest : ∀ second ∈ rest.head?, ∀ n, ¬ SaysCode second n
    · exact .inl ⟨hrest, parse_of_bare hlines hfirst hstatus hrest⟩
    · simp only [not_forall, not_not] at hrest
      obtain ⟨second, hhead, code, hcode⟩ := hrest
      obtain ⟨more, hmore⟩ := List.head?_eq_some_iff.mp hhead
      exact .inr ⟨second, more, code, hmore, hcode,
        parse_of_code hlines hfirst hstatus hmore hcode⟩
  · exact .inl ⟨hstatus, parse_of_status hlines hfirst hstatus⟩

end Parse

section Dialects

theorem not_isBlank_of_isDigit {c : Char} (h : c.isDigit = true) : isBlank c = false := by
  simp only [Char.isDigit, Bool.and_eq_true, decide_eq_true_eq] at h
  have hlow : 48 ≤ c.toNat := h.1
  have hhigh : c.toNat ≤ 57 := h.2
  simp only [isBlank, Bool.or_eq_false_iff, Bool.and_eq_false_imp, beq_eq_false_iff_ne,
    decide_eq_true_eq, decide_eq_false_iff_not]
  omega

theorem not_isBlank_toString {c : Char} (h : c ∈ (toString n).toList) : isBlank c = false := by
  rcases Text.mem_toString h with rfl | h
  · rfl
  · exact not_isBlank_of_isDigit h

theorem trimmed_toString (n : Int) : Trimmed (toString n).toList :=
  Text.trimmed_of_forall fun _ => not_isBlank_toString

/-- No character of a number ends a line. -/
theorem notMem_toString {c : Char} (h : isBlank c = true) : c ∉ (toString n).toList := by
  intro hmem
  rw [not_isBlank_toString hmem] at h
  cases h

theorem says_toString (h : IsInt32 n) : Says (toString n) n := by
  refine ⟨?_, h⟩
  rw [trim, (trimmed_toString n).trimChars_eq, String.ofList_toList]
  exact Text.numeral_toString n

/-- A number ends a line that is not broken before. -/
theorem lines_number (n : Int) {front e : String} (hfront : '\n' ∉ front.toList) (he : LineEnd e)
    (rest : String) :
    Text.lines (front ++ toString n ++ e ++ rest) = (front ++ toString n) :: Text.lines rest := by
  refine Text.lines_append ?_ (fun h => ?_) he rest
  · rw [String.toList_append, List.mem_append, not_or]
    exact ⟨hfront, notMem_toString rfl⟩
  · rw [String.toList_append, List.getLast?_append_of_ne_nil _ (Text.toString_ne_nil n)] at h
    exact notMem_toString (c := '\r') rfl (List.mem_of_getLast? h)

/-- The number is behind the label and a blank, or stands by itself. -/
theorem saysCode_toString (h : IsInt32 n) (hlabel : first = "return code: " ∨ first = "") :
    SaysCode (first ++ toString n) n := by
  have hnumber := trimmed_toString n
  rcases hlabel with rfl | rfl
  · have htrimmed : Trimmed ("return code: " ++ toString n).toList := by
      rw [String.toList_append]
      refine ⟨by simp; rfl, fun c hc => ?_⟩
      rw [List.getLast?_append_of_ne_nil _ (Text.toString_ne_nil n)] at hc
      exact hnumber.2 c hc
    refine ⟨' ' :: (toString n).toList, ?_, ?_, h⟩
    · rw [trim, htrimmed.trimChars_eq, String.toList_ofList, String.toList_append]
      exact .labelled _
    · rw [trim, String.toList_ofList, String.toList_ofList, hnumber.trimChars_cons (c := ' ') rfl]
      exact Text.numeral_toString n
  · rw [String.empty_append]
    refine ⟨(toString n).toList, ?_, by rw [String.ofList_toList]; exact says_toString h⟩
    rw [trim, hnumber.trimChars_eq, String.toList_ofList]
    refine .bare fun hlead => ?_
    rcases Text.mem_toString (hlead.subset (show 'r' ∈ _ by simp)) with hr | hr <;> cases hr

end Dialects

/-- Every reply is judged by its numbers. -/
theorem parse_judged (reply : String) : Judged reply (parse reply) where
  dialects := by
    intro status code label e e' words hstatus hcode hlabel he he' hreply
    have hsecond : SaysCode (label ++ toString code) code := saysCode_toString hcode hlabel
    have hlines : Text.lines reply =
        toString status :: (label ++ toString code) :: Text.lines words := by
      have hstatusLine := lines_number status (show '\n' ∉ "".toList by simp) he
      have hlabelFeed : '\n' ∉ label.toList := by rcases hlabel with rfl | rfl <;> simp
      rw [String.empty_append] at hstatusLine
      rw [hreply, hstatusLine, lines_number code hlabelFeed he']
    by_cases hzero : status = 0
    · rw [parse_of_code hlines (says_toString hstatus) hzero rfl hsecond]
      by_cases hok : code = 0 <;> simp [hzero, hok]
    · simp [parse_of_status hlines (says_toString hstatus) hzero, hzero]
  statusOnly := by
    intro first rest status hlines hfirst hrest
    rcases parse_cases hlines hfirst with
      ⟨hstatus, h⟩ | ⟨rfl, ⟨-, h⟩ | ⟨second, more, code, rfl, hcode, -⟩⟩
    · simp [h, hstatus]
    · simp [h]
    · exact absurd hcode (hrest second rfl code)
  unreadable h := by
    rcases parse_of_unreadable h with h | h <;> simp [h]
  refusal := by
    intro fault hfault
    refine ⟨fault.message, rfl, fun {first rest status} hlines hfirst => ?_⟩
    rcases parse_cases hlines hfirst with
      ⟨hstatus, h⟩ | ⟨rfl, ⟨-, h⟩ | ⟨second, more, code, hrest, hsecond, h⟩⟩
    · rw [hfault] at h
      cases h
      exact .inl ⟨hstatus, rfl⟩
    · rw [hfault] at h
      cases h
    · rw [hfault] at h
      split at h
      · cases h
      · next hcode =>
        cases h
        exact .inr ⟨rfl, second, more, code, hrest, hsecond, hcode, rfl⟩

example : parse "0\r\nreturn code: 100\r\nboom\n" = .error (.agentFailed 100 "boom") := by decide

end ClassRecovery.Attach.Reply
