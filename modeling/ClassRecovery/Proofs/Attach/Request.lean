import ClassRecovery.Attach.Command
import ClassRecovery.Proofs.Text.Utf8
import ClassRecovery.Text.Basic

/-!
Requests as a listener reads them: five parts, each of which ends in a zero byte, and for the
machine's own instrumentation library a jar and its arguments in the last of them. Whatever is
requested is understood, except that the path of a jar ends at its first equals sign.
-/

namespace ClassRecovery

namespace Text

variable {sep : Char} {s : List Char}

theorem splitFirst_append (hs : sep ∉ s) (t : List Char) :
    splitFirst sep (s ++ sep :: t) = some (s, t) := by
  induction s with
  | nil => simp [splitFirst]
  | cons c s ih =>
    rw [List.mem_cons, not_or] at hs
    simp [splitFirst, Ne.symm hs.1, ih hs.2]

theorem splitFirst_eq_none_iff : splitFirst sep s = none ↔ sep ∉ s := by
  induction s with
  | nil => simp [splitFirst]
  | cons c s ih =>
    rw [splitFirst, List.mem_cons, not_or]
    split
    · next hc => simp [hc]
    · next hc => simp [ih, Ne.symm hc]

/-- What stands before the first separator does not hold one. -/
theorem notMem_of_splitFirst {front back : List Char}
    (h : splitFirst sep s = some (front, back)) : sep ∉ front := by
  induction s generalizing front with
  | nil => cases h
  | cons c s ih =>
    rw [splitFirst] at h
    split at h
    · cases h
      exact List.not_mem_nil
    · next hc =>
      obtain ⟨⟨front, back⟩, hsplit, heq⟩ := Option.map_eq_some_iff.mp h
      cases heq
      rw [List.mem_cons, not_or]
      exact ⟨Ne.symm hc, ih hsplit⟩

end Text

namespace Attach.Command

/-- What the three arguments of a request to load ask for. The instrumentation library is one of the
machine's own, so it is not named by a path. -/
def ofArguments (library isPath options : String) : Command :=
  if library = "instrument" ∧ isPath = "false" then
    match Text.splitFirst? '=' options with
    | some (jar, args) => .jarAgent jar args
    | none => .jarAgent options ""
  else .nativeAgent library options

/-- The version of a request and what it asks for. -/
def read? (request : Bytes) : Option (String × Command) :=
  match (request.splitOn 0).mapM Text.Utf8.decode? with
  | some [version, "load", library, isPath, options, ""] =>
    some (version, ofArguments library isPath options)
  | _ => none

/-- No zero character ends a part too early. -/
def Whole : Command → Prop
  | jarAgent path args | nativeAgent path args => '\x00' ∉ path.toList ∧ '\x00' ∉ args.toList

instance : DecidablePred Whole
  | jarAgent .. | nativeAgent .. => inferInstanceAs (Decidable (_ ∧ _))

/-- No equals sign ends the path of a jar too early. -/
def Plain : Command → Prop
  | jarAgent jar _ => '=' ∉ jar.toList
  | nativeAgent .. => True

instance : DecidablePred Plain
  | jarAgent .. => inferInstanceAs (Decidable (¬ _))
  | nativeAgent .. => .isTrue trivial

variable {c d : Command} {jar args : String}

theorem zero_notMem_encode {s : String} (h : '\x00' ∉ s.toList) : 0 ∉ Text.Utf8.encode s := by
  rw [Text.Utf8.encode, List.mem_flatMap]
  rintro ⟨c, hc, hmem⟩
  have hzero : c.toNat = '\x00'.toNat := Text.Utf8.mem_encodeChar (by decide) hmem
  exact h (Char.toNat_inj.mp hzero ▸ hc)

theorem Whole.parts (h : c.Whole) : ∀ part ∈ c.parts, '\x00' ∉ part.toList := by
  cases c with
  | jarAgent jar args =>
    have hoptions : '\x00' ∉ (if args = "" then jar else jar ++ "=" ++ args).toList := by
      split
      · exact h.1
      · simp [h.1, h.2]
    simp [Command.parts, loadArguments, protocolVersion, hoptions]
  | nativeAgent library args =>
    simp [Command.parts, loadArguments, protocolVersion, h.1, h.2]

/-- What ends in zero bytes is parted there, and nothing stands behind the last of them. -/
theorem splitOn_flatMap_concat {parts : List Bytes} (h : ∀ part ∈ parts, 0 ∉ part) :
    (parts.flatMap (· ++ [0])).splitOn 0 = parts ++ [[]] := by
  induction parts with
  | nil => rfl
  | cons part parts ih =>
    rw [List.forall_mem_cons] at h
    have hpart : ∀ b ∈ part, (b == 0) = false := fun b hb =>
      beq_eq_false_iff_ne.mpr fun hzero => h.1 (hzero ▸ hb)
    rw [List.flatMap_cons, List.append_assoc, List.singleton_append, List.splitOn,
      List.splitOnP_append_cons_of_forall_mem hpart 0 rfl, ← List.splitOn, ih h.2, List.cons_append]

theorem mapM_decode?_encode (texts : List String) :
    (texts.map Text.Utf8.encode).mapM Text.Utf8.decode? = some texts := by
  induction texts with
  | nil => rfl
  | cons text texts ih => simp [Text.Utf8.decode?_encode, ih]

/-- Whatever is asked for, its five parts are found. -/
theorem Whole.split (h : c.Whole) :
    (c.encode.splitOn 0).mapM Text.Utf8.decode? = some (c.parts ++ [""]) := by
  have hzero : ∀ part ∈ c.parts.map Text.Utf8.encode, 0 ∉ part :=
    List.forall_mem_map.mpr fun part hpart => zero_notMem_encode (h.parts part hpart)
  have hencode : c.encode = (c.parts.map Text.Utf8.encode).flatMap (· ++ [0]) := by
    rw [List.flatMap_map]
    rfl
  rw [hencode, splitOn_flatMap_concat hzero, ← mapM_decode?_encode, List.map_append]
  rfl

/-- A path never comes out with an equals sign in it. -/
theorem plain_ofArguments (library isPath options : String) :
    (ofArguments library isPath options).Plain := by
  unfold ofArguments
  split
  · split
    · next jar args h =>
      obtain ⟨⟨front, back⟩, hsplit, heq⟩ := Option.map_eq_some_iff.mp h
      cases heq
      simpa [Plain] using Text.notMem_of_splitFirst hsplit
    · next h => exact Text.splitFirst_eq_none_iff.mp (Option.map_eq_none_iff.mp h)
  · trivial

theorem ofArguments_jar (hjar : '=' ∉ jar.toList) (args : String) :
    ofArguments "instrument" "false" (if args = "" then jar else jar ++ "=" ++ args) =
      .jarAgent jar args := by
  rw [ofArguments, if_pos ⟨rfl, rfl⟩, Text.splitFirst?]
  split_ifs with hargs
  · rw [Text.splitFirst_eq_none_iff.mpr hjar, hargs]
    rfl
  · have hoptions : (jar ++ "=" ++ args).toList = jar.toList ++ '=' :: args.toList := by simp
    rw [hoptions, Text.splitFirst_append hjar]
    simp

/-- What a listener makes of a request. -/
theorem Whole.read?_encode (h : c.Whole) : ∃ library isPath options,
    c.loadArguments = [library, isPath, options] ∧
      read? c.encode = some (protocolVersion, ofArguments library isPath options) := by
  unfold read?
  rw [h.split]
  cases c <;> exact ⟨_, _, _, rfl, rfl⟩

theorem Whole.read?_encode_iff (h : c.Whole) :
    read? c.encode = some (protocolVersion, c) ↔ c.Plain := by
  obtain ⟨library, isPath, options, harguments, hread⟩ := h.read?_encode
  rw [hread, Option.some.injEq, Prod.mk.injEq, and_iff_right rfl]
  constructor
  · intro hc
    exact hc ▸ plain_ofArguments library isPath options
  · intro hplain
    cases c with
    | jarAgent jar args =>
      cases harguments
      exact ofArguments_jar hplain args
    | nativeAgent library args =>
      cases harguments
      exact if_neg fun h => absurd h.2 (by decide)

/-- The parts of a request are found in its bytes, and give it back unless they name a jar with an
equals sign in its path. So no two requests but such have the same bytes. -/
theorem understood_iff_plain (hc : c.Whole) (hd : d.Whole) :
    (c.encode.splitOn 0).mapM Text.Utf8.decode? = some (c.parts ++ [""]) ∧
      (read? c.encode = some ("1", c) ↔ c.Plain) ∧
      (c.Plain → d.Plain → c.encode = d.encode → c = d) := by
  refine ⟨hc.split, hc.read?_encode_iff, fun hcplain hdplain hsame => ?_⟩
  have hread := hc.read?_encode_iff.mpr hcplain
  rw [hsame, hd.read?_encode_iff.mpr hdplain] at hread
  exact (congrArg Prod.snd (Option.some.inj hread)).symm

/-- Arguments may hold equals signs, and a library may have the name of the machine's own. -/
theorem understood_equalsInArguments :
    let c : Command := .jarAgent "/tmp/agent.jar" "x=1"
    let d : Command := .nativeAgent "instrument" "a=b"
    c.Whole ∧ d.Whole ∧ read? c.encode = some ("1", c) ∧ (c.encode = d.encode → c = d) := by
  have hc : (Command.jarAgent "/tmp/agent.jar" "x=1").Whole := by decide
  have hd : (Command.nativeAgent "instrument" "a=b").Whole := by decide
  obtain ⟨-, hread, hsame⟩ := understood_iff_plain hc hd
  exact ⟨hc, hd, hread.mpr (by decide), hsame (by decide) (by decide)⟩

/-- The jar `a=b` is taken for the jar `a`. -/
theorem equals_in_path_misread :
    let c : Command := .jarAgent "a=b" ""
    let d : Command := .jarAgent "a" "b"
    c.Whole ∧ d.Whole ∧ c ≠ d ∧ c.encode = d.encode ∧ read? c.encode = some ("1", d) := by
  have hd : (Command.jarAgent "a" "b").Whole := by decide
  have hsame : Command.encode (.jarAgent "a=b" "") = Command.encode (.jarAgent "a" "b") := rfl
  exact ⟨by decide, hd, by decide, hsame, hsame ▸ hd.read?_encode_iff.mpr (by decide)⟩

end Attach.Command

end ClassRecovery
