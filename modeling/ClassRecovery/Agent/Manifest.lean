import ClassRecovery.Text.Utf8

/-!
The manifest of an agent jar. A line holds at most 72 bytes, so a longer attribute goes on in
further lines, each marked by a leading space; a character is never cut.
-/

namespace ClassRecovery.Agent.Manifest

def lineLimit : Nat := 72

def byteLength (c : Char) : Nat := (Text.Utf8.encodeChar c).length

/-- The characters that fit into `room` bytes, and the rest. -/
def cut (room : Nat) : List Char → List Char × List Char
  | [] => ([], [])
  | c :: rest =>
    if byteLength c ≤ room then
      let (front, back) := cut (room - byteLength c) rest
      (c :: front, back)
    else ([], c :: rest)

theorem byteLength_le_four (c : Char) : byteLength c ≤ 4 := by
  unfold byteLength Text.Utf8.encodeChar Text.Utf8.encodeScalar
  split
  · simp
  · split
    · simp
    · split <;> simp

theorem cut_append (room : Nat) (s : List Char) : (cut room s).1 ++ (cut room s).2 = s := by
  induction s generalizing room with
  | nil => rfl
  | cons c rest ih =>
    simp only [cut]
    split
    · simp [ih]
    · rfl

theorem length_cut_lt {room : Nat} (h : 4 ≤ room) (c : Char) (rest : List Char) :
    (cut room (c :: rest)).2.length < (c :: rest).length := by
  have hc := byteLength_le_four c
  have := congrArg List.length (cut_append (room - byteLength c) rest)
  simp only [cut, Nat.le_trans hc h, ↓reduceIte, List.length_cons]
  simp only [List.length_append] at this
  omega

/-- The continuation lines: the space that marks one takes a byte of its room. -/
def continuation (s : List Char) : List (List Char) :=
  match s with
  | [] => []
  | c :: rest =>
    (cut (lineLimit - 1) (c :: rest)).1 :: continuation (cut (lineLimit - 1) (c :: rest)).2
termination_by s.length
decreasing_by exact length_cut_lt (show 4 ≤ lineLimit - 1 by decide) c rest

def fieldLines (name value : String) : List (List Char) :=
  let (front, back) := cut lineLimit (name ++ ": " ++ value).toList
  front :: (continuation back).map (' ' :: ·)

def field (name value : String) : String :=
  String.join ((fieldLines name value).map fun line => .ofList line ++ "\r\n")

def agentAttributes (agentClass : String) : List (String × String) :=
  [("Manifest-Version", "1.0"),
    ("Created-By", "jvmti-classbytes 0.3.0"),
    ("Agent-Class", agentClass),
    ("Premain-Class", agentClass),
    ("Can-Retransform-Classes", "true"),
    ("Can-Redefine-Classes", "true")]

/-- An empty line ends the manifest. -/
def render (agentClass : String) (extra : List (String × String)) : String :=
  String.join ((agentAttributes agentClass ++ extra).map fun (name, value) =>
    field name value) ++ "\r\n"

end ClassRecovery.Agent.Manifest
