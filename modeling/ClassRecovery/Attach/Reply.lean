import ClassRecovery.Error
import ClassRecovery.Text.Basic
import ClassRecovery.Text.Decimal

/-!
What a virtual machine answers to an attach request: a status, then what the agent returned, then
words for people. Older machines leave the label in front of the return code out.
-/

namespace ClassRecovery.Attach.Reply

inductive Fault
  | empty
  | unexpected (reply : String)
  | refused (status : Int) (words : String)
  | agentFailed (code : Int) (words : String)
  deriving DecidableEq, Repr

def Fault.message : Fault → String
  | empty => "empty reply from attach listener"
  | unexpected reply => "unexpected attach reply: " ++ Text.quoted reply
  | refused status words => s!"status {status}: {words}"
  | agentFailed code words => s!"agent failed to initialize (return code {code}): {words}"

def Fault.error (fault : Fault) : Error := .attach fault.message

def readStatus? (s : String) : Option Int :=
  (Text.readDecimal .signed32 s).toOption

def label : List Char := "return code:".toList

def returnCode? (line : String) : Option Int :=
  let line := Text.trimChars line.toList
  let code := if label.isPrefixOf line then line.drop label.length else line
  readStatus? (.ofList (Text.trimChars code))

def words (lines : List String) : String := Text.trim (" ".intercalate lines)

/-- A second line that holds no number is part of the words, and then only the status counts. -/
def parse (reply : String) : Except Fault Unit :=
  match Text.lines reply with
  | [] => .error .empty
  | first :: rest =>
    match readStatus? (Text.trim first) with
    | none => .error (.unexpected reply)
    | some status =>
      if status ≠ 0 then .error (.refused status (words rest))
      else
        match rest with
        | [] => .ok ()
        | line :: rest =>
          match returnCode? line with
          | none => .ok ()
          | some code => if code ≠ 0 then .error (.agentFailed code (words rest)) else .ok ()

end ClassRecovery.Attach.Reply
