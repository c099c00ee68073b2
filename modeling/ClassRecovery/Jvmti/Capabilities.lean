/-!
Capabilities of a tool environment: one bit each, in four words of 32 bits. Named here are the four
that have to do with changing classes.
-/

namespace ClassRecovery.Jvmti

/-- Four words; the bit of capability `n` is bit `n % 32` of word `n / 32`. -/
structure Capabilities where
  words : Vector UInt32 4 := Vector.replicate 4 0
  deriving DecidableEq, Repr

/-- The capabilities that matter for changing classes. -/
inductive Capability
  | redefine
  | redefineAny
  | retransform
  | retransformAny
  deriving DecidableEq, Repr

namespace Capability

def all : List Capability := [redefine, redefineAny, retransform, retransformAny]

def bit : Capability → Fin 128
  | redefine => 9
  | redefineAny => 21
  | retransform => 37
  | retransformAny => 38

def name : Capability → String
  | redefine => "redefine"
  | redefineAny => "redefine_any"
  | retransform => "retransform"
  | retransformAny => "retransform_any"

end Capability

namespace Capabilities

def mask (n : Fin 128) : UInt32 := 1 <<< UInt32.ofNat (n.val % 32)

def word (n : Fin 128) : Fin 4 := ⟨n.val / 32, by omega⟩

def set (caps : Capabilities) (c : Capability) (on : Bool) : Capabilities :=
  let i := word c.bit
  let w := caps.words[i]
  ⟨caps.words.set i (if on then w ||| mask c.bit else w &&& ~~~ mask c.bit)⟩

def has (caps : Capabilities) (c : Capability) : Bool :=
  caps.words[word c.bit] &&& mask c.bit != 0

def toList (caps : Capabilities) : List Capability := Capability.all.filter caps.has

def ofList (cs : List Capability) : Capabilities :=
  cs.foldl (fun caps c => caps.set c true) {}

def describe (caps : Capabilities) : String :=
  "jvmtiCapabilities \x7b bits: [" ++
    ", ".intercalate (caps.words.toList.map fun w => toString w.toNat) ++ "] \x7d"

end Capabilities

end ClassRecovery.Jvmti
