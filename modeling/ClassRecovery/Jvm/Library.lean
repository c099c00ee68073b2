import ClassRecovery.FileSystem
import ClassRecovery.Options

/-!
Where the library of a virtual machine may be found.
-/

namespace ClassRecovery.Jvm

structure Environment where
  libraryPath : Option String := none
  home : Option String := none
  deriving DecidableEq, Repr

/-- What a shared library says when it is asked for running machines. -/
inductive LibraryKind
  | silent
  | noMachine
  | fails
  /-- It names a machine that is none. -/
  | nullMachine
  | machine
  deriving DecidableEq, Repr

def libraryName : String := "libjvm.so"

def architecture : String := "x86_64"

def homeCandidates (home : String) : List String :=
  ["lib/server/", "jre/lib/server/", "lib/" ++ architecture ++ "/server/",
    "jre/lib/" ++ architecture ++ "/server/", "bin/server/"].map fun place =>
      Path.join home (place ++ libraryName)

/-- The option goes first; it names the library itself or an installation. -/
def libraryCandidates (fs : FileSystem) (o : Options) (e : Environment) : List String :=
  let tools := match o.toolsPath with
    | none => []
    | some tools => if fs.isFile tools then [tools] else homeCandidates tools
  tools ++ e.libraryPath.toList ++ (e.home.map homeCandidates).getD []

def noMachine : Error :=
  .attach <| "no running JavaVM found; set tools.path, JVM_LIB_PATH or JAVA_HOME to locate " ++
    libraryName

end ClassRecovery.Jvm
