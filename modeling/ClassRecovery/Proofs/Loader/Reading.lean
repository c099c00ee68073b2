import ClassRecovery.Loader.Access
import ClassRecovery.Proofs.Jvm.Classes

/-!
What reading archives leaves alone: jars are opened on the way, and everything else stays.
-/

namespace ClassRecovery

variable {ε α : Type}

/-- The world but for the jars that are open. -/
def World.besideJars (w : World) : World := { w with jars := {} }

namespace ClassRoot

theorem withFiles_besideJars (f : FileSystem → Except ε α) :
    Keeps World.besideJars (World.withFiles f) := by
  refine .attempt .get fun w => ?_
  split
  · exact .ok _
  · exact .throw _

theorem readFile_besideJars (path : String) : Keeps World.besideJars (readFile path) := by
  refine .attempt .get fun w => ?_
  split
  · exact .ok _
  · split
    · exact .ok _
    · exact .throw _

theorem openJar_besideJars (loader index : Nat) (path : String) :
    Keeps World.besideJars (openJar loader index path) := by
  refine .attempt .get fun w => ?_
  split
  · exact .ok _
  · refine .attempt (withFiles_besideJars _) fun node =>
      .attempt (withFiles_besideJars _) fun bytes => ?_
    split
    · exact .throw _
    · exact .attempt (.lift (.modify fun _ => rfl)) fun _ => .ok _

theorem readResource_besideJars (loader index : Nat) (root : ClassRoot) (resource : String) :
    Keeps World.besideJars (root.readResource loader index resource) := by
  cases root with
  | directory path => exact readFile_besideJars _
  | jar path =>
    refine .attempt (openJar_besideJars loader index path) fun opened => ?_
    split
    · exact .ok _
    · refine .attempt (withFiles_besideJars _) fun data => ?_
      split
      · exact .ok _
      · exact .throw _

theorem listPackage_besideJars (loader index : Nat) (root : ClassRoot) (package : String) :
    Keeps World.besideJars (root.listPackage loader index package) := by
  cases root with
  | directory path =>
    refine .attempt .get fun w => ?_
    split
    · exact .ok _
    · split
      · exact .ok _
      · exact .throw _
  | jar path => exact .attempt (openJar_besideJars loader index path) fun opened => .ok _

end ClassRoot

namespace Loader

theorem readOwn_besideJars (id : Nat) (roots : List ClassRoot) (resource : String) :
    Keeps World.besideJars (readOwn id roots resource) := by
  unfold readOwn
  induction roots.zipIdx with
  | nil => exact .ok none
  | cons root rest ih =>
    refine .attempt (root.1.readResource_besideJars id root.2 resource) fun found => ?_
    cases found with
    | some bytes => exact .ok _
    | none => exact ih

theorem define_besideJars (self : Loader) (roots : List ClassRoot) (name : String) :
    Keeps World.besideJars (self.define roots name) := by
  unfold define
  split
  · exact .ok _
  refine .attempt (readOwn_besideJars self.id roots _).mapFailure fun file => ?_
  split
  · exact .ok _
  · split
    · exact .throw _
    · split <;> exact .ok _

theorem memberNames_besideJars (id : Nat) (roots : List ClassRoot) (outer : String) :
    Keeps World.besideJars (memberNames id roots outer) := by
  unfold memberNames
  refine .attempt (.mapM (fun root => ?_) _) fun stems => .ok _
  obtain ⟨root, index⟩ := root
  exact root.listPackage_besideJars id index _

end Loader

end ClassRecovery
