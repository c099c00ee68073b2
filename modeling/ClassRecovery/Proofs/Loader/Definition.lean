import Mathlib
import ClassRecovery.Collector.Classpath

/-!
Defining a class against collecting its bytes, through loaders of archives. A loader that defined a
class has the file for it, and a read that came out once comes out the same later. But the name of a
class and the name of its file are not checked together: a file above that defines another class is
passed over when the class is defined, and is what is read when the class is collected.
-/

namespace ClassRecovery

/-- The files are the same and every archive that was open still is. -/
structure World.Later (w w' : World) : Prop where
  files : w'.files = w.files
  jars : ∀ key opened, w.jars.get? key = some opened → w'.jars.get? key = some opened

variable {ε δ α β : Type}

theorem World.Later.refl (w : World) : w.Later w := ⟨rfl, fun _ _ h => h⟩

theorem World.Later.trans {w₁ w₂ w₃ : World} (h : w₁.Later w₂) (h' : w₂.Later w₃) : w₁.Later w₃ :=
  ⟨h'.files.trans h.files, fun key opened hw => h'.jars key opened (h.jars key opened hw)⟩

theorem World.withFiles_apply (f : FileSystem → Except ε α) (w : World) :
    World.withFiles f w = (f w.files, w) := by
  unfold World.withFiles
  rw [Attempt.get_bind]
  cases f w.files <;> rfl

/-- What came out once comes out again later, and then nothing changes. -/
def Repeats (a : Attempt ε α) : Prop :=
  ∀ w, w.Later (a w).2 ∧ ∀ x, (a w).1 = .ok x → ∀ w', (a w).2.Later w' → a w' = (.ok x, w')

namespace Repeats

theorem later {a : Attempt ε α} {r : Except ε α} {w w' : World} (h : Repeats a)
    (hrun : a w = (r, w')) : w.Later w' := by
  have hlater := (h w).1
  rwa [hrun] at hlater

theorem again {a : Attempt ε α} {x : α} {w w' w'' : World} (h : Repeats a)
    (hrun : a w = (.ok x, w')) (hw : w'.Later w'') : a w'' = (.ok x, w'') := by
  have hagain := (h w).2
  rw [hrun] at hagain
  exact hagain x rfl w'' hw

theorem pure (x : α) : Repeats (pure x : Attempt ε α) := by
  refine fun w => ⟨.refl w, fun y hy w' _ => ?_⟩
  cases hy
  rfl

theorem throw (e : ε) : Repeats (throw e : Attempt ε α) :=
  fun w => ⟨.refl w, fun _ hy => by cases hy⟩

theorem bind {a : Attempt ε α} {f : α → Attempt ε β} (ha : Repeats a) (hf : ∀ x, Repeats (f x)) :
    Repeats (a >>= f) := by
  intro w
  obtain ⟨hlater, hagain⟩ := ha w
  rw [bind_apply]
  rcases hrun : a w with ⟨e | x, w₁⟩
  · rw [hrun] at hlater
    exact ⟨hlater, fun _ hy => by cases hy⟩
  · rw [hrun] at hlater hagain
    obtain ⟨hlater', hagain'⟩ := hf x w₁
    refine ⟨hlater.trans hlater', fun y hy w' hw' => ?_⟩
    rw [bind_apply, hagain x rfl w' (hlater'.trans hw')]
    exact hagain' y hy w' hw'

theorem mapFailure {f : ε → δ} {a : Attempt ε α} (ha : Repeats a) :
    Repeats (mapFailure f a) := by
  intro w
  obtain ⟨hlater, hagain⟩ := ha w
  unfold ClassRecovery.mapFailure
  rcases hrun : a w with ⟨e | x, w₁⟩
  · rw [hrun] at hlater
    exact ⟨hlater, fun _ hy => by cases hy⟩
  · rw [hrun] at hlater hagain
    refine ⟨hlater, fun y hy w' hw' => ?_⟩
    cases hy
    simp only [hagain x rfl w' hw']

/-- What only looks at the files. -/
theorem ofFiles {a : Attempt ε α} {f : FileSystem → Except ε α}
    (h : ∀ w, a w = (f w.files, w)) : Repeats a := by
  intro w
  rw [h]
  refine ⟨.refl w, fun x hx w' hw' => ?_⟩
  rw [h, hw'.files]
  exact Prod.ext hx rfl

theorem withFiles (f : FileSystem → Except ε α) : Repeats (World.withFiles f) :=
  ofFiles (World.withFiles_apply f)

end Repeats

namespace ClassRoot

theorem readFile_onFiles (path : String) :
    ∃ f : FileSystem → Except IoError (Option Bytes), ∀ w, readFile path w = (f w.files, w) := by
  refine ⟨fun files => ((files.read path).map some).tryCatch fun e =>
    if e.kind = .notFound then .ok none else .error e, fun w => ?_⟩
  unfold readFile
  rw [Attempt.get_bind]
  beta_reduce
  cases w.files.read path with
  | ok bytes => rfl
  | error e =>
    by_cases he : e.kind = .notFound <;>
      simp only [Except.map, Except.tryCatch, he, ↓reduceIte] <;> rfl

theorem readFile_repeats (path : String) : Repeats (readFile path) :=
  have ⟨_, h⟩ := readFile_onFiles path
  .ofFiles h

theorem openJar_of_open {loader index : Nat} {path : String} {w : World} {opened : OpenJar}
    (h : w.jars.get? (loader, index) = some opened) :
    openJar loader index path w = (.ok opened, w) := by
  unfold openJar
  rw [Attempt.get_bind, h]
  rfl

/-- An archive that is opened stays open. -/
theorem openJar_of_closed {loader index : Nat} (path : String) {w : World}
    (h : w.jars.get? (loader, index) = none) :
    (∃ e, openJar loader index path w = (.error e, w)) ∨
      ∃ opened, openJar loader index path w =
        (.ok opened, { w with jars := w.jars.put (loader, index) opened }) := by
  unfold openJar
  rw [Attempt.get_bind, h]
  simp only [bind_apply, World.withFiles_apply]
  cases w.files.openFile path with
  | error e => exact .inl ⟨e, rfl⟩
  | ok node =>
    simp only
    cases w.files.readOpen node with
    | error e => exact .inl ⟨e, rfl⟩
    | ok bytes =>
      simp only
      cases Archive.Directory.read bytes.toArray with
      | error fault => exact .inl ⟨_, rfl⟩
      | ok listing => exact .inr ⟨⟨node, listing⟩, rfl⟩

theorem openJar_repeats (loader index : Nat) (path : String) :
    Repeats (openJar loader index path) := by
  intro w
  cases hjar : w.jars.get? (loader, index) with
  | some opened =>
    rw [openJar_of_open hjar]
    refine ⟨.refl w, fun x hx w' hw' => ?_⟩
    cases hx
    exact openJar_of_open (hw'.jars _ _ hjar)
  | none =>
    rcases openJar_of_closed path hjar with ⟨e, hrun⟩ | ⟨opened, hrun⟩
    · rw [hrun]
      exact ⟨.refl w, fun _ hx => by cases hx⟩
    · rw [hrun]
      refine ⟨⟨rfl, fun key o ho => ?_⟩, fun x hx w' hw' => ?_⟩
      · have hne : key ≠ (loader, index) := fun he => by simp [he, hjar] at ho
        rw [Table.get?_put, if_neg hne, ho]
      · cases hx
        exact openJar_of_open (hw'.jars _ _ (by rw [Table.get?_put, if_pos rfl]))

theorem readResource_repeats (loader index : Nat) (root : ClassRoot) (resource : String) :
    Repeats (root.readResource loader index resource) := by
  cases root with
  | directory path => exact readFile_repeats _
  | jar path =>
    refine (openJar_repeats loader index path).bind fun opened => ?_
    cases opened.directory.find? resource with
    | none => exact .pure none
    | some entry =>
      refine (Repeats.withFiles _).bind fun data => ?_
      cases Archive.readContent data.toArray entry with
      | ok bytes => exact .pure (some bytes)
      | error e => exact .throw e

end ClassRoot

namespace Loader

theorem readRoots_repeats (id : Nat) (resource : String) (roots : List (ClassRoot × Nat)) :
    Repeats (readRoots id resource roots) := by
  induction roots with
  | nil => exact .pure none
  | cons root rest ih =>
    obtain ⟨root, index⟩ := root
    refine (root.readResource_repeats id index resource).bind fun found => ?_
    cases found with
    | some bytes => exact .pure (some bytes)
    | none => exact ih

theorem readOwn_repeats (id : Nat) (roots : List ClassRoot) (resource : String) :
    Repeats (readOwn id roots resource) :=
  readRoots_repeats id resource roots.zipIdx

/-- A loader of archives whose parents are loaders of archives. -/
def IsArchives : Loader → Prop
  | archive _ _ => True
  | child _ _ parent => parent.IsArchives
  | _ => False

theorem readResource_repeats {l : Loader} (hl : l.IsArchives) (path : String) :
    Repeats (l.readResource path) := by
  induction l with
  | archive id roots => exact readOwn_repeats id roots path
  | child id roots parent ih =>
    refine (ih hl).bind fun found => ?_
    cases found with
    | some bytes => exact .pure (some bytes)
    | none => exact readOwn_repeats id roots path
  | given => cases hl
  | object => cases hl

/-- What the parent of a loader has. -/
def inherited (path : String) : Loader → Attempt IoError (Option Bytes)
  | child _ _ parent => parent.readResource path
  | _ => return none

/-- The class was defined by its loader at this point, from the file that the loader has itself. -/
structure DefinedFrom (owner : Loader) (c : ClassRef) (b : Bytes) (w w' : World) : Prop where
  define : owner.define owner.ownRoots c.name w = (.ok (some c), w')
  read : readOwn owner.id owner.ownRoots (ClassName.resourcePath c.name) w = (.ok (some b), w')
  loader : c.loader = some owner
  named : ClassFile.definedName .qualified b = .ok c.name

theorem slash_notMem_definedName {b : Bytes} {name : String}
    (h : ClassFile.definedName .qualified b = .ok name) : '/' ∉ name.toList := by
  unfold ClassFile.definedName at h
  obtain ⟨⟨pool, c⟩, -, h⟩ := bind_eq_ok_iff.mp h
  obtain ⟨⟨_, c⟩, -, h⟩ := bind_eq_ok_iff.mp h
  obtain ⟨⟨slot, c⟩, -, h⟩ := bind_eq_ok_iff.mp h
  dsimp only at h
  split at h
  · cases h
    rw [ClassName.render, ClassName.toQualified, String.toList_map, List.mem_map]
    rintro ⟨x, -, hx⟩
    split at hx
    · exact absurd hx (by decide)
    · next hne => exact hne hx
  · cases h

/-- A file of another class. -/
def DefinesOther (name : String) (b : Bytes) : Prop :=
  ∃ other, ClassFile.definedName .qualified b = .ok other ∧ other ≠ name

variable {self l : Loader} {roots : List ClassRoot} {name : String} {c : ClassRef} {w w' : World}

theorem readResource_eq (hself : self.IsArchives) (path : String) :
    self.readResource path = (do
      match ← self.inherited path with
      | some bytes => return some bytes
      | none => readOwn self.id self.ownRoots path) := by
  cases self with
  | archive => rfl
  | child => rfl
  | given => cases hself
  | object => cases hself

/-- What a loader finds for a name, by the file it has. -/
theorem define_ok {found : Option ClassRef} (hname : name.toList.head? ≠ some '[')
    (h : self.define roots name w = (.ok found, w')) :
    ∃ file, readOwn self.id roots (ClassName.resourcePath name) w = (.ok file, w') ∧
      ((found = none ∧ ∀ b, file = some b → DefinesOther name b) ∨
        ∃ b, file = some b ∧ ClassFile.definedName .qualified b = .ok name ∧
          found = some ⟨name, ClassKind.ofName name, some self, .archive⟩) := by
  unfold define at h
  rw [if_neg hname, bind_apply, mapFailure] at h
  rcases hread : readOwn self.id roots (ClassName.resourcePath name) w with ⟨e | _ | b, w₁⟩ <;>
    simp only [hread] at h
  · cases h
  · cases h
    exact ⟨none, rfl, .inl ⟨rfl, fun b hb => by cases hb⟩⟩
  · cases hb : ClassFile.definedName .qualified b with
    | error m =>
      rw [hb] at h
      cases h
    | ok defined =>
      simp only [hb] at h
      by_cases hd : defined = name
      · rw [if_pos hd] at h
        cases h
        exact ⟨some b, rfl, .inr ⟨b, rfl, hd ▸ hb, rfl⟩⟩
      · rw [if_neg hd] at h
        cases h
        refine ⟨some b, rfl, .inl ⟨rfl, fun b' hb' => ?_⟩⟩
        cases hb'
        exact ⟨defined, hb, hd⟩

theorem define_some (h : self.define self.ownRoots name w = (.ok (some c), w')) :
    c.name = name ∧ name.toList.head? ≠ some '[' ∧ ∃ b, self.DefinedFrom c b w w' := by
  have hname : name.toList.head? ≠ some '[' := by
    intro hname
    unfold define at h
    rw [if_pos hname] at h
    cases h
  obtain ⟨file, hread, ⟨hnone, -⟩ | ⟨b, rfl, hb, hc⟩⟩ := define_ok hname h
  · cases hnone
  · cases hc
    exact ⟨rfl, hname, b, h, hread, rfl, hb⟩

theorem define_repeats (self : Loader) (roots : List ClassRoot) (name : String) :
    Repeats (self.define roots name) := by
  unfold define
  by_cases hname : name.toList.head? = some '['
  · rw [if_pos hname]
    exact .pure none
  · rw [if_neg hname]
    refine (readOwn_repeats self.id roots _).mapFailure.bind fun file => ?_
    rcases file with _ | b
    · exact .pure none
    · simp only
      cases ClassFile.definedName .qualified b with
      | error m => exact .throw _
      | ok defined =>
        by_cases hd : defined = name
        · simp only [hd, ↓reduceIte]
          exact .pure _
        · simp only [hd, ↓reduceIte]
          exact .pure none

/-- Loading later comes to what it comes to now. -/
theorem load_repeats (hl : l.IsArchives) (name : String) : Repeats (l.load name) := by
  induction l with
  | archive id roots => exact define_repeats _ roots name
  | child id roots parent ih =>
    refine (ih hl).bind fun found => ?_
    cases found with
    | some c => exact .pure (some c)
    | none => exact define_repeats _ roots name
  | given => cases hl
  | object => cases hl

/-- The parent found the class, or found none and left it to the loader itself. -/
theorem load_child {id : Nat} {parent : Loader} {found : Option ClassRef}
    (h : (child id roots parent).load name w = (.ok found, w')) :
    (∃ c, found = some c ∧ parent.load name w = (.ok (some c), w')) ∨
      ∃ w₁, parent.load name w = (.ok none, w₁) ∧
        (child id roots parent).define roots name w₁ = (.ok found, w') := by
  rw [load, bind_apply] at h
  rcases hrun : parent.load name w with ⟨e | _ | c, w₁⟩ <;> simp only [hrun] at h
  · cases h
  · exact .inr ⟨w₁, rfl, h⟩
  · cases h
    exact .inl ⟨c, rfl, rfl⟩

theorem define_none (hname : name.toList.head? ≠ some '[')
    (h : self.define roots name w = (.ok none, w')) :
    ∃ file, (∀ b, file = some b → DefinesOther name b) ∧ ∀ w'', w'.Later w'' →
      readOwn self.id roots (ClassName.resourcePath name) w'' = (.ok file, w'') := by
  obtain ⟨file, hread, ⟨-, hother⟩ | ⟨b, -, -, hsome⟩⟩ := define_ok hname h
  · exact ⟨file, hother, fun w'' => (readOwn_repeats _ _ _).again hread⟩
  · cases hsome

/-- Where no class was found there is no file, or one of another class. -/
theorem load_none (hl : l.IsArchives) (hname : name.toList.head? ≠ some '[')
    (h : l.load name w = (.ok none, w')) :
    ∃ file, (∀ b, file = some b → DefinesOther name b) ∧ ∀ w'', w'.Later w'' →
      l.readResource (ClassName.resourcePath name) w'' = (.ok file, w'') := by
  induction l generalizing w w' with
  | archive id roots => exact define_none hname h
  | child id roots parent ih =>
    rcases load_child h with ⟨c, hsome, -⟩ | ⟨w₁, hparent, hself⟩
    · cases hsome
    · obtain ⟨above, hother, habove⟩ := ih hl hparent
      have hlater : w₁.Later w' := (define_repeats _ roots name).later hself
      cases above with
      | some b =>
        refine ⟨some b, hother, fun w'' hw'' => ?_⟩
        rw [readResource, bind_apply, habove w'' (hlater.trans hw'')]
        rfl
      | none =>
        obtain ⟨file, hother, hfile⟩ := define_none hname hself
        refine ⟨file, hother, fun w'' hw'' => ?_⟩
        rw [readResource, bind_apply, habove w'' (hlater.trans hw'')]
        exact hfile w'' hw''
  | given => cases hl
  | object => cases hl

theorem collect_eq {settings : CollectorOptions} {boot : Loader} (hself : self.IsArchives)
    (hc : c.loader = some self) {above : Option Bytes} {b : Bytes}
    (habove : self.inherited (ClassName.resourcePath c.name) w = (.ok above, w))
    (hown : readOwn self.id self.ownRoots (ClassName.resourcePath c.name) w = (.ok (some b), w)) :
    (Collector.classpath settings boot).collect c w = (.ok (some (above.getD b)), w) := by
  change mapFailure _ ((c.loader.getD boot).readResource _) w = _
  rw [hc, Option.getD_some, readResource_eq hself, mapFailure, bind_apply, habove]
  cases above with
  | some a => rfl
  | none => simp only [hown, Option.getD_none]

/-- The class that is found bears the name that was asked for, and its loader has the file for it.
What is collected for it later is that file, unless the loader's parent has a file in its place:
that file was there already, is one of another class, and is collected. -/
theorem load_then_collect (hl : l.IsArchives) (h : l.load name w = (.ok (some c), w')) :
    c.name = name ∧ ∃ (self : Loader) (defining : Bytes) (above : Option Bytes) (w₁ : World),
      self.DefinedFrom c defining w₁ w' ∧
      (∀ b, above = some b → DefinesOther name b) ∧ ∀ w'', w'.Later w'' →
        self.inherited (ClassName.resourcePath name) w'' = (.ok above, w'') ∧
        ∀ settings boot, (Collector.classpath settings boot).collect c w'' =
          (.ok (some (above.getD defining)), w'') := by
  have hkept : ∀ {self : Loader} {defining : Bytes} {w₁ w'' : World},
      self.DefinedFrom c defining w₁ w' → w'.Later w'' → readOwn self.id self.ownRoots
        (ClassName.resourcePath c.name) w'' = (.ok (some defining), w'') :=
    fun hdefined => (readOwn_repeats _ _ _).again hdefined.read
  induction l generalizing w with
  | archive id roots =>
    obtain ⟨rfl, -, b, hdefined⟩ := define_some h
    refine ⟨rfl, _, b, none, w, hdefined, fun _ hb => (by cases hb), fun w'' hw'' => ⟨rfl, ?_⟩⟩
    exact fun settings boot => collect_eq hl hdefined.loader rfl (hkept hdefined hw'')
  | child id roots parent ih =>
    rcases load_child h with ⟨c', hc, hparent⟩ | ⟨w₁, hparent, hself⟩
    · cases hc
      exact ih hl hparent
    · obtain ⟨rfl, hname, b, hdefined⟩ := define_some hself
      obtain ⟨above, hother, habove⟩ := load_none (l := parent) hl hname hparent
      have hlater : w₁.Later w' := (define_repeats _ roots c.name).later hself
      refine ⟨rfl, _, b, above, w₁, hdefined, hother, fun w'' hw'' => ?_⟩
      have habove'' := habove w'' (hlater.trans hw'')
      exact ⟨habove'', fun settings boot =>
        collect_eq hl hdefined.loader habove'' (hkept hdefined hw'')⟩
  | given => cases hl
  | object => cases hl

section Levels

/-- A class file that does nothing but define the class of a name of one letter. -/
def oneLetterClass (letter : UInt8) : Bytes :=
  [0xCA, 0xFE, 0xBA, 0xBE, 0, 0, 0, 0x34, 0, 3, 1, 0, 1, letter, 7, 0, 1, 0, 0, 0, 2]

/-- Two directories, the lower of which has the class `B`. -/
def twoLevels (above : List (String × Nat)) : World where
  files :=
    { nodes := #[
        ⟨.directory [("above", 1), ("below", 2)], 0o755⟩,
        ⟨.directory above, 0o755⟩,
        ⟨.directory [("B.class", 4)], 0o755⟩,
        ⟨.file (oneLetterClass 0x43), 0o644⟩,
        ⟨.file (oneLetterClass 0x42), 0o644⟩]
      working := [("", 0)] }

def upper : Loader := archive 1 [.directory "/above"]

def lower : Loader := child 2 [.directory "/below"] upper

def lowerClass : ClassRef := ⟨"B", .topLevel, some lower, .archive⟩


theorem load_lower (above : List (String × Nat)) (h : above = [] ∨ above = [("B.class", 3)]) :
    (lower.load "B" (twoLevels above)).1 = .ok (some lowerClass) := by
  rcases h with rfl | rfl <;> decide +kernel

theorem load_then_collect_lower :
    ∃ b w', lower.load "B" (twoLevels []) = (.ok (some lowerClass), w') ∧
      (∃ w₁, lower.DefinedFrom lowerClass b w₁ w') ∧
      (Collector.classpath Collector.classpathDefault upper).collect lowerClass w' =
        (.ok (some b), w') := by
  have hload : lower.load "B" (twoLevels []) =
      (.ok (some lowerClass), (lower.load "B" (twoLevels [])).2) :=
    Prod.ext (load_lower [] (.inl rfl)) rfl
  obtain ⟨-, self, b, above, w₁, hdefined, -, hlater⟩ := load_then_collect (by trivial) hload
  obtain ⟨habove, hcollect⟩ := hlater _ (.refl _)
  obtain rfl : lower = self := Option.some_inj.mp hdefined.loader
  have hnone : (lower.inherited (ClassName.resourcePath "B") (lower.load "B" (twoLevels [])).2).1 =
      .ok none := by decide +kernel
  rw [habove] at hnone
  cases hnone
  exact ⟨b, _, hload, ⟨w₁, hdefined⟩, hcollect Collector.classpathDefault upper⟩

/-- A file in the place of the one that defined the class is collected for it. -/
theorem collected_is_not_defining :
    ¬ ∀ (l : Loader) (name : String) (c : ClassRef) (w w' : World), l.IsArchives →
      l.load name w = (.ok (some c), w') → ∀ settings boot,
        ∃ b, ((Collector.classpath settings boot).collect c w').1 = .ok (some b) ∧
          ClassFile.definedName .qualified b = .ok name := by
  intro hclaim
  obtain ⟨b, hb, hname⟩ := hclaim lower "B" lowerClass (twoLevels [("B.class", 3)]) _ trivial
    (Prod.ext (load_lower _ (.inr rfl)) rfl) Collector.classpathDefault upper
  have hcollected : ((Collector.classpath Collector.classpathDefault upper).collect lowerClass
      (lower.load "B" (twoLevels [("B.class", 3)])).2).1 = .ok (some (oneLetterClass 0x43)) := by
    decide +kernel
  rw [hcollected] at hb
  cases hb
  revert hname
  decide +kernel

end Levels

end Loader

end ClassRecovery
