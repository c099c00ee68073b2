import ClassRecovery.Proofs.Loader.Identity
import ClassRecovery.Proofs.Loader.Serving

/-!
Asking the parent first, as one search. Of a chain of loaders the outermost parent is asked first,
and a loader asks its roots in order. So a resource is looked up in the roots of all levels, one
after the other, and a class in one level after the other, each of which has one file for it.
-/

namespace ClassRecovery

variable {ε δ α β : Type}

/-! ### The first answer of several -/

def isAbsence : Except ε (Option α) → Bool
  | .ok none => true
  | _ => false

/-- The first of the answers that is more than absence; absence where there is none. -/
def firstAnswer (answers : List (Except ε (Option α))) : Except ε (Option α) :=
  (answers.find? fun r => !isAbsence r).getD (.ok none)

/-- Makes one attempt after the other until one finds something or fails. -/
def askInTurn : List (Attempt ε (Option α)) → Attempt ε (Option α)
  | [] => return none
  | a :: rest => do
    match ← a with
    | some x => return some x
    | none => askInTurn rest

@[simp] theorem firstAnswer_absent (answers : List (Except ε (Option α))) :
    firstAnswer (.ok none :: answers) = firstAnswer answers := rfl

@[simp] theorem firstAnswer_found (x : α) (answers : List (Except ε (Option α))) :
    firstAnswer (.ok (some x) :: answers) = .ok (some x) := rfl

@[simp] theorem firstAnswer_fault (e : ε) (answers : List (Except ε (Option α))) :
    firstAnswer (.error e :: answers) = .error e := rfl

theorem firstAnswer_eq_absence {answers : List (Except ε (Option α))}
    (h : ∀ r ∈ answers, r = .ok none) : firstAnswer answers = .ok none := by
  rw [firstAnswer, List.find?_eq_none.mpr fun r hr => by simp [h r hr, isAbsence]]
  rfl

theorem askInTurn_append (front back : List (Attempt ε (Option α))) :
    askInTurn (front ++ back) = (do
      match ← askInTurn front with
      | some x => return some x
      | none => askInTurn back) := by
  induction front with
  | nil => rfl
  | cons a front ih =>
    funext w
    rw [List.cons_append, askInTurn, ih, askInTurn]
    simp only [bind_apply]
    rcases a w with ⟨e | _ | x, w₁⟩
    · rfl
    · simp only [bind_apply]
    · rfl

theorem askInTurn_singleton (a : Attempt ε (Option α)) : askInTurn [a] = a := by
  funext w
  rw [askInTurn, bind_apply]
  rcases a w with ⟨e | _ | x, w₁⟩ <;> rfl

/-! ### Roots and the jars that are open -/

/-- A root as one of those of a loader. -/
structure OwnedRoot where
  loader : Nat
  index : Nat
  root : ClassRoot

namespace OwnedRoot

def read (r : OwnedRoot) (path : String) : Attempt IoError (Option Bytes) :=
  r.root.readResource r.loader r.index path

def list (r : OwnedRoot) (package : String) : Attempt IoError (List String) :=
  r.root.listPackage r.loader r.index package

end OwnedRoot

/-- No two of the roots are kept in one place. -/
def Separate (roots : List OwnedRoot) : Prop :=
  ∀ r ∈ roots, ∀ r' ∈ roots, r.loader = r'.loader → r.index = r'.index → r = r'

/-- The same files, and every jar among the roots opens as it would have opened before, whether or
not it is open by now. -/
structure World.Reopens (roots : List OwnedRoot) (w w' : World) : Prop where
  files : w'.files = w.files
  jars : ∀ loader index path, ⟨loader, index, .jar path⟩ ∈ roots →
    (ClassRoot.openJar loader index path w').1 = (ClassRoot.openJar loader index path w).1

theorem World.Reopens.refl (roots : List OwnedRoot) (w : World) : w.Reopens roots w :=
  ⟨rfl, fun _ _ _ _ => rfl⟩

/-- Whichever of the jars were opened before, the attempt comes to the same. -/
def Reproducible (roots : List OwnedRoot) (a : Attempt ε α) : Prop :=
  ∀ w, Gives (w.Reopens roots) a (· = (a w).1)

namespace Reproducible

variable {roots : List OwnedRoot}

theorem ofFiles {a : Attempt ε α} {f : FileSystem → Except ε α} (h : ∀ w, a w = (f w.files, w)) :
    Reproducible roots a := by
  intro w w' hw
  rw [h, h, hw.files]
  exact ⟨rfl, hw⟩

theorem pure (x : α) : Reproducible roots (pure x : Attempt ε α) :=
  ofFiles (f := fun _ => .ok x) fun _ => rfl

theorem throw (e : ε) : Reproducible roots (throw e : Attempt ε α) :=
  ofFiles (f := fun _ => .error e) fun _ => rfl

theorem bind {a : Attempt ε α} {f : α → Attempt ε β} (ha : Reproducible roots a)
    (hf : ∀ x, Reproducible roots (f x)) : Reproducible roots (a >>= f) := by
  intro w w' hw
  obtain ⟨hsame, hopen⟩ := ha w w' hw
  obtain ⟨-, hopen₀⟩ := ha w w (.refl roots w)
  rw [bind_apply, bind_apply]
  rcases hrun₀ : a w with ⟨e | x, w₀⟩ <;> rcases hrun : a w' with ⟨e' | x', w₁⟩ <;>
    rw [hrun₀, hrun] at hsame <;> cases hsame
  · rw [hrun] at hopen
    exact ⟨rfl, hopen⟩
  · rw [hrun] at hopen
    rw [hrun₀] at hopen₀
    obtain ⟨hresult, hlater⟩ := hf x w w₁ hopen
    exact ⟨hresult.trans (hf x w w₀ hopen₀).1.symm, hlater⟩

theorem mapFailure {f : ε → δ} {a : Attempt ε α} (ha : Reproducible roots a) :
    Reproducible roots (mapFailure f a) := by
  refine fun w => .mapFailure ((ha w).imp fun r hr => ?_)
  rw [hr]
  unfold ClassRecovery.mapFailure
  rcases a w with ⟨e | x, w₁⟩ <;> rfl

theorem outcome {a : Attempt ε α} (ha : Reproducible roots a) :
    Reproducible roots (outcome a : Attempt δ (Except ε α)) := fun w w' hw =>
  ⟨congrArg Except.ok (ha w w' hw).1, (ha w w' hw).2⟩

theorem mapM {f : α → Attempt ε β} {xs : List α} (h : ∀ x ∈ xs, Reproducible roots (f x)) :
    Reproducible roots (xs.mapM f) := by
  induction xs with
  | nil => exact .pure []
  | cons x xs ih =>
    rw [List.mapM_cons]
    exact (h x List.mem_cons_self).bind fun y =>
      (ih fun z hz => h z (List.mem_cons_of_mem _ hz)).bind fun ys => .pure (y :: ys)

theorem withFiles (f : FileSystem → Except ε α) : Reproducible roots (World.withFiles f) :=
  ofFiles (World.withFiles_apply f)

/-- Of attempts made in turn, the first answer counts. -/
theorem askInTurn_gives {attempts : List (Attempt ε (Option α))}
    (h : ∀ a ∈ attempts, Reproducible roots a) (w : World) :
    Gives (w.Reopens roots) (askInTurn attempts)
      (· = firstAnswer (attempts.map fun a => (a w).1)) := by
  induction attempts with
  | nil => exact .pure rfl
  | cons a rest ih =>
    rw [List.map_cons]
    refine (h a List.mem_cons_self w).bind (fun found hfound => ?_) fun e he => ?_
    · rw [← hfound]
      cases found with
      | none => exact ih fun b hb => h b (List.mem_cons_of_mem _ hb)
      | some x => exact .pure rfl
    · rw [← he]
      rfl

theorem askInTurn {attempts : List (Attempt ε (Option α))}
    (h : ∀ a ∈ attempts, Reproducible roots a) :
    Reproducible roots (askInTurn attempts) := by
  intro w w' hw
  obtain ⟨hanswer, hlater⟩ := askInTurn_gives h w w' hw
  exact ⟨hanswer.trans (askInTurn_gives h w w (.refl roots w)).1.symm, hlater⟩

end Reproducible

namespace ClassRoot

variable {roots : List OwnedRoot} {loader index : Nat} {path : String} {root : ClassRoot}

/-- How a jar opens depends on its file, and on whether it is open itself. -/
theorem openJar_congr {w w' : World} (hfiles : w'.files = w.files)
    (hjar : w'.jars.get? (loader, index) = w.jars.get? (loader, index)) :
    (openJar loader index path w').1 = (openJar loader index path w).1 := by
  unfold openJar
  rw [Attempt.get_bind, Attempt.get_bind, hjar]
  cases w.jars.get? (loader, index) with
  | some opened => rfl
  | none =>
    simp only [bind_apply, World.withFiles_apply, hfiles]
    cases w.files.openFile path with
    | error e => rfl
    | ok node =>
      simp only [hfiles]
      cases w.files.readOpen node with
      | error e => rfl
      | ok bytes =>
        simp only
        cases Archive.Directory.read bytes.toArray <;> rfl

theorem openJar_reproducible (hroots : Separate roots)
    (hmem : ⟨loader, index, .jar path⟩ ∈ roots) :
    Reproducible roots (openJar loader index path) := by
  intro w w' hw
  refine ⟨hw.jars loader index path hmem, ?_⟩
  cases hjar : w'.jars.get? (loader, index) with
  | some opened =>
    rw [openJar_of_open hjar]
    exact hw
  | none =>
    rcases openJar_of_closed path hjar with ⟨e, hrun⟩ | ⟨opened, hrun⟩
    · rw [hrun]
      exact hw
    · rw [hrun]
      refine ⟨hw.files, fun loader' index' path' hmem' => ?_⟩
      by_cases hsame : (loader', index') = (loader, index)
      · obtain ⟨rfl, rfl⟩ := Prod.mk.inj hsame
        cases hroots _ hmem _ hmem' rfl rfl
        have hopen := hw.jars loader' index' path hmem
        rw [hrun] at hopen
        rw [← hopen, openJar_of_open (by rw [Table.get?_put, if_pos rfl])]
      · rw [← hw.jars loader' index' path' hmem']
        exact openJar_congr rfl (by rw [Table.get?_put, if_neg hsame])

theorem readFile_reproducible (path : String) : Reproducible roots (readFile path) :=
  have ⟨_, h⟩ := readFile_onFiles path
  .ofFiles h

theorem listPackage_reproducible (directory package : String) :
    Reproducible roots ((ClassRoot.directory directory).listPackage loader index package) := by
  have hlist : ∃ f : FileSystem → Except IoError (List String), ∀ w,
      (ClassRoot.directory directory).listPackage loader index package w = (f w.files, w) := by
    refine ⟨fun files => ((files.list (if package = "" then directory
      else Path.join directory package)).map fun entries =>
        entries.filterMap (dropSuffix? ".class" ·.1)).tryCatch fun e =>
          if e.kind = .notFound then .ok [] else .error e, fun w => ?_⟩
    unfold listPackage
    dsimp only
    rw [Attempt.get_bind]
    cases w.files.list (if package = "" then directory else Path.join directory package) with
    | ok entries => rfl
    | error e =>
      by_cases he : e.kind = .notFound <;>
        simp only [Except.map, Except.tryCatch, he, ↓reduceIte] <;> rfl
  obtain ⟨_, h⟩ := hlist
  exact .ofFiles h

end ClassRoot

namespace OwnedRoot

variable {roots : List OwnedRoot} {r : OwnedRoot}

theorem read_reproducible (hroots : Separate roots) (hr : r ∈ roots) (path : String) :
    Reproducible roots (r.read path) := by
  obtain ⟨loader, index, root⟩ := r
  cases root with
  | directory directory => exact ClassRoot.readFile_reproducible _
  | jar jar =>
    refine (ClassRoot.openJar_reproducible hroots hr).bind fun opened => ?_
    cases opened.directory.find? path with
    | none => exact .pure none
    | some entry =>
      refine (Reproducible.withFiles _).bind fun data => ?_
      cases Archive.readContent data.toArray entry with
      | ok bytes => exact .pure (some bytes)
      | error e => exact .throw e

theorem list_reproducible (hroots : Separate roots) (hr : r ∈ roots) (package : String) :
    Reproducible roots (r.list package) := by
  obtain ⟨loader, index, root⟩ := r
  cases root with
  | directory directory => exact ClassRoot.listPackage_reproducible directory package
  | jar jar =>
    exact (ClassRoot.openJar_reproducible hroots hr).bind fun opened => .pure _

end OwnedRoot

/-! ### The levels of a chain -/

namespace Loader

/-- The loaders that are asked: the outermost parent first, and the loader itself last. -/
def levels : Loader → List Loader
  | child id roots parent => parent.levels ++ [child id roots parent]
  | l => [l]

def owned (self : Loader) : List OwnedRoot :=
  self.ownRoots.zipIdx.map fun e => ⟨self.id, e.2, e.1⟩

/-- The roots of all levels in the order in which they are asked. -/
def allRoots (l : Loader) : List OwnedRoot := l.levels.flatMap owned

/-- The levels are numbered apart, as all loaders are that were made. -/
def Apart (l : Loader) : Prop := (l.levels.map Loader.id).Nodup

/-- What a level makes of the file that it has for a name, or of its absence. -/
def verdict (self : Loader) (name : String) :
    Except IoError (Option Bytes) → Except Error (Option ClassRef)
  | .error e => .error (.resourceRead (ClassName.resourcePath name) e)
  | .ok none => .ok none
  | .ok (some b) =>
    match ClassFile.definedName .qualified b with
    | .error m => .error (.ofMalformed m)
    | .ok defined => .ok (if defined = name then some (self.archiveClass name) else none)

variable {l self : Loader} {name path : String} {roots : List OwnedRoot}

theorem levels_archive (id : Nat) (roots : List ClassRoot) :
    (archive id roots).levels = [archive id roots] := rfl

theorem levels_child (id : Nat) (roots : List ClassRoot) (parent : Loader) :
    (child id roots parent).levels = parent.levels ++ [child id roots parent] := rfl

theorem self_mem_levels (l : Loader) : l ∈ l.levels := by
  cases l with
  | child => exact List.mem_append_right _ List.mem_cons_self
  | _ => exact List.mem_cons_self

/-- A level has its own levels among those of the chain, and in the same order. -/
theorem sublist_of_mem_levels (h : self ∈ l.levels) : self.levels.Sublist l.levels := by
  induction l with
  | child id roots parent ih =>
    rcases List.mem_append.mp h with h | h
    · exact (ih h).trans (List.sublist_append_left _ _)
    · rw [List.mem_singleton.mp h]
  | _ => rw [List.mem_singleton.mp h]

theorem IsArchives.level (hl : l.IsArchives) (h : self ∈ l.levels) : self.IsArchives := by
  induction l with
  | child id roots parent ih =>
    rcases List.mem_append.mp h with h | h
    · exact ih hl h
    · rwa [List.mem_singleton.mp h]
  | _ => rwa [List.mem_singleton.mp h]

theorem Apart.level (hids : l.Apart) (h : self ∈ l.levels) : self.Apart :=
  hids.sublist ((sublist_of_mem_levels h).map _)

theorem owned_subset_allRoots (h : self ∈ l.levels) : self.owned ⊆ l.allRoots :=
  fun _ hr => List.mem_flatMap.mpr ⟨self, h, hr⟩

theorem allRoots_subset (h : self ∈ l.levels) : self.allRoots ⊆ l.allRoots := by
  intro r hr
  obtain ⟨level, hlevel, hr⟩ := List.mem_flatMap.mp hr
  exact List.mem_flatMap.mpr ⟨level, (sublist_of_mem_levels h).subset hlevel, hr⟩

theorem Apart.separate (hids : l.Apart) : Separate l.allRoots := by
  intro r hr r' hr' hloader hindex
  obtain ⟨self, hself, hr⟩ := List.mem_flatMap.mp hr
  obtain ⟨self', hself', hr'⟩ := List.mem_flatMap.mp hr'
  obtain ⟨⟨root, index⟩, hroot, rfl⟩ := List.mem_map.mp hr
  obtain ⟨⟨root', index'⟩, hroot', rfl⟩ := List.mem_map.mp hr'
  obtain rfl : self = self' := List.inj_on_of_nodup_map hids hself hself' hloader
  obtain rfl : index = index' := hindex
  rw [List.mk_mem_zipIdx_iff_getElem?] at hroot hroot'
  obtain rfl : root = root' := Option.some.inj (hroot.symm.trans hroot')
  rfl

/-- Loaders that were made are numbered apart. -/
theorem apart_of_course {w : World} {made : List Loader} {met : List ClassRef}
    (h : Course w made met) (hl : l.IsArchives) (hmade : l.Within made) : l.Apart := by
  have hlevels : ∀ self ∈ l.levels, self ∈ made := by
    clear h
    induction l with
    | archive => exact List.forall_mem_singleton.mpr hmade
    | child id roots parent ih =>
      intro self hself
      rcases List.mem_append.mp hself with hself | hself
      · exact ih hl hmade.2 self hself
      · exact List.mem_singleton.mp hself ▸ hmade.1
    | _ => cases hl
  have hnodup : l.levels.Nodup := by
    clear h hlevels hmade hl
    induction l with
    | child id roots parent ih =>
      refine List.nodup_append.mpr ⟨ih, List.nodup_singleton _, ?_⟩
      rintro self hself _ hlast rfl
      rw [List.mem_singleton.mp hlast] at hself
      have hlength := (sublist_of_mem_levels hself).length_le
      simp [levels] at hlength
    | _ => exact List.nodup_singleton _
  exact hnodup.map_on fun a ha b hb hid =>
    List.inj_on_of_nodup_map h.sound.ids (hlevels a ha) (hlevels b hb) hid

theorem readRoots_eq (id : Nat) (path : String) (roots : List (ClassRoot × Nat)) :
    readRoots id path roots =
      askInTurn (roots.map fun e => e.1.readResource id e.2 path) := by
  induction roots with
  | nil => rfl
  | cons e roots ih =>
    rw [List.map_cons, readRoots, ih, askInTurn]
    exact bind_congr fun found => by cases found <;> rfl

theorem readOwn_eq (self : Loader) (path : String) :
    readOwn self.id self.ownRoots path = askInTurn (self.owned.map (·.read path)) := by
  rw [readOwn, readRoots_eq, owned, List.map_map]
  rfl

theorem readResource_eq_askInTurn (hl : l.IsArchives) (path : String) :
    l.readResource path = askInTurn (l.allRoots.map (·.read path)) := by
  induction l with
  | archive id roots =>
    rw [allRoots, levels_archive, List.flatMap_singleton]
    exact readOwn_eq (archive id roots) path
  | child id roots parent ih =>
    have hroots : (child id roots parent).allRoots =
        parent.allRoots ++ (child id roots parent).owned := by
      rw [allRoots, levels_child, List.flatMap_append, List.flatMap_singleton, allRoots]
    rw [readResource, ih hl, hroots, List.map_append, askInTurn_append,
      ← readOwn_eq (child id roots parent) path]
    exact bind_congr fun found => by cases found <;> rfl
  | given => cases hl
  | object => cases hl

theorem load_eq_askInTurn (hl : l.IsArchives) (name : String) :
    l.load name = askInTurn (l.levels.map fun self => self.define self.ownRoots name) := by
  induction l with
  | archive id roots =>
    rw [levels_archive, List.map_singleton, askInTurn_singleton]
    rfl
  | child id roots parent ih =>
    rw [load, ih hl, levels_child, List.map_append, List.map_singleton, askInTurn_append,
      askInTurn_singleton]
    exact bind_congr fun found => by cases found <;> rfl
  | given => cases hl
  | object => cases hl

/-- What is found is a class of the name that was asked for, of one of the levels. -/
theorem archiveClass_of_load {c : ClassRef} {w : World} (hl : l.IsArchives)
    (h : (l.load name w).1 = .ok (some c)) :
    name.toList.head? ≠ some '[' ∧ '/' ∉ name.toList ∧
      ∃ self ∈ l.levels, c = self.archiveClass name := by
  have hdefine : ∀ (self : Loader) {w w' : World},
      self.define self.ownRoots name w = (.ok (some c), w') →
      name.toList.head? ≠ some '[' ∧ '/' ∉ name.toList ∧ c = self.archiveClass name := by
    intro self w w' h
    obtain ⟨rfl, hname, b, hdefined⟩ := define_some h
    obtain ⟨file, -, ⟨hnone, -⟩ | ⟨-, -, -, hc⟩⟩ := define_ok hname h
    · cases hnone
    · exact ⟨hname, slash_notMem_definedName hdefined.named, Option.some.inj hc⟩
  rcases hrun : l.load name w with ⟨r, w'⟩
  rw [hrun] at h
  obtain rfl : r = .ok (some c) := h
  induction l generalizing w with
  | archive id roots =>
    obtain ⟨hname, hslash, hc⟩ := hdefine (archive id roots) hrun
    exact ⟨hname, hslash, _, self_mem_levels _, hc⟩
  | child id roots parent ih =>
    rcases load_child hrun with ⟨c', hc, hparent⟩ | ⟨w₁, -, hself⟩
    · cases hc
      obtain ⟨hname, hslash, self, hself, hc⟩ := ih hl hparent
      exact ⟨hname, hslash, self, List.mem_append_left _ hself, hc⟩
    · obtain ⟨hname, hslash, hc⟩ := hdefine (child id roots parent) hself
      exact ⟨hname, hslash, _, self_mem_levels _, hc⟩
  | given => cases hl
  | object => cases hl

theorem readOwn_reproducible (hroots : Separate roots) (hself : self.owned ⊆ roots)
    (path : String) : Reproducible roots (readOwn self.id self.ownRoots path) := by
  rw [readOwn_eq]
  refine .askInTurn fun a ha => ?_
  obtain ⟨r, hr, rfl⟩ := List.mem_map.mp ha
  exact r.read_reproducible hroots (hself hr) path

theorem define_reproducible (hroots : Separate roots) (hself : self.owned ⊆ roots)
    (name : String) : Reproducible roots (self.define self.ownRoots name) := by
  unfold define
  by_cases hname : name.toList.head? = some '['
  · rw [if_pos hname]
    exact .pure none
  · rw [if_neg hname]
    refine (readOwn_reproducible hroots hself _).mapFailure.bind fun file => ?_
    cases file with
    | none => exact .pure none
    | some b =>
      simp only
      cases ClassFile.definedName .qualified b with
      | error m => exact .throw _
      | ok defined =>
        simp only
        split <;> exact .pure _

/-- A level decides by the file that it has, and by nothing else. -/
theorem define_eq_verdict (hname : name.toList.head? ≠ some '[') (w : World) :
    (self.define self.ownRoots name w).1 =
      self.verdict name (readOwn self.id self.ownRoots (ClassName.resourcePath name) w).1 := by
  unfold define
  rw [if_neg hname, bind_apply, mapFailure]
  rcases readOwn self.id self.ownRoots (ClassName.resourcePath name) w with ⟨e | _ | b, w₁⟩
  · rfl
  · rfl
  · simp only [verdict]
    cases ClassFile.definedName .qualified b with
    | error m => rfl
    | ok defined =>
      by_cases hdefined : defined = name
      · simp only [hdefined, ↓reduceIte]
        rfl
      · simp only [hdefined, ↓reduceIte]
        rfl

theorem load_reproducible (hl : l.IsArchives) (hroots : Separate roots)
    (hsub : ∀ self ∈ l.levels, self.owned ⊆ roots) (name : String) :
    Reproducible roots (l.load name) := by
  rw [load_eq_askInTurn hl]
  refine .askInTurn fun a ha => ?_
  obtain ⟨self, hself, rfl⟩ := List.mem_map.mp ha
  exact define_reproducible hroots (hsub self hself) name

/-- What `askInTurn_gives` says in the world in which the attempts are made. -/
theorem firstAnswer_of_askInTurn {attempts : List (Attempt ε (Option α))}
    (h : ∀ a ∈ attempts, Reproducible roots a) (w : World) :
    (askInTurn attempts w).1 = firstAnswer (attempts.map fun a => (a w).1) :=
  (Reproducible.askInTurn_gives h w w (.refl roots w)).1

/-- A resource is what the first root of the chain has that has it or fails. A class is defined by
the first level, from the outermost on, whose one file for it defines it or fails. Names of arrays
are not looked up. -/
theorem delegation_is_linear_search (hl : l.IsArchives) (hids : l.Apart) (w : World) :
    (∀ path, (l.readResource path w).1 =
      firstAnswer (l.allRoots.map fun r => (r.read path w).1)) ∧
    ∀ name, (l.load name w).1 =
      if name.toList.head? = some '[' then .ok none
      else firstAnswer (l.levels.map fun self => self.verdict name
        (firstAnswer (self.owned.map fun r => (r.read (ClassName.resourcePath name) w).1))) := by
  have hroots := hids.separate
  have hread : ∀ {owned : List OwnedRoot} {path : String}, owned ⊆ l.allRoots →
      ∀ a ∈ owned.map (·.read path), Reproducible l.allRoots a := by
    intro owned path hsub a ha
    obtain ⟨r, hr, rfl⟩ := List.mem_map.mp ha
    exact r.read_reproducible hroots (hsub hr) path
  refine ⟨fun path => ?_, fun name => ?_⟩
  · rw [readResource_eq_askInTurn hl, firstAnswer_of_askInTurn (hread (List.Subset.refl _)),
      List.map_map]
    rfl
  · have hdefine : ∀ a ∈ l.levels.map fun self => self.define self.ownRoots name,
        Reproducible l.allRoots a := by
      intro a ha
      obtain ⟨self, hself, rfl⟩ := List.mem_map.mp ha
      exact define_reproducible hroots (owned_subset_allRoots hself) name
    rw [load_eq_askInTurn hl, firstAnswer_of_askInTurn hdefine, List.map_map]
    split
    · next hname =>
      refine firstAnswer_eq_absence fun r hr => ?_
      obtain ⟨self, -, rfl⟩ := List.mem_map.mp hr
      simp only [Function.comp_apply, define, if_pos hname]
      rfl
    · next hname =>
      refine congrArg firstAnswer (List.map_congr_left fun self hself => ?_)
      rw [Function.comp_apply, define_eq_verdict hname, readOwn_eq,
        firstAnswer_of_askInTurn (hread (owned_subset_allRoots hself)), List.map_map]
      rfl

/-- The upper directory has a file of another class, which is the resource but defines nothing. -/
theorem delegation_is_linear_search_lower :
    lower.IsArchives ∧ lower.Apart ∧
      (lower.readResource "B.class" (twoLevels [("B.class", 3)])).1 = firstAnswer
        [.ok (some (oneLetterClass 0x43)), .ok (some (oneLetterClass 0x42))] ∧
      (lower.load "B" (twoLevels [("B.class", 3)])).1 =
        firstAnswer [.ok none, .ok (some lowerClass)] := by
  have hids : lower.Apart := show [1, 2].Nodup by decide
  obtain ⟨hread, hload⟩ :=
    delegation_is_linear_search (l := lower) trivial hids (twoLevels [("B.class", 3)])
  refine ⟨trivial, hids, (hread "B.class").trans (congrArg firstAnswer ?_),
    (hload "B").trans ((if_neg (by decide)).trans (congrArg firstAnswer ?_))⟩
  · decide +kernel
  · decide +kernel

end Loader

end ClassRecovery
