import Mathlib
import ClassRecovery.Collector.Classpath
import ClassRecovery.Proofs.Loader.Package

/-!
Loaders over one root. What such a loader answers depends on the classes in the root and on nothing
else: neither on the kind of the root nor on what was asked before.
-/

namespace ClassRecovery

open ClassName (toInternal resourcePath inPackage FitsBelow)

/-- Whatever was done before, if only it left the world as it should be, the attempt comes to a
result of this kind and leaves the world so. -/
def Gives {ε α : Type} (valid : World → Prop) (a : Attempt ε α) (post : Except ε α → Prop) : Prop :=
  ∀ w, valid w → post (a w).1 ∧ valid (a w).2

namespace Gives

variable {ε δ α β : Type} {valid : World → Prop}

theorem pure {post : Except ε α → Prop} {x : α} (h : post (.ok x)) :
    Gives valid (pure x : Attempt ε α) post :=
  fun _ hw => ⟨h, hw⟩

theorem throw {post : Except ε α → Prop} {e : ε} (h : post (.error e)) :
    Gives valid (throw e : Attempt ε α) post :=
  fun _ hw => ⟨h, hw⟩

theorem bind {a : Attempt ε α} {f : α → Attempt ε β} {post : Except ε α → Prop}
    {post' : Except ε β → Prop} (ha : Gives valid a post)
    (hok : ∀ x, post (.ok x) → Gives valid (f x) post')
    (herror : ∀ e, post (.error e) → post' (.error e)) : Gives valid (a >>= f) post' := by
  intro w hw
  obtain ⟨hpost, hvalid⟩ := ha w hw
  rw [bind_apply]
  rcases hrun : a w with ⟨e | x, w₁⟩ <;> rw [hrun] at hpost hvalid
  · exact ⟨herror e hpost, hvalid⟩
  · exact hok x hpost w₁ hvalid

theorem imp {a : Attempt ε α} {post post' : Except ε α → Prop} (ha : Gives valid a post)
    (h : ∀ r, post r → post' r) : Gives valid a post' :=
  fun w hw => ⟨h _ (ha w hw).1, (ha w hw).2⟩

/-- One step after another, the first of which succeeds. -/
theorem andThen {a : Attempt ε α} {f : α → Attempt ε β} {P : α → Prop} {post : Except ε β → Prop}
    (ha : Gives valid a fun r => ∃ x, r = .ok x ∧ P x) (hf : ∀ x, P x → Gives valid (f x) post) :
    Gives valid (a >>= f) post := by
  refine ha.bind ?_ nofun
  rintro x ⟨y, hy, hP⟩
  cases hy
  exact hf x hP

theorem thenOk {a : Attempt ε α} {f : α → Attempt ε β} {x : α} {post : Except ε β → Prop}
    (ha : Gives valid a (· = .ok x)) (hf : Gives valid (f x) post) : Gives valid (a >>= f) post :=
  andThen (P := (· = x)) (ha.imp fun _ h => ⟨x, h, rfl⟩) fun _ h => h ▸ hf

theorem mapFailure {f : ε → δ} {a : Attempt ε α} {post : Except δ α → Prop}
    (ha : Gives valid a fun r => post (r.mapError f)) : Gives valid (mapFailure f a) post := by
  intro w hw
  have has := ha w hw
  unfold ClassRecovery.mapFailure
  rcases hrun : a w with ⟨e | x, w₁⟩ <;> rwa [hrun] at has

/-- Attempts in a row, each of which comes to a known result. -/
theorem mapM {f : α → Attempt ε β} {g : α → Except ε β} {xs : List α}
    (hf : ∀ x ∈ xs, Gives valid (f x) (· = g x)) :
    Gives valid (xs.mapM f) (· = xs.mapM g) := by
  induction xs with
  | nil => exact pure rfl
  | cons x xs ih =>
    rw [List.mapM_cons, List.mapM_cons]
    refine (hf x List.mem_cons_self).bind (fun y hy => ?_) fun e he => by rw [← he]; rfl
    refine (ih fun z hz => hf z (List.mem_cons_of_mem _ hz)).bind (fun ys hys => ?_)
      fun e he => by rw [← hy, ← he]; rfl
    exact pure (by rw [← hy, ← hys]; rfl)

/-- Attempts in a row that all succeed. -/
theorem mapM_ok {f : α → Attempt ε β} {g : α → β} {xs : List α}
    (hf : ∀ x ∈ xs, Gives valid (f x) (· = .ok (g x))) :
    Gives valid (xs.mapM f) (· = .ok (xs.map g)) := by
  refine (mapM (g := fun x => .ok (g x)) hf).imp fun r hr => hr.trans ?_
  exact List.mapM_pure

end Gives

theorem Archive.Directory.find?_eq_none_iff {d : Archive.Directory} {name : String} :
    d.find? name = none ↔ name ∉ d.entries.map (·.name) := by
  simp [Archive.Directory.find?]

/-- The class file under a name, where classes are listed with their files. -/
def fileOf (classes : List (String × Bytes)) (name : String) : Option Bytes :=
  (classes.find? fun e => toInternal e.1 = toInternal name).map (·.2)

/-- There is a class of this internal name. -/
def HasClass (classes : List (String × Bytes)) (internal : String) : Prop :=
  ∃ e ∈ classes, toInternal e.1 = internal

/-- The root holds these classes: it finds their files, and lists them by their packages. -/
structure ClassRoot.Serves (root : ClassRoot) (k : Nat) (directory : String)
    (classes : List (String × Bytes)) (valid : World → Prop) : Prop where
  read : ∀ {name}, FitsBelow directory name →
    Gives valid (root.readResource k 0 (resourcePath name)) (· = .ok (fileOf classes name))
  list : ∀ {name package simple}, FitsBelow directory name →
    Loader.splitPackage (toInternal name) = (package, simple) →
    Gives valid (root.listPackage k 0 package) fun r => ∃ stems, r = .ok stems ∧
      ∀ stem, stem ∈ stems ↔ '/' ∉ stem.toList ∧ HasClass classes (inPackage package stem)

namespace Loader

variable {root : ClassRoot} {k : Nat} {directory name : String} {classes : List (String × Bytes)}
  {valid : World → Prop}

theorem readOwn_gives (hroot : root.Serves k directory classes valid)
    (hname : FitsBelow directory name) :
    Gives valid (readOwn k [root] (resourcePath name)) (· = .ok (fileOf classes name)) := by
  refine (hroot.read hname).thenOk ?_
  cases fileOf classes name <;> exact .pure rfl

/-- The class that the file under a name defines, if that is the class of the name. -/
def classIn (name : String) : Option Bytes → Except Error (Option String)
  | none => .ok none
  | some b =>
    match ClassFile.definedName .qualified b with
    | .error m => .error (.ofMalformed m)
    | .ok defined => .ok (if defined = name then some name else none)

/-- What asking for a name comes to: names of arrays are not looked up. -/
def answer (classes : List (String × Bytes)) (name : String) : Except Error (Option String) :=
  classIn name (if name.toList.head? = some '[' then none else fileOf classes name)

def archiveClass (self : Loader) (name : String) : ClassRef :=
  ⟨name, ClassKind.ofName name, some self, .archive⟩

theorem load_gives (hroot : root.Serves k directory classes valid)
    (hname : FitsBelow directory name) :
    Gives valid ((archive k [root]).load name)
      (· = (answer classes name).map (Option.map (archive k [root]).archiveClass)) := by
  unfold load define answer
  split
  · exact .pure rfl
  · refine Gives.thenOk (x := fileOf classes name) (.mapFailure ?_) ?_
    · exact (readOwn_gives hroot hname).imp fun r hr => by rw [hr]; rfl
    · cases fileOf classes name with
      | none => exact .pure rfl
      | some b =>
        simp only [classIn]
        cases ClassFile.definedName .qualified b with
        | error m => exact .throw rfl
        | ok defined =>
          by_cases hd : defined = name
          · simp only [hd, ↓reduceIte]
            exact .pure rfl
          · simp only [hd, ↓reduceIte]
            exact .pure rfl

theorem collect_gives (hroot : root.Serves k directory classes valid) {c : ClassRef}
    (hc : c.loader = some (archive k [root])) (hname : FitsBelow directory c.name)
    (settings : CollectorOptions) (boot : Loader) :
    Gives valid ((Collector.classpath settings boot).collect c)
      (· = .ok (fileOf classes c.name)) := by
  change Gives valid (mapFailure _ ((c.loader.getD boot).readResource _)) _
  rw [hc, Option.getD_some]
  exact .mapFailure ((readOwn_gives hroot hname).imp fun r hr => by rw [hr]; rfl)

/-- The class is a member of the outer one by its name, and there is a file for it. -/
def IsMember (classes : List (String × Bytes)) (outer member : String) : Prop :=
  ∃ package simple stem segment, splitPackage (toInternal outer) = (package, simple) ∧
    '/' ∉ stem.toList ∧ HasClass classes (inPackage package stem) ∧
    memberSegment? simple stem = some segment ∧ member = outer ++ "$" ++ segment

theorem memberSegment?_eq_some {simple stem segment : String} :
    memberSegment? simple stem = some segment ↔ stem = simple ++ "$" ++ segment ∧ segment ≠ "" ∧
      '$' ∉ segment.toList ∧ ¬ segment.toList.head?.any Char.isDigit := by
  have hstem : ∀ s, stem = simple ++ "$" ++ s ↔
      stem.toList = (simple ++ "$").toList ++ s.toList := by
    intro s
    rw [← String.toList_inj, String.toList_append]
  unfold memberSegment?
  rw [hstem]
  dsimp only
  generalize (simple ++ "$").toList = front
  by_cases hprefix : front.isPrefixOf stem.toList
  · obtain ⟨rest, hrest⟩ := List.isPrefixOf_iff_prefix.mp hprefix
    rw [if_pos hprefix, ← hrest, List.drop_left, List.append_cancel_left_eq]
    constructor
    · intro h
      split at h
      · cases h
      · next hplain =>
        cases h
        rw [String.toList_ofList]
        simpa [not_or] using hplain
    · rintro ⟨rfl, hfilled, hdollar, hdigit⟩
      have hplain : ¬ (segment.toList = [] ∨ '$' ∈ segment.toList ∨
          segment.toList.head?.any Char.isDigit) := by
        simpa [not_or, hdigit] using ⟨hfilled, hdollar⟩
      rw [if_neg hplain, String.ofList_toList]
  · rw [if_neg hprefix]
    refine ⟨fun h => (by cases h), fun h => ?_⟩
    exact absurd (List.isPrefixOf_iff_prefix.mpr ⟨_, h.1.symm⟩) hprefix

/-- The file of a member is the one that its name leads to. -/
theorem IsMember.hasClass {outer member : String} (h : IsMember classes outer member)
    (houter : FitsBelow directory outer) : HasClass classes (toInternal member) := by
  obtain ⟨package, simple, stem, segment, hsplit, -, ⟨e, he, hclass⟩, hsegment, rfl⟩ := h
  obtain ⟨_, _, hsplit', -, hinternal, -⟩ := splitPackage_eq houter.inner
  cases hsplit.symm.trans hsplit'
  rw [(memberSegment?_eq_some.mp hsegment).1, String.append_assoc, ClassName.inPackage_append,
    ← hinternal] at hclass
  have hdot : '.' ∉ ("$" ++ segment).toList := by
    intro hmem
    refine ClassName.dot_notMem_toInternal e.1 ?_
    rw [hclass, String.toList_append]
    exact List.mem_append_right _ hmem
  refine ⟨e, he, ?_⟩
  rw [hclass, String.append_assoc, ClassName.toInternal_append, ClassName.toInternal_eq_self hdot]

theorem nodup_eraseDups {α : Type} [BEq α] [LawfulBEq α] (l : List α) : l.eraseDups.Nodup := by
  induction hn : l.length using Nat.strong_induction_on generalizing l with
  | _ n ih =>
    cases l with
    | nil => simp
    | cons a l =>
      rw [List.eraseDups_cons, List.nodup_cons, List.mem_eraseDups]
      refine ⟨by simp, ih _ ?_ _ rfl⟩
      rw [← hn, List.length_cons]
      exact Nat.lt_succ_of_le (List.length_filter_le _ _)

theorem memberNames_gives (hroot : root.Serves k directory classes valid)
    (hname : FitsBelow directory name) :
    Gives valid (memberNames k [root] name) fun r => ∃ names, r = .ok names ∧ names.Nodup ∧
      ∀ m, m ∈ names ↔ IsMember classes name m := by
  unfold memberNames
  rcases hsplit : splitPackage (toInternal name) with ⟨package, simple⟩
  have hstems : Gives valid ([root].zipIdx.mapM fun e => e.1.listPackage k e.2 package)
      fun r => ∃ found, r = .ok found ∧ ∀ stem,
        stem ∈ found.flatten ↔ '/' ∉ stem.toList ∧ HasClass classes (inPackage package stem) :=
    (hroot.list hname hsplit).andThen fun stems hstems =>
      .pure ⟨[stems], rfl, by simpa using hstems⟩
  refine hstems.andThen fun found hfound => .pure ⟨_, rfl, ?_, fun m => ?_⟩
  · refine (nodup_eraseDups _).map fun a b hab => ?_
    exact (String.append_right_inj _).mp hab
  · simp only [List.mem_map, List.mem_eraseDups, List.mem_filterMap]
    constructor
    · rintro ⟨segment, ⟨stem, hstem, hsegment⟩, rfl⟩
      obtain ⟨hslash, hclass⟩ := (hfound stem).mp hstem
      exact ⟨package, simple, stem, segment, hsplit, hslash, hclass, hsegment, rfl⟩
    · rintro ⟨package', simple', stem, segment, hsplit', hslash, hclass, hsegment, rfl⟩
      cases hsplit.symm.trans hsplit'
      exact ⟨segment, ⟨stem, (hfound stem).mpr ⟨hslash, hclass⟩, hsegment⟩, rfl⟩

theorem mapM_map_except {ε α β γ : Type} (f : β → γ) (g : α → Except ε β) (xs : List α) :
    (xs.mapM fun x => (g x).map f) = (xs.mapM g).map (List.map f) := by
  induction xs with
  | nil => rfl
  | cons x xs ih =>
    rw [List.mapM_cons, List.mapM_cons, ih]
    cases g x with
    | error e => rfl
    | ok y =>
      cases xs.mapM g with
      | error e => rfl
      | ok ys => rfl

/-- Members are loaded one by one, in whatever order the root lists them. -/
theorem members_gives (hroot : root.Serves k directory classes valid)
    (hclasses : ∀ e ∈ classes, FitsBelow directory e.1) {c : ClassRef}
    (hloader : c.loader = some (archive k [root])) (horigin : c.origin = .archive)
    (hname : FitsBelow directory c.name) :
    Gives valid c.members fun r => ∃ names : List String, names.Nodup ∧
      (∀ m, m ∈ names ↔ IsMember classes c.name m) ∧
      r = (names.mapM (answer classes)).map fun found =>
        found.reduceOption.map (archive k [root]).archiveClass := by
  unfold ClassRef.members
  rw [horigin, hloader]
  unfold ClassRef.archiveMembers
  have hnames : Gives valid (mapFailure (Error.resourceRead c.internalName)
      (memberNames k [root] c.name)) fun r => ∃ names, r = .ok names ∧ names.Nodup ∧
        ∀ m, m ∈ names ↔ IsMember classes c.name m :=
    .mapFailure <| (memberNames_gives hroot hname).imp fun r hr => by
      obtain ⟨names, rfl, hmembers⟩ := hr
      exact ⟨names, rfl, hmembers⟩
  refine hnames.andThen fun names hmembers => ?_
  have hload : ∀ m ∈ names, Gives valid ((archive k [root]).load m)
      (· = (answer classes m).map (Option.map (archive k [root]).archiveClass)) := by
    intro m hm
    obtain ⟨e, he, hclass⟩ := ((hmembers.2 m).mp hm).hasClass hname
    exact load_gives hroot ((hclasses e he).congr hclass.symm)
  have hrun := Gives.mapM hload
  simp only [mapM_map_except] at hrun
  refine hrun.bind (fun found hfound => .pure ⟨names, hmembers.1, hmembers.2, ?_⟩)
    fun e he => ⟨names, hmembers.1, hmembers.2, ?_⟩
  · cases hanswers : names.mapM (answer classes) with
    | error e =>
      rw [hanswers] at hfound
      cases hfound
    | ok answers =>
      rw [hanswers] at hfound
      cases hfound
      simp [Except.map, List.reduceOption, List.filterMap_map, List.map_filterMap]
  · cases hanswers : names.mapM (answer classes) with
    | error e' =>
      rw [hanswers] at he
      cases he
      rfl
    | ok answers =>
      rw [hanswers] at he
      cases he

end Loader

end ClassRecovery
