import ClassRecovery.Proofs.Files.Approach
import ClassRecovery.Proofs.Loader.Absence
import ClassRecovery.Proofs.Loader.Delegation

/-!
The members of a class, as the files beside its own tell. A root that has a file for a member lists
it in the package of the class, so going by the listings finds every member. It finds more, too:
what stands behind the `$` may have dots in it, and then the class is no member but in a package of
its own.
-/

namespace ClassRecovery

open ClassName (toInternal inPackage)

/-! ### What a directory lists -/

namespace FileSystem

variable {fs : FileSystem} {directory leaf tail : String} {i : Nat} {n : FileNode}

/-- Where something is found there is a directory, which has it under its last name. -/
theorem find_directory (hdirectory : directory ≠ "")
    (hpieces : pieces (directory ++ tail) = pieces directory ++ [leaf]) (hhere : leaf ≠ ".")
    (hup : leaf ≠ "..") (hfind : fs.find (directory ++ tail) = .ok (i, n)) :
    ∃ j entries mode, fs.find directory = .ok (j, ⟨.directory entries, mode⟩) ∧
      leaf ∈ entries.map (·.1) := by
  obtain ⟨origin, place, hstart, hwalk, -⟩ := find_eq_ok_iff.mp hfind
  rw [hpieces, walk_append] at hwalk
  obtain ⟨above, habove, hlast⟩ := bind_eq_ok_iff.mp hwalk
  obtain ⟨next, hstep, -⟩ := bind_eq_ok_iff.mp (show fs.step above leaf >>= _ = _ from hlast)
  obtain ⟨entries, hentries, hleaf⟩ := searchable_of_step hstep
  obtain ⟨j, mode, hplace, hnode, -⟩ := searchable_eq_ok_iff.mp hentries
  refine ⟨j, entries, mode, find_eq_ok_iff.mpr ⟨origin, above, start_of_append hdirectory hstart,
    habove, hplace, hnode, fun _ => by rw [isDirectoryNode, hnode]⟩, ?_⟩
  obtain ⟨k, hk⟩ := Option.isSome_iff_exists.mp ((hleaf.resolve_left hhere).resolve_left hup).2
  obtain ⟨before, behind, rfl, -⟩ := List.lookup_eq_some_iff.mp hk
  simp

end FileSystem

theorem Path.join_ne_empty (directory : String) {path : String} (h : path ≠ "") :
    join directory path ≠ "" := by
  unfold join
  split
  · exact h
  · split
    · exact h
    · split <;> simp [h]

/-! ### What a root lists -/

theorem ClassRoot.find_of_readFile {path : String} {b : Bytes} {w : World}
    (h : (readFile path w).1 = .ok (some b)) : ∃ i n, w.files.find path = .ok (i, n) := by
  cases hfind : w.files.find path with
  | error e =>
    rw [readFile_of_find hfind] at h
    split at h <;> cases h
  | ok found => exact ⟨found.1, found.2, rfl⟩

/-- The directory of a package below a directory of classes. -/
def ClassRoot.packageDirectory (directory package : String) : String :=
  if package = "" then directory else Path.join directory package

/-- The file of a class stands in the directory of its package. -/
theorem ClassRoot.join_inPackage {directory package leaf : String}
    (hplace : package = "" → directory ≠ "") (hslash : '/' ∉ leaf.toList) (hleaf : leaf ≠ "") :
    packageDirectory directory package ≠ "" ∧
      ∃ tail, Path.join directory (inPackage package leaf) =
          packageDirectory directory package ++ tail ∧
        FileSystem.pieces (packageDirectory directory package ++ tail) =
          FileSystem.pieces (packageDirectory directory package) ++ [leaf] := by
  have hinner : Path.Inner leaf := Path.inner_of_notMem hslash hleaf
  have hpieces : FileSystem.pieces leaf = [leaf] := by
    rw [hinner.pieces, Text.split_of_notMem hslash]
  unfold packageDirectory inPackage
  by_cases hpackage : package = ""
  · rw [if_pos hpackage, if_pos hpackage, ← hpieces,
      ← Path.pieces_join (hplace hpackage) hinner.not_isAbsolute]
    obtain ⟨front, hjoin, hfront | rfl⟩ := Path.join_eq (hplace hpackage) hinner.not_isAbsolute
    · exact ⟨hplace hpackage, leaf, by rw [hjoin, hfront], by rw [hjoin, hfront]⟩
    · exact ⟨hplace hpackage, "/" ++ leaf, by rw [hjoin, String.append_assoc],
        by rw [hjoin, String.append_assoc]⟩
  · rw [if_neg hpackage, if_neg hpackage, String.append_assoc, Path.join_append _ hpackage]
    refine ⟨Path.join_ne_empty directory hpackage, "/" ++ leaf, rfl, ?_⟩
    rw [← String.append_assoc, Path.pieces_slash, hpieces]

/-- A directory of classes lists the stems of the class files in the directory of the package. -/
theorem ClassRoot.listPackage_directory {directory package : String} {loader index i mode : Nat}
    {entries : List (String × Nat)} {stems : List String} {w : World}
    (hfind : w.files.find (packageDirectory directory package) =
      .ok (i, ⟨.directory entries, mode⟩))
    (hlist : ((ClassRoot.directory directory).listPackage loader index package w).1 = .ok stems) :
    stems = (entries.map (·.1)).filterMap (dropSuffix? ".class") := by
  have hentries : w.files.list (packageDirectory directory package) =
      if (FileNode.mk (.directory entries) mode).allows .read then
        .ok (entries.map fun e => (e.1, w.files.isDirectoryNode e.2))
      else .error .permissionDenied := by
    rw [FileSystem.list, hfind]
    rfl
  unfold packageDirectory at hentries
  unfold listPackage at hlist
  dsimp only at hlist
  rw [Attempt.get_bind, hentries] at hlist
  by_cases hread : (FileNode.mk (.directory entries) mode).allows .read
  · rw [if_pos hread] at hlist
    cases hlist
    rw [List.filterMap_map, List.filterMap_map]
    rfl
  · rw [if_neg hread] at hlist
    cases hlist

namespace OwnedRoot

variable {r : OwnedRoot} {package stem : String} {b : Bytes} {stems : List String} {w : World}

/-- A root lists what it has. The class that has no package is looked for where the root is, so the
root needs a place. -/
theorem mem_list_of_read (hslash : '/' ∉ stem.toList)
    (hplace : package = "" → r.root ≠ .directory "")
    (hread : (r.read (inPackage package stem ++ ".class") w).1 = .ok (some b))
    (hlist : (r.list package w).1 = .ok stems) : stem ∈ stems := by
  obtain ⟨loader, index, root⟩ := r
  cases root with
  | directory directory =>
    have hleaf : '/' ∉ (stem ++ ".class").toList := by
      simp [hslash]
    have hlong : 5 < (stem ++ ".class").toList.length := by
      simp
    have hplace' : package = "" → directory ≠ "" := fun h he => hplace h (by rw [he])
    rw [← ClassName.inPackage_append] at hread
    obtain ⟨hne, tail, hjoin, hpieces⟩ := ClassRoot.join_inPackage hplace' hleaf (by simp)
    obtain ⟨i, n, hfind⟩ := ClassRoot.find_of_readFile hread
    rw [hjoin] at hfind
    obtain ⟨j, entries, mode, hdirectory, hmem⟩ := FileSystem.find_directory hne hpieces
      (by rintro he; rw [he] at hlong; simp at hlong)
      (by rintro he; rw [he] at hlong; simp at hlong) hfind
    rw [ClassRoot.listPackage_directory hdirectory hlist]
    exact List.mem_filterMap.mpr ⟨_, hmem, ClassRoot.dropSuffix?_eq_some.mpr rfl⟩
  | jar jar =>
    unfold read ClassRoot.readResource at hread
    unfold list ClassRoot.listPackage at hlist
    dsimp only at hread hlist
    rw [bind_apply] at hread hlist
    rcases hopen : ClassRoot.openJar loader index jar w with ⟨e | opened, w'⟩ <;>
      rw [hopen] at hread hlist
    · cases hlist
    · cases hlist
      refine List.mem_filterMap.mpr ⟨_, List.mem_eraseDups.mpr ?_,
        ClassRoot.stemInPackage?_eq_some.mpr ⟨hslash, rfl⟩⟩
      by_contra hmem
      dsimp only at hread
      rw [Archive.Directory.find?_eq_none_iff.mpr hmem] at hread
      cases hread

end OwnedRoot

/-! ### Names of nested classes -/

namespace Text

variable {sep : Char → Bool} {s : List Char}

theorem of_mem_afterLast {c : Char} (h : c ∈ afterLast sep s) : c ∈ s := by
  rw [afterLast, List.mem_reverse] at h
  exact List.mem_reverse.mp ((List.takeWhile_sublist _).subset h)

theorem afterLast_append {back : List Char} (h : ∀ c ∈ back, sep c = false) (front : List Char) :
    afterLast sep (front ++ back) = afterLast sep front ++ back := by
  have hback : ∀ c ∈ back.reverse, (!sep c) = true := fun c hc => by
    rw [h c (List.mem_reverse.mp hc)]
    rfl
  rw [afterLast, List.reverse_append, List.takeWhile_append_of_pos hback, List.reverse_append,
    List.reverse_reverse, afterLast]

theorem afterLast_append_of_mem {back : List Char} {c : Char} (hc : c ∈ back) (hsep : sep c = true)
    (front : List Char) : afterLast sep (front ++ back) = afterLast sep back := by
  have hshort : (back.reverse.takeWhile fun c => !sep c).length ≠ back.reverse.length := by
    intro hlength
    have hall := List.takeWhile_eq_self_iff.mp
      ((List.takeWhile_prefix _).eq_of_length hlength) c (List.mem_reverse.mpr hc)
    simp [hsep] at hall
  rw [afterLast, List.reverse_append, List.takeWhile_append, if_neg hshort, afterLast]

/-- What stands behind the last separator. -/
theorem afterLast_cons {c : Char} {back : List Char} (hsep : sep c = true)
    (h : ∀ c ∈ back, sep c = false) (front : List Char) :
    afterLast sep (front ++ c :: back) = back := by
  have halone : afterLast sep [c] = [] := by
    simp [afterLast, hsep]
  rw [afterLast_append_of_mem List.mem_cons_self hsep, ← List.singleton_append, afterLast_append h,
    halone, List.nil_append]

end Text

namespace ClassKind

open ClassName (isSeparator)

variable {outer segment : String}

/-- What a name says of the kind of its class stands behind the last `$`, as long as no package
begins there. -/
theorem lastSegment_nested (hdollar : '$' ∉ segment.toList)
    (hplain : ∀ c ∈ segment.toList, isSeparator c = false) :
    lastSegment (ClassName.simple (outer ++ "$" ++ segment)).toList = some segment.toList := by
  have hname : (outer ++ "$" ++ segment).toList = outer.toList ++ '$' :: segment.toList := by
    simp
  have hback : ∀ c ∈ '$' :: segment.toList, isSeparator c = false := by
    intro c hc
    rcases List.mem_cons.mp hc with rfl | hc
    · decide
    · exact hplain c hc
  rw [ClassName.simple, String.toList_ofList, hname, Text.afterLast_append hback, lastSegment,
    if_pos (by simp), Text.afterLast_cons (by decide)]
  intro c hc
  exact beq_eq_false_iff_ne.mpr fun he => hdollar (he ▸ hc)

theorem ofName_member (hname : (outer ++ "$" ++ segment).toList.head? ≠ some '[')
    (hfilled : segment ≠ "") (hdollar : '$' ∉ segment.toList)
    (hdigit : ¬ segment.toList.head?.any Char.isDigit)
    (hplain : ∀ c ∈ segment.toList, isSeparator c = false) :
    ofName (outer ++ "$" ++ segment) = .member := by
  unfold ofName
  rw [if_neg hname, lastSegment_nested hdollar hplain]
  obtain ⟨c, rest, hsegment⟩ := List.exists_cons_of_ne_nil (l := segment.toList) (by simpa)
  rw [hsegment] at hdigit ⊢
  have hc : c.isDigit = false := by simpa using hdigit
  simp [hc]

/-- A class in a package below that of another is a class of its own. -/
theorem ofName_topLevel (hname : (outer ++ "$" ++ segment).toList.head? ≠ some '[')
    (hdot : '.' ∈ segment.toList) (hdollar : '$' ∉ segment.toList) :
    ofName (outer ++ "$" ++ segment) = .topLevel := by
  have hsimple : ClassName.simple (outer ++ "$" ++ segment) = ClassName.simple segment := by
    rw [ClassName.simple, String.toList_append, Text.afterLast_append_of_mem hdot (by decide),
      ClassName.simple]
  have hnone : lastSegment (ClassName.simple segment).toList = none := by
    rw [lastSegment, if_neg fun h => hdollar ?_]
    rw [ClassName.simple, String.toList_ofList] at h
    exact Text.of_mem_afterLast h
  unfold ofName
  rw [if_neg hname, hsimple, hnone]

end ClassKind

/-! ### Members -/

namespace Loader

/-- What may stand behind the name of a class and a `$` in the name of another that is looked for as
its member: neither further nesting nor a number in front. -/
structure Segment (s : String) : Prop where
  filled : s ≠ ""
  slash : '/' ∉ s.toList
  dollar : '$' ∉ s.toList
  digit : ¬ s.toList.head?.any Char.isDigit

/-- Where the file of a class stands that is looked for as a member of another. -/
def memberPath (outer segment : String) : String :=
  toInternal outer ++ "$" ++ segment ++ ".class"

/-- One of the loader's own roots has a file at the path. -/
def Has (self : Loader) (path : String) (w : World) : Prop :=
  ∃ r ∈ self.owned, ∃ b, (r.read path w).1 = .ok (some b)

/-- The loader's own roots can be listed where the class is, and whatever is listed for a member can
be read and looked up. -/
structure Intact (self : Loader) (outer : String) (w : World) : Prop where
  lists : ∀ r ∈ self.owned, ∃ stems,
    (r.list (splitPackage (toInternal outer)).1 w).1 = .ok stems
  reads : ∀ r ∈ self.owned, ∀ stems,
    (r.list (splitPackage (toInternal outer)).1 w).1 = .ok stems → ∀ stem ∈ stems, ∀ segment,
      memberSegment? (splitPackage (toInternal outer)).2 stem = some segment →
        (∃ b, (r.read (memberPath outer segment) w).1 = .ok (some b)) ∧
          ∃ found, (self.load (outer ++ "$" ++ segment) w).1 = .ok found

/-- The class that is found for a name, if one is. -/
def found? (self : Loader) (name : String) (w : World) : Option ClassRef :=
  (self.load name w).1.toOption.join

variable {l self : Loader} {name outer package simple : String} {roots : List OwnedRoot} {w : World}

theorem found?_eq_some {d : ClassRef} :
    self.found? name w = some d ↔ (self.load name w).1 = .ok (some d) := by
  unfold found?
  cases (self.load name w).1 <;> simp [Except.toOption, Option.join]

theorem memberNames_reproducible (hroots : Separate roots) (hself : self.owned ⊆ roots)
    (outer : String) : Reproducible roots (memberNames self.id self.ownRoots outer) := by
  unfold memberNames
  refine .bind (.mapM fun e he => ?_) fun stems => .pure _
  have hr : (⟨self.id, e.2, e.1⟩ : OwnedRoot) ∈ self.owned := List.mem_map_of_mem he
  exact OwnedRoot.list_reproducible hroots (hself hr) _

/-- What the members of a class are does not change by asking for this or that. -/
theorem members_reproducible (hl : self.IsArchives) (hroots : Separate roots)
    (hself : self.allRoots ⊆ roots) (outer : String) :
    Reproducible roots ((self.archiveClass outer).members) := by
  have hlevels : ∀ level ∈ self.levels, level.owned ⊆ roots := fun _ hlevel =>
    List.Subset.trans (owned_subset_allRoots hlevel) hself
  refine .bind (.mapFailure ?_) fun names => .bind (.mapM fun n _ => ?_) fun found => .pure _
  · exact memberNames_reproducible hroots (hlevels self (self_mem_levels self)) outer
  · exact load_reproducible hl hroots hlevels n

/-- The names of the members in the order in which the roots list them. -/
theorem memberNames_of_lists (hroots : Separate roots) (hself : self.owned ⊆ roots)
    (hsplit : splitPackage (toInternal outer) = (package, simple))
    {stems : OwnedRoot → List String}
    (hlist : ∀ r ∈ self.owned, (r.list package w).1 = .ok (stems r)) :
    Gives (w.Reopens roots) (memberNames self.id self.ownRoots outer)
      (· = .ok (((self.owned.map stems).flatten.filterMap (memberSegment? simple)).eraseDups.map
        (outer ++ "$" ++ ·))) := by
  unfold memberNames
  rw [hsplit]
  have hstems : Gives (w.Reopens roots)
      (self.ownRoots.zipIdx.mapM fun e => e.1.listPackage self.id e.2 package)
      (· = .ok (self.owned.map stems)) := by
    rw [owned, List.map_map]
    refine .mapM_ok fun e he => ?_
    have hr : (⟨self.id, e.2, e.1⟩ : OwnedRoot) ∈ self.owned := List.mem_map_of_mem he
    refine (OwnedRoot.list_reproducible hroots (hself hr) package w).imp fun r hlisted => ?_
    exact hlisted.trans (hlist _ hr)
  exact hstems.thenOk (.pure rfl)

/-- Members are loaded one by one. -/
theorem archiveMembers_of_loads {c : ClassRef} {names : List String}
    {found : String → Option ClassRef} (hl : self.IsArchives) (hroots : Separate self.allRoots)
    (hnames : Gives (w.Reopens self.allRoots) (memberNames self.id self.ownRoots c.name)
      (· = .ok names)) (hload : ∀ n ∈ names, (self.load n w).1 = .ok (found n)) :
    (ClassRef.archiveMembers c self w).1 = .ok (names.filterMap found) := by
  have hmembers : Gives (w.Reopens self.allRoots) (ClassRef.archiveMembers c self)
      (· = .ok (names.filterMap found)) := by
    refine .thenOk (x := names) (.mapFailure (hnames.imp fun r hr => by rw [hr]; rfl)) ?_
    refine .thenOk (x := names.map found) (.mapM_ok fun n hn => ?_) (.pure ?_)
    · refine (load_reproducible hl hroots (fun _ => owned_subset_allRoots) n w).imp fun r hr => ?_
      exact hr.trans (hload n hn)
    · rw [List.filterMap_map]
      rfl
  exact (hmembers w (.refl _ w)).1

/-- A class is in the package that its name is taken apart into, unless all that stands before its
simple name is a dot. -/
theorem splitPackage_toInternal (hslash : '/' ∉ outer.toList)
    (hdot : ∀ rest, outer = "." ++ rest → '.' ∈ rest.toList) :
    ∃ package simple, splitPackage (toInternal outer) = (package, simple) ∧ '/' ∉ simple.toList ∧
      toInternal outer = inPackage package simple ∧ (package = "" → '.' ∉ outer.toList) := by
  have hdots : ∀ {s : String}, '.' ∈ s.toList → '/' ∈ (toInternal s).toList := fun h => by
    rw [toInternal, String.toList_map]
    exact List.mem_map.mpr ⟨'.', h, rfl⟩
  obtain ⟨package, simple, hsplit, hsimple, hinternal | ⟨-, hinternal⟩⟩ :=
    splitPackage_cases (toInternal outer)
  · refine ⟨package, simple, hsplit, hsimple, hinternal, fun hpackage hmem => hsimple ?_⟩
    rw [inPackage, if_pos hpackage] at hinternal
    exact hinternal ▸ hdots hmem
  · -- The name begins with a dot and has no other.
    have hchars : outer.toList.map (fun c => if c = '.' then '/' else c) =
        '/' :: simple.toList := by
      rw [← String.toList_map, ← toInternal, hinternal, String.toList_append]
      rfl
    obtain ⟨c, rest, houter, hc, hrest⟩ := List.map_eq_cons_iff.mp hchars
    have hsimple' : toInternal (.ofList rest) = simple := by
      rw [toInternal, ← String.toList_inj, String.toList_map, String.toList_ofList, hrest]
    obtain rfl : c = '.' := by
      by_contra hne
      rw [if_neg hne] at hc
      exact hslash (houter ▸ hc ▸ List.mem_cons_self)
    refine absurd (hdots (hdot (.ofList rest) (String.toList_inj.mp ?_))) (hsimple' ▸ hsimple)
    simp [houter]

/-- The names that are looked up are those for which one of the roots has a file. -/
theorem exists_memberNames (hroots : Separate roots) (hself : self.owned ⊆ roots)
    (hslash : '/' ∉ outer.toList) (hdot : ∀ rest, outer = "." ++ rest → '.' ∈ rest.toList)
    (hplace : .directory "" ∈ self.ownRoots → '.' ∈ outer.toList) (hintact : self.Intact outer w) :
    ∃ names, Gives (w.Reopens roots) (memberNames self.id self.ownRoots outer) (· = .ok names) ∧
      names.Nodup ∧
      (∀ n ∈ names, ∃ segment, n = outer ++ "$" ++ segment ∧ segment ≠ "" ∧
        '$' ∉ segment.toList ∧ ¬ segment.toList.head?.any Char.isDigit ∧
        self.Has (memberPath outer segment) w ∧ ∃ found, (self.load n w).1 = .ok found) ∧
      ∀ segment, Segment segment → self.Has (memberPath outer segment) w →
        outer ++ "$" ++ segment ∈ names := by
  obtain ⟨package, simple, hsplit, hsimple, hinternal, hdots⟩ :=
    splitPackage_toInternal hslash hdot
  obtain ⟨hlists, hreads⟩ := hintact
  rw [hsplit] at hlists hreads
  choose! stems hstems using hlists
  refine ⟨_, memberNames_of_lists hroots hself hsplit hstems, ?_, fun n hn => ?_,
    fun segment hsegment ⟨r, hr, b, hread⟩ => ?_⟩
  · exact (nodup_eraseDups _).map fun a b hab => (String.append_right_inj _).mp hab
  · obtain ⟨segment, hsegment, rfl⟩ := List.mem_map.mp hn
    obtain ⟨stem, hstem, hsegment⟩ := List.mem_filterMap.mp (List.mem_eraseDups.mp hsegment)
    obtain ⟨_, hlisted, hstem⟩ := List.mem_flatten.mp hstem
    obtain ⟨r, hr, rfl⟩ := List.mem_map.mp hlisted
    obtain ⟨hread, hload⟩ := hreads r hr _ (hstems r hr) stem hstem segment hsegment
    obtain ⟨-, hfilled, hdollar, hdigit⟩ := memberSegment?_eq_some.mp hsegment
    exact ⟨segment, rfl, hfilled, hdollar, hdigit, ⟨r, hr, hread⟩, hload⟩
  · have hroot : r.root ∈ self.ownRoots := by
      obtain ⟨e, he, rfl⟩ := List.mem_map.mp hr
      exact List.fst_mem_of_mem_zipIdx he
    have hpath : memberPath outer segment =
        inPackage package (simple ++ "$" ++ segment) ++ ".class" := by
      rw [memberPath, hinternal, ClassName.inPackage_append, ClassName.inPackage_append]
    rw [hpath] at hread
    have hstem : simple ++ "$" ++ segment ∈ stems r := by
      refine OwnedRoot.mem_list_of_read ?_ (fun hpackage hhere => ?_) hread (hstems r hr)
      · simp [hsimple, hsegment.slash]
      · exact hdots hpackage (hplace (hhere ▸ hroot))
    refine List.mem_map_of_mem (List.mem_eraseDups.mpr (List.mem_filterMap.mpr
      ⟨_, List.mem_flatten.mpr ⟨_, List.mem_map_of_mem hr, hstem⟩, ?_⟩))
    exact memberSegment?_eq_some.mpr ⟨rfl, hsegment.filled, hsegment.dollar, hsegment.digit⟩

/-- The members of a class are the classes of the names for which one of its loader's own roots has
a file, each once, as far as these classes can be loaded. Such a name may have dots behind the `$`:
then the class is not a member by its kind. A class is left out if its only dot comes first, since
paths take that for a package and listings do not; so is a class in no package where one of the
roots is the empty path, below which files are found but which cannot be listed. -/
theorem members_have_files {c : ClassRef} {w₀ : World} (hl : l.IsArchives) (hids : l.Apart)
    (hc : (l.load name w₀).1 = .ok (some c)) (hself : c.loader = some self)
    (hdot : ∀ rest, c.name = "." ++ rest → '.' ∈ rest.toList)
    (hplace : .directory "" ∈ self.ownRoots → '.' ∈ c.name.toList)
    (hintact : self.Intact c.name w) :
    ∃ cs, (c.members w).1 = .ok cs ∧ (cs.map (·.name)).Nodup ∧
      (∀ d, d ∈ cs ↔ ∃ segment, Segment segment ∧ self.Has (memberPath c.name segment) w ∧
        (self.load (c.name ++ "$" ++ segment) w).1 = .ok (some d)) ∧
      ∀ d ∈ cs, ∀ segment, d.name = c.name ++ "$" ++ segment →
        d.kind = if '.' ∈ segment.toList then .topLevel else .member := by
  obtain ⟨-, hslash, level, hlevel, rfl⟩ := archiveClass_of_load hl hc
  obtain rfl : level = self := Option.some.inj hself
  have harchives : level.IsArchives := hl.level hlevel
  have hroots : Separate level.allRoots := (hids.level hlevel).separate
  obtain ⟨names, hnames, hnodup, hlisted, hmem⟩ := exists_memberNames hroots
    (owned_subset_allRoots (self_mem_levels level)) hslash hdot hplace hintact
  have hload : ∀ n ∈ names, (level.load n w).1 = .ok (level.found? n w) := by
    intro n hn
    obtain ⟨-, -, -, -, -, -, found, hfound⟩ := hlisted n hn
    rw [found?, hfound]
    rfl
  have hcs : ((level.archiveClass name).members w).1 = .ok (names.filterMap (level.found? · w)) :=
    archiveMembers_of_loads harchives hroots hnames hload
  have hclass : ∀ {n d}, level.found? n w = some d →
      n.toList.head? ≠ some '[' ∧ '/' ∉ n.toList ∧ ∃ self, d = archiveClass self n := by
    intro n d hd
    obtain ⟨hhead, hslash, self, -, hd⟩ := archiveClass_of_load harchives (found?_eq_some.mp hd)
    exact ⟨hhead, hslash, self, hd⟩
  refine ⟨_, hcs, ?_, fun d => ?_, fun d hd segment hsegment => ?_⟩
  · rw [List.map_filterMap]
    refine hnodup.filterMap fun n n' m hm hm' => ?_
    obtain ⟨d, hd, rfl⟩ := Option.map_eq_some_iff.mp hm
    obtain ⟨d', hd', hname⟩ := Option.map_eq_some_iff.mp hm'
    obtain ⟨-, -, _, rfl⟩ := hclass hd
    obtain ⟨-, -, _, rfl⟩ := hclass hd'
    exact hname.symm
  · rw [List.mem_filterMap]
    constructor
    · rintro ⟨n, hn, hd⟩
      obtain ⟨segment, rfl, hfilled, hdollar, hdigit, hhas, -⟩ := hlisted n hn
      obtain ⟨-, hslash, -⟩ := hclass hd
      exact ⟨segment, ⟨hfilled, fun h => hslash (by simp [h]), hdollar, hdigit⟩, hhas,
        found?_eq_some.mp hd⟩
    · rintro ⟨segment, hsegment, hhas, hd⟩
      exact ⟨_, hmem segment hsegment hhas, found?_eq_some.mpr hd⟩
  · obtain ⟨n, hn, hd⟩ := List.mem_filterMap.mp hd
    obtain ⟨hhead, hslash, _, rfl⟩ := hclass hd
    obtain ⟨segment', rfl, hfilled, hdollar, hdigit, -⟩ := hlisted n hn
    obtain rfl := (String.append_right_inj _).mp hsegment
    change ClassKind.ofName (name ++ "$" ++ segment') = _
    split
    · next hdot => exact ClassKind.ofName_topLevel hhead hdot hdollar
    · next hdot =>
      refine ClassKind.ofName_member hhead hfilled hdollar hdigit fun c hc => ?_
      have hne : c ≠ '.' := fun he => hdot (he ▸ hc)
      have hne' : c ≠ '/' := fun he => hslash (by simp [he ▸ hc])
      simp [ClassName.isSeparator, hne, hne']

section Stray

/-- A class file that does nothing but define the class of a name. -/
def namedClass (letters : Bytes) : Bytes :=
  [0xCA, 0xFE, 0xBA, 0xBE, 0, 0, 0, 0x34, 0, 3, 1, 0, .ofNat letters.length] ++ letters ++
    [7, 0, 1, 0, 0, 0, 2]

/-- A directory with the files of a class, of a member of it, and of a class in the package `A$a`,
beside the first of which stands a file that bears the name of the last, with its dot. -/
def withStray : World where
  files :=
    { nodes := #[
        ⟨.directory [("d", 1)], 0o755⟩,
        ⟨.directory [("A.class", 2), ("A$M.class", 3), ("A$a.b.class", 2), ("A$a", 4)], 0o755⟩,
        ⟨.file (namedClass [0x41]), 0o644⟩,
        ⟨.file (namedClass [0x41, 0x24, 0x4D]), 0o644⟩,
        ⟨.directory [("b.class", 5)], 0o755⟩,
        ⟨.file (namedClass [0x41, 0x24, 0x61, 0x2F, 0x62]), 0o644⟩]
      working := FileSystem.rootPlace }

def overDirectory : Loader := archive 1 [.directory "/d"]

def outerClass : ClassRef := overDirectory.archiveClass "A"

theorem load_withStray : (overDirectory.load "A" withStray).1 = .ok (some outerClass) ∧
    ∀ segment ∈ ["M", "a.b"], (overDirectory.load ("A" ++ "$" ++ segment) withStray).1 =
      .ok (some (overDirectory.archiveClass ("A" ++ "$" ++ segment))) := by
  decide +kernel

theorem has_withStray : ∀ segment ∈ ["M", "a.b"],
    overDirectory.Has (memberPath "A" segment) withStray := by
  have hread : ∀ segment ∈ ["M", "a.b"], ∃ b ∈ [namedClass [0x41], namedClass [0x41, 0x24, 0x4D]],
      ((⟨1, 0, .directory "/d"⟩ : OwnedRoot).read (memberPath "A" segment) withStray).1 =
        .ok (some b) := by
    decide +kernel
  intro segment hsegment
  obtain ⟨b, -, hb⟩ := hread segment hsegment
  exact ⟨_, List.mem_cons_self, b, hb⟩

theorem intact_withStray : overDirectory.Intact "A" withStray := by
  have hsplit : splitPackage (toInternal "A") = ("", "A") := by cbv
  have hlist : ((⟨1, 0, .directory "/d"⟩ : OwnedRoot).list "" withStray).1 =
      .ok ["A", "A$M", "A$a.b"] := by
    decide +kernel
  have hsegments : ∀ stem ∈ ["A", "A$M", "A$a.b"], ∀ segment ∈ memberSegment? "A" stem,
      segment ∈ ["M", "a.b"] := by
    decide +kernel
  refine ⟨List.forall_mem_singleton.mpr ?_, List.forall_mem_singleton.mpr ?_⟩ <;> rw [hsplit]
  · exact ⟨_, hlist⟩
  · intro stems hstems stem hstem segment hsegment
    cases hlist.symm.trans hstems
    have hmem := hsegments stem hstem segment hsegment
    obtain ⟨r, hr, hread⟩ := has_withStray segment hmem
    obtain rfl := List.mem_singleton.mp hr
    exact ⟨hread, _, load_withStray.2 segment hmem⟩

theorem members_have_files_withStray :
    (overDirectory.load "A" withStray).1 = .ok (some outerClass) ∧
      overDirectory.Intact outerClass.name withStray ∧
      ∃ cs, (outerClass.members withStray).1 = .ok cs ∧
        ∀ segment ∈ ["M", "a.b"], overDirectory.archiveClass ("A" ++ "$" ++ segment) ∈ cs := by
  have hdot : ∀ rest, outerClass.name = "." ++ rest → '.' ∈ rest.toList := by
    intro rest h
    have hhead := congrArg (fun s => s.toList.head?) h
    simp [outerClass, archiveClass] at hhead
  obtain ⟨cs, hcs, -, hmem, -⟩ := members_have_files (w := withStray) (l := overDirectory) trivial
    (List.nodup_singleton _) load_withStray.1 rfl hdot (by decide) intact_withStray
  refine ⟨load_withStray.1, intact_withStray, cs, hcs, fun segment hsegment => ?_⟩
  have hplain : Segment segment := by
    rcases List.mem_pair.mp hsegment with rfl | rfl <;> constructor <;> decide
  exact (hmem _).mpr ⟨segment, hplain, has_withStray segment hsegment,
    load_withStray.2 segment hsegment⟩

/-- A class in another package is listed among the members. -/
theorem stray_is_listed :
    ¬ ∀ (l self : Loader) (name : String) (c : ClassRef) (w₀ w : World), l.IsArchives → l.Apart →
      (l.load name w₀).1 = .ok (some c) → c.loader = some self → self.Intact c.name w →
        ∃ cs, (c.members w).1 = .ok cs ∧
          (∀ d, d ∈ cs ↔ ∃ segment, Segment segment ∧ '.' ∉ segment.toList ∧
            self.Has (memberPath c.name segment) w ∧
            (self.load (c.name ++ "$" ++ segment) w).1 = .ok (some d)) ∧
          ∀ d ∈ cs, d.kind = .member := by
  intro hexact
  have hmembers : (outerClass.members withStray).1 =
      .ok [overDirectory.archiveClass "A$M", overDirectory.archiveClass "A$a.b"] := by
    decide +kernel
  obtain ⟨cs, hcs, -, hkind⟩ := hexact overDirectory overDirectory "A" outerClass withStray
    withStray trivial (List.nodup_singleton _) load_withStray.1 rfl intact_withStray
  cases hmembers.symm.trans hcs
  have hstray := hkind (overDirectory.archiveClass "A$a.b") (by simp)
  revert hstray
  decide +kernel

end Stray

end Loader

end ClassRecovery
