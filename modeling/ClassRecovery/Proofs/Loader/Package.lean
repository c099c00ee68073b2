import Mathlib
import ClassRecovery.Loader.Archive
import ClassRecovery.Proofs.Files.Below

/-!
Names of class files. The file of a class stands in the directory of its package, under its simple
name; so the names of files in a package and the names of its classes tell each other.
-/

namespace ClassRecovery

namespace ClassName

open FileSystem (byteLength nameLimit pathLimit pieces FilePath Reachable)

variable {directory name other : String}

theorem dot_notMem_toInternal (name : String) : '.' ∉ (toInternal name).toList := by
  intro h
  rw [toInternal, String.toList_map, List.mem_map] at h
  obtain ⟨c, -, hc⟩ := h
  split at hc
  · exact absurd hc (by decide)
  · next hne => exact hne hc

theorem nul_mem_toInternal_iff (name : String) :
    '\x00' ∈ (toInternal name).toList ↔ '\x00' ∈ name.toList := by
  rw [toInternal, String.toList_map, List.mem_map]
  constructor
  · rintro ⟨c, hmem, hc⟩
    split at hc
    · exact absurd hc (by decide)
    · exact hc ▸ hmem
  · exact fun hmem => ⟨_, hmem, by decide⟩

theorem toInternal_append (a b : String) : toInternal (a ++ b) = toInternal a ++ toInternal b := by
  apply String.toList_inj.mp
  simp [toInternal]

theorem toInternal_eq_self {name : String} (h : '.' ∉ name.toList) : toInternal name = name := by
  apply String.toList_inj.mp
  rw [toInternal, String.toList_map]
  refine (List.map_congr_left fun c hc => if_neg ?_).trans (List.map_id _)
  rintro rfl
  exact h hc

/-- Names without slashes are told apart by their internal forms. -/
theorem toInternal_inj (h : '/' ∉ name.toList) (h' : '/' ∉ other.toList)
    (heq : toInternal name = toInternal other) : name = other := by
  have hback : ∀ n : String, '/' ∉ n.toList → toQualified (toInternal n) = n := by
    intro n hn
    apply String.toList_inj.mp
    rw [toQualified, toInternal, String.toList_map, String.toList_map, List.map_map]
    refine (List.map_congr_left fun c hc => ?_).trans (List.map_id _)
    have hne : c ≠ '/' := fun he => hn (he ▸ hc)
    by_cases hdot : c = '.' <;> simp [hdot, hne]
  rw [← hback name h, heq, hback other h']

/-- None of the segments of the name is empty, and its file can be looked up below a directory. -/
structure FitsBelow (directory name : String) : Prop where
  inner : Path.Inner (toInternal name)
  nul : '\x00' ∉ name.toList
  names : ∀ piece ∈ pieces (resourcePath name), byteLength piece ≤ nameLimit
  short : byteLength (Path.join directory (resourcePath name)) ≤ pathLimit

theorem FitsBelow.congr (h : FitsBelow directory name)
    (heq : toInternal other = toInternal name) : FitsBelow directory other := by
  have hpath : resourcePath other = resourcePath name := by rw [resourcePath, heq, resourcePath]
  refine ⟨heq ▸ h.inner, ?_, hpath ▸ h.names, hpath ▸ h.short⟩
  rw [← nul_mem_toInternal_iff, heq, nul_mem_toInternal_iff]
  exact h.nul

theorem resourcePath_inj (h : resourcePath name = resourcePath other) :
    toInternal name = toInternal other :=
  (String.append_left_inj _).mp h

/-- The names in a path to a class file: those of the packages, and that of the file. -/
theorem pieces_resourcePath (h : Path.Inner (toInternal name)) :
    Path.Inner (resourcePath name) ∧ ∃ front last, pieces (toInternal name) = front ++ [last] ∧
      pieces (resourcePath name) = front ++ [last ++ ".class"] :=
  h.append (by decide)

theorem dot_notMem_pieces (name : String) {piece : String} (h : piece ∈ pieces (toInternal name)) :
    '.' ∉ piece.toList := fun hdot =>
  dot_notMem_toInternal name (Text.mem_of_mem_split (List.mem_filter.mp h).1 hdot).1

theorem filePath_resourcePath (h : Path.Inner (toInternal name)) :
    FilePath (pieces (resourcePath name)) := by
  obtain ⟨-, front, last, hname, hpath⟩ := pieces_resourcePath h
  refine ⟨front, _, hpath, by simp, fun piece hp => dot_notMem_pieces name ?_⟩
  rw [hname]
  exact List.mem_append_left _ hp

theorem FitsBelow.reachable (h : FitsBelow directory name) :
    Reachable directory (resourcePath name) := by
  obtain ⟨hinner, front, last, hname, hpath⟩ := pieces_resourcePath h.inner
  refine ⟨hinner, ?_, fun piece hp => ⟨?_, ?_, h.names piece hp⟩, h.short⟩
  · intro hnul
    rw [resourcePath, String.toList_append, List.mem_append] at hnul
    rcases hnul with hnul | hnul
    · exact h.nul ((nul_mem_toInternal_iff name).mp hnul)
    · exact absurd hnul (by decide)
  all_goals
    rintro rfl
    rw [hpath, List.mem_append, List.mem_singleton] at hp
    rcases hp with hp | hp
    · exact dot_notMem_pieces name (hname ▸ List.mem_append_left _ hp) (by decide)
    · have hlength := congrArg (·.toList.length) hp
      simp at hlength

/-- The internal name of a class, by its package and its simple name. -/
def inPackage (package simple : String) : String :=
  if package = "" then simple else package ++ "/" ++ simple

theorem inPackage_append (package simple tail : String) :
    inPackage package (simple ++ tail) = inPackage package simple ++ tail := by
  unfold inPackage
  split
  · rfl
  · rw [String.append_assoc, String.append_assoc, String.append_assoc]

theorem pieces_inPackage (package : String) {simple : String} (h : '/' ∉ simple.toList)
    (hne : simple ≠ "") : pieces (inPackage package simple) = pieces package ++ [simple] := by
  have hsimple : pieces simple = [simple] := by
    rw [pieces, Text.split_of_notMem h, List.filter_singleton]
    simp [hne]
  unfold inPackage
  split
  · next hempty =>
    subst hempty
    rw [hsimple, show pieces "" = [] by decide, List.nil_append]
  · rw [Path.pieces_slash, hsimple]

theorem inner_inPackage {package simple : String} (hpackage : package = "" ∨ Path.Inner package)
    (h : '/' ∉ simple.toList) (hne : simple ≠ "") : Path.Inner (inPackage package simple) := by
  have hsimple : Path.Inner simple := Path.inner_of_notMem h hne
  unfold inPackage
  rcases hpackage with rfl | hpackage
  · exact hsimple
  · rw [if_neg hpackage.ne_empty, Path.inner_slash]
    exact ⟨hpackage, hsimple⟩

/-- A class whose name goes on behind those of a package is in the package. -/
theorem eq_inPackage {package simple : String} (hpackage : package = "" ∨ Path.Inner package)
    (h : Path.Inner (toInternal name))
    (hpieces : pieces (toInternal name) = pieces package ++ [simple]) :
    '/' ∉ simple.toList ∧ toInternal name = inPackage package simple := by
  have hmem : simple ∈ Text.split '/' (toInternal name) := by
    rw [← h.pieces, hpieces]
    exact List.mem_append_right _ List.mem_cons_self
  have hslash : '/' ∉ simple.toList := fun hs => (Text.mem_of_mem_split hmem hs).2 rfl
  have hne : simple ≠ "" := fun he => h (he ▸ hmem)
  refine ⟨hslash, h.inj (inner_inPackage hpackage hslash hne) ?_⟩
  rw [hpieces, pieces_inPackage package hslash hne]

end ClassName

namespace Text

variable {sep : Char}

theorem notMem_afterLast (sep : Char) (s : List Char) : sep ∉ afterLast (· == sep) s := by
  intro h
  rw [afterLast, List.mem_reverse] at h
  simpa using List.mem_takeWhile_imp h

/-- The last separator divides a text. -/
theorem eq_append_afterLast {s : List Char} (h : sep ∈ s) :
    ∃ front, s = front ++ sep :: afterLast (· == sep) s := by
  have hdivide := List.takeWhile_append_dropWhile (p := fun c => !(c == sep)) (l := s.reverse)
  cases hdrop : s.reverse.dropWhile fun c => !(c == sep) with
  | nil =>
    rw [List.dropWhile_eq_nil_iff] at hdrop
    simpa using hdrop sep (by simpa using h)
  | cons c front =>
    have hc : c = sep := by
      have hne : s.reverse.dropWhile (fun c => !(c == sep)) ≠ [] := by simp [hdrop]
      simpa [hdrop] using List.head_dropWhile_not _ hne
    rw [hdrop, hc] at hdivide
    refine ⟨front.reverse, ?_⟩
    have hreverse := congrArg List.reverse hdivide
    simpa [afterLast] using hreverse.symm

end Text

namespace Loader

open ClassName (inPackage)

/-- A name is taken apart at its last slash. Where that is the very first character, the package has
no name either, as if there were no slash at all. -/
theorem splitPackage_cases (internal : String) :
    ∃ package simple, splitPackage internal = (package, simple) ∧ '/' ∉ simple.toList ∧
      (internal = inPackage package simple ∨ package = "" ∧ internal = "/" ++ simple) := by
  unfold splitPackage
  dsimp only
  split
  · next hslash =>
    obtain ⟨front, hfront⟩ := Text.eq_append_afterLast hslash
    generalize hlast : Text.afterLast (· == '/') internal.toList = last at hfront ⊢
    have hlength : internal.toList.length - last.length - 1 = front.length := by
      rw [hfront, List.length_append, List.length_cons]
      omega
    have hinternal : internal = .ofList front ++ "/" ++ .ofList last := by
      apply String.toList_inj.mp
      simp [hfront]
    refine ⟨.ofList front, .ofList last, ?_, ?_, ?_⟩
    · rw [hlength, hfront, List.take_left]
    · rw [String.toList_ofList, ← hlast]
      exact Text.notMem_afterLast '/' internal.toList
    · by_cases hempty : String.ofList front = ""
      · exact .inr ⟨hempty, by rw [hinternal, hempty, String.empty_append]⟩
      · exact .inl (by rw [inPackage, if_neg hempty, hinternal])
  · next hslash => exact ⟨"", internal, rfl, hslash, .inl rfl⟩

/-- A name is taken apart into its package and its simple name. -/
theorem splitPackage_eq {internal : String} (h : Path.Inner internal) :
    ∃ package simple, splitPackage internal = (package, simple) ∧ '/' ∉ simple.toList ∧
      internal = inPackage package simple ∧ (package = "" ∨ Path.Inner package) := by
  obtain ⟨package, simple, hsplit, hslash, hinternal | ⟨-, hinternal⟩⟩ :=
    splitPackage_cases internal
  · refine ⟨package, simple, hsplit, hslash, hinternal, or_iff_not_imp_left.mpr fun hne => ?_⟩
    rw [hinternal, inPackage, if_neg hne, Path.inner_slash] at h
    exact h.1
  · have habsolute := h.not_isAbsolute
    simp [Path.isAbsolute, hinternal] at habsolute

/-- The directory of the package of a class can be looked up where its file can be. -/
theorem reachable_package {directory name package simple : String}
    (h : ClassName.FitsBelow directory name)
    (hsplit : splitPackage (ClassName.toInternal name) = (package, simple)) :
    package = "" ∨ FileSystem.Reachable directory package ∧
      ∀ piece ∈ FileSystem.pieces package, '.' ∉ piece.toList := by
  obtain ⟨_, _, hsplit', -, hinternal, hpackage⟩ := splitPackage_eq h.inner
  cases hsplit.symm.trans hsplit'
  refine hpackage.imp_right fun hinner => ?_
  rw [inPackage, if_neg hinner.ne_empty] at hinternal
  have hpath : ClassName.resourcePath name = package ++ ("/" ++ (simple ++ ".class")) := by
    rw [ClassName.resourcePath, hinternal, String.append_assoc, String.append_assoc]
  have hfile := h.reachable
  rw [hpath] at hfile
  refine ⟨⟨hinner, fun hnul => hfile.nul ?_, fun piece hp => hfile.names piece ?_, ?_⟩, ?_⟩
  · rw [String.toList_append]
    exact List.mem_append_left _ hnul
  · rw [← String.append_assoc, Path.pieces_slash]
    exact List.mem_append_left _ hp
  · have hshort := hfile.short
    rw [Path.join_append directory hinner.ne_empty, FileSystem.byteLength_append] at hshort
    omega
  · intro piece hp
    refine ClassName.dot_notMem_pieces name ?_
    rw [hinternal, Path.pieces_slash]
    exact List.mem_append_left _ hp

end Loader

namespace ClassRoot

open ClassName (inPackage)

variable {stem entry tail : String}

theorem dropSuffix?_eq_some : dropSuffix? tail entry = some stem ↔ entry = stem ++ tail := by
  unfold dropSuffix?
  constructor
  · intro h
    obtain ⟨rest, hrest, rfl⟩ := Option.map_eq_some_iff.mp h
    have happend := String.Slice.eq_append_of_dropSuffix?_string_eq_some hrest
    simpa using happend
  · rintro rfl
    have hends : (stem ++ tail).toSlice.endsWith tail = true := by
      rw [String.Slice.endsWith_string_iff, String.copy_toSlice, String.toList_append]
      exact List.suffix_append _ _
    cases hrest : (stem ++ tail).dropSuffix? tail with
    | none =>
      rw [String.dropSuffix?, String.Slice.dropSuffix?_eq_none_iff, hends] at hrest
      cases hrest
    | some rest =>
      have happend := String.Slice.eq_append_of_dropSuffix?_string_eq_some hrest
      rw [String.copy_toSlice, String.append_left_inj] at happend
      rw [happend]
      rfl

/-- The class file with this stem stands directly in the package. -/
theorem stemInPackage?_eq_some {package : String} :
    stemInPackage? package entry = some stem ↔
      '/' ∉ stem.toList ∧ entry = inPackage package stem ++ ".class" := by
  have hfront : ∀ s, entry = inPackage package s ++ ".class" ↔
      entry.toList = (if package = "" then [] else (package ++ "/").toList) ++
        (s ++ ".class").toList := by
    intro s
    rw [← String.toList_inj, inPackage]
    split <;> simp
  rw [hfront]
  unfold stemInPackage?
  dsimp only
  generalize (if package = "" then [] else (package ++ "/").toList) = front
  by_cases hprefix : front.isPrefixOf entry.toList
  · obtain ⟨rest, hrest⟩ := List.isPrefixOf_iff_prefix.mp hprefix
    rw [if_pos hprefix, ← hrest, List.drop_left, List.append_cancel_left_eq]
    rw [String.toList_ofList]
    split
    · next hslash =>
      refine ⟨nofun, fun ⟨hstem, hsuffix⟩ => ?_⟩
      rw [hsuffix, String.toList_append, List.mem_append] at hslash
      exact hslash.elim (fun h => absurd h hstem) fun h => absurd h (by decide)
    · next hslash =>
      rw [dropSuffix?_eq_some, ← String.toList_inj, String.toList_ofList]
      refine ⟨fun h => ⟨fun hstem => hslash ?_, h⟩, fun h => h.2⟩
      rw [h, String.toList_append]
      exact List.mem_append_left _ hstem
  · rw [if_neg hprefix]
    refine ⟨nofun, fun h => ?_⟩
    exact absurd (List.isPrefixOf_iff_prefix.mpr ⟨_, h.2.symm⟩) hprefix

end ClassRoot

end ClassRecovery
