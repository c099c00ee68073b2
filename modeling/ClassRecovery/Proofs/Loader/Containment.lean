import ClassRecovery.Collector.Dump
import ClassRecovery.Proofs.Files.Parents
import ClassRecovery.Proofs.Loader.Package

/-!
Class files that are looked for below a directory. The separators of a name become slashes, and no
dot of it is left; so behind the directory the path goes down by names only, and what it comes to
stands beneath the directory. A name that begins with a separator makes a path from the root, for
which the directory does not matter.
-/

namespace ClassRecovery

namespace Path

/-- From the directory on, the path goes down by names only. -/
def Beneath (directory path : String) : Prop :=
  ∃ names : List String, components path = components directory ++ names.map .name

variable {directory path : String}

theorem leading_of_isAbsolute (h : isAbsolute path = true) :
    leading (Text.split '/' path) = [.root] := by
  rw [leading_split, if_pos h]

theorem leading_of_relative (h : isAbsolute path = false) :
    leading (Text.split '/' path) =
      if (Text.split '/' path).head? = some "." then [.here] else [] := by
  rw [leading_split, h, if_neg Bool.false_ne_true]

/-- Names only, apart from pieces that say nothing. -/
theorem filterMap_of_plain {pieces : List String}
    (h : ∀ piece ∈ pieces, piece ≠ "." ∧ piece ≠ "..") :
    pieces.filterMap innerComponent = (pieces.filter (· ≠ "")).map .name := by
  induction pieces with
  | nil => rfl
  | cons piece pieces ih =>
    obtain ⟨⟨hdot, hup⟩, hrest⟩ := List.forall_mem_cons.mp h
    by_cases hempty : piece = ""
    · simp [innerComponent, hempty, ih hrest]
    · simp [innerComponent, hempty, hdot, hup, ih hrest]

theorem join_nothing (hp : isAbsolute path = false) : join "" path = path := by
  rw [join, hp, if_neg Bool.false_ne_true, if_pos rfl]

theorem beneath_of_plain (hp : isAbsolute path = false)
    (h : ∀ piece ∈ Text.split '/' path, piece ≠ "." ∧ piece ≠ "..") :
    Beneath directory (join directory path) := by
  refine ⟨FileSystem.pieces path, ?_⟩
  have hnames := filterMap_of_plain h
  rcases eq_or_ne directory "" with rfl | hd
  · have hfront : (Text.split '/' path).head? ≠ some "." := fun hhead =>
      (h "." (List.mem_of_mem_head? hhead)).1 rfl
    rw [join_nothing hp, components_eq, leading_of_relative hp, if_neg hfront, hnames]
    rfl
  · rw [components_join hd hp, hnames]
    rfl

theorem innerComponent_ne_root (piece : String) : innerComponent piece ≠ some .root := by
  unfold innerComponent
  split
  · exact nofun
  · split <;> exact nofun

theorem not_beneath_of_isAbsolute (hd : isAbsolute directory = false)
    (hp : isAbsolute path = true) : ¬ Beneath directory path := by
  rintro ⟨names, hnames⟩
  rw [components_eq, components_eq, leading_of_isAbsolute hp, leading_of_relative hd] at hnames
  -- Only the front of a path can say the root.
  have hroot : Component.root ∈
      (if (Text.split '/' directory).head? = some "." then [.here] else []) ++
        (Text.split '/' directory).filterMap innerComponent ++ names.map .name := by
    rw [← hnames]
    exact List.mem_cons_self
  rw [List.mem_append, List.mem_append, List.mem_filterMap, List.mem_map] at hroot
  rcases hroot with (hroot | ⟨piece, -, hpiece⟩) | ⟨name, -, hname⟩
  · split at hroot <;> simp at hroot
  · exact innerComponent_ne_root piece hpiece
  · cases hname

end Path

namespace FileSystem

variable {fs : FileSystem} {place place' : Place} {directory path : String}

/-- Names lead down. -/
theorem suffix_of_walk {names : List String} (hnames : ∀ name ∈ names, name ≠ "." ∧ name ≠ "..")
    (h : fs.walk place names = .ok place') : place <:+ place' := by
  induction names generalizing place with
  | nil =>
    cases h
    exact List.suffix_refl _
  | cons name names ih =>
    obtain ⟨⟨hdot, hup⟩, hrest⟩ := List.forall_mem_cons.mp hnames
    obtain ⟨next, hstep, hwalk⟩ := bind_eq_ok_iff.mp h
    refine List.IsSuffix.trans ?_ (ih hrest hwalk)
    unfold step at hstep
    obtain ⟨entries, -, hstep⟩ := bind_eq_ok_iff.mp hstep
    simp only [hdot, hup, ↓reduceIte] at hstep
    split at hstep
    · cases hstep
    · split at hstep
      · cases hstep
        exact List.suffix_cons _ _
      · cases hstep

/-- What a path of names comes to stands beneath what the directory comes to. -/
theorem suffix_of_place_join (hd : Path.isAbsolute directory = false)
    (hp : Path.isAbsolute path = false)
    (hnames : ∀ piece ∈ Text.split '/' path, piece ≠ "." ∧ piece ≠ "..")
    (h : fs.place (Path.join directory path) = .ok place) :
    ∃ above, fs.walk fs.working (pieces directory) = .ok above ∧ above <:+ place := by
  have hjoin : Path.isAbsolute (Path.join directory path) = false ∧
      pieces (Path.join directory path) = pieces directory ++ pieces path := by
    rcases eq_or_ne directory "" with rfl | hne
    · have hpath := Path.join_nothing hp
      exact ⟨hpath.symm ▸ hp, by rw [hpath]; rfl⟩
    · exact ⟨(Path.isAbsolute_join hne hp).trans hd, Path.pieces_join hne hp⟩
  unfold FileSystem.place at h
  obtain ⟨origin, hstart, h⟩ := bind_eq_ok_iff.mp h
  obtain ⟨-, -, -, rfl⟩ := start_eq_ok hstart
  obtain ⟨place', hwalk, h⟩ := bind_eq_ok_iff.mp h
  rw [hjoin.1, if_neg Bool.false_ne_true, hjoin.2, walk_append] at hwalk
  obtain ⟨above, habove, hbelow⟩ := bind_eq_ok_iff.mp hwalk
  obtain rfl : place' = place := by
    split at h
    · split at h <;> cases h
      rfl
    · cases h
  exact ⟨above, habove, suffix_of_walk (fun name hname => hnames name (List.mem_filter.mp hname).1)
    hbelow⟩

end FileSystem

namespace ClassName

/-- The name begins with a separator, as a path from the root does. -/
def isRooted (name : String) : Bool := name.toList.head?.any isSeparator

theorem isAbsolute_resourcePath (name : String) :
    Path.isAbsolute (resourcePath name) = isRooted name := by
  unfold Path.isAbsolute resourcePath toInternal isRooted
  rw [String.toList_append, String.toList_map]
  cases name.toList with
  | nil => rfl
  | cons c cs =>
    simp only [List.map_cons, List.cons_append, List.head?_cons, Option.some.injEq, Option.any_some,
      isSeparator]
    by_cases hdot : c = '.' <;> simp [hdot, Bool.beq_eq_decide_eq]

/-- The only dot is that of the suffix. -/
theorem plain_resourcePath (name : String) :
    ∀ piece ∈ Text.split '/' (resourcePath name), piece ≠ "." ∧ piece ≠ ".." := by
  have hsuffix : '/' ∉ ".class".toList := by decide
  obtain ⟨front, last, hname, hpath⟩ := Text.split_append (toInternal name) hsuffix
  have hdots : ∀ piece ∈ front, '.' ∉ piece.toList := by
    intro piece hpiece hdot
    have hmem : piece ∈ Text.split '/' (toInternal name) := hname ▸ List.mem_append_left _ hpiece
    exact dot_notMem_toInternal name (Text.mem_of_mem_split hmem hdot).1
  rw [resourcePath, hpath]
  intro piece hpiece
  rcases List.mem_append.mp hpiece with hpiece | hpiece
  · constructor <;> rintro rfl <;> exact hdots _ hpiece (by decide)
  · obtain rfl := List.mem_singleton.mp hpiece
    constructor <;> intro he <;> simpa using congrArg (·.toList.length) he

end ClassName

namespace Collector

open ClassName (isRooted resourcePath)

/-- Directories of dumps and directories of classes are asked for one and the same path. It leads
beneath the directory exactly if the name does not begin with a separator, and then whatever is
found there stands beneath what the directory leads to. A name that does begin so makes an absolute
path, whatever the directory. -/
theorem lookups_stay_beneath {directory : String} (hd : Path.isAbsolute directory = false)
    (name : String) :
    (∀ settings active c, c.name = name → (dumper settings directory active).collect c =
        mapFailure (.resourceRead (dumpPath directory name))
          (ClassRoot.readFile (dumpPath directory name))) ∧
      (∀ id index, (ClassRoot.directory directory).readResource id index (resourcePath name) =
        ClassRoot.readFile (dumpPath directory name)) ∧
      (Path.Beneath directory (dumpPath directory name) ↔ isRooted name = false) ∧
      (isRooted name = false → ∀ (fs : FileSystem) (place : Place),
        fs.place (dumpPath directory name) = .ok place →
          ∃ above, fs.walk fs.working (FileSystem.pieces directory) = .ok above ∧
            above <:+ place) ∧
      (isRooted name = true → Path.isAbsolute (dumpPath directory name) = true ∧
        dumpPath directory name = resourcePath name) := by
  have hrooted := ClassName.isAbsolute_resourcePath name
  have hplain := ClassName.plain_resourcePath name
  have habsolute : isRooted name = true → dumpPath directory name = resourcePath name := fun h => by
    rw [dumpPath, Path.join, hrooted, h, if_pos rfl]
  refine ⟨?_, fun _ _ => rfl, ⟨fun h => ?_, fun h => ?_⟩, fun h fs place hplace => ?_, fun h => ?_⟩
  · rintro settings active c rfl
    rfl
  · by_contra hroot
    rw [Bool.not_eq_false] at hroot
    rw [habsolute hroot] at h
    exact Path.not_beneath_of_isAbsolute hd (hrooted.trans hroot) h
  · exact Path.beneath_of_plain (hrooted.trans h) hplain
  · exact FileSystem.suffix_of_place_join hd (hrooted.trans h) hplain hplace
  · exact ⟨(congrArg Path.isAbsolute (habsolute h)).trans (hrooted.trans h), habsolute h⟩

/-- Dots and slashes inside a name do not lead out of a directory that is written with dots itself,
and at the front of a name they do. -/
theorem lookups_stay_beneath_dotted :
    Path.isAbsolute "./../dump/" = false ∧
      dumpPath "./../dump/" "a..b/../C" = "./../dump/a//b////C.class" ∧
      Path.Beneath "./../dump/" (dumpPath "./../dump/" "a..b/../C") ∧
      ¬ Path.Beneath "./../dump/" (dumpPath "./../dump/" "..a.B") := by
  have hd : Path.isAbsolute "./../dump/" = false := by decide
  have hpath : dumpPath "./../dump/" "a..b/../C" = "./../dump/a//b////C.class" := by
    rw [dumpPath, show resourcePath "a..b/../C" = "a//b////C.class" by cbv]
    decide
  have hinner : isRooted "a..b/../C" = false := by decide
  have houter : isRooted "..a.B" = true := by decide
  refine ⟨hd, hpath, (lookups_stay_beneath hd "a..b/../C").2.2.1.mpr hinner, fun h => ?_⟩
  rw [(lookups_stay_beneath hd "..a.B").2.2.1.mp h] at houter
  cases houter

end Collector

end ClassRecovery
