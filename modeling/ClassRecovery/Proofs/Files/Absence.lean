import Mathlib
import ClassRecovery.Proofs.Files.Below

/-!
What the absence of a path comes to. In a tree that may be searched throughout, a path that leads
nowhere is not found, unless it goes on behind a file: then there is no directory to look in, which
is another fault.
-/

namespace ClassRecovery

namespace Text

/-- Where the pieces are parted, the text is parted at a separator. -/
theorem splitChars_eq_append {sep : Char} {s : List Char} {front back : List (List Char)}
    (h : splitChars sep s = front ++ back) (hfront : front ≠ []) (hback : back ≠ []) :
    ∃ a b, s = a ++ sep :: b ∧ splitChars sep a = front ∧ splitChars sep b = back := by
  induction s generalizing front with
  | nil =>
    have hlength := congrArg List.length h
    have hf := List.length_pos_iff.mpr hfront
    have hb := List.length_pos_iff.mpr hback
    simp only [splitChars, List.length_cons, List.length_nil, List.length_append] at hlength
    omega
  | cons c rest ih =>
    obtain ⟨first, front, rfl⟩ := List.exists_cons_of_ne_nil hfront
    by_cases hc : c = sep
    · subst hc
      simp only [splitChars, ↓reduceIte, List.cons_append, List.cons.injEq] at h
      obtain ⟨rfl, h⟩ := h
      rcases eq_or_ne front [] with rfl | hnext
      · exact ⟨[], rest, rfl, rfl, h⟩
      · obtain ⟨a, b, rfl, rfl, hb⟩ := ih h hnext
        exact ⟨c :: a, b, rfl, by simp [splitChars], hb⟩
    · obtain ⟨p, ps, hrest⟩ := List.exists_cons_of_ne_nil (splitChars_ne_nil sep rest)
      simp only [splitChars, if_neg hc, hrest, List.cons_append, List.cons.injEq] at h
      obtain ⟨rfl, rfl⟩ := h
      obtain ⟨a, b, rfl, ha, hb⟩ :=
        ih (hrest.trans (List.cons_append).symm) (List.cons_ne_nil p front)
      exact ⟨c :: a, b, rfl, by simp only [splitChars, if_neg hc, ha], hb⟩

theorem split_eq_append {sep : Char} {s : String} {front back : List String}
    (h : split sep s = front ++ back) (hfront : front ≠ []) (hback : back ≠ []) :
    ∃ a b : String, s.toList = a.toList ++ sep :: b.toList ∧ split sep a = front ∧
      split sep b = back := by
  obtain ⟨first, last, hchars, rfl, rfl⟩ := List.map_eq_append_iff.mp h
  obtain ⟨a, b, hs, ha, hb⟩ := splitChars_eq_append hchars (by simpa using hfront)
    (by simpa using hback)
  refine ⟨.ofList a, .ofList b, ?_, ?_, ?_⟩
  · simpa using hs
  · simp [split, ha]
  · simp [split, hb]

end Text

namespace FileSystem

variable {fs : FileSystem} {place : Place} {path name : String} {names : List String}

theorem endsInSlash_append (path : String) {tail : String} (htail : tail ≠ "") :
    endsInSlash (path ++ tail) = endsInSlash tail := by
  have hne : tail.toList ≠ [] := by simpa using htail
  unfold endsInSlash
  rw [String.toList_append, List.getLast?_append_of_ne_nil _ hne]

/-- A path written up to one of its pieces. -/
theorem pieces_eq_append {front back : List String} {last : String}
    (h : pieces path = front ++ last :: back) (hback : back ≠ []) :
    ∃ lead rest, path = lead ++ "/" ++ rest ∧ pieces lead = front ++ [last] ∧
      pieces rest = back ∧ endsInSlash lead = false ∧ lead ≠ "" := by
  obtain ⟨before, behind, hsplit, rfl, hbehind⟩ := List.filter_eq_append_iff.mp h
  obtain ⟨blanks, after, rfl, hblanks, hlast, rfl⟩ := List.filter_eq_cons_iff.mp hbehind
  have hafter : after ≠ [] := by
    rintro rfl
    exact hback rfl
  have hparted : Text.split '/' path = (before ++ blanks ++ [last]) ++ after := by
    rw [hsplit]
    simp
  obtain ⟨lead, rest, hpath, hlead, rfl⟩ := Text.split_eq_append hparted (by simp) hafter
  have hpieces : pieces lead = before.filter (· ≠ "") ++ [last] := by
    have hnone : blanks.filter (· ≠ "") = [] := List.filter_eq_nil_iff.mpr hblanks
    have hone : [last].filter (· ≠ "") = [last] := by rw [List.filter_cons, if_pos hlast]; rfl
    rw [pieces, hlead, List.filter_append, List.filter_append, hnone, hone, List.append_nil]
  refine ⟨lead, rest, String.toList_inj.mp (by simp [hpath]), hpieces, rfl, ?_, ?_⟩
  · by_contra hends
    have hslash : lead.toList.getLast? = some '/' := by simpa [endsInSlash] using hends
    obtain ⟨front, hfront⟩ := List.getLast?_eq_some_iff.mp hslash
    have hempty : Text.split '/' lead = Text.split '/' (.ofList front) ++ [""] := by
      rw [Text.split, hfront, Text.splitChars_append_sep]
      simp [Text.split, Text.splitChars]
    rw [hlead] at hempty
    obtain rfl := List.singleton_inj.mp (List.append_inj' hempty rfl).2
    simp at hlast
  · rintro rfl
    have hnil : pieces "" = [] := by decide
    rw [hnil] at hpieces
    exact absurd (congrArg List.length hpieces) (by simp)

/-- The node that a place is at. -/
def at? (fs : FileSystem) (place : Place) : Option FileNode :=
  place.head?.bind fun p => fs.node? p.2

/-- A place that names nodes of the tree. -/
def Stands (fs : FileSystem) (place : Place) : Prop :=
  place ≠ [] ∧ ∀ p ∈ place, (fs.node? p.2).isSome

/-- A tree in which every directory may be searched and leads to nodes of the tree, as do the two
places from which paths start. -/
structure Accessible (fs : FileSystem) : Prop where
  searchable : ∀ {i entries mode}, fs.node? i = some ⟨.directory entries, mode⟩ →
    mode.testBit Access.search.bit = true
  listed : ∀ {i entries mode}, fs.node? i = some ⟨.directory entries, mode⟩ →
    ∀ e ∈ entries, (fs.node? e.2).isSome
  root : fs.Stands rootPlace
  working : fs.Stands fs.working
  rootDirectory : ∃ entries mode, fs.at? rootPlace = some ⟨.directory entries, mode⟩
  workingDirectory : ∃ entries mode, fs.at? fs.working = some ⟨.directory entries, mode⟩

/-- A path that is not too long for use, nor is a name in it. -/
structure Usable (path : String) : Prop where
  nul : '\x00' ∉ path.toList
  names : ∀ name ∈ pieces path, byteLength name ≤ nameLimit
  short : byteLength path ≤ pathLimit

/-- A path that goes on behind a file. -/
def PassesFile (fs : FileSystem) (path : String) : Prop :=
  ∃ lead rest, path = lead ++ "/" ++ rest ∧ fs.isFile lead = true

theorem Stands.at?_isSome (h : fs.Stands place) : (fs.at? place).isSome := by
  obtain ⟨p, place, rfl⟩ := List.exists_cons_of_ne_nil h.1
  exact h.2 p List.mem_cons_self

theorem step_of_file {b : Bytes} {mode : Nat} (h : fs.at? place = some ⟨.file b, mode⟩)
    (name : String) : fs.step place name = .error .notADirectory := by
  have hsearch : fs.searchable place = .error .notADirectory := by
    unfold searchable
    rw [show (place.head?.bind fun p => fs.node? p.2) = _ from h]
  rw [step, hsearch]
  rfl

/-- A place and all above it. -/
theorem Stands.above {p : String × Nat} (h : fs.Stands (p :: place)) (hplace : place ≠ []) :
    fs.Stands place :=
  ⟨hplace, fun q hq => h.2 q (List.mem_cons_of_mem _ hq)⟩

theorem step_of_directory {entries : List (String × Nat)} {mode : Nat} (h : fs.Accessible)
    (hplace : fs.Stands place) (hat : fs.at? place = some ⟨.directory entries, mode⟩)
    (hname : byteLength name ≤ nameLimit) :
    (∃ next, fs.step place name = .ok next ∧ fs.Stands next) ∨
      fs.step place name = .error .notFound := by
  obtain ⟨⟨above, i⟩, rest, rfl⟩ : ∃ p rest, place = p :: rest :=
    List.exists_cons_of_ne_nil hplace.1
  have hnode : fs.node? i = some ⟨.directory entries, mode⟩ := hat
  have hsearch : fs.searchable ((above, i) :: rest) = .ok entries := by
    simp [searchable, hnode, FileNode.allows, h.searchable hnode]
  unfold step
  rw [hsearch]
  simp only [bind, Except.bind, Nat.not_lt.mpr hname, ↓reduceIte]
  by_cases hhere : name = "."
  · exact .inl ⟨_, by rw [if_pos hhere]; rfl, hplace⟩
  rw [if_neg hhere]
  by_cases hup : name = ".."
  · refine .inl ⟨_, by rw [if_pos hup]; rfl, ?_⟩
    split
    · exact hplace
    · next hlong =>
      refine hplace.above ?_
      rintro rfl
      simp at hlong
  rw [if_neg hup]
  cases hlookup : entries.lookup name with
  | none => exact .inr rfl
  | some j =>
    refine .inl ⟨_, rfl, List.cons_ne_nil _ _, fun p hp => ?_⟩
    rcases List.mem_cons.mp hp with rfl | hp
    · obtain ⟨before, behind, rfl, -⟩ := List.lookup_eq_some_iff.mp hlookup
      exact h.listed hnode (name, j) (by simp)
    · exact hplace.2 p hp

/-- All that can come of one piece of a path. -/
theorem step_cases (h : fs.Accessible) (hplace : fs.Stands place)
    (hname : byteLength name ≤ nameLimit) :
    (∃ next, fs.step place name = .ok next ∧ fs.Stands next) ∨
      fs.step place name = .error .notFound ∨
      fs.step place name = .error .notADirectory ∧
        ∃ b mode, fs.at? place = some ⟨.file b, mode⟩ := by
  obtain ⟨⟨content, mode⟩, hat⟩ := Option.isSome_iff_exists.mp hplace.at?_isSome
  cases content with
  | file b => exact .inr (.inr ⟨step_of_file hat name, b, mode, hat⟩)
  | directory entries => exact (step_of_directory h hplace hat hname).imp_right .inl

/-- A walk ends at a node, or at a name that is missing, or at a file with names left. -/
theorem walk_cases (h : fs.Accessible) (hplace : fs.Stands place)
    (hnames : ∀ name ∈ names, byteLength name ≤ nameLimit) :
    (∃ last, fs.walk place names = .ok last ∧ fs.Stands last) ∨
      fs.walk place names = .error .notFound ∨
      fs.walk place names = .error .notADirectory ∧
        ∃ front back last b mode, names = front ++ back ∧ back ≠ [] ∧
          fs.walk place front = .ok last ∧ fs.at? last = some ⟨.file b, mode⟩ := by
  induction names generalizing place with
  | nil => exact .inl ⟨place, rfl, hplace⟩
  | cons name names ih =>
    rcases step_cases h hplace (hnames name List.mem_cons_self) with
      ⟨next, hstep, hnext⟩ | hstep | ⟨hstep, b, mode, hat⟩
    · have hwalk : ∀ names, fs.walk place (name :: names) = fs.walk next names := by
        intro names
        rw [walk, hstep]
        rfl
      rw [hwalk]
      rcases ih hnext fun n hn => hnames n (List.mem_cons_of_mem _ hn) with
        hok | hmissing | ⟨hfile, front, back, last, b, mode, rfl, hback, hfront, hat⟩
      · exact .inl hok
      · exact .inr (.inl hmissing)
      · exact .inr (.inr ⟨hfile, name :: front, back, last, b, mode, rfl, hback,
          (hwalk front).trans hfront, hat⟩)
    · exact .inr (.inl (by rw [walk, hstep]; rfl))
    · exact .inr (.inr ⟨by rw [walk, hstep]; rfl, [], name :: names, place, b, mode, rfl,
        List.cons_ne_nil _ _, rfl, hat⟩)

/-- The place at which a path starts. -/
def origin (fs : FileSystem) (path : String) : Place :=
  if Path.isAbsolute path then rootPlace else fs.working

theorem start_usable (h : Usable path) (hne : path ≠ "") :
    fs.start path = .ok (fs.origin path) := by
  rw [start, if_neg h.nul, if_neg hne, if_neg (Nat.not_lt.mpr h.short)]
  rfl

theorem Accessible.stands_origin (h : fs.Accessible) (path : String) :
    fs.Stands (fs.origin path) := by
  unfold origin
  split
  · exact h.root
  · exact h.working

theorem Accessible.directory_origin (h : fs.Accessible) (path : String) :
    ∃ entries mode, fs.at? (fs.origin path) = some ⟨.directory entries, mode⟩ := by
  unfold origin
  split
  · exact h.rootDirectory
  · exact h.workingDirectory

theorem origin_lead {lead : String} (hne : lead ≠ "") (rest : String) :
    fs.origin (lead ++ rest) = fs.origin lead := by
  have hhead : (lead ++ rest).toList.head? = lead.toList.head? := by
    obtain ⟨c, cs, hcs⟩ := List.exists_cons_of_ne_nil (l := lead.toList) (by simpa using hne)
    simp [hcs]
  unfold origin Path.isAbsolute
  rw [hhead]

/-- The front of a path starts where the path does. -/
theorem start_of_append {lead rest : String} {origin : Place} (hne : lead ≠ "")
    (h : fs.start (lead ++ rest) = .ok origin) : fs.start lead = .ok origin := by
  obtain ⟨hnul, -, hshort, rfl⟩ := start_eq_ok h
  have hnul' : '\x00' ∉ lead.toList := fun hmem => hnul (by simp [hmem])
  rw [byteLength_append] at hshort
  unfold start
  rw [if_neg hnul', if_neg hne, if_neg (by omega)]
  exact congrArg Except.ok (fs.origin_lead hne rest).symm

/-- The front of a usable path is usable. -/
theorem Usable.lead {lead rest : String} (h : Usable (lead ++ "/" ++ rest)) : Usable lead where
  nul hmem := h.nul (by simp [hmem])
  names name hname := h.names name (by rw [Path.pieces_slash]; exact List.mem_append_left _ hname)
  short := by
    have hshort := h.short
    simp only [byteLength_append] at hshort
    omega

theorem find_of_walk_error {e : IoError} (h : Usable path) (hne : path ≠ "")
    (hwalk : fs.walk (fs.origin path) (pieces path) = .error e) : fs.find path = .error e := by
  unfold find FileSystem.place
  rw [start_usable h hne]
  simp only [bind, Except.bind, hwalk]

theorem find_of_at? {n : FileNode} (h : Usable path) (hne : path ≠ "")
    (hends : endsInSlash path = false) (hwalk : fs.walk (fs.origin path) (pieces path) = .ok place)
    (hat : fs.at? place = some n) : ∃ i, fs.find path = .ok (i, n) := by
  obtain ⟨p, hhead, hnode⟩ := Option.bind_eq_some_iff.mp hat
  have hplace : place.head?.map (·.2) = some p.2 := by
    rw [hhead]
    rfl
  exact ⟨p.2, find_eq_ok_iff.mpr
    ⟨_, place, start_usable h hne, hwalk, hplace, hnode, by simp [hends]⟩⟩

/-- What does not end in a slash ends in a name. -/
theorem pieces_ne_nil (hne : path ≠ "") (hends : endsInSlash path = false) : pieces path ≠ [] := by
  obtain ⟨init, c, hpath⟩ : ∃ init c, path.toList = init ++ [c] := by
    rcases List.eq_nil_or_concat path.toList with hnil | ⟨init, c, hpath⟩
    · exact absurd (by simpa using hnil) hne
    · exact ⟨init, c, by rw [hpath, List.concat_eq_append]⟩
  have hc : '/' ∉ (String.ofList [c]).toList := by
    rintro hmem
    obtain rfl : '/' = c := by simpa using hmem
    simp [endsInSlash, hpath] at hends
  obtain ⟨front, last, -, hsplit⟩ := Text.split_append (.ofList init) hc
  have hlast : last ++ String.ofList [c] ∈ pieces path := by
    refine List.mem_filter.mpr ⟨?_, ?_⟩
    · rw [show path = .ofList init ++ .ofList [c] from String.toList_inj.mp (by simp [hpath]),
        hsplit]
      exact List.mem_append_right _ List.mem_cons_self
    · simp
  exact List.ne_nil_of_mem hlast

/-- A path that goes on behind a file leads nowhere, for want of a directory. -/
theorem PassesFile.find (hfile : fs.PassesFile path) (h : Usable path)
    (hends : endsInSlash path = false) : fs.find path = .error .notADirectory := by
  obtain ⟨lead, rest, rfl, hlead⟩ := hfile
  obtain ⟨i, b, mode, hfind⟩ : ∃ i b mode, fs.find lead = .ok (i, ⟨.file b, mode⟩) := by
    unfold isFile at hlead
    split at hlead
    · next i b mode hfind => exact ⟨i, b, mode, hfind⟩
    · cases hlead
  obtain ⟨start, place, hstart, hwalk, hplace, hnode, -⟩ := find_eq_ok_iff.mp hfind
  have hne : lead ≠ "" := (start_eq_ok hstart).2.1
  obtain rfl := Except.ok.inj ((start_usable h.lead hne).symm.trans hstart)
  have hat : fs.at? place = some ⟨.file b, mode⟩ := by
    obtain ⟨p, hhead, rfl⟩ := Option.map_eq_some_iff.mp hplace
    rw [at?, hhead]
    exact hnode
  have hrest : rest ≠ "" := by
    rintro rfl
    simp [endsInSlash] at hends
  have hrestEnds : endsInSlash rest = false := by rwa [endsInSlash_append _ hrest] at hends
  obtain ⟨name, names, hpieces⟩ := List.exists_cons_of_ne_nil (pieces_ne_nil hrest hrestEnds)
  refine find_of_walk_error h (fun he => hne ?_) ?_
  · simpa using congrArg String.toList he
  · rw [String.append_assoc, origin_lead hne, ← String.append_assoc, Path.pieces_slash, hpieces,
      walk_append, hwalk]
    simp only [bind, Except.bind, walk, step_of_file hat]

/-- In an accessible tree a path that leads nowhere is not found or passes a file. -/
theorem Accessible.find_absent (h : fs.Accessible) (hpath : Usable path) (hne : path ≠ "")
    (hends : endsInSlash path = false) (habsent : fs.isPresent path = false) :
    (¬ fs.PassesFile path → fs.find path = .error .notFound) ∧
      (fs.PassesFile path → fs.find path = .error .notADirectory) := by
  refine ⟨fun hfile => ?_, fun hfile => hfile.find hpath hends⟩
  rcases walk_cases h (h.stands_origin path) hpath.names with
    ⟨last, hwalk, hlast⟩ | hwalk | ⟨-, front, back, last, b, mode, hpieces, hback, hwalk, hat⟩
  · obtain ⟨n, hat⟩ := Option.isSome_iff_exists.mp hlast.at?_isSome
    obtain ⟨i, hfind⟩ := find_of_at? hpath hne hends hwalk hat
    rw [isPresent, hfind] at habsent
    cases habsent
  · exact find_of_walk_error hpath hne hwalk
  · refine absurd ?_ hfile
    rcases List.eq_nil_or_concat front with rfl | ⟨front, name, rfl⟩
    · cases hwalk
      obtain ⟨entries, mode', hdirectory⟩ := h.directory_origin path
      rw [hat] at hdirectory
      cases hdirectory
    · rw [List.concat_eq_append, List.append_assoc, List.singleton_append] at hpieces
      obtain ⟨lead, rest, rfl, hlead, -, hslash, hlne⟩ := pieces_eq_append hpieces hback
      rw [String.append_assoc, origin_lead hlne, List.concat_eq_append, ← hlead] at hwalk
      obtain ⟨i, hfind⟩ := find_of_at? hpath.lead hlne hslash hwalk hat
      exact ⟨lead, rest, rfl, by rw [isFile, hfind]⟩

end FileSystem

end ClassRecovery
