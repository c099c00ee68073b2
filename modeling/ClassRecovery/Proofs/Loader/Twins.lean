import Mathlib
import ClassRecovery.Proofs.Agent.Artifact
import ClassRecovery.Proofs.Archive.Plain
import ClassRecovery.Proofs.Loader.Definition
import ClassRecovery.Proofs.Loader.Serving

/-!
A directory and a jar with the same classes. The directory is looked up by paths and listed by
names, the jar by the names in its own directory, which tells of no packages; yet a loader over the
one cannot be told from a loader over the other.
-/

namespace ClassRecovery

open ClassName (toInternal resourcePath inPackage FitsBelow)
open FileSystem (pieces FilePath)

/-- Class names with dots between their segments, and short enough for files below a directory. -/
structure ClassFiles (directory : String) (classes : List (String × Bytes)) : Prop where
  fits : ∀ e ∈ classes, FitsBelow directory e.1
  plain : ∀ e ∈ classes, '/' ∉ e.1.toList

/-- The files of classes, as paths name them. -/
def resources (classes : List (String × Bytes)) : List (String × Bytes) :=
  classes.map fun e => (resourcePath e.1, e.2)

/-- The files of classes, by the names on the way to them. -/
def classPaths (classes : List (String × Bytes)) : List (List String × Bytes) :=
  classes.map fun e => (pieces (resourcePath e.1), e.2)

variable {directory jar name package agentClass : String} {classes : List (String × Bytes)}
  {extra : List (String × String)} {k : Nat} {w : World}

theorem fileOf_eq_some {b : Bytes} (h : fileOf classes name = some b) :
    ∃ e ∈ classes, toInternal e.1 = toInternal name ∧ e.2 = b := by
  obtain ⟨e, he, rfl⟩ := Option.map_eq_some_iff.mp h
  exact ⟨e, List.mem_of_find?_eq_some he, by simpa using List.find?_some he, rfl⟩

theorem fileOf_eq_none (h : fileOf classes name = none) :
    ∀ e ∈ classes, toInternal e.1 ≠ toInternal name := by
  simpa [fileOf] using h

namespace ClassFiles

theorem filePath (h : ClassFiles directory classes) :
    ∀ file ∈ classPaths classes, FilePath file.1 := by
  intro file hfile
  obtain ⟨e, he, rfl⟩ := List.mem_map.mp hfile
  exact ClassName.filePath_resourcePath (h.fits e he).inner

/-- A path that goes on behind a package with the file of a class is that of the class. -/
theorem mem_classPaths_iff (h : ClassFiles directory classes)
    (hpackage : package = "" ∨ Path.Inner package) (stem : String) :
    (∃ rest b, (pieces package ++ (stem ++ ".class") :: rest, b) ∈ classPaths classes) ↔
      '/' ∉ stem.toList ∧ HasClass classes (inPackage package stem) := by
  constructor
  · rintro ⟨rest, b, hmem⟩
    obtain ⟨e, he, hpath⟩ := List.mem_map.mp hmem
    have hinner := (h.fits e he).inner
    obtain ⟨-, front, last, hname, hpieces⟩ := ClassName.pieces_resourcePath hinner
    have hsame := hpieces.symm.trans (Prod.mk.inj hpath).1
    -- Nothing stands behind a file, as only the last name has a dot.
    rcases List.eq_nil_or_concat rest with rfl | ⟨rest, final, rfl⟩
    · obtain ⟨rfl, hfile⟩ := List.append_inj' hsame rfl
      have hlast : last = stem := (String.append_left_inj _).mp (List.cons.inj hfile).1
      obtain ⟨hslash, hclass⟩ := ClassName.eq_inPackage hpackage hinner (hlast ▸ hname)
      exact ⟨hslash, e, he, hclass⟩
    · rw [List.concat_eq_append, ← List.cons_append, ← List.append_assoc] at hsame
      have hfront := (List.append_inj' hsame rfl).1
      refine absurd (show '.' ∈ (stem ++ ".class").toList by simp) ?_
      refine ClassName.dot_notMem_pieces e.1 ?_
      rw [hname, hfront]
      simp
  · rintro ⟨hslash, e, he, hclass⟩
    refine ⟨[], e.2, List.mem_map.mpr ⟨e, he, ?_⟩⟩
    have hslash' : '/' ∉ (stem ++ ".class").toList := by
      rw [String.toList_append, List.mem_append]
      exact not_or.mpr ⟨hslash, by decide⟩
    have hne : stem ++ ".class" ≠ "" := fun h => by simpa using congrArg (·.toList.length) h
    rw [resourcePath, hclass, ← ClassName.inPackage_append,
      ClassName.pieces_inPackage package hslash' hne]

/-- A path to a class file is that of a class in the list if the class is in the list. -/
theorem mem_classPaths (h : ClassFiles directory classes) (hname : FitsBelow directory name) :
    (∀ b, fileOf classes name = some b → (pieces (resourcePath name), b) ∈ classPaths classes) ∧
      (fileOf classes name = none →
        ∀ b, (pieces (resourcePath name), b) ∉ classPaths classes) := by
  constructor
  · intro b hb
    obtain ⟨e, he, hclass, rfl⟩ := fileOf_eq_some hb
    refine List.mem_map.mpr ⟨e, he, ?_⟩
    rw [resourcePath, hclass, resourcePath]
  · intro hnone b hmem
    obtain ⟨e, he, hpath⟩ := List.mem_map.mp hmem
    refine fileOf_eq_none hnone e he (ClassName.resourcePath_inj ?_)
    exact (h.fits e he).reachable.inner.inj hname.reachable.inner (Prod.mk.inj hpath).1

end ClassFiles

/-- The directory is there, and what stands below it are the files of the classes. -/
def Unpacked (directory : String) (classes : List (String × Bytes)) (w : World) : Prop :=
  ∃ i n, w.files.find directory = .ok (i, n) ∧ w.files.Holds i (classPaths classes)

namespace ClassRoot

/-- A directory with the files of the classes, whatever else of the world changes. -/
theorem directory_serves {valid : World → Prop} (hclasses : ClassFiles directory classes)
    (hvalid : ∀ w, valid w → Unpacked directory classes w) (k : Nat) :
    (ClassRoot.directory directory).Serves k directory classes valid where
  read := by
    intro name hname w hw
    obtain ⟨i, n, hfind, hholds⟩ := hvalid w hw
    obtain ⟨hpresent, habsent⟩ := hholds.read_join hclasses.filePath hfind hname.reachable
      (ClassName.filePath_resourcePath hname.inner)
    obtain ⟨hsome, hnone⟩ := hclasses.mem_classPaths hname
    unfold readResource readFile
    dsimp only
    rw [Attempt.get_bind]
    cases hfile : fileOf classes name with
    | some b =>
      rw [hpresent b (hsome b hfile)]
      exact ⟨rfl, hw⟩
    | none =>
      rw [habsent (hnone hfile)]
      exact ⟨rfl, hw⟩
  list := by
    intro name package simple hname hsplit w hw
    obtain ⟨i, n, hfind, hholds⟩ := hvalid w hw
    have hlists : FileSystem.Holds.Lists (classPaths classes) (pieces package)
        (w.files.list (if package = "" then directory else Path.join directory package)) := by
      rcases Loader.reachable_package hname hsplit with rfl | ⟨hreachable, hplain⟩
      · exact hholds.lists_self hfind
      · rw [if_neg hreachable.inner.ne_empty]
        exact hholds.lists_join hclasses.filePath hfind hreachable hplain
    have hpackage : package = "" ∨ Path.Inner package :=
      (Loader.reachable_package hname hsplit).imp_right fun h => h.1.inner
    unfold listPackage
    dsimp only
    rw [Attempt.get_bind]
    cases hlist : w.files.list
        (if package = "" then directory else Path.join directory package) with
    | ok entries =>
      rw [hlist] at hlists
      refine ⟨⟨_, rfl, fun stem => ?_⟩, hw⟩
      rw [← hclasses.mem_classPaths_iff hpackage, ← hlists (stem ++ ".class")]
      simp only [List.mem_filterMap, dropSuffix?_eq_some, List.mem_map]
    | error e =>
      rw [hlist] at hlists
      obtain ⟨rfl, hnone⟩ := hlists
      refine ⟨⟨[], rfl, fun stem => ?_⟩, hw⟩
      rw [← hclasses.mem_classPaths_iff hpackage]
      simp only [List.not_mem_nil, false_iff]
      exact fun ⟨rest, b, hmem⟩ => hnone _ rest b hmem

theorem openJar_of_read {node : Nat} {b : Bytes} {d : Archive.Directory}
    (hclosed : w.jars.get? (k, 0) = none) (hopen : w.files.openFile jar = .ok node)
    (hread : w.files.readOpen node = .ok b) (hlisting : Archive.Directory.read b.toArray = .ok d) :
    openJar k 0 jar w =
      (.ok ⟨node, d⟩, { w with jars := w.jars.put (k, 0) ⟨node, d⟩ }) := by
  unfold openJar
  rw [Attempt.get_bind, hclosed]
  simp only [bind_apply, World.withFiles_apply, hopen, hread, hlisting]
  rfl

end ClassRoot

/-- The jar is as it was when it was written from the classes, and can be read. Where a loader has
it open, what it has is what opening it gives. -/
structure Packed (jar agentClass : String) (classes : List (String × Bytes))
    (extra : List (String × String)) (k : Nat) (w : World) : Prop where
  written : ∃ before after content,
    Agent.Artifact.write jar agentClass (resources classes) extra before = (.ok (), after) ∧
      after.files.read jar = .ok content ∧ w.files.read jar = .ok content
  opened : ∀ o, w.jars.get? (k, 0) = some o →
    (ClassRoot.openJar k 0 jar { w with jars := {} }).1 = .ok o

namespace Packed

/-- Opening the jar gives what was written, and leaves it open. -/
theorem openJar_eq (h : Packed jar agentClass classes extra k w)
    {d : Archive.Directory} (hlisting : Archive.Directory.read (Archive.write
      (Agent.Artifact.entries agentClass (resources classes) extra)).toArray = .ok d) :
    ∃ node w', ClassRoot.openJar k 0 jar w = (.ok ⟨node, d⟩, w') ∧
      Packed jar agentClass classes extra k w' ∧ w'.files = w.files ∧
      w.files.readOpen node = .ok (Archive.write
        (Agent.Artifact.entries agentClass (resources classes) extra)) := by
  obtain ⟨before, after, content, hwrite, hafter, hnow⟩ := h.written
  obtain ⟨fs, -, hfs⟩ := Agent.Artifact.write_eq_ok hwrite
  obtain rfl := FileSystem.read_of_write hfs hafter
  obtain ⟨node, hopen, hread⟩ := bind_eq_ok_iff.mp hnow
  have hfresh : ClassRoot.openJar k 0 jar { w with jars := {} } = (.ok ⟨node, d⟩, _) :=
    ClassRoot.openJar_of_read (Table.get?_empty _) hopen hread hlisting
  cases hjar : w.jars.get? (k, 0) with
  | some o =>
    have ho := h.opened o hjar
    rw [hfresh] at ho
    cases ho
    exact ⟨node, w, ClassRoot.openJar_of_open hjar, h, rfl, hread⟩
  | none =>
    refine ⟨node, _, ClassRoot.openJar_of_read hjar hopen hread hlisting,
      ⟨h.written, fun o ho => ?_⟩, rfl, hread⟩
    rw [Table.get?_put, if_pos rfl] at ho
    cases ho
    exact congrArg Prod.fst hfresh

end Packed

/-- The directory and the jar hold the same classes. -/
structure Twins (directory jar agentClass : String) (classes : List (String × Bytes))
    (extra : List (String × String)) (k : Nat) (w : World) : Prop where
  unpacked : Unpacked directory classes w
  packed : Packed jar agentClass classes extra k w

/-- No class has the manifest for its file. -/
theorem append_class_ne_manifestPath (s : String) :
    s ++ ".class" ≠ Agent.Artifact.manifestPath := by
  intro h
  have hlast := congrArg (·.toList.getLast?) h
  simp [Agent.Artifact.manifestPath] at hlast

theorem mem_entries_iff (path : String) :
    path ++ ".class" ∈ (Agent.Artifact.entries agentClass (resources classes) extra).map (·.1) ↔
      HasClass classes path := by
  rw [Agent.Artifact.entries, List.map_cons, List.mem_cons, resources, List.map_map, List.mem_map]
  constructor
  · rintro (hmanifest | ⟨e, he, hpath⟩)
    · exact absurd hmanifest (append_class_ne_manifestPath path)
    · exact ⟨e, he, (String.append_left_inj _).mp hpath⟩
  · rintro ⟨e, he, rfl⟩
    exact .inr ⟨e, he, rfl⟩

namespace ClassRoot

/-- A jar with the same classes. -/
theorem jar_serves (hzip : Archive.ReadsBack
      (Agent.Artifact.entries agentClass (resources classes) extra)) :
    (ClassRoot.jar jar).Serves k directory classes
      (Twins directory jar agentClass classes extra k) := by
  obtain ⟨d, hlisting, hnames, hcontents⟩ := hzip.reads
  refine ⟨fun {name} hname w hw => ?_, fun {name package simple} hname hsplit w hw => ?_⟩
  all_goals
    obtain ⟨node, w', hopen, hpacked, hfiles, hread⟩ := hw.packed.openJar_eq hlisting
    have hw' : Twins directory jar agentClass classes extra k w' := by
      refine ⟨?_, hpacked⟩
      unfold Unpacked
      rw [hfiles]
      exact hw.unpacked
  · unfold readResource
    dsimp only
    rw [bind_apply, hopen]
    dsimp only
    cases hfile : fileOf classes name with
    | some b =>
      obtain ⟨e, he, hclass, rfl⟩ := fileOf_eq_some hfile
      have hmem : (resourcePath name, e.2) ∈
          Agent.Artifact.entries agentClass (resources classes) extra := by
        refine List.mem_cons_of_mem _ (List.mem_map.mpr ⟨e, he, ?_⟩)
        rw [resourcePath, hclass, resourcePath]
      obtain ⟨entry, hfind, hcontent⟩ := hcontents _ _ hmem
      rw [hfind]
      dsimp only
      rw [bind_apply, World.withFiles_apply, hfiles, hread]
      dsimp only
      rw [hcontent]
      exact ⟨rfl, hw'⟩
    | none =>
      have hfind : d.find? (resourcePath name) = none := by
        rw [Archive.Directory.find?_eq_none_iff, hnames]
        intro hmem
        obtain ⟨e, he, hclass⟩ := (mem_entries_iff _).mp hmem
        exact fileOf_eq_none hfile e he hclass
      rw [hfind]
      exact ⟨rfl, hw'⟩
  · unfold listPackage
    dsimp only
    rw [bind_apply, hopen]
    refine ⟨⟨_, rfl, fun stem => ?_⟩, hw'⟩
    simp only [List.mem_filterMap, List.mem_eraseDups, hnames, stemInPackage?_eq_some]
    constructor
    · rintro ⟨entry, hentry, hslash, rfl⟩
      exact ⟨hslash, (mem_entries_iff _).mp hentry⟩
    · rintro ⟨hslash, hclass⟩
      exact ⟨_, (mem_entries_iff _).mpr hclass, hslash, rfl⟩

end ClassRoot

/-- Two attempts that say the same whenever each is made, and leave the world as it should be. -/
def Agree {ε α β : Type} (valid : World → Prop) (same : Except ε α → Except ε β → Prop)
    (a : Attempt ε α) (a' : Attempt ε β) : Prop :=
  ∀ w w', valid w → valid w' → same (a w).1 (a' w').1 ∧ valid (a w).2 ∧ valid (a' w').2

theorem Gives.agree {ε α β : Type} {valid : World → Prop} {a : Attempt ε α} {a' : Attempt ε β}
    {post : Except ε α → Prop} {post' : Except ε β → Prop} {same : Except ε α → Except ε β → Prop}
    (ha : Gives valid a post) (ha' : Gives valid a' post')
    (h : ∀ r r', post r → post' r' → same r r') : Agree valid same a a' :=
  fun w w' hw hw' => ⟨h _ _ (ha w hw).1 (ha' w' hw').1, (ha w hw).2, (ha' w' hw').2⟩

/-- Listings of members that say the same: both give classes of the same names, each once, or both
stop at a class file that is malformed. -/
inductive SameMembers : Except Error (List ClassRef) → Except Error (List ClassRef) → Prop
  | listed {cs cs' : List ClassRef} (names : (cs.map (·.name)).Perm (cs'.map (·.name)))
      (once : (cs.map (·.name)).Nodup) : SameMembers (.ok cs) (.ok cs')
  | malformed (m m' : ClassFile.Malformed) :
      SameMembers (.error (.ofMalformed m)) (.error (.ofMalformed m'))

/-- Answers to a request that say the same. Of a class that is found, the bytes in the list are
collected, and the members are the same. -/
inductive SameClass (valid : World → Prop) (classes : List (String × Bytes)) (name : String) :
    Except Error (Option ClassRef) → Except Error (Option ClassRef) → Prop
  | absent : SameClass valid classes name (.ok none) (.ok none)
  | malformed (offset : Nat) (reason : String) : SameClass valid classes name
      (.error (.malformedClassData offset reason)) (.error (.malformedClassData offset reason))
  | found {c c' : ClassRef} {b : Bytes} (named : c.name = name ∧ c'.name = name)
      (kind : c.kind = c'.kind) (listed : (name, b) ∈ classes)
      (collect : ∀ settings boot, Agree valid (fun r r' => r = .ok (some b) ∧ r' = .ok (some b))
        ((Collector.classpath settings boot).collect c)
        ((Collector.classpath settings boot).collect c'))
      (members : Agree valid SameMembers c.members c'.members) :
      SameClass valid classes name (.ok (some c)) (.ok (some c'))

/-- Nothing is in the place of the class, its file is malformed, or the file defines it. -/
theorem Loader.answer_cases (classes : List (String × Bytes)) (name : String) :
    answer classes name = .ok none ∨ (∃ m, answer classes name = .error (.ofMalformed m)) ∨
      ∃ b, answer classes name = .ok (some name) ∧ fileOf classes name = some b ∧
        ClassFile.definedName .qualified b = .ok name := by
  unfold answer
  split
  · exact .inl rfl
  · cases hfile : fileOf classes name with
    | none => exact .inl rfl
    | some b =>
      rw [classIn]
      cases hb : ClassFile.definedName .qualified b with
      | error m => exact .inr (.inl ⟨m, rfl⟩)
      | ok defined =>
        by_cases hdefined : defined = name
        · exact .inr (.inr ⟨b, by simp [hdefined], rfl, hdefined ▸ hb⟩)
        · exact .inl (by simp [hdefined])

/-- The name of a class that is found. -/
def Loader.foundName (classes : List (String × Bytes)) (name : String) : Option String :=
  (answer classes name).toOption.join

/-- Asking for one name after the other stops at the first that is malformed. -/
theorem Loader.mapM_answer (classes : List (String × Bytes)) (names : List String) :
    (∃ m, (∃ name ∈ names, answer classes name = .error (.ofMalformed m)) ∧
      names.mapM (answer classes) = .error (.ofMalformed m)) ∨
    (∀ name ∈ names, ∀ e, answer classes name ≠ .error e) ∧
      names.mapM (answer classes) = .ok (names.map (foundName classes)) := by
  induction names with
  | nil => exact .inr ⟨nofun, rfl⟩
  | cons name names ih =>
    rw [List.mapM_cons]
    cases hname : answer classes name with
    | error e =>
      rcases answer_cases classes name with h | ⟨m, h⟩ | ⟨b, h, -⟩ <;> rw [hname] at h
      · cases h
      · cases h
        exact .inl ⟨m, ⟨name, List.mem_cons_self, hname⟩, rfl⟩
      · cases h
    | ok found =>
      rcases ih with ⟨m, ⟨other, hother, hm⟩, hrest⟩ | ⟨hok, hrest⟩
      · rw [hrest]
        exact .inl ⟨m, ⟨other, List.mem_cons_of_mem _ hother, hm⟩, rfl⟩
      · rw [hrest]
        refine .inr ⟨fun other hother e he => ?_, ?_⟩
        · rcases List.mem_cons.mp hother with rfl | hother
          · rw [hname] at he
            cases he
          · exact hok other hother e he
        · rw [List.map_cons, foundName, hname]
          rfl

theorem Loader.foundName_eq_some {name found : String}
    (h : foundName classes name = some found) : found = name := by
  unfold foundName at h
  rcases answer_cases classes name with ha | ⟨m, ha⟩ | ⟨b, ha, -⟩ <;> rw [ha] at h
  · cases h
  · cases h
  · exact (Option.some.inj h).symm

theorem map_name_archiveClass (self : Loader) (found : List String) :
    (found.map self.archiveClass).map (·.name) = found := by
  rw [List.map_map]
  exact List.map_id _

/-- The order in which members are listed does not count. -/
theorem sameMembers_of_perm (self self' : Loader) {names names' : List String}
    (hperm : names.Perm names') (hnodup : names.Nodup) :
    SameMembers
      ((names.mapM (Loader.answer classes)).map fun found =>
        found.reduceOption.map self.archiveClass)
      ((names'.mapM (Loader.answer classes)).map fun found =>
        found.reduceOption.map self'.archiveClass) := by
  rcases Loader.mapM_answer classes names with ⟨m, ⟨name, hname, hm⟩, h⟩ | ⟨hok, h⟩ <;>
    rcases Loader.mapM_answer classes names' with ⟨m', ⟨name', hname', hm'⟩, h'⟩ | ⟨hok', h'⟩ <;>
    rw [h, h']
  · exact .malformed m m'
  · exact absurd hm (hok' name (hperm.mem_iff.mp hname) _)
  · exact absurd hm' (hok name' (hperm.mem_iff.mpr hname') _)
  · have hfound : ∀ ns : List String, (ns.map (Loader.foundName classes)).reduceOption =
        ns.filterMap (Loader.foundName classes) := fun ns => by
      rw [List.reduceOption, List.filterMap_map]
      rfl
    refine .listed ?_ ?_ <;> rw [map_name_archiveClass, hfound]
    · rw [map_name_archiveClass, hfound]
      exact hperm.filterMap _
    · refine hnodup.filterMap fun a a' b hb hb' => ?_
      rw [← Loader.foundName_eq_some hb, ← Loader.foundName_eq_some hb']

/-- A loader over a directory and a loader over a jar cannot be told apart if both have the same
classes: whatever class is asked for, both find it or neither does or both take its file for
malformed in the same way; and of a class that is found, collecting gives the same bytes, those that
were put there, and the members have the same names. -/
theorem directory_and_jar_agree (hclasses : ClassFiles directory classes)
    (hzip : Archive.ReadsBack (Agent.Artifact.entries agentClass (resources classes) extra))
    (hname : FitsBelow directory name) (d j : Nat) :
    Agree (Twins directory jar agentClass classes extra j)
      (SameClass (Twins directory jar agentClass classes extra j) classes name)
      ((Loader.archive d [.directory directory]).load name)
      ((Loader.archive j [.jar jar]).load name) := by
  have hdirectory : (ClassRoot.directory directory).Serves d directory classes
      (Twins directory jar agentClass classes extra j) :=
    ClassRoot.directory_serves hclasses (fun w hw => hw.unpacked) d
  have hjar : (ClassRoot.jar jar).Serves j directory classes
      (Twins directory jar agentClass classes extra j) := ClassRoot.jar_serves hzip
  refine (Loader.load_gives hdirectory hname).agree (Loader.load_gives hjar hname) ?_
  rintro _ _ rfl rfl
  rcases Loader.answer_cases classes name with h | ⟨m, h⟩ | ⟨b, h, hfile, hdefined⟩ <;> rw [h]
  · exact .absent
  · exact .malformed m.offset m.defect.message
  · obtain ⟨e, he, hclass, rfl⟩ := fileOf_eq_some hfile
    obtain rfl : e.1 = name := ClassName.toInternal_inj (hclasses.plain e he)
      (Loader.slash_notMem_definedName hdefined) hclass
    refine .found ⟨rfl, rfl⟩ rfl he (fun settings boot => ?_) ?_
    · refine (Loader.collect_gives hdirectory rfl hname settings boot).agree
        (Loader.collect_gives hjar rfl hname settings boot) ?_
      rintro _ _ rfl rfl
      exact ⟨congrArg _ hfile, congrArg _ hfile⟩
    · refine (Loader.members_gives hdirectory hclasses.fits rfl rfl hname).agree
        (Loader.members_gives hjar hclasses.fits rfl rfl hname) ?_
      rintro _ _ ⟨names, hnodup, hmembers, rfl⟩ ⟨names', hnodup', hmembers', rfl⟩
      refine sameMembers_of_perm _ _ ?_ hnodup
      rw [List.perm_ext_iff_of_nodup hnodup hnodup']
      exact fun m => (hmembers m).trans (hmembers' m).symm

section Beside

def classB : List (String × Bytes) := [("B", Loader.oneLetterClass 0x42)]

theorem resourcePath_B : resourcePath "B" = "B.class" := by cbv

/-- A directory with the file of one class, and what stands beside it. -/
def besideClasses (names : List (String × Nat)) (nodes : Array FileNode) : World where
  files :=
    { nodes := #[
        ⟨.directory (("classes", 1) :: names), 0o755⟩,
        ⟨.directory [("B.class", 2)], 0o755⟩,
        ⟨.file (Loader.oneLetterClass 0x42), 0o644⟩] ++ nodes
      working := FileSystem.rootPlace }

/-- The jar of the same class is written beside it. -/
def besideJar : World := besideClasses [("classes.jar", 3)]
  #[⟨.file (Archive.write (Agent.Artifact.entries "A" (resources classB) [])), 0o644⟩]

theorem write_besideClasses : Agent.Artifact.write "/classes.jar" "A" (resources classB) []
    (besideClasses [] #[]) = (.ok (), besideJar) := rfl

theorem readsBack_classB :
    Archive.ReadsBack (Agent.Artifact.entries "A" (resources classB) []) := by
  have hplain : ((Agent.Artifact.entries "A" (resources classB) []).map (·.1)).all (fun name =>
      name.toList.all (·.toNat < 0x80) && decide ((Text.Utf8.encode name).length < 0x10000)) := by
    decide +kernel
  have hwide := Archive.not_looksWide
    [(Agent.Artifact.manifestPath, Text.Utf8.encode (Agent.Manifest.render "A" []))]
    (Loader.oneLetterClass 0x42)
    (show 4 ≤ (Text.Utf8.encode (resourcePath "B")).length by rw [resourcePath_B]; decide) (by cbv)
  refine Archive.readsBack_of_bound (by decide +kernel) (fun name hname => ?_) (by decide)
    (by decide +kernel) hwide
  simpa using List.all_eq_true.mp hplain name hname

theorem descend_besideJar {names : List String} {j : Nat}
    (h : besideJar.files.descend? 1 names = some j) :
    names = [] ∧ j = 1 ∨ names = ["B.class"] ∧ j = 2 := by
  cases names with
  | nil => exact .inl ⟨rfl, (Option.some_inj.mp h).symm⟩
  | cons name names =>
    obtain ⟨entries, mode, k, hnode, hk, hj⟩ := FileSystem.directory_of_descend?_cons h
    cases hnode
    by_cases hname : name = "B.class"
    · subst hname
      cases hk
      cases names with
      | nil => exact .inr ⟨rfl, (Option.some_inj.mp hj).symm⟩
      | cons =>
        obtain ⟨_, _, _, hnode, -⟩ := FileSystem.directory_of_descend?_cons hj
        cases hnode
    · rw [List.lookup_cons, beq_eq_false_iff_ne.mpr hname] at hk
      cases hk

theorem holds_besideJar : besideJar.files.Holds 1 (classPaths classB) where
  directory := ⟨_, _, rfl⟩
  file h := by
    cases List.mem_singleton.mp h
    refine ⟨2, 0o644, ?_, rfl⟩
    rw [resourcePath_B]
    decide
  only h := by
    rcases descend_besideJar h with ⟨rfl, -⟩ | ⟨rfl, -⟩
    · exact .inl rfl
    · exact .inr ⟨[], Loader.oneLetterClass 0x42, List.mem_singleton.mpr (by cbv)⟩
  readable h hnode := by
    rcases descend_besideJar h with ⟨-, rfl⟩ | ⟨-, rfl⟩ <;> cases hnode <;> rfl
  searchable h hnode := by
    rcases descend_besideJar h with ⟨-, rfl⟩ | ⟨-, rfl⟩ <;> cases hnode
    rfl

theorem twins_besideJar (k : Nat) :
    Twins "/classes" "/classes.jar" "A" classB [] k besideJar where
  unpacked := ⟨1, _, rfl, holds_besideJar⟩
  packed := ⟨⟨_, _, _, write_besideClasses, rfl, rfl⟩, nofun⟩

theorem fits_B : FitsBelow "/classes" "B" where
  inner := show "" ∉ Text.split '/' (toInternal "B") by
    rw [show toInternal "B" = "B" by cbv]
    decide
  nul := by decide
  names := by
    rw [resourcePath_B]
    decide
  short := by
    rw [resourcePath_B]
    decide

theorem classFiles_classB : ClassFiles "/classes" classB where
  fits := List.forall_mem_singleton.mpr fits_B
  plain := List.forall_mem_singleton.mpr (by decide)

/-- The directory tells what the jar beside it has. -/
theorem load_besideJar :
    ∃ c, ((Loader.archive 2 [.jar "/classes.jar"]).load "B" besideJar).1 = .ok (some c) ∧
      c.name = "B" ∧ ∀ settings boot, ((Collector.classpath settings boot).collect c besideJar).1 =
        .ok (some (Loader.oneLetterClass 0x42)) := by
  have htwins := twins_besideJar 2
  obtain ⟨hsame, -⟩ := directory_and_jar_agree classFiles_classB readsBack_classB fits_B 1 2
    besideJar besideJar htwins htwins
  have hdirectory : ((Loader.archive 1 [.directory "/classes"]).load "B" besideJar).1 =
      .ok (some ⟨"B", .topLevel, some (.archive 1 [.directory "/classes"]), .archive⟩) := by
    decide +kernel
  rw [hdirectory] at hsame
  generalize hjar : ((Loader.archive 2 [.jar "/classes.jar"]).load "B" besideJar).1 = r at hsame ⊢
  cases hsame with
  | found named kind listed collect members =>
    cases List.mem_singleton.mp listed
    exact ⟨_, rfl, named.2, fun settings boot =>
      (collect settings boot besideJar besideJar htwins htwins).1.2⟩

end Beside
end ClassRecovery
