import ClassRecovery.Proofs.Discovery.Looking
import ClassRecovery.Proofs.Loader.Members

/-!
Loaders of archives find nothing but nested classes. Names of such classes come from listings, from
counting and from class files, and whatever they are like, each goes on behind the name of the class
that was looked into and a `$`. So does what is found further on.
-/

namespace ClassRecovery

/-- The name goes on behind the outer one and a `$`. -/
def NestedName (outer name : String) : Prop := ∃ more, more ≠ "" ∧ name = outer ++ "$" ++ more

theorem NestedName.trans {outer middle name : String} (h : NestedName outer middle)
    (h' : NestedName middle name) : NestedName outer name := by
  obtain ⟨more, hmore, rfl⟩ := h
  obtain ⟨more', hmore', rfl⟩ := h'
  exact ⟨more ++ "$" ++ more', by simp, by simp only [String.append_assoc]⟩

/-- A class that one of the levels of a chain of loaders defined. -/
def ClassRef.DefinedIn (l : Loader) (c : ClassRef) : Prop :=
  ∃ self ∈ l.levels, c = self.archiveClass c.name ∧ c.name.toList.head? ≠ some '['

namespace ClassKind

variable {outer : String}

/-- A class with a number for its name is anonymous. -/
theorem ofName_numbered (n : Nat)
    (hname : (Discovery.numberedName outer n).toList.head? ≠ some '[') :
    ofName (Discovery.numberedName outer n) = .anonymous := by
  have hchars : (toString n).toList = Nat.toDigits 10 n := Nat.toList_repr
  have hdigits : ∀ c ∈ (toString n).toList, c.isDigit = true := fun c hc =>
    Nat.isDigit_of_mem_toDigits (by decide) (by decide) (hchars ▸ hc)
  have hplain : ∀ c ∈ (toString n).toList, ClassName.isSeparator c = false := by
    intro c hc
    have hdigit := hdigits c hc
    by_contra hsep
    have hcases : c = '.' ∨ c = '/' := by
      simpa [ClassName.isSeparator, or_iff_not_imp_left] using hsep
    rcases hcases with rfl | rfl <;> cases hdigit
  have hdollar : '$' ∉ (toString n).toList := fun h => absurd (hdigits _ h) (by decide)
  have hfilled : (toString n).toList ≠ [] := hchars ▸ Nat.toDigits_ne_nil
  unfold ofName
  rw [if_neg hname, Discovery.numberedName, lastSegment_nested hdollar hplain]
  obtain ⟨c, rest, hsegment⟩ := List.exists_cons_of_ne_nil hfilled
  rw [hsegment] at hdigits ⊢
  simp only
  rw [if_pos (List.all_eq_true.mpr hdigits)]

end ClassKind

namespace Loader

variable {l self : Loader} {name outer : String} {d : ClassRef} {w w' : World}

theorem definedIn_of_load (hl : l.IsArchives) (hself : self ∈ l.levels)
    (h : self.load name w = (.ok (some d), w')) :
    d.DefinedIn l ∧ d.name = name ∧ d.kind = ClassKind.ofName name := by
  have hload : (self.load name w).1 = .ok (some d) := by rw [h]
  obtain ⟨hhead, -, level, hlevel, rfl⟩ := archiveClass_of_load (hl.level hself) hload
  exact ⟨⟨level, (sublist_of_mem_levels hself).subset hlevel, rfl, hhead⟩, rfl, rfl⟩

/-- The names of members go on behind the name of the class. -/
theorem nestedName_of_mem_memberNames {id : Nat} {roots : List ClassRoot} {names : List String}
    (h : memberNames id roots outer w = (.ok names, w')) (hname : name ∈ names) :
    NestedName outer name := by
  unfold memberNames at h
  obtain ⟨stems, w₁, -, h⟩ := bind_run_eq_ok.mp h
  cases h
  obtain ⟨segment, hsegment, rfl⟩ := List.mem_map.mp hname
  obtain ⟨stem, -, hsegment⟩ := List.mem_filterMap.mp (List.mem_eraseDups.mp hsegment)
  exact ⟨segment, (memberSegment?_eq_some.mp hsegment).2.1, rfl⟩

end Loader

theorem ClassRef.nested_of_members {l : Loader} {c d : ClassRef} {cs : List ClassRef}
    {w w' : World} (hl : l.IsArchives) (hc : c.DefinedIn l) (h : c.members w = (.ok cs, w'))
    (hd : d ∈ cs) : d.DefinedIn l ∧ NestedName c.name d.name := by
  obtain ⟨self, hself, hc, -⟩ := hc
  have horigin : c.origin = .archive := by rw [hc]; rfl
  have hloader : c.loader = some self := by rw [hc]; rfl
  unfold members at h
  rw [horigin, hloader] at h
  obtain ⟨names, w₁, hnames, h⟩ := bind_run_eq_ok.mp h
  obtain ⟨answers, w₂, hanswers, h⟩ := bind_run_eq_ok.mp h
  cases h
  obtain ⟨answer, hanswer, rfl⟩ := List.mem_filterMap.mp hd
  obtain ⟨name, hname, _, _, hload⟩ := exists_of_mem_mapM hanswers hanswer
  obtain ⟨hdefined, rfl, -⟩ := Loader.definedIn_of_load hl hself hload
  exact ⟨hdefined, Loader.nestedName_of_mem_memberNames (mapFailure_eq_ok.mp hnames) hname⟩

namespace Discovery

variable {s : Settings} {l self : Loader} {name outer : String} {stop : ProbeStop} {c d : ClassRef}
  {cs declared numbered referred : List ClassRef} {w w₀ w' : World}

theorem nestedName_numberedName (outer : String) (n : Nat) :
    NestedName outer (numberedName outer n) := by
  refine ⟨toString n, fun h => ?_, rfl⟩
  have hchars : (toString n).toList = Nat.toDigits 10 n := Nat.toList_repr
  rw [h] at hchars
  exact Nat.toDigits_ne_nil hchars.symm

theorem Numbered.nested (hl : l.IsArchives) (hself : self ∈ l.levels) {left n : Nat}
    (h : Numbered self outer stop left n w cs w') :
    ∀ d ∈ cs, d.DefinedIn l ∧ NestedName outer d.name ∧ d.kind = .anonymous := by
  induction h with
  | done | miss => exact fun d hd => by cases hd
  | @hit _ n _ _ _ _ _ hload _ ih =>
    refine List.forall_mem_cons.mpr ⟨?_, ih⟩
    obtain ⟨hdefined, hname, hkind⟩ := Loader.definedIn_of_load hl hself hload
    obtain ⟨-, -, -, hhead⟩ := id hdefined
    rw [hname] at hhead
    exact ⟨hdefined, hname ▸ nestedName_numberedName outer n,
      hkind.trans (ClassKind.ofName_numbered n hhead)⟩
  | gap _ _ _ ih => exact ih

/-- A local class has more in its name than the `$`. -/
theorem nestedName_of_local (hbelow : IsBelow outer name)
    (hkind : ClassKind.ofName name = .local) : NestedName outer name := by
  obtain ⟨rest, hrest⟩ := hbelow
  have hname : name = outer ++ "$" ++ .ofList rest := String.toList_inj.mp (by simp [← hrest])
  refine ⟨.ofList rest, fun hempty => ?_, hname⟩
  have hlast : ClassKind.lastSegment (ClassName.simple (outer ++ "$" ++ "")).toList = some [] :=
    ClassKind.lastSegment_nested (by decide) (by simp)
  rw [hname, hempty, ClassKind.ofName, hlast] at hkind
  split at hkind <;> cases hkind

theorem Referred.nested (hl : l.IsArchives) (hself : self ∈ l.levels)
    {refs : List (Except ClassFile.Malformed String)} (h : Referred self outer refs w cs w') :
    ∀ d ∈ cs, d.DefinedIn l ∧ NestedName outer d.name ∧ d.kind = .local := by
  induction h with
  | nil => exact fun d hd => by cases hd
  | kept hbelow hload hkind _ ih =>
    refine List.forall_mem_cons.mpr ⟨?_, ih⟩
    obtain ⟨hdefined, rfl, hname⟩ := Loader.definedIn_of_load hl hself hload
    exact ⟨hdefined, nestedName_of_local hbelow (hname.symm.trans hkind), hkind⟩
  | beside _ _ ih | absent _ _ _ ih | other _ _ _ _ ih => exact ih

/-- Whatever a look gives is nested in the class, and of the kind that goes with where it comes
from. -/
theorem Looks.nested (hl : l.IsArchives) (hc : c.DefinedIn l)
    (h : Looks s c w declared numbered referred w') :
    (∀ d ∈ declared ++ numbered ++ referred, d.DefinedIn l ∧ NestedName c.name d.name) ∧
      (∀ d ∈ numbered, d.kind = .anonymous) ∧ ∀ d ∈ referred, d.kind = .local := by
  cases h with
  | members hmembers =>
    refine ⟨fun d hd => ?_, fun d hd => (by cases hd), fun d hd => (by cases hd)⟩
    exact ClassRef.nested_of_members hl hc hmembers (by simpa using hd)
  | whole hmembers hasked hnumbered _ hreferred =>
    obtain ⟨self, hself, hc', -⟩ := id hc
    have hloader : asked s c = some self := by rw [hc']; rfl
    cases hloader.symm.trans hasked
    have hanonymous := hnumbered.nested hl hself
    have hlocal := hreferred.nested hl hself
    refine ⟨fun d hd => ?_, fun d hd => (hanonymous d hd).2.2, fun d hd => (hlocal d hd).2.2⟩
    rcases List.mem_append.mp hd with hd | hd
    · rcases List.mem_append.mp hd with hd | hd
      · exact ClassRef.nested_of_members hl hc hmembers hd
      · exact ⟨(hanonymous d hd).1, (hanonymous d hd).2.1⟩
    · exact ⟨(hlocal d hd).1, (hlocal d hd).2.1⟩

/-- What has been found so far was given by a look into a class of the search, and is nested in the
class that the search started from. -/
structure Inside (l : Loader) (s : Settings) (c : ClassRef) (found pending : List ClassRef) :
    Prop where
  given : ∀ d ∈ found, ∃ outer ∈ c :: found, ∃ w₁ declared numbered referred w₂,
    Looks s outer w₁ declared numbered referred w₂ ∧ d ∈ declared ++ numbered ++ referred
  nested : ∀ d ∈ found, d.DefinedIn l ∧ NestedName c.name d.name
  known : ∀ o ∈ pending, o ∈ c :: found

theorem Inside.defined (hc : c.DefinedIn l) {found pending : List ClassRef}
    (h : Inside l s c found pending) : ∀ o ∈ c :: found, o.DefinedIn l :=
  List.forall_mem_cons.mpr ⟨hc, fun d hd => (h.nested d hd).1⟩

/-- A look brings nothing but what is nested in the class, and so in the first one. -/
theorem Inside.look (hl : l.IsArchives) (hc : c.DefinedIn l) {found pending new : List ClassRef}
    {o : ClassRef} (h : Inside l s c found (o :: pending))
    (hlooks : Looks s o w declared numbered referred w')
    (hnew : new ⊆ declared ++ numbered ++ referred) :
    Inside l s c (new ++ found) (new ++ pending) := by
  have ho : o ∈ c :: found := h.known o List.mem_cons_self
  have hmore : c :: found ⊆ c :: (new ++ found) :=
    List.cons_subset_cons c (List.subset_append_right new found)
  have hnested : ∀ d ∈ new, d.DefinedIn l ∧ NestedName c.name d.name := by
    intro d hd
    obtain ⟨hdefined, hname⟩ := (hlooks.nested hl (h.defined hc o ho)).1 d (hnew hd)
    rcases List.mem_cons.mp ho with rfl | ho
    · exact ⟨hdefined, hname⟩
    · exact ⟨hdefined, (h.nested o ho).2.trans hname⟩
  refine ⟨fun d hd => ?_, fun d hd => ?_, fun d hd => ?_⟩
  · rcases List.mem_append.mp hd with hd | hd
    · exact ⟨o, hmore ho, w, declared, numbered, referred, w', hlooks, hnew hd⟩
    · obtain ⟨outer, houter, hgiven⟩ := h.given d hd
      exact ⟨outer, hmore houter, hgiven⟩
  · exact (List.mem_append.mp hd).elim (hnested d) (h.nested d)
  · rcases List.mem_append.mp hd with hd | hd
    · exact List.mem_cons_of_mem _ (List.mem_append_left _ hd)
    · exact hmore (h.known d (List.mem_cons_of_mem _ hd))

/-- A look that succeeds leaves only such classes on the lists. -/
theorem Inside.enlist (hl : l.IsArchives) (hc : c.DefinedIn l)
    {found pending nested found' pending' : List ClassRef} {o : ClassRef} {w₁ w₂ : World}
    (h : Inside l s c found (o :: pending)) (hdirect : direct s o w = (.ok nested, w₁))
    (henlist : enlist ClassRef.release c nested found pending w₁ = ((found', pending'), w₂)) :
    Inside l s c found' pending' := by
  obtain ⟨declared, numbered, referred, rfl, hlooks⟩ := direct_eq_ok_iff.mp hdirect
  obtain ⟨new, hnew, hrun⟩ := enlist_adds ClassRef.release c (declared ++ numbered ++ referred)
    found pending w₁
  rw [henlist] at hrun
  cases hrun
  exact h.look hl hc hlooks hnew

/-- Whatever is found from a class of archives is nested in it by its name; what was found by
counting is anonymous, and what was found by reference is local. -/
theorem find_stays_inside (hl : l.IsArchives) (hc : (l.load name w₀).1 = .ok (some c)) {fuel : Nat}
    {found : List ClassRef} (h : (find s fuel (some c) w).1 = .ok (some found)) :
    (∀ d ∈ found, NestedName c.name d.name ∧ ∃ outer ∈ c :: found,
      ∃ w₁ declared numbered referred w₂, Looks s outer w₁ declared numbered referred w₂ ∧
        d ∈ declared ++ numbered ++ referred) ∧
    ∀ outer ∈ c :: found, ∀ w₁ declared numbered referred w₂,
      Looks s outer w₁ declared numbered referred w₂ →
        (∀ d ∈ numbered, d.kind = .anonymous) ∧ ∀ d ∈ referred, d.kind = .local := by
  have hload : l.load name w₀ = (.ok (some c), (l.load name w₀).2) := Prod.ext hc rfl
  obtain ⟨hdefined, -⟩ := Loader.definedIn_of_load hl (Loader.self_mem_levels l) hload
  have hstart : Inside l s c [] [c] :=
    ⟨fun d hd => (by cases hd), fun d hd => (by cases hd), fun o ho => ho⟩
  obtain ⟨all, rfl, hinside⟩ := explore_keeps (fun found pending _ => Inside l s c found pending)
    (fun _ _ _ _ _ _ hinside hdirect _ _ _ => hinside.enlist hl hdefined hdirect)
    (explore_of_find (Prod.ext h rfl)) hstart
  refine ⟨fun d hd => ?_, fun outer houter w₁ declared numbered referred w₂ hlooks => ?_⟩
  · rw [List.mem_reverse] at hd
    obtain ⟨outer, houter, hgiven⟩ := hinside.given d hd
    exact ⟨(hinside.nested d hd).2, outer, by simpa using houter, hgiven⟩
  · have houter' : outer ∈ c :: all := by simpa using houter
    exact (hlooks.nested hl (hinside.defined hdefined outer houter')).2

section AllKinds

open Loader (namedClass overDirectory outerClass)

/-- A class file of `A` that refers to `A$1L`. -/
def referringClass : Bytes :=
  [0xCA, 0xFE, 0xBA, 0xBE, 0, 0, 0, 0x34, 0, 5, 1, 0, 1, 0x41, 7, 0, 1, 1, 0, 4, 0x41, 0x24, 0x31,
    0x4C, 7, 0, 3, 0, 0, 0, 2]

/-- A directory with a class and one of each kind that can be nested in it, and beside them one that
only begins like it. -/
def allKinds : World where
  files :=
    { nodes := #[
        ⟨.directory [("d", 1)], 0o755⟩,
        ⟨.directory [("A.class", 2), ("A$M.class", 3), ("A$1.class", 4), ("A$1L.class", 5),
          ("AB$M.class", 6)], 0o755⟩,
        ⟨.file referringClass, 0o644⟩,
        ⟨.file (namedClass [0x41, 0x24, 0x4D]), 0o644⟩,
        ⟨.file (namedClass [0x41, 0x24, 0x31]), 0o644⟩,
        ⟨.file (namedClass [0x41, 0x24, 0x31, 0x4C]), 0o644⟩,
        ⟨.file (namedClass [0x41, 0x42, 0x24, 0x4D]), 0o644⟩]
      working := FileSystem.rootPlace }

def collecting : Settings :=
  ⟨⟨[Collector.classpath Collector.classpathDefault overDirectory]⟩, ⟨2, .firstMiss⟩, none⟩

theorem find_allKinds : (find collecting 4 (some outerClass) allKinds).1 =
    .ok (some (["A$M", "A$1", "A$1L"].map overDirectory.archiveClass)) := by
  decide +kernel

theorem load_allKinds : (overDirectory.load "A" allKinds).1 = .ok (some outerClass) := by
  decide +kernel

theorem find_stays_inside_allKinds :
    (∀ name ∈ ["A$M", "A$1", "A$1L"], NestedName "A" name) ∧
      ∀ w₁ declared numbered referred w₂,
        Looks collecting outerClass w₁ declared numbered referred w₂ →
          (∀ d ∈ numbered, d.kind = .anonymous) ∧ ∀ d ∈ referred, d.kind = .local := by
  obtain ⟨hnested, hkinds⟩ :=
    find_stays_inside (l := overDirectory) trivial load_allKinds find_allKinds
  refine ⟨fun name hname => ?_, hkinds outerClass List.mem_cons_self⟩
  exact (hnested _ (List.mem_map_of_mem hname)).1

end AllKinds

end Discovery

end ClassRecovery
