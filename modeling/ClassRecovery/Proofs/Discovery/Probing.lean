import ClassRecovery.Proofs.Discovery.Inside

/-!
Trying more numbers finds no less. Where classes, loaders and collectors keep to one picture, a look
with more numbers tried tells of all that one with fewer tells of. As both searches find exactly
what their looks lead to, the one finds all that the other finds, in whatever order.
-/

namespace ClassRecovery.Discovery

/-- What there is to find, apart from how it is searched: the members of each class, what its loader
has under a name, and its bytes. References to one class see the same. -/
structure Picture where
  members : ClassKey → Set ClassKey
  hasLoader : ClassKey → Prop
  load : ClassKey → String → Option (ClassKey × ClassKind)
  bytes : ClassKey → Option Bytes

/-- Whatever succeeds comes to what is in the picture. `steady` is what this rests on: a state in
which certain references are held, and which no question about one of them spoils. -/
structure Shows (p : Picture) (chain : Chain World) (boot : Option Loader)
    (steady : Multiset ClassRef → World → Prop) : Prop where
  members : ∀ {o held w cs w'}, o ∈ held → steady held w → o.members w = (.ok cs, w') →
    (∀ k, k ∈ cs.map ClassRef.key ↔ k ∈ p.members o.key) ∧ steady (↑cs + held) w'
  hasLoader : ∀ {o held w}, o ∈ held → steady held w →
    ((o.loader.orElse fun _ => boot).isSome ↔ p.hasLoader o.key)
  load : ∀ {o held w loader name found w'}, o ∈ held → steady held w →
    (o.loader.orElse fun _ => boot) = some loader → loader.load name w = (.ok found, w') →
      found.map (fun d => (d.key, d.kind)) = p.load o.key name ∧
        steady (↑found.toList + held) w'
  bytes : ∀ {o held w file w'}, o ∈ held → steady held w →
    chain.get (some o) w = (.ok file, w') → file = p.bytes o.key ∧ steady held w'
  released : ∀ {o held w}, steady (o ::ₘ held) w → steady held (o.release w).2

/-- What is found under the numbers from `n` on, `left` of them at most. -/
def tried (found : Nat → Option ClassKey) (stop : ProbeStop) : (left n : Nat) → List ClassKey
  | 0, _ => []
  | left + 1, n =>
    match found n with
    | some k => k :: tried found stop left (n + 1)
    | none => if stop = .firstMiss then [] else tried found stop left (n + 1)

/-- Going on further, or behind gaps, leaves out nothing. -/
theorem tried_mono {found : Nat → Option ClassKey} {stop stop' : ProbeStop}
    (hstop : stop = .firstMiss ∨ stop' = .exhaust) {left left' : Nat} (hleft : left ≤ left')
    (n : Nat) : tried found stop left n ⊆ tried found stop' left' n := by
  induction left generalizing left' n with
  | zero => exact List.nil_subset _
  | succ left ih =>
    obtain ⟨left', rfl⟩ := Nat.exists_eq_succ_of_ne_zero (by omega : left' ≠ 0)
    have hrest := ih (Nat.le_of_succ_le_succ hleft) (n + 1)
    rw [tried, tried]
    cases found n with
    | some k => exact List.cons_subset_cons k hrest
    | none =>
      rcases hstop with rfl | rfl
      · exact List.nil_subset _
      · dsimp only
        split
        · exact List.nil_subset _
        · exact hrest

namespace Picture

variable (p : Picture) (probe : ProbeOptions)

/-- The class under a number. -/
def numbered (outer : ClassKey) (n : Nat) : Option ClassKey :=
  (p.load outer (numberedName outer.name n)).map Prod.fst

/-- A local class that the class file refers to. -/
def Refers (outer : ClassKey) (refs : List (Except ClassFile.Malformed String)) (k : ClassKey) :
    Prop :=
  ∃ name, .ok name ∈ refs ∧ IsBelow outer.name name ∧ p.load outer name = some (k, .local)

theorem refers_cons {outer k : ClassKey} {refs : List (Except ClassFile.Malformed String)}
    {name : String} : p.Refers outer (.ok name :: refs) k ↔
      IsBelow outer.name name ∧ p.load outer name = some (k, .local) ∨ p.Refers outer refs k := by
  constructor
  · rintro ⟨name', hname, hrefers⟩
    rcases List.mem_cons.mp hname with hname | hname
    · cases hname
      exact .inl hrefers
    · exact .inr ⟨name', hname, hrefers⟩
  · rintro (hrefers | ⟨name', hname, hrefers⟩)
    · exact ⟨name, List.mem_cons_self, hrefers⟩
    · exact ⟨name', List.mem_cons_of_mem _ hname, hrefers⟩

/-- What is directly nested in a class, as far as numbers are tried. -/
def nested (outer : ClassKey) : Set ClassKey :=
  {k | k ∈ p.members outer ∨ p.hasLoader outer ∧
    (k ∈ tried (p.numbered outer) probe.stop probe.max 1 ∨
      p.Refers outer (references (p.bytes outer)) k)}

def graph : Graph := fun outer => .ok (p.nested probe outer)

variable {p probe} {probe' : ProbeOptions} {outer k : ClassKey}

/-- What a search reaches, one that tries more numbers reaches. -/
theorem reaches_mono (hmax : probe.max ≤ probe'.max)
    (hstop : probe.stop = .firstMiss ∨ probe'.stop = .exhaust)
    (h : (p.graph probe).Reaches outer k) : (p.graph probe').Reaches outer k := by
  refine Relation.TransGen.mono ?_ _ _ h
  rintro a b ⟨ks, hks, hb⟩
  cases hks
  refine ⟨_, rfl, hb.imp_right fun ⟨hloader, hb⟩ => ⟨hloader, hb.imp_left fun hb => ?_⟩⟩
  exact tried_mono hstop hmax 1 hb

end Picture

section Shown

variable {p : Picture} {chain : Chain World} {boot : Option Loader}
  {steady : Multiset ClassRef → World → Prop} {held : Multiset ClassRef} {o : ClassRef}
  {loader : Loader} {cs declared numbered referred : List ClassRef} {w w' : World}

theorem held_cons (c : ClassRef) (cs : List ClassRef) (held : Multiset ClassRef) :
    (↑(c :: cs) + held : Multiset ClassRef) = ↑cs + (↑(some c).toList + held) := by
  simp [← Multiset.cons_coe]

/-- Numbers that are tried find what the picture has under them. -/
theorem Numbered.shown (hp : Shows p chain boot steady)
    (hloader : (o.loader.orElse fun _ => boot) = some loader) {stop : ProbeStop} {left n : Nat}
    (h : Numbered loader o.name stop left n w cs w') (ho : o ∈ held) (hw : steady held w) :
    cs.map ClassRef.key = tried (p.numbered o.key) stop left n ∧ steady (↑cs + held) w' := by
  induction h generalizing held with
  | done => exact ⟨rfl, by simpa using hw⟩
  | @hit left n w w₁ w' c cs hload _ ih =>
    obtain ⟨hshown, hw₁⟩ := hp.load ho hw hloader hload
    obtain ⟨hkeys, hw'⟩ := ih (Multiset.mem_add.mpr (.inr ho)) hw₁
    have hnumber : p.numbered o.key n = some c.key := congrArg (Option.map Prod.fst) hshown.symm
    refine ⟨by rw [tried, hnumber, List.map_cons, hkeys], ?_⟩
    exact held_cons c cs held ▸ hw'
  | @miss left n w w' hstop hload =>
    obtain ⟨hshown, hw'⟩ := hp.load ho hw hloader hload
    have hnumber : p.numbered o.key n = none := congrArg (Option.map Prod.fst) hshown.symm
    exact ⟨by rw [tried, hnumber]; simp [hstop], hw'⟩
  | @gap left n w w₁ w' cs hstop hload _ ih =>
    obtain ⟨hshown, hw₁⟩ := hp.load ho hw hloader hload
    have hnumber : p.numbered o.key n = none := congrArg (Option.map Prod.fst) hshown.symm
    obtain ⟨hkeys, hw'⟩ := ih ho (by simpa using hw₁)
    exact ⟨by rw [tried, hnumber, hkeys]; simp [hstop], hw'⟩

/-- References that are followed find the local classes that the picture has under them. -/
theorem Referred.shown (hp : Shows p chain boot steady)
    (hloader : (o.loader.orElse fun _ => boot) = some loader)
    {refs : List (Except ClassFile.Malformed String)}
    (h : Referred loader o.name refs w cs w') (ho : o ∈ held) (hw : steady held w) :
    (∀ k, k ∈ cs.map ClassRef.key ↔ p.Refers o.key refs k) ∧ steady (↑cs + held) w' := by
  induction h generalizing held with
  | nil =>
    refine ⟨fun k => ⟨fun hk => (by cases hk), ?_⟩, by simpa using hw⟩
    rintro ⟨_, hname, -⟩
    cases hname
  | beside hbelow _ ih =>
    obtain ⟨hkeys, hw'⟩ := ih ho hw
    refine ⟨fun k => (hkeys k).trans ?_, hw'⟩
    rw [p.refers_cons]
    exact ⟨.inr, fun h => h.resolve_left fun h => hbelow h.1⟩
  | absent hbelow hload _ ih =>
    obtain ⟨hshown, hw₁⟩ := hp.load ho hw hloader hload
    obtain ⟨hkeys, hw'⟩ := ih ho (by simpa using hw₁)
    refine ⟨fun k => (hkeys k).trans ?_, hw'⟩
    rw [p.refers_cons, ← hshown]
    exact ⟨.inr, fun h => h.resolve_left fun h => (by cases h.2)⟩
  | kept hbelow hload hkind _ ih =>
    obtain ⟨hshown, hw₁⟩ := hp.load ho hw hloader hload
    obtain ⟨hkeys, hw'⟩ := ih (Multiset.mem_add.mpr (.inr ho)) hw₁
    refine ⟨fun k => ?_, held_cons _ _ held ▸ hw'⟩
    rw [List.map_cons, List.mem_cons, hkeys, p.refers_cons, ← hshown]
    refine or_congr_left ⟨?_, fun h => (congrArg Prod.fst (Option.some.inj h.2)).symm⟩
    rintro rfl
    exact ⟨hbelow, by rw [Option.map_some, hkind]⟩
  | other hbelow hload hkind _ ih =>
    obtain ⟨hshown, hw₁⟩ := hp.load ho hw hloader hload
    obtain ⟨hkeys, hw'⟩ := ih ho (hp.released (by simpa using hw₁))
    refine ⟨fun k => (hkeys k).trans ?_, hw'⟩
    rw [p.refers_cons, ← hshown]
    refine ⟨.inr, fun h => h.resolve_left fun h => ?_⟩
    exact hkind (congrArg Prod.snd (Option.some.inj h.2))

/-- A look tells what the picture has. -/
theorem Looks.shown {s : Settings} (hp : Shows p s.chain s.boot steady) (ho : o ∈ held)
    (hw : steady held w) (h : Looks s o w declared numbered referred w') :
    (∀ k, k ∈ (declared ++ numbered ++ referred).map ClassRef.key ↔ k ∈ p.nested s.probe o.key) ∧
      steady (↑(declared ++ numbered ++ referred) + held) w' := by
  cases h with
  | members hmembers hasked =>
    obtain ⟨hkeys, hw'⟩ := hp.members ho hw hmembers
    have hnone : ¬ p.hasLoader o.key := fun h => by
      have hsome := (hp.hasLoader ho hw).mpr h
      rw [show (o.loader.orElse fun _ => s.boot) = none from hasked] at hsome
      cases hsome
    refine ⟨fun k => ?_, by simpa using hw'⟩
    simp only [List.append_nil, hkeys, Picture.nested, Set.mem_ofPred_eq, hnone, false_and,
      or_false]
  | whole hmembers hasked hnumbered hbytes hreferred =>
    obtain ⟨hkeys₁, hw₁⟩ := hp.members ho hw hmembers
    obtain ⟨hkeys₂, hw₂⟩ :=
      hnumbered.shown hp hasked (Multiset.mem_add.mpr (.inr ho)) hw₁
    have ho₂ : o ∈ (↑numbered + (↑declared + held) : Multiset ClassRef) := by simp [ho]
    obtain ⟨rfl, hw₃⟩ := hp.bytes ho₂ hw₂ hbytes
    obtain ⟨hkeys₃, hw'⟩ := hreferred.shown hp hasked ho₂ hw₃
    have hloader : p.hasLoader o.key := (hp.hasLoader ho hw).mp (by
      rw [show (o.loader.orElse fun _ => s.boot) = some _ from hasked]
      rfl)
    refine ⟨fun k => ?_, ?_⟩
    · simp only [List.map_append, List.mem_append, hkeys₁, hkeys₂, hkeys₃, Picture.nested,
        Set.mem_ofPred_eq, hloader, true_and, or_assoc]
    · convert hw' using 1
      simp only [← Multiset.coe_add]
      abel

/-- Each look of a search goes on from what the picture leads to. -/
theorem Searched.shown {s : Settings} {c : ClassRef}
    {found pending nested found' pending' : List ClassRef} {w₁ w₂ : World} (hp : Shows p s.chain s.boot steady)
    (h : Searched (p.graph s.probe) c steady found (o :: pending) w)
    (hdirect : direct s o w = (.ok nested, w₁))
    (henlist : enlist ClassRef.release c nested found pending w₁ = ((found', pending'), w₂)) :
    Searched (p.graph s.probe) c steady found' pending' w₂ := by
  obtain ⟨declared, numbered, referred, rfl, hlooks⟩ := direct_eq_ok_iff.mp hdirect
  have ho : o ∈ (↑(c :: found) : Multiset ClassRef) :=
    Multiset.mem_coe.mpr (h.known o List.mem_cons_self)
  obtain ⟨hkeys, hw₁⟩ := hlooks.shown hp ho h.steady
  exact h.told (fun _ _ _ => hp.released) rfl hkeys hw₁ henlist

end Shown

section Archives

variable {l self : Loader} {chain : Chain World} {roots : List OwnedRoot} {w : World}

/-- The level that a class is of. -/
def levelOf (l : Loader) (k : ClassKey) : Option Loader := l.levels.find? (·.id = k.loader)

/-- What a chain of loaders of archives has, and what the collectors have for its classes. -/
def archivePicture (l : Loader) (chain : Chain World) (w : World) : Picture where
  members k := {k' | ∃ self ∈ levelOf l k, ∃ cs,
    ((self.archiveClass k.name).members w).1 = .ok cs ∧ k' ∈ cs.map ClassRef.key}
  hasLoader _ := True
  load k name := (levelOf l k).bind fun self =>
    (self.found? name w).map fun d => (d.key, d.kind)
  bytes k := (levelOf l k).bind fun self =>
    (chain.get (some (self.archiveClass k.name)) w).1.toOption.join

/-- A class that was defined in the chain is known by its level and its name. -/
theorem exists_level (hids : l.Apart) {o : ClassRef} (ho : o.DefinedIn l) :
    ∃ self ∈ l.levels, levelOf l o.key = some self ∧ self.archiveClass o.name = o := by
  obtain ⟨self, hself, hdefined, -⟩ := ho
  refine ⟨self, hself, ?_, hdefined.symm⟩
  have hid : o.key.loader = self.id := by
    rw [hdefined]
    rfl
  unfold levelOf
  rw [hid]
  cases hfind : l.levels.find? (·.id = self.id) with
  | none => exact absurd (by simp) (List.find?_eq_none.mp hfind self hself)
  | some level =>
    have hlevel := List.mem_of_find?_eq_some hfind
    have hsame : level.id = self.id := by simpa using List.find?_some hfind
    rw [List.inj_on_of_nodup_map hids hlevel hself hsame]

/-- Loaders of archives keep to one picture, as long as the files stay and the collectors keep to
one as well. -/
theorem shows_archives (hl : l.IsArchives) (hids : l.Apart)
    (hchain : ∀ o : ClassRef, o.DefinedIn l → Reproducible l.allRoots (chain.get (some o)))
    (boot : Option Loader) (w : World) : Shows (archivePicture l chain w) chain boot
      fun held w' => w.Reopens l.allRoots w' ∧ ∀ o ∈ held, o.DefinedIn l := by
  have hroots := hids.separate
  constructor
  case members =>
    rintro o held w₁ cs w₂ ho ⟨hw₁, hheld⟩ hmembers
    have hnested : ∀ d ∈ cs, d.DefinedIn l := fun d hd =>
      (ClassRef.nested_of_members hl (hheld o ho) hmembers hd).1
    obtain ⟨self, hself, hlevel, hdefined⟩ := exists_level hids (hheld o ho)
    obtain ⟨hsame, hw₂⟩ := Loader.members_reproducible (hl.level hself) hroots
      (Loader.allRoots_subset hself) o.name w w₁ hw₁
    rw [hdefined, hmembers] at hsame hw₂
    refine ⟨fun k => ?_, hw₂, fun d hd => (Multiset.mem_add.mp hd).elim (hnested d) (hheld d)⟩
    change _ ↔ ∃ self ∈ levelOf l o.key, ∃ cs, ((self.archiveClass o.name).members w).1 = .ok cs ∧
      k ∈ cs.map ClassRef.key
    simp only [hlevel, Option.mem_some_iff, exists_eq_left', hdefined, ← hsame, Except.ok.injEq]
  case hasLoader =>
    rintro o held w₁ ho ⟨-, hheld⟩
    obtain ⟨self, -, -, hdefined⟩ := exists_level hids (hheld o ho)
    rw [← hdefined]
    exact ⟨fun _ => trivial, fun _ => rfl⟩
  case load =>
    rintro o held w₁ loader name found w₂ ho ⟨hw₁, hheld⟩ hloader hload
    obtain ⟨self, hself, hlevel, hdefined⟩ := exists_level hids (hheld o ho)
    rw [← hdefined] at hloader
    obtain rfl : self = loader := Option.some.inj hloader
    have hlevels : ∀ level ∈ self.levels, level.owned ⊆ l.allRoots := fun _ h =>
      List.Subset.trans (Loader.owned_subset_allRoots h) (Loader.allRoots_subset hself)
    obtain ⟨hsame, hw₂⟩ :=
      Loader.load_reproducible (hl.level hself) hroots hlevels name w w₁ hw₁
    rw [hload] at hsame hw₂
    refine ⟨?_, hw₂, fun d hd => (Multiset.mem_add.mp hd).elim (fun hd => ?_) (hheld d)⟩
    · change _ = (levelOf l o.key).bind fun self =>
        (self.found? name w).map fun d => (d.key, d.kind)
      rw [hlevel, Option.bind_some, Loader.found?, ← hsame]
      rfl
    · obtain rfl : found = some d := by simpa using hd
      exact (Loader.definedIn_of_load hl hself hload).1
  case bytes =>
    rintro o held w₁ file w₂ ho ⟨hw₁, hheld⟩ hbytes
    obtain ⟨self, -, hlevel, hdefined⟩ := exists_level hids (hheld o ho)
    obtain ⟨hsame, hw₂⟩ := hchain o (hheld o ho) w w₁ hw₁
    rw [hbytes] at hsame hw₂
    refine ⟨?_, hw₂, hheld⟩
    change _ = (levelOf l o.key).bind fun self =>
      (chain.get (some (self.archiveClass o.name)) w).1.toOption.join
    rw [hlevel, Option.bind_some, hdefined, ← hsame]
    rfl
  case released =>
    rintro o held w₁ ⟨hw₁, hheld⟩
    obtain ⟨self, -, -, hdefined⟩ := exists_level hids (hheld o (Multiset.mem_cons_self o held))
    refine ⟨?_, fun d hd => hheld d (Multiset.mem_cons_of_mem hd)⟩
    rw [← hdefined]
    exact hw₁

theorem search_reproducible {sole : Bool} {c : ClassRef} {collectors : List (Collector World)}
    (h : ∀ collector ∈ collectors, Reproducible roots (collector.collect c)) :
    Reproducible roots (Chain.search sole c collectors) := by
  induction collectors with
  | nil => exact .pure none
  | cons collector rest ih =>
    have hrest := ih fun k hk => h k (List.mem_cons_of_mem _ hk)
    refine (h collector List.mem_cons_self).outcome.bind fun answer => ?_
    rcases answer with e | _ | bytes
    · dsimp only
      split
      · exact hrest
      · exact .throw e
    · exact hrest
    · exact .pure (some bytes)

theorem classpath_reproducible (hl : l.IsArchives) (hids : l.Apart) (settings : CollectorOptions)
    (boot : Loader) {o : ClassRef} (ho : o.DefinedIn l) :
    Reproducible l.allRoots ((Collector.classpath settings boot).collect o) := by
  obtain ⟨self, hself, hdefined, -⟩ := ho
  have hloader : o.loader.getD boot = self := by
    rw [hdefined]
    rfl
  change Reproducible l.allRoots (mapFailure _ ((o.loader.getD boot).readResource _))
  rw [hloader, Loader.readResource_eq_askInTurn (hl.level hself)]
  refine .mapFailure (.askInTurn fun a ha => ?_)
  obtain ⟨r, hr, rfl⟩ := List.mem_map.mp ha
  exact r.read_reproducible hids.separate (Loader.allRoots_subset hself hr) _

end Archives

/-- Whatever a search finds, one that tries more numbers finds, or one that goes on behind gaps. -/
theorem find_probing_more {p : Picture} {s s' : Settings} {c c' : ClassRef} {w w' : World}
    {steady steady' : Multiset ClassRef → World → Prop} {fuel fuel' : Nat}
    {found found' : List ClassRef} (hp : Shows p s.chain s.boot steady) (hw : steady {c} w)
    (hp' : Shows p s'.chain s'.boot steady') (hw' : steady' {c'} w') (hkey : c.key = c'.key)
    (hmax : s.probe.max ≤ s'.probe.max)
    (hstop : s.probe.stop = .firstMiss ∨ s'.probe.stop = .exhaust)
    (h : (find s fuel (some c) w).1 = .ok (some found))
    (h' : (find s' fuel' (some c') w').1 = .ok (some found')) :
    ∀ d ∈ found, ∃ d' ∈ found', d'.key = d.key := by
  have hclosure : ∀ {s : Settings} {c : ClassRef} {w : World} {steady fuel found},
      Shows p s.chain s.boot steady → steady {c} w →
        (find s fuel (some c) w).1 = .ok (some found) →
          IsClosure (p.graph s.probe) c.key found := by
    intro s c w steady fuel found hp hw h
    obtain ⟨all, rfl, hall⟩ := explore_keeps (Searched (p.graph s.probe) c steady)
      (fun _ _ _ _ _ _ hsearched hdirect _ _ _ => hsearched.shown hp hdirect)
      (explore_of_find (Prod.ext h rfl)) (.start hw)
    exact isClosure_reverse hall
  have hfound := hclosure hp hw h
  have hfound' := hclosure hp' hw' h'
  intro d hd
  obtain ⟨hreached, hne⟩ := (hfound.2 d.key).mp (List.mem_map_of_mem hd)
  rw [hkey] at hreached hne
  exact List.mem_map.mp ((hfound'.2 d.key).mpr ⟨Picture.reaches_mono hmax hstop hreached, hne⟩)

section Gap

open Loader (namedClass overDirectory outerClass)

/-- A directory with a class and two anonymous ones, whose numbers leave a gap. -/
def withGap : World where
  files :=
    { nodes := #[
        ⟨.directory [("d", 1)], 0o755⟩,
        ⟨.directory [("A.class", 2), ("A$1.class", 3), ("A$3.class", 4)], 0o755⟩,
        ⟨.file (namedClass [0x41]), 0o644⟩,
        ⟨.file (namedClass [0x41, 0x24, 0x31]), 0o644⟩,
        ⟨.file (namedClass [0x41, 0x24, 0x33]), 0o644⟩]
      working := FileSystem.rootPlace }

def withProbe (probe : ProbeOptions) : Settings := { collecting with probe }

theorem find_withGap :
    (find (withProbe ⟨2, .firstMiss⟩) 4 (some outerClass) withGap).1 =
        .ok (some (["A$1"].map overDirectory.archiveClass)) ∧
      (find (withProbe ⟨3, .exhaust⟩) 4 (some outerClass) withGap).1 =
        .ok (some (["A$1", "A$3"].map overDirectory.archiveClass)) := by
  decide +kernel

theorem find_probing_more_withGap :
    (find (withProbe ⟨2, .firstMiss⟩) 4 (some outerClass) withGap).1 =
        .ok (some (["A$1"].map overDirectory.archiveClass)) ∧
      (find (withProbe ⟨3, .exhaust⟩) 4 (some outerClass) withGap).1 =
        .ok (some (["A$1", "A$3"].map overDirectory.archiveClass)) ∧
      ∀ d ∈ ["A$1"].map overDirectory.archiveClass,
        ∃ d' ∈ ["A$1", "A$3"].map overDirectory.archiveClass, d'.key = d.key := by
  have hl : overDirectory.IsArchives := trivial
  have hids : overDirectory.Apart := List.nodup_singleton _
  have hchain : ∀ o : ClassRef, o.DefinedIn overDirectory →
      Reproducible overDirectory.allRoots (collecting.chain.get (some o)) := fun o ho =>
    search_reproducible (List.forall_mem_singleton.mpr
      (classpath_reproducible hl hids Collector.classpathDefault overDirectory ho))
  have hshows : ∀ probe, Shows (archivePicture overDirectory collecting.chain withGap)
      (withProbe probe).chain (withProbe probe).boot _ :=
    fun _ => shows_archives hl hids hchain none withGap
  have hstart : withGap.Reopens overDirectory.allRoots withGap ∧
      ∀ o ∈ ({outerClass} : Multiset ClassRef), o.DefinedIn overDirectory := by
    refine ⟨.refl _ _, fun o ho => ?_⟩
    rw [Multiset.mem_singleton.mp ho]
    exact ⟨overDirectory, List.mem_cons_self, rfl, by decide⟩
  obtain ⟨hfew, hmany⟩ := find_withGap
  exact ⟨hfew, hmany, find_probing_more (hshows ⟨2, .firstMiss⟩) hstart (hshows ⟨3, .exhaust⟩)
    hstart rfl (by decide) (.inl rfl) hfew hmany⟩

end Gap

end ClassRecovery.Discovery
