import ClassRecovery.Proofs.Loader.Provenance

/-!
The identity of classes. References are equal when their names and the numbers of their loaders
are. Archive loaders are numbered by one counter, and loaders of the machine by one for each
connection; so among references from one counter equality is that of the classes, in every course
that connecting, making loaders, meeting classes and letting go can take. Between counters it is
not, as each of them starts with the same number.
-/

namespace ClassRecovery

open Jvm (Link)

variable {ε α : Type} {made : List Loader} {w w' : World} {c d : ClassRef} {l : Link}

/-- What a process can do with loaders and classes, and the loaders made and the classes met until
then. It uses connections only while it holds them. -/
inductive Course : World → List Loader → List ClassRef → Prop
  | start {w : World} : w.link.connections = #[] → Course w [] []
  | connect {w made met} : Course w made met → Course (World.onLink Link.connect w).2 made met
  | make {w made met} (roots : List ClassRoot) (parent : Option Loader) : Course w made met →
      (∀ p, parent = some p → p.Within made) →
      Course (Loader.make roots parent w).2 (made ++ [(Loader.make roots parent w).1]) met
  /-- A class object that the machine hands over, alone or as one of many. -/
  | meet {w made met} (i : Nat) (cls : Option Jvm.Reference) : Course w made met →
      w.link.Held i →
      Course (World.attemptLink (ε := Error) (Link.classOf i cls) w).2 made
        (met ++ (World.attemptLink (ε := Error) (Link.classOf i cls) w).1.toOption.elim [] ([·]))
  | load {w made met} (l : Loader) (name : String) : Course w made met → l.Within made →
      Course (l.load name w).2 made (met ++ (l.load name w).1.toOption.elim [] Option.toList)
  | members {w made met} (c : ClassRef) : Course w made met → c ∈ met → c.Current w.link →
      Course (c.members w).2 made (met ++ (c.members w).1.toOption.elim [] id)
  /-- A loader object that the machine hands over. -/
  | meetLoader {w made met} (i : Nat) (o : Option Jvm.Reference) : Course w made met →
      w.link.Held i → Course (World.attemptLink (ε := Error) (Link.loaderFor i o) w).2 made met
  | systemLoader {w made met} (i : Nat) : Course w made met → w.link.Held i →
      Course (World.attemptLink (ε := Error) (Link.systemLoader i) w).2 made met
  | retain {w made met} (i : Nat) : Course w made met → w.link.Held i →
      Course (World.onLink (Link.retain i) w).2 made met
  | release {w made met} (i : Nat) : Course w made met →
      Course (World.onLink (Link.releaseConnection i) w).2 made met
  | retainLoader {w made met} (l : Loader) : Course w made met → Course (l.retain w).2 made met
  | releaseLoader {w made met} (l : Loader) : Course w made met → Course (l.release w).2 made met
  | releaseClass {w made met} (c : ClassRef) : Course w made met → Course (c.release w).2 made met
  /-- Whatever else happens in the process and in the machine, where no loader is met or let go, and
  no class changes its name or its loader. -/
  | besides {w made met} (w' : World) : Course w made met →
      w'.link.connections = w.link.connections → w'.link.held = w.link.held →
      w'.link.machine.identities = w.link.machine.identities →
      w'.archiveLoaders = w.archiveLoaders → Course w' made met

/-- The loader that defined a class. -/
inductive Definer
  | builtIn
  | object (name : String)
  /-- An archive loader, by its place among those that were made. -/
  | archive (place : Nat)
  deriving DecidableEq, Repr

namespace ClassRef

/-- The class object behind a reference, and the connection that it was met through. -/
def object? (l : Link) (c : ClassRef) : Option (Nat × String) :=
  match c.origin with
  | .object index => (l.held[index]?).bind fun h =>
    match h.reference.object with
    | .cls key => some (h.connection, key)
    | _ => none
  | _ => none

/-- The connection whose numbers the reference bears; archive loaders are numbered apart. -/
def source (l : Link) (c : ClassRef) : Option Nat := (c.object? l).map (·.1)

/-- The name of the class, as the machine knows it if it is one of the machine. -/
def actualName (l : Link) (c : ClassRef) : Option String :=
  match c.object? l with
  | some (_, key) =>
    (l.machine.identities key).1.map fun t => Text.ModifiedUtf8.decodeLossy t.bytes
  | none => some c.name

def definer (made : List Loader) (l : Link) (c : ClassRef) : Definer :=
  match c.object? l with
  | some (_, key) => (l.machine.identities key).2.elim .builtIn .object
  | none => .archive (c.loader.elim made.length made.idxOf)

theorem object?_of_refers {i : Nat} {key : String} (h : l.Refers i key c) :
    c.object? l = some (i, key) := by
  obtain ⟨index, ⟨number, o⟩, horigin, hr, rfl⟩ := h.object
  rw [object?, horigin]
  simp only [hr, Option.bind_some]

theorem object?_of_archive (h : c.origin = .archive) (l : Link) : c.object? l = none := by
  rw [object?, h]

theorem Comes.actualName_eq (h : c.Comes made l) : c.actualName l = some c.name := by
  rcases h with ⟨horigin, -⟩ | ⟨i, key, h⟩
  · rw [actualName, object?_of_archive horigin]
  · rw [actualName, object?_of_refers h]
    exact h.name

/-- Only the built-in loader has its number. -/
theorem Comes.definer_eq_builtIn_iff (h : c.Comes made l)
    (hmade : ∀ self ∈ made, Loader.bootId < self.id) :
    c.definer made l = .builtIn ↔ c.loaderId = Loader.bootId := by
  rcases h with ⟨horigin, self, hself, hloader⟩ | ⟨i, key, h⟩
  · rw [definer, object?_of_archive horigin, loaderId, hloader]
    simp only [Option.map_some, Option.getD_some, reduceCtorEq, false_iff]
    exact Nat.ne_of_gt (hmade self hself)
  · rw [definer, object?_of_refers h, h.loaderId_eq_bootId]
    cases hkey : (l.machine.identities key).2 <;> simp only [hkey, Option.elim_none,
      Option.elim_some, reduceCtorEq]

/-- Archive loaders are told apart by their places. -/
theorem definer_archive_eq_iff {self other : Loader} (hc : c.origin = .archive)
    (hd : d.origin = .archive) (hself : self ∈ made) (hcloader : c.loader = some self)
    (hdloader : d.loader = some other) (l : Link) :
    c.definer made l = d.definer made l ↔ self = other := by
  rw [definer, definer, object?_of_archive hc, object?_of_archive hd, hcloader, hdloader,
    Definer.archive.injEq]
  exact List.idxOf_inj hself

end ClassRef

/-- What holds at every point of a course. -/
structure Course.Sound (w : World) (made : List Loader) (met : List ClassRef) : Prop where
  orderly : w.link.Orderly
  ids : (made.map Loader.id).Nodup
  range : ∀ l ∈ made, Loader.bootId < l.id ∧ l.id ≤ w.archiveLoaders
  within : ∀ l ∈ made, l.Within made
  comes : ∀ c ∈ met, c.Comes made w.link
  agree : ∀ c ∈ met, ∀ d ∈ met, ∀ i key key', w.link.Refers i key c → w.link.Refers i key' d →
    (c.loaderId = d.loaderId ↔
      (w.link.machine.identities key).2 = (w.link.machine.identities key').2)

namespace Course.Sound

variable {met cs : List ClassRef}

theorem start (h : w.link.connections = #[]) : Sound w [] [] where
  orderly hc := by
    rw [h] at hc
    cases hc
  ids := List.nodup_nil
  range _ hl := by cases hl
  within _ hl := by cases hl
  comes _ hc := by cases hc
  agree _ hc := by cases hc

/-- A reference that was met refers to what it did before. -/
theorem refers_before {i : Nat} {key : String} (h : Sound w made met) (hc : c ∈ met)
    (hlater : w.link.Later w'.link) (hrefers : w'.link.Refers i key c) : w.link.Refers i key c := by
  rcases h.comes c hc with ⟨horigin, -⟩ | ⟨i', key', h⟩
  · exact absurd horigin hrefers.origin_ne_archive
  · obtain ⟨rfl, rfl⟩ := (h.later hlater).unique hrefers
    exact h

/-- The classes that are new agree with all that were met through their connections, as these are
held; the others agree as before. -/
theorem step (h : Sound w made met) (hlater : w.link.Later w'.link)
    (hloaders : w'.archiveLoaders = w.archiveLoaders)
    (hcs : ∀ c ∈ cs, c.Present made w'.link) : Sound w' made (met ++ cs) where
  orderly := Link.Orderly.later h.orderly hlater
  ids := h.ids
  range := hloaders ▸ h.range
  within := h.within
  comes c hc := by
    rcases List.mem_append.mp hc with hc | hc
    · exact (h.comes c hc).later hlater
    · exact (hcs c hc).1
  agree c hc d hd i key key' hkey hkey' := by
    have hheld : c ∈ cs ∨ d ∈ cs → w'.link.Held i := by
      rintro (hc | hd)
      · exact (hcs c hc).2 i key hkey
      · exact (hcs d hd).2 i key' hkey'
    by_cases hnew : c ∈ cs ∨ d ∈ cs
    · exact hkey.agree (Link.Orderly.later h.orderly hlater) (hheld hnew) hkey'
    · rw [not_or] at hnew
      have hcold := (List.mem_append.mp hc).resolve_right hnew.1
      have hdold := (List.mem_append.mp hd).resolve_right hnew.2
      rw [hlater.identities]
      exact h.agree c hcold d hdold i key key' (h.refers_before hcold hlater hkey)
        (h.refers_before hdold hlater hkey')

theorem later (h : Sound w made met) (hlater : w.link.Later w'.link)
    (hloaders : w'.archiveLoaders = w.archiveLoaders) : Sound w' made met :=
  List.append_nil met ▸ h.step hlater hloaders fun c hc => by cases hc

/-- Whatever an operation finds is met, and a failure finds nothing. -/
theorem brings {P : α → List ClassRef} {r : Except ε α × World} (h : Sound w made met)
    (hr : Brings made P w r) : Sound r.2 made (met ++ r.1.toOption.elim [] P) := by
  refine h.step hr.later hr.loaders fun c hc => ?_
  rcases r with ⟨e | x, w'⟩
  · cases hc
  · exact (hr.ok x rfl).2 c hc

theorem make (h : Sound w made met) (roots : List ClassRoot) {parent : Option Loader}
    (hparent : ∀ p, parent = some p → p.Within made) :
    Sound (Loader.make roots parent w).2 (made ++ [(Loader.make roots parent w).1]) met := by
  have hid : (Loader.make roots parent w).1.id = w.archiveLoaders + 1 := by cases parent <;> rfl
  have hcounter : (Loader.make roots parent w).2.archiveLoaders = w.archiveLoaders + 1 := rfl
  have hlink : (Loader.make roots parent w).2.link = w.link := rfl
  have hsub : made ⊆ made ++ [(Loader.make roots parent w).1] := List.subset_append_left _ _
  refine ⟨hlink ▸ h.orderly, ?_, ?_, ?_, fun c hc => ?_, hlink ▸ h.agree⟩
  · rw [List.map_append, List.nodup_append]
    refine ⟨h.ids, by simp, fun n hn n' hn' => ?_⟩
    obtain ⟨l, hl, rfl⟩ := List.mem_map.mp hn
    obtain rfl : n' = w.archiveLoaders + 1 := by simpa [hid] using hn'
    exact Nat.ne_of_lt (Nat.lt_succ_of_le (h.range l hl).2)
  · intro l hl
    rcases List.mem_append.mp hl with hl | hl
    · exact ⟨(h.range l hl).1, Nat.le_succ_of_le (h.range l hl).2⟩
    · obtain rfl := List.mem_singleton.mp hl
      rw [hid, hcounter]
      exact ⟨Nat.succ_pos _, le_rfl⟩
  · intro l hl
    rcases List.mem_append.mp hl with hl | hl
    · exact (h.within l hl).mono hsub
    · obtain rfl := List.mem_singleton.mp hl
      cases parent with
      | none => exact List.mem_append_right _ List.mem_cons_self
      | some p => exact ⟨List.mem_append_right _ List.mem_cons_self, (hparent p rfl).mono hsub⟩
  · rcases h.comes c hc with ⟨horigin, self, hself, hloader⟩ | hrefers
    · exact .inl ⟨horigin, self, hsub hself, hloader⟩
    · exact .inr hrefers

/-- Equal numbers mean one loader, where they come from one counter or one of the loaders is the
built-in one. -/
theorem loaderId_eq_iff (h : Sound w made met) (hc : c ∈ met) (hd : d ∈ met)
    (hsource : c.source w.link = d.source w.link ∨ c.definer made w.link = .builtIn ∨
      d.definer made w.link = .builtIn) :
    c.loaderId = d.loaderId ↔ c.definer made w.link = d.definer made w.link := by
  have hpositive : ∀ self ∈ made, Loader.bootId < self.id := fun self hself =>
    (h.range self hself).1
  have hcbuiltIn := (h.comes c hc).definer_eq_builtIn_iff hpositive
  have hdbuiltIn := (h.comes d hd).definer_eq_builtIn_iff hpositive
  rcases hsource with hsource | hbuiltIn | hbuiltIn
  · rcases h.comes c hc with ⟨hcorigin, self, hself, hcloader⟩ | ⟨i, key, hkey⟩ <;>
      rcases h.comes d hd with ⟨hdorigin, other, hother, hdloader⟩ | ⟨i', key', hkey'⟩
    · rw [ClassRef.definer_archive_eq_iff hcorigin hdorigin hself hcloader hdloader]
      simp only [ClassRef.loaderId, hcloader, hdloader, Option.map_some, Option.getD_some]
      exact ⟨List.inj_on_of_nodup_map h.ids hself hother, fun heq => by rw [heq]⟩
    · simp [ClassRef.source, ClassRef.object?_of_archive hcorigin,
        ClassRef.object?_of_refers hkey'] at hsource
    · simp [ClassRef.source, ClassRef.object?_of_archive hdorigin,
        ClassRef.object?_of_refers hkey] at hsource
    · obtain rfl : i = i' := by
        simpa [ClassRef.source, ClassRef.object?_of_refers hkey,
          ClassRef.object?_of_refers hkey'] using hsource
      rw [h.agree c hc d hd i key key' hkey hkey', ClassRef.definer, ClassRef.definer,
        ClassRef.object?_of_refers hkey, ClassRef.object?_of_refers hkey']
      simp only
      cases (w.link.machine.identities key).2 <;> cases (w.link.machine.identities key').2 <;>
        simp
  · rw [hbuiltIn, hcbuiltIn.mp hbuiltIn, eq_comm, ← hdbuiltIn, eq_comm]
  · rw [hbuiltIn, hdbuiltIn.mp hbuiltIn, hcbuiltIn]

end Course.Sound

theorem Course.sound {met : List ClassRef} (h : Course w made met) : Course.Sound w made met := by
  induction h with
  | start h => exact .start h
  | connect _ ih => exact ih.later (Link.Later.connect _) rfl
  | make roots parent _ hparent ih => exact ih.make roots hparent
  | meet i cls _ hheld ih => exact ih.brings (Link.classOf_brings cls hheld ih.orderly)
  | load l name _ hl ih => exact ih.brings (Loader.load_brings hl name _ ih.orderly)
  | members c _ hc hcurrent ih =>
    exact ih.brings (ClassRef.members_brings ⟨ih.comes c hc, hcurrent⟩ ih.within ih.orderly)
  | meetLoader i o _ hheld ih =>
    exact ih.later (Link.loaderFor_continues (fun _ => True) o _ ih.orderly hheld trivial).1 rfl
  | systemLoader i _ hheld ih =>
    exact ih.later (Link.systemLoader_continues _ ih.orderly hheld trivial).1 rfl
  | retain i _ hheld ih => exact ih.later (.retain hheld) rfl
  | release i _ ih => exact ih.later (.releaseConnection _ i) rfl
  | retainLoader l _ ih => exact ih.later (l.retain_later _) (by cases l <;> rfl)
  | releaseLoader l _ ih => exact ih.later (l.release_later _) (by cases l <;> rfl)
  | releaseClass c _ ih =>
    refine ih.later (c.release_later _) ?_
    unfold ClassRef.release
    cases c.origin <;> rfl
  | besides w' _ hconnections hheld hidentities hloaders ih =>
    exact ih.later (.of_same hconnections hheld hidentities) hloaders

/-- Among references that bear numbers of one counter, or one of which is of the built-in loader,
equal numbers mean one loader, and equal references one class. -/
theorem Course.equal_iff_one_class {met : List ClassRef} (h : Course w made met) (hc : c ∈ met)
    (hd : d ∈ met)
    (hsource : c.source w.link = d.source w.link ∨ c.definer made w.link = .builtIn ∨
      d.definer made w.link = .builtIn) :
    (c.loaderId = d.loaderId ↔ c.definer made w.link = d.definer made w.link) ∧
      (c.same d = true ↔ c.actualName w.link = d.actualName w.link ∧
        c.definer made w.link = d.definer made w.link) := by
  have hnumbers := h.sound.loaderId_eq_iff hc hd hsource
  refine ⟨hnumbers, ?_⟩
  rw [ClassRef.same_iff, (h.sound.comes c hc).actualName_eq, (h.sound.comes d hd).actualName_eq,
    ← hnumbers]
  simp only [ClassRef.key, ClassKey.mk.injEq, Option.some.injEq]

/-- A machine with two loaders that both defined a class of one name. -/
def twoLoaders : World where
  files := ⟨#[], []⟩
  link := { machine := { description := { classes := [
    ("K", { name := some (some (.text "p.K")), loader := some "L1" }),
    ("M", { name := some (some (.text "p.K")), loader := some "L2" })] } } }

namespace twoLoaders

/-- Meets a class through a connection. -/
def meet (i : Nat) (key : String) : World → Except Error ClassRef × World :=
  World.attemptLink (Link.classOf i (some ⟨0, .cls key⟩))

def connect (w : World) : World := (World.onLink Link.connect w).2

/-- The first class is met through one connection, then both through another, the second first. -/
def first : Except Error ClassRef × World := meet 0 "K" (connect twoLoaders)

def second : Except Error ClassRef × World := meet 1 "M" (connect first.2)

def third : Except Error ClassRef × World := meet 1 "K" second.2

def classMet (connection id index : Nat) : ClassRef :=
  ⟨"p.K", .topLevel, some (.object connection id), .object index⟩

def met : List ClassRef := [classMet 0 1 0, classMet 1 1 1, classMet 1 2 2]

theorem found_eq : first.1 = .ok (classMet 0 1 0) ∧ second.1 = .ok (classMet 1 1 1) ∧
    third.1 = .ok (classMet 1 2 2) := by
  decide +kernel

theorem course_meet {met : List ClassRef} (h : Course w made met) {i : Nat} {key : String}
    (hheld : w.link.Held i) (hc : (meet i key w).1 = .ok c) :
    Course (meet i key w).2 made (met ++ [c]) := by
  have hmeet := h.meet i (some ⟨0, .cls key⟩) hheld
  rwa [show (World.attemptLink (Link.classOf i (some ⟨0, .cls key⟩)) w).1 = .ok c from hc] at hmeet

theorem course : Course third.2 [] met := by
  have hfirst : Course first.2 [] ([] ++ [classMet 0 1 0]) :=
    course_meet (.connect (.start rfl)) (Link.isReleased_eq_false.mp (by cbv))
      found_eq.1
  have hsecond : Course second.2 [] ([] ++ [classMet 0 1 0] ++ [classMet 1 1 1]) :=
    course_meet hfirst.connect (Link.isReleased_eq_false.mp (by cbv)) found_eq.2.1
  exact course_meet hsecond (Link.isReleased_eq_false.mp (by cbv)) found_eq.2.2

end twoLoaders

open twoLoaders in
theorem Course.equal_iff_one_class_secondConnection :
    Course third.2 [] met ∧ classMet 1 1 1 ∈ met ∧ classMet 1 2 2 ∈ met ∧
      (classMet 1 1 1).source third.2.link = (classMet 1 2 2).source third.2.link ∧
      ((classMet 1 1 1).same (classMet 1 2 2) = true ↔
        (classMet 1 1 1).actualName third.2.link = (classMet 1 2 2).actualName third.2.link ∧
          (classMet 1 1 1).definer [] third.2.link = (classMet 1 2 2).definer [] third.2.link) := by
  have hsource : (classMet 1 1 1).source third.2.link = (classMet 1 2 2).source third.2.link := by
    cbv
  exact ⟨course, by decide, by decide, hsource,
    (Course.equal_iff_one_class course (by decide) (by decide) (.inl hsource)).2⟩

open twoLoaders in
/-- Across connections, classes of two loaders are taken for one, and one class for two. -/
theorem Course.connections_confuse :
    Course third.2 [] met ∧ classMet 0 1 0 ∈ met ∧ classMet 1 1 1 ∈ met ∧ classMet 1 2 2 ∈ met ∧
      ((classMet 0 1 0).same (classMet 1 1 1) = true ∧
        (classMet 0 1 0).definer [] third.2.link = .object "L1" ∧
        (classMet 1 1 1).definer [] third.2.link = .object "L2") ∧
      (classMet 0 1 0).same (classMet 1 2 2) = false ∧
        (classMet 0 1 0).actualName third.2.link = (classMet 1 2 2).actualName third.2.link ∧
        (classMet 0 1 0).definer [] third.2.link = (classMet 1 2 2).definer [] third.2.link :=
  ⟨course, by decide, by decide, by decide, by cbv, by cbv⟩

end ClassRecovery
