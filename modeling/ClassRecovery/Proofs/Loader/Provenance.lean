import ClassRecovery.Proofs.Jvm.Meeting
import ClassRecovery.Proofs.Loader.Definition
import ClassRecovery.Proofs.Loader.Reading

/-!
Where loaded classes come from. A loader of archives defines a class itself, or a parent does; at
the end of the parents may stand a loader of the machine, whose classes are met through its
connection.
-/

namespace ClassRecovery

open Jvm (Link)

variable {ε α β : Type}

namespace Loader

/-- A loader of archives that was made in the course, and so was its parent, or one of a machine. -/
def Within (made : List Loader) : Loader → Prop
  | archive id roots => archive id roots ∈ made
  | child id roots parent => child id roots parent ∈ made ∧ parent.Within made
  | given _ _ => False
  | object _ _ => True

theorem Within.mono {made made' : List Loader} {l : Loader} (h : l.Within made)
    (hsub : made ⊆ made') : l.Within made' := by
  induction l with
  | archive => exact hsub h
  | child id roots parent ih => exact ⟨hsub h.1, ih h.2⟩
  | given => exact h
  | object => trivial

end Loader

/-! ### Where classes come from -/

/-- A class of an archive loader that was made, or one that was met through a connection. -/
def ClassRef.Comes (made : List Loader) (l : Link) (c : ClassRef) : Prop :=
  (c.origin = .archive ∧ ∃ self ∈ made, c.loader = some self) ∨ ∃ i key, l.Refers i key c

/-- The connection through which it was met is held. -/
def ClassRef.Current (l : Link) (c : ClassRef) : Prop := ∀ i key, l.Refers i key c → l.Held i

/-- Classes that come from where they should, and whose connections are held. -/
def ClassRef.Present (made : List Loader) (l : Link) (c : ClassRef) : Prop :=
  c.Comes made l ∧ c.Current l

/-- The numbering goes on, and what comes out are classes that come from where they should. -/
structure Brings (made : List Loader) (classes : α → List ClassRef) (w : World)
    (r : Except ε α × World) : Prop where
  later : w.link.Later r.2.link
  loaders : r.2.archiveLoaders = w.archiveLoaders
  ok : ∀ x, r.1 = .ok x → w.link.Stays r.2.link ∧
    ∀ c ∈ classes x, c.Present made r.2.link

variable {made : List Loader} {w w' : World} {c : ClassRef} {l l' : Link}

theorem ClassRef.Comes.later (h : c.Comes made l) (hlater : l.Later l') : c.Comes made l' := by
  rcases h with h | ⟨i, key, h⟩
  · exact .inl h
  · exact .inr ⟨i, key, h.later hlater⟩

theorem ClassRef.Present.later (h : c.Present made l) (hlater : l.Later l') (hstays : l.Stays l') :
    c.Present made l' := by
  refine ⟨h.1.later hlater, fun i key hrefers => ?_⟩
  rcases h.1 with ⟨horigin, -⟩ | ⟨i', key', hcomes⟩
  · exact absurd horigin hrefers.origin_ne_archive
  · obtain ⟨rfl, rfl⟩ := (hcomes.later hlater).unique hrefers
    exact hstays _ (h.2 _ _ hcomes)

theorem ClassRef.present_of_archive {self : Loader} (horigin : c.origin = .archive)
    (hself : self ∈ made) (hloader : c.loader = some self) (l : Link) : c.Present made l :=
  ⟨.inl ⟨horigin, self, hself, hloader⟩, fun _ _ hrefers =>
    absurd horigin hrefers.origin_ne_archive⟩

theorem Jvm.Link.Refers.present {i : Nat} {key : String} (h : l.Refers i key c) (hheld : l.Held i) :
    c.Present made l := by
  refine ⟨.inr ⟨i, key, h⟩, fun i' key' h' => ?_⟩
  obtain ⟨rfl, -⟩ := h.unique h'
  exact hheld

namespace Brings

variable {P : α → List ClassRef} {Q : β → List ClassRef} {a : Attempt ε α} {f : α → Attempt ε β}

/-- Whatever comes of it, reading numbers nothing. -/
theorem of_reading (h : Keeps World.besideJars a)
    (hclasses : ∀ x, (a w).1 = .ok x → ∀ c ∈ P x, c.Present made (a w).2.link) :
    Brings made P w (a w) := by
  have hlink : (a w).2.link = w.link := h.of_view World.link (fun _ => rfl) w
  exact ⟨hlink ▸ .refl _, h.of_view World.archiveLoaders (fun _ => rfl) w,
    fun x hx => ⟨hlink ▸ .refl _, hclasses x hx⟩⟩

theorem pure {x : α} (h : ∀ c ∈ P x, c.Present made w.link) :
    Brings made P w ((pure x : Attempt ε α) w) :=
  of_reading (.ok x) fun y hy => by
    cases hy
    exact h

theorem bind (ha : Brings made P w (a w))
    (hf : ∀ x w', w.link.Later w'.link → (∀ c ∈ P x, c.Present made w'.link) →
      Brings made Q w' (f x w')) : Brings made Q w ((a >>= f) w) := by
  obtain ⟨hlater, hloaders, hok⟩ := ha
  rw [bind_apply]
  rcases hrun : a w with ⟨e | x, w₁⟩ <;> rw [hrun] at hlater hloaders hok
  · exact ⟨hlater, hloaders, fun _ hx => by cases hx⟩
  · obtain ⟨hstays, hclasses⟩ := hok x rfl
    obtain ⟨hlater', hloaders', hok'⟩ := hf x w₁ hlater hclasses
    refine ⟨hlater.trans hlater', hloaders'.trans hloaders, fun y hy => ?_⟩
    exact ⟨hstays.trans (hok' y hy).1, (hok' y hy).2⟩

/-- Classes that were there before are still there. -/
theorem also {cs : List ClassRef} (ha : Brings made P w (a w))
    (hcs : ∀ c ∈ cs, c.Present made w.link) : Brings made (fun x => cs ++ P x) w (a w) := by
  refine ⟨ha.later, ha.loaders, fun x hx => ⟨(ha.ok x hx).1, fun c hc => ?_⟩⟩
  rcases List.mem_append.mp hc with hc | hc
  · exact (hcs c hc).later ha.later (ha.ok x hx).1
  · exact (ha.ok x hx).2 c hc

theorem mapM {g : β → Attempt ε (Option ClassRef)}
    (hg : ∀ x w, w.link.Orderly → Brings made Option.toList w (g x w)) (xs : List β)
    (horderly : w.link.Orderly) :
    Brings made (fun found => found.filterMap id) w ((xs.mapM g : Attempt ε _) w) := by
  induction xs generalizing w with
  | nil => exact .pure fun c hc => by cases hc
  | cons x xs ih =>
    rw [List.mapM_cons]
    refine .bind (hg x w horderly) fun found w₁ hlater hfound => ?_
    refine .bind ((ih (horderly.later hlater)).also hfound) fun others w₂ _ hothers => ?_
    refine .pure fun c hc => hothers c ?_
    cases found with
    | none => exact hc
    | some d => exact hc

end Brings

namespace Loader

theorem define_brings {self : Loader} (hself : self ∈ made) (roots : List ClassRoot)
    (name : String) : Brings made Option.toList w (self.define roots name w) := by
  refine .of_reading (define_besideJars self roots name) fun found hfound c hc => ?_
  obtain rfl : found = some c := by simpa using hc
  by_cases hname : name.toList.head? = some '['
  · unfold define at hfound
    rw [if_pos hname] at hfound
    cases hfound
  · obtain ⟨-, -, ⟨hnone, -⟩ | ⟨b, -, -, hc⟩⟩ :=
      define_ok hname (Prod.ext hfound rfl : self.define roots name w = (.ok (some c), _))
    · cases hnone
    · cases hc
      exact ClassRef.present_of_archive rfl hself rfl _

/-- Whatever loader is asked, what is loaded comes from where it should. -/
theorem load_brings {l : Loader} (hl : l.Within made) (name : String) (w : World)
    (horderly : w.link.Orderly) : Brings made Option.toList w (l.load name w) := by
  induction l generalizing w with
  | archive id roots => exact define_brings hl roots name
  | child id roots parent ih =>
    refine .bind (ih hl.2 w horderly) fun found w₁ _ hfound => ?_
    cases found with
    | some c => exact .pure hfound
    | none => exact define_brings hl.1 roots name
  | given => cases hl
  | object connection id =>
    obtain ⟨hlater, hok⟩ := Link.load_later connection id name horderly
    refine ⟨hlater, rfl, fun found hfound => ⟨(hok found hfound).1, fun c hc => ?_⟩⟩
    obtain ⟨hheld, key, hkey⟩ := (hok found hfound).2 c (by simpa using hc)
    exact hkey.present hheld

end Loader

theorem Jvm.Link.classOf_brings {i : Nat} (cls : Option Jvm.Reference) (hheld : w.link.Held i)
    (horderly : w.link.Orderly) : Brings made (fun c => [c]) w
      ((World.attemptLink (classOf i cls) : Attempt Error ClassRef) w) := by
  obtain ⟨hlater, hok⟩ := classOf_continues (fun _ => True) cls w.link horderly hheld trivial
  refine ⟨hlater, rfl, fun c hc => ⟨(hok c hc).1, fun d hd => ?_⟩⟩
  obtain rfl := List.mem_singleton.mp hd
  obtain ⟨key, hkey⟩ := (hok d hc).2
  exact hkey.present ((hok d hc).1 i hheld)

theorem ClassRef.archiveMembers_brings {l : Loader} (hl : l.Within made) (c : ClassRef)
    (horderly : w.link.Orderly) : Brings made id w (c.archiveMembers l w) := by
  refine .bind (P := fun _ => []) (.of_reading (.mapFailure (Loader.memberNames_besideJars _ _ _))
    fun _ _ c hc => by cases hc) fun names w₁ hlater _ => ?_
  refine .bind (.mapM (fun name w => Loader.load_brings hl name w) names (horderly.later hlater))
    fun found w₂ _ hfound => .pure hfound

theorem ClassRef.members_brings (hc : c.Present made w.link)
    (hmade : ∀ l ∈ made, l.Within made) (horderly : w.link.Orderly) :
    Brings made id w (c.members w) := by
  rcases hc with ⟨⟨horigin, self, hself, hloader⟩ | ⟨i, key, hrefers⟩, hcurrent⟩
  · have hmembers : c.members = c.archiveMembers self := by
      unfold members
      rw [horigin, hloader]
    rw [hmembers]
    exact archiveMembers_brings (hmade self hself) c horderly
  · obtain ⟨index, r, horigin, hr, -⟩ := hrefers.object
    have hmembers : c.members = World.attemptLink (Link.declaredClasses index) := by
      unfold members
      rw [horigin]
    have hheld := hcurrent i key hrefers
    obtain ⟨hlater, hok⟩ := Link.declaredClasses_continues w.link horderly hheld hr
    rw [hmembers]
    refine ⟨hlater, rfl, fun cs hcs => ⟨(hok cs hcs).1, fun d hd => ?_⟩⟩
    obtain ⟨key, hkey⟩ := (hok cs hcs).2 d hd
    exact hkey.present ((hok cs hcs).1 i hheld)

/-! ### Holding on and letting go -/

theorem Loader.retain_later (l : Loader) (w : World) : w.link.Later (l.retain w).2.link := by
  cases l with
  | object connection id => exact .retainLoader connection id _
  | _ => exact .refl _

theorem Loader.release_later (l : Loader) (w : World) : w.link.Later (l.release w).2.link := by
  cases l with
  | object connection id => exact .releaseLoader connection id _
  | _ => exact .refl _

theorem ClassRef.release_later (c : ClassRef) (w : World) :
    w.link.Later (c.release w).2.link := by
  unfold release
  cases c.origin with
  | object index => exact .releaseClass _ index
  | _ => exact .refl _

end ClassRecovery
