import ClassRecovery.Proofs.Instrument.LastAnswer

/-!
What the hook does with a class file. Its transformers are asked one after the other, each about the
bytes that the latest answer left; the class is replaced by what came of it, unless that is what it
was. What cannot be found out about the class file is left out of what they are shown, and makes no
difference to who is asked.
-/

namespace ClassRecovery

/-- What a transformer made of the bytes, if anything. -/
def Verdict.answer? : Verdict → Option Bytes
  | replaced bytes => some bytes
  | unchanged | panicked => none

def World.linked (l : Jvm.Link) (w : World) : World := { w with link := l }

namespace Transform

/-- One transformer was asked about an event. -/
structure Asking where
  transformer : Nat
  event : ClassFileEvent
  verdict : Verdict

/-- These transformers were asked, one after the other, and nothing else happened. -/
inductive Asked (run : Runner) : List Asking → World → World → Prop
  | done (w : World) : Asked run [] w w
  | next {t : Nat} {event : ClassFileEvent} {v : Verdict} {w w₁ w' : World} {later : List Asking}
      (asks : run t event w = (v, w₁)) (rest : Asked run later w₁ w') :
      Asked run (⟨t, event, v⟩ :: later) w w'

/-- What the latest transformer that answered left of the class. -/
def latest (asked : List Asking) : Option Bytes :=
  (asked.filterMap (·.verdict.answer?)).getLast?

/-- Each was asked about what was left of the class by then, and nobody after a panic. -/
structure Piped (event : ClassFileEvent) (kept : Option Bytes) (asked : List Asking) : Prop where
  shown : ∀ earlier a later, asked = earlier ++ a :: later →
    a.event = { event with bytes := ((latest earlier).or kept).getD event.bytes }
  ended : ∀ earlier a later, asked = earlier ++ a :: later → a.verdict = .panicked → later = []

/-- Who was asked, and what that came to. A panic undoes everything. -/
inductive Concludes (event : ClassFileEvent) (audience : List Nat) (kept : Option Bytes)
    (asked : List Asking) : Verdict → Prop
  | settled (all : asked.map (·.transformer) = audience)
      (answered : ∀ a ∈ asked, a.verdict ≠ .panicked) :
      Concludes event audience kept asked (settle event ((latest asked).or kept))
  | broken (some : asked.map (·.transformer) <+: audience)
      (panics : ∃ a ∈ asked, a.verdict = .panicked) :
      Concludes event audience kept asked .panicked

variable {run : Runner} {event : ClassFileEvent} {w w' : World}

theorem latest_cons (a : Asking) (rest : List Asking) :
    latest (a :: rest) = (latest rest).or a.verdict.answer? := by
  unfold latest
  rw [List.filterMap_cons]
  cases a.verdict.answer? with
  | none => rw [Option.or_none]
  | some bytes =>
    rw [List.getLast?_cons]
    cases (rest.filterMap (·.verdict.answer?)).getLast? <;> rfl

theorem Piped.nil (event : ClassFileEvent) (kept : Option Bytes) : Piped event kept [] :=
  ⟨fun earlier a later h => by simp at h, fun earlier a later h => by simp at h⟩

theorem Piped.cons {kept : Option Bytes} {a : Asking} {rest : List Asking}
    (hshown : a.event = { event with bytes := kept.getD event.bytes })
    (hended : a.verdict = .panicked → rest = [])
    (hrest : Piped event (a.verdict.answer?.or kept) rest) : Piped event kept (a :: rest) := by
  constructor
  · intro earlier b later h
    cases earlier with
    | nil =>
      cases h
      exact hshown
    | cons _ earlier =>
      cases h
      rw [hrest.shown earlier b later rfl, latest_cons, Option.or_assoc]
  · intro earlier b later h hpanic
    cases earlier with
    | nil =>
      cases h
      exact hended hpanic
    | cons _ earlier =>
      cases h
      exact hrest.ended earlier b later rfl hpanic

theorem Concludes.cons {audience : List Nat} {kept : Option Bytes} (a : Asking)
    {rest : List Asking} {v : Verdict} (ha : a.verdict ≠ .panicked)
    (h : Concludes event audience (a.verdict.answer?.or kept) rest v) :
    Concludes event (a.transformer :: audience) kept (a :: rest) v := by
  cases h with
  | settled all answered =>
    rw [← Option.or_assoc, ← latest_cons]
    exact .settled (by rw [List.map_cons, all]) (List.forall_mem_cons.mpr ⟨ha, answered⟩)
  | broken some panics =>
    obtain ⟨b, hb, hpanic⟩ := panics
    exact .broken (List.prefix_cons_inj _ |>.mpr some) ⟨b, List.mem_cons_of_mem _ hb, hpanic⟩

/-- By induction on those that are to be asked; what is kept goes from each to the next. -/
theorem exists_asked (run : Runner) (event : ClassFileEvent) (ts : List Nat) (kept : Option Bytes)
    (w : World) :
    ∃ asked w' v, Asked run asked w w' ∧ Piped event kept asked ∧
      Concludes event ts kept asked v ∧
      askEach run id (fun kept => { event with bytes := kept.getD event.bytes })
        (fun _ bytes _ => some bytes) (settle event) ts kept w = (v, w') := by
  induction ts generalizing kept w with
  | nil =>
    refine ⟨[], w, settle event kept, .done w, .nil event kept, ?_, rfl⟩
    exact .settled rfl fun _ ha => nomatch ha
  | cons t ts ih =>
    let shown : ClassFileEvent := { event with bytes := kept.getD event.bytes }
    rcases hasks : run t shown w with ⟨v, w₁⟩
    have hgoes : ∀ kept', v ≠ .panicked → v.answer?.or kept = kept' →
        ∃ asked w' v', Asked run asked w w' ∧ Piped event kept asked ∧
          Concludes event (t :: ts) kept asked v' ∧
          askEach run id (fun kept => { event with bytes := kept.getD event.bytes })
            (fun _ bytes _ => some bytes) (settle event) ts kept' w₁ = (v', w') := by
      rintro _ hv rfl
      obtain ⟨asked, w', v', hasked, hpiped, hconcludes, hrun⟩ := ih (v.answer?.or kept) w₁
      exact ⟨⟨t, shown, v⟩ :: asked, w', v', .next hasks hasked,
        .cons rfl (fun hp => absurd hp hv) hpiped, .cons ⟨t, shown, v⟩ hv hconcludes,
        hrun⟩
    rw [askEach, Action.bind_apply, show run (id t) _ w = (v, w₁) from hasks]
    cases v with
    | unchanged => exact hgoes kept (by simp) rfl
    | replaced bytes => exact hgoes (some bytes) (by simp) rfl
    | panicked =>
      refine ⟨[⟨t, shown, .panicked⟩], w₁, .panicked, .next hasks (.done w₁), ?_, ?_, rfl⟩
      · exact .cons rfl (fun _ => rfl) (.nil event _)
      · exact .broken (by simp) ⟨_, List.mem_singleton_self _, rfl⟩

end Transform

namespace Hook

open Transform

/-- The class file as it is shown to transformers, with what can be found out about its loader and
about the class that changes. -/
def eventOf (h : Hook) (f : ClassFile) (cls loader : Option Jvm.Reference) (l : Jvm.Link) :
    ClassFileEvent :=
  let (found, l') := Jvm.Link.loaderFor h.connection loader l
  { loader := found.toOption.join
    name := f.name.bind Text.Utf8.decode?
    redefined := cls.bind fun cls => (Jvm.Link.classOf h.connection (some cls) l').1.toOption
    bytes := f.bytes }

variable {h : Hook}

theorem resolve_eq {α : Type} (a : Jvm.Linked (Option α)) (w : World) :
    resolve a w = ((a w.link).1.toOption.join, w.linked (a w.link).2) := by
  have hrun : World.onLink a.run w = ((a w.link).1, w.linked (a w.link).2) := rfl
  unfold resolve
  rw [Action.bind_apply, hrun]
  cases (a w.link).1 <;> rfl

theorem resolveClass_eq (connection : Nat) (cls : Option Jvm.Reference) (w : World) :
    ∃ l, resolveClass connection cls w =
      (cls.bind fun cls => (Jvm.Link.classOf connection (some cls) w.link).1.toOption,
        w.linked l) := by
  cases cls with
  | none => exact ⟨w.link, rfl⟩
  | some cls =>
    refine ⟨_, (resolve_eq _ w).trans (congrArg (·, _) ?_)⟩
    rw [map_eq_pure_bind, bind_apply, Option.bind_some]
    rcases Jvm.Link.classOf connection (some cls) w.link with ⟨e | c, l⟩ <;> rfl

/-- The class that changes is let go in the end. -/
theorem transform_eq (run : Runner) (f : ClassFile) (cls loader : Option Jvm.Reference) (w : World)
    (hq : h.queue ≠ []) :
    ∃ l l', transform run h f cls loader w =
      let r := runSeries run (eventOf h f cls loader w.link) (audience cls.isSome h.queue)
        (w.linked l)
      (r.1, r.2.linked l') := by
  obtain ⟨l, hl⟩ := resolveClass_eq h.connection cls
    (w.linked (Jvm.Link.loaderFor h.connection loader w.link).2)
  generalize hredefined : (cls.bind fun cls => (Jvm.Link.classOf h.connection (some cls)
    (w.linked (Jvm.Link.loaderFor h.connection loader w.link).2).link).1.toOption) = redefined at hl
  have hevent : eventOf h f cls loader w.link =
      ⟨(Jvm.Link.loaderFor h.connection loader w.link).1.toOption.join,
        f.name.bind Text.Utf8.decode?, redefined, f.bytes⟩ := by
    rw [← hredefined]
    rfl
  refine ⟨l, ?_⟩
  unfold transform
  rw [if_neg hq, Action.bind_apply, resolve_eq, Action.bind_apply, hl, Action.bind_apply, hevent]
  dsimp only
  split
  · exact ⟨_, rfl⟩
  · exact ⟨_, rfl⟩

/-- The hook asks the transformers that are registered with it, and of a class that changes only the
capable ones, each once and in order, about what the latest answer left of the class file; they are
asked whatever can be found out about it. The class is replaced by the latest answer, unless nobody
answered or that leaves it as it was. (A panic ends it and leaves the class as it was, too.) -/
theorem transform_is_pipeline (run : Runner) (h : Hook) (f : ClassFile)
    (cls loader : Option Jvm.Reference) (w : World) :
    let event := eventOf h f cls loader w.link
    ∃ asked w₁ w₂ v w₃, Asked run asked w₁ w₂ ∧ transform run h f cls loader w = (v, w₃) ∧
      w₁ = w.linked w₁.link ∧ w₃ = w₂.linked w₃.link ∧
      (∀ earlier a later, asked = earlier ++ a :: later →
        a.event = { event with bytes := (latest earlier).getD f.bytes } ∧
          (a.verdict = .panicked → later = [])) ∧
      ((∀ a ∈ asked, a.verdict ≠ .panicked) →
        asked.map (·.transformer) =
            (h.queue.filter fun r => cls.isNone || r.capable).map (·.transformer) ∧
          v ≠ .panicked ∧
          ∀ bytes, v = .replaced bytes ↔ latest asked = some bytes ∧ bytes ≠ f.bytes) ∧
      ((∃ a ∈ asked, a.verdict = .panicked) → v = .panicked ∧
        asked.map (·.transformer) <+:
          (h.queue.filter fun r => cls.isNone || r.capable).map (·.transformer)) := by
  intro event
  have haudience : audience cls.isSome h.queue =
      (h.queue.filter fun r => cls.isNone || r.capable).map (·.transformer) := by
    cases cls <;> simp [audience, capable]
  rw [← haudience]
  by_cases hq : h.queue = []
  · refine ⟨[], w, w, .unchanged, w, .done w, ?_, rfl, rfl, ?_, ?_, ?_⟩
    · unfold transform
      rw [if_pos hq]
      rfl
    · intro earlier a later hsplit
      simp at hsplit
    · intro _
      refine ⟨by simp [hq, audience, capable], by simp, fun bytes => by simp [latest]⟩
    · rintro ⟨a, ha, -⟩
      cases ha
  · obtain ⟨l, l', hrun⟩ := transform_eq run f cls loader w hq
    rw [runSeries_eq] at hrun
    obtain ⟨asked, w₂, v, hasked, hpiped, hconcludes, heach⟩ :=
      exists_asked run event (audience cls.isSome h.queue) none (w.linked l)
    rw [heach] at hrun
    refine ⟨asked, _, w₂, v, _, hasked, hrun, rfl, rfl, fun earlier a later hsplit => ?_, ?_, ?_⟩
    · refine ⟨?_, hpiped.ended earlier a later hsplit⟩
      rw [hpiped.shown earlier a later hsplit, Option.or_none]
      rfl
    · intro hquiet
      cases hconcludes with
      | settled all _ =>
        rw [Option.or_none]
        exact ⟨all, settle_ne_panicked _ _, fun bytes => settle_eq_replaced_iff⟩
      | broken _ panics =>
        obtain ⟨a, ha, hpanic⟩ := panics
        exact absurd hpanic (hquiet a ha)
    · rintro ⟨a, ha, hpanic⟩
      cases hconcludes with
      | settled _ answered => exact absurd hpanic (answered a ha)
      | broken some _ => exact ⟨rfl, some⟩

end Hook

end ClassRecovery
