import Mathlib
import ClassRecovery.Discovery

/-!
The search for nested classes against the graph of what is directly nested in what. The search ends
on every graph in which only finitely many classes are reached, cycles or not. It then tells of each
class that is reached once, the one it started from apart, or fails as soon as one of them fails;
in which order a class tells of its nested classes makes no difference.
-/

namespace ClassRecovery.Discovery

/-- For each class the classes directly nested in it, or why they cannot be told. Two references to
one class are told the same. -/
abbrev Graph := ClassKey → Except Error (Set ClassKey)

namespace Graph

def Nests (g : Graph) (k k' : ClassKey) : Prop := ∃ ks, g k = .ok ks ∧ k' ∈ ks

/-- One class leads to another in one or more steps. -/
def Reaches (g : Graph) : ClassKey → ClassKey → Prop := Relation.TransGen g.Nests

/-- The class itself or one that it leads to. -/
def Within (g : Graph) : ClassKey → ClassKey → Prop := Relation.ReflTransGen g.Nests

variable {g : Graph} {root k k' : ClassKey} {ks : Set ClassKey}

theorem Within.nested (h : g.Within root k) (hk : g k = .ok ks) (hk' : k' ∈ ks) :
    g.Reaches root k' :=
  Relation.TransGen.tail' h ⟨ks, hk, hk'⟩

/-- What contains a class and whatever is nested in its members contains all that is reached. -/
theorem Within.mem_of_closed (closed : Set ClassKey) (h : g.Within root k) (hroot : root ∈ closed)
    (hclosed : ∀ a ∈ closed, ∀ b, g.Nests a b → b ∈ closed) : k ∈ closed := by
  induction h with
  | refl => exact hroot
  | tail _ hstep ih => exact hclosed _ ih _ hstep

end Graph

section Worklist

variable {σ : Type} (direct : ClassRef → ExceptT Error (StateM σ) (List ClassRef))
  (release : ClassRef → StateM σ Unit)

/-- Looking into a class tells what the graph says of it. `steady` is what this rests on: a state in
which certain references are held, and in which looking into one of them changes no answer. -/
structure Follows (g : Graph) (root : ClassKey) (steady : Multiset ClassRef → σ → Prop) :
    Prop where
  told : ∀ o held s ks, steady (o ::ₘ held) s → g.Within root o.key → g o.key = .ok ks →
    ∃ l s', direct o s = (.ok l, s') ∧ (∀ k, k ∈ l.map ClassRef.key ↔ k ∈ ks) ∧
      steady (↑l + o ::ₘ held) s'
  failed : ∀ o held s e, steady (o ::ₘ held) s → g.Within root o.key → g o.key = .error e →
    (direct o s).1 = .error e
  released : ∀ o held s, steady (o ::ₘ held) s → steady held (release o s).2

/-- Where the search is: what it found, each class once, what it has not looked into yet, and that
all else it found is taken account of. -/
structure Searched (g : Graph) (root : ClassRef) (steady : Multiset ClassRef → σ → Prop)
    (found pending : List ClassRef) (s : σ) : Prop where
  steady : steady ↑(root :: found) s
  once : ((root :: found).map ClassRef.key).Nodup
  reached : ∀ o ∈ found, g.Reaches root.key o.key
  known : ∀ o ∈ pending, o ∈ root :: found
  closed : ∀ o ∈ root :: found, o ∈ pending ∨
    ∃ ks, g o.key = .ok ks ∧ ∀ k ∈ ks, k ∈ (root :: found).map ClassRef.key

variable {direct release} {g : Graph} {root : ClassRef} {steady : Multiset ClassRef → σ → Prop}
  {found pending : List ClassRef} {s : σ}

namespace Searched

theorem start (h : steady {root} s) : Searched g root steady [] [root] s where
  steady := h
  once := List.nodup_singleton _
  reached _ ho := by cases ho
  known _ ho := ho
  closed _ ho := .inl ho

theorem within (h : Searched g root steady found pending s) {o : ClassRef}
    (ho : o ∈ root :: found) : g.Within root.key o.key := by
  rcases List.mem_cons.mp ho with rfl | ho
  · exact .refl
  · exact (h.reached o ho).to_reflTransGen

/-- No more classes are found than the graph has. -/
theorem length_le (h : Searched g root steady found pending s)
    (hfin : {k | g.Reaches root.key k}.Finite) : found.length ≤ hfin.toFinset.card := by
  have honce : (found.map ClassRef.key).Nodup := (List.nodup_cons.mp h.once).2
  calc found.length = (found.map ClassRef.key).toFinset.card := by
        rw [List.toFinset_card_of_nodup honce, List.length_map]
    _ ≤ hfin.toFinset.card := by
        apply Finset.card_le_card
        intro k hk
        obtain ⟨o, ho, rfl⟩ := List.mem_map.mp (List.mem_toFinset.mp hk)
        exact hfin.mem_toFinset.mpr (h.reached o ho)

/-- With nothing left to look into, all that is reached was found. -/
theorem mem_keys_of_within (h : Searched g root steady found [] s) {k : ClassKey}
    (hk : g.Within root.key k) : k ∈ (root :: found).map ClassRef.key := by
  refine hk.mem_of_closed {k | k ∈ (root :: found).map ClassRef.key}
    (List.mem_map_of_mem List.mem_cons_self) ?_
  rintro a ha b ⟨ks, hks, hb⟩
  obtain ⟨o, ho, rfl⟩ := List.mem_map.mp ha
  rcases h.closed o ho with hpending | ⟨ks', hks', hall⟩
  · cases hpending
  · rw [hks] at hks'
    cases hks'
    exact hall b hb

theorem exists_ok_of_within (h : Searched g root steady found [] s) {k : ClassKey}
    (hk : g.Within root.key k) : ∃ ks, g k = .ok ks := by
  obtain ⟨o, ho, rfl⟩ := List.mem_map.mp (h.mem_keys_of_within hk)
  rcases h.closed o ho with hpending | ⟨ks, hks, -⟩
  · cases hpending
  · exact ⟨ks, hks⟩

end Searched

/-- The new ones go onto both lists, all others are given back. -/
theorem enlist_eq (hrelease : ∀ o held s, steady (o ::ₘ held) s → steady held (release o s).2)
    (nested pending : List ClassRef) (honce : ((root :: found).map ClassRef.key).Nodup)
    (hs : steady (↑nested + ↑(root :: found)) s) :
    ∃ new s', enlist release root nested found pending s = ((new ++ found, new ++ pending), s') ∧
      (∀ o ∈ new, o ∈ nested) ∧ ((root :: (new ++ found)).map ClassRef.key).Nodup ∧
      (∀ o ∈ nested, o.key ∈ (root :: (new ++ found)).map ClassRef.key) ∧
      steady ↑(root :: (new ++ found)) s' := by
  induction nested generalizing found pending s with
  | nil => exact ⟨[], s, rfl, fun _ ho => ho, honce, by simp, by simpa using hs⟩
  | cons c nested ih =>
    have hc : (c.same root || found.any c.same) = true ↔
        c.key ∈ (root :: found).map ClassRef.key := by
      simp only [Bool.or_eq_true, List.any_eq_true, ClassRef.same_iff, List.map_cons,
        List.mem_cons, List.mem_map, eq_comm (a := c.key)]
    by_cases hold : c.key ∈ (root :: found).map ClassRef.key
    · obtain ⟨new, s', hrun, hnew, honce', hall, hs'⟩ :=
        ih pending honce (hrelease c _ s (by simpa using hs))
      refine ⟨new, s', ?_, fun o ho => List.mem_cons_of_mem _ (hnew o ho), honce', ?_, hs'⟩
      · rw [enlist, if_pos (hc.mpr hold)]
        exact hrun
      · intro o ho
        rcases List.mem_cons.mp ho with rfl | ho
        · simp only [List.map_cons, List.map_append, List.mem_cons, List.mem_append] at hold ⊢
          tauto
        · exact hall o ho
    · have hperm : ((root :: c :: found).map ClassRef.key).Nodup := by
        simp only [List.map_cons, List.nodup_cons, List.mem_cons, not_or] at honce hold ⊢
        exact ⟨⟨Ne.symm hold.1, honce.1⟩, hold.2, honce.2⟩
      have hs₁ : steady (↑nested + ↑(root :: c :: found)) s := by
        convert hs using 1
        simp only [← Multiset.cons_coe, Multiset.cons_add, Multiset.add_cons]
      obtain ⟨new, s', hrun, hnew, honce', hall, hs'⟩ := ih (c :: pending) hperm hs₁
      refine ⟨new ++ [c], s', ?_, ?_, by simpa using honce', ?_, by simpa using hs'⟩
      · rw [enlist, if_neg (mt hc.mp hold), hrun]
        simp
      · intro o ho
        rcases List.mem_append.mp ho with ho | ho
        · exact List.mem_cons_of_mem _ (hnew o ho)
        · exact List.mem_singleton.mp ho ▸ List.mem_cons_self
      · intro o ho
        rcases List.mem_cons.mp ho with rfl | ho
        · simp
        · simpa using hall o ho

theorem explore_done (fuel : Nat) :
    explore direct release root fuel found [] s = (.ok (some found.reverse), s) := by
  cases fuel <;> rfl

theorem explore_failed (release : ClassRef → StateM σ Unit) (root : ClassRef)
    (found pending : List ClassRef) {outer : ClassRef} {e : Error}
    (h : (direct outer s).1 = .error e) :
    ∃ s', ∀ fuel, explore direct release root (fuel + 1) found (outer :: pending) s =
      (.error e, s') := by
  have ha : onFailure (found.forM release) (direct outer) s =
      (.error e, (found.forM release (direct outer s).2).2) := by
    have hd : direct outer s = (.error e, (direct outer s).2) := Prod.ext h rfl
    unfold onFailure
    rw [hd]
  refine ⟨(found.forM release (direct outer s).2).2, fun fuel => ?_⟩
  unfold explore
  rw [bind_apply, ha]

theorem explore_told {outer : ClassRef} {nested found' pending' : List ClassRef} {s₁ s₂ : σ}
    (hdirect : direct outer s = (.ok nested, s₁))
    (henlist : enlist release root nested found pending s₁ = ((found', pending'), s₂))
    (fuel : Nat) :
    explore direct release root (fuel + 1) found (outer :: pending) s =
      explore direct release root fuel found' pending' s₂ := by
  have ha : onFailure (found.forM release) (direct outer) s = (.ok nested, s₁) := by
    unfold onFailure
    rw [hdirect]
  conv => lhs; unfold explore
  rw [bind_apply, ha]
  simp only
  change explore direct release root fuel (enlist release root nested found pending s₁).1.1
    (enlist release root nested found pending s₁).1.2
    (enlist release root nested found pending s₁).2 = _
  rw [henlist]

/-- A class that was looked into is looked into for good, and whatever is new was reached by it. -/
theorem Searched.told {outer : ClassRef} {nested found' pending' : List ClassRef}
    {ks : Set ClassKey} {s₁ s' : σ}
    (hrelease : ∀ o held s, steady (o ::ₘ held) s → steady held (release o s).2)
    (h : Searched g root steady found (outer :: pending) s) (hg : g outer.key = .ok ks)
    (hkeys : ∀ k, k ∈ nested.map ClassRef.key ↔ k ∈ ks)
    (hs₁ : steady (↑nested + ↑(root :: found)) s₁)
    (henlist : enlist release root nested found pending s₁ = ((found', pending'), s')) :
    Searched g root steady found' pending' s' := by
  have hwithin := h.within (h.known outer List.mem_cons_self)
  obtain ⟨new, s₂, hrun, hnew, honce, hall, hs'⟩ := enlist_eq hrelease nested pending h.once hs₁
  cases henlist.symm.trans hrun
  refine ⟨hs', honce, ?_, ?_, ?_⟩
  · intro o ho
    rcases List.mem_append.mp ho with ho | ho
    · exact hwithin.nested hg ((hkeys _).mp (List.mem_map_of_mem (hnew o ho)))
    · exact h.reached o ho
  · intro o ho
    rcases List.mem_append.mp ho with ho | ho
    · exact List.mem_cons_of_mem _ (List.mem_append_left _ ho)
    · have := h.known o (List.mem_cons_of_mem _ ho)
      simp only [List.mem_cons, List.mem_append] at this ⊢
      tauto
  · intro o ho
    have hmono : ∀ k ∈ (root :: found).map ClassRef.key,
        k ∈ (root :: (new ++ found)).map ClassRef.key := by
      intro k hk
      simp only [List.map_cons, List.map_append, List.mem_cons, List.mem_append] at hk ⊢
      tauto
    have hold : o ∈ new ∨ o ∈ root :: found := by
      simp only [List.mem_cons, List.mem_append] at ho ⊢
      tauto
    rcases hold with ho | ho
    · exact .inl (List.mem_append_left _ ho)
    · rcases h.closed o ho with hpending | ⟨ks', hks', hin⟩
      · rcases List.mem_cons.mp hpending with rfl | hpending
        · refine .inr ⟨ks, hg, fun k hk => ?_⟩
          obtain ⟨d, hd, rfl⟩ := List.mem_map.mp ((hkeys k).mpr hk)
          exact hall d hd
        · exact .inl (List.mem_append_right _ hpending)
      · exact .inr ⟨ks', hks', fun k hk => hmono k (hin k hk)⟩

/-- Looking into one more class. -/
theorem Searched.look {outer : ClassRef}
    (hf : Follows direct release g root.key steady)
    (h : Searched g root steady found (outer :: pending) s) :
    (∃ ks, g outer.key = .ok ks ∧ ∃ new s',
      (∀ fuel, explore direct release root (fuel + 1) found (outer :: pending) s =
        explore direct release root fuel (new ++ found) (new ++ pending) s') ∧
      Searched g root steady (new ++ found) (new ++ pending) s') ∨
    (∃ e s', g outer.key = .error e ∧
      ∀ fuel, explore direct release root (fuel + 1) found (outer :: pending) s =
        (.error e, s')) := by
  have houter : outer ∈ root :: found := h.known outer List.mem_cons_self
  have hwithin := h.within houter
  obtain ⟨held, hheld⟩ := Multiset.exists_cons_of_mem (Multiset.mem_coe.mpr houter)
  cases hg : g outer.key with
  | error e =>
    obtain ⟨s', hs'⟩ :=
      explore_failed release root found pending
        (hf.failed outer held s e (hheld ▸ h.steady) hwithin hg)
    exact .inr ⟨e, s', rfl, hs'⟩
  | ok ks =>
    obtain ⟨nested, s₁, hdirect, hkeys, hs₁⟩ :=
      hf.told outer held s ks (hheld ▸ h.steady) hwithin hg
    rw [← hheld] at hs₁
    obtain ⟨new, s', henlist, -⟩ := enlist_eq hf.released nested pending h.once hs₁
    exact .inl ⟨ks, rfl, new, s', explore_told hdirect henlist,
      h.told hf.released hg hkeys hs₁ henlist⟩

/-- A search goes on to its end or to a class that fails. Each step looks into one class for good,
so what is left to look into and what is left to find bound the steps together. -/
theorem Searched.ends (hf : Follows direct release g root.key steady)
    (hfin : {k | g.Reaches root.key k}.Finite) (steps : Nat)
    (hsteps : hfin.toFinset.card + pending.length ≤ steps + found.length)
    (h : Searched g root steady found pending s) :
    ∃ r s', (∀ fuel, steps ≤ fuel →
        explore direct release root fuel found pending s = (r, s')) ∧
      ((∃ all, r = .ok (some all.reverse) ∧ Searched g root steady all [] s') ∨
        ∃ e k, r = .error e ∧ g.Within root.key k ∧ g k = .error e) := by
  induction steps generalizing found pending s with
  | zero =>
    have hle := h.length_le hfin
    obtain rfl : pending = [] := List.length_eq_zero_iff.mp (by omega)
    exact ⟨_, s, fun fuel _ => explore_done fuel, .inl ⟨found, rfl, h⟩⟩
  | succ steps ih =>
    cases pending with
    | nil => exact ⟨_, s, fun fuel _ => explore_done fuel, .inl ⟨found, rfl, h⟩⟩
    | cons outer pending =>
      rcases h.look hf with ⟨-, -, new, s₁, hstep, h₁⟩ | ⟨e, s', hg, hstep⟩
      · simp only [List.length_cons] at hsteps
        obtain ⟨r, s', hrun, hend⟩ := ih (by simp only [List.length_append]; omega) h₁
        refine ⟨r, s', fun fuel hfuel => ?_, hend⟩
        obtain ⟨fuel, rfl⟩ := Nat.exists_eq_succ_of_ne_zero (by omega : fuel ≠ 0)
        rw [Nat.succ_eq_add_one, hstep]
        exact hrun fuel (by omega)
      · refine ⟨.error e, s', fun fuel hfuel => ?_, .inr ⟨e, outer.key, rfl, ?_, hg⟩⟩
        · obtain ⟨fuel, rfl⟩ := Nat.exists_eq_succ_of_ne_zero (by omega : fuel ≠ 0)
          exact hstep fuel
        · exact h.within (h.known outer List.mem_cons_self)

end Worklist

/-- The graph tells what looking into classes tells, from the one class on. -/
def Describes (g : Graph) (s : Settings) (c : ClassRef) (w : World) : Prop :=
  ∃ steady, steady {c} w ∧ Follows (direct s) ClassRef.release g c.key steady

/-- With enough fuel the search comes to this, however much more it gets. -/
def Ends (s : Settings) (c : ClassRef) (w : World)
    (r : Except Error (Option (List ClassRef))) : Prop :=
  ∃ limit w', ∀ fuel, limit ≤ fuel → find s fuel (some c) w = (r, w')

/-- All classes that another leads to, that class apart, and each of them once. -/
def IsClosure (g : Graph) (root : ClassKey) (found : List ClassRef) : Prop :=
  (found.map ClassRef.key).Nodup ∧
    ∀ k, k ∈ found.map ClassRef.key ↔ g.Reaches root k ∧ k ≠ root

variable {g : Graph} {s : Settings} {c : ClassRef} {w : World}

theorem find_eq_explore (hkind : c.kind ≠ .array ∧ c.kind ≠ .primitive) (fuel : Nat) :
    find s fuel (some c) w = explore (direct s) ClassRef.release c fuel [] [c] w := by
  unfold find
  simp only [hkind.1, hkind.2, or_self, ↓reduceIte]

/-- What a search comes to does not depend on the limit. -/
theorem Ends.unique {r r' : Except Error (Option (List ClassRef))} (h : Ends s c w r)
    (h' : Ends s c w r') : r = r' := by
  obtain ⟨limit, w₁, hrun⟩ := h
  obtain ⟨limit', w₂, hrun'⟩ := h'
  have heq := (hrun _ (Nat.le_max_left limit limit')).symm.trans
    (hrun' _ (Nat.le_max_right limit limit'))
  exact (Prod.ext_iff.mp heq).1

theorem IsClosure.perm {found found' : List ClassRef} {root : ClassKey}
    (h : IsClosure g root found) (h' : IsClosure g root found') :
    (found.map ClassRef.key).Perm (found'.map ClassRef.key) :=
  (List.perm_ext_iff_of_nodup h.1 h'.1).mpr fun k => (h.2 k).trans (h'.2 k).symm

theorem isClosure_reverse {steady : Multiset ClassRef → World → Prop} {found : List ClassRef}
    (h : Searched g c steady found [] w) : IsClosure g c.key found.reverse := by
  obtain ⟨hroot, honce⟩ := List.nodup_cons.mp h.once
  refine ⟨by simpa using honce, fun k => ?_⟩
  rw [List.map_reverse, List.mem_reverse]
  constructor
  · intro hk
    obtain ⟨o, ho, rfl⟩ := List.mem_map.mp hk
    exact ⟨h.reached o ho, fun he => hroot (he ▸ List.mem_map_of_mem ho)⟩
  · rintro ⟨hk, hne⟩
    exact (List.mem_cons.mp (h.mem_keys_of_within hk.to_reflTransGen)).resolve_left hne

/-- What a search comes to, as the graph alone tells. -/
theorem ends_cases (hkind : c.kind ≠ .array ∧ c.kind ≠ .primitive) (hg : Describes g s c w)
    (hfin : {k | g.Reaches c.key k}.Finite) :
    ∃ r, Ends s c w r ∧
      ((∀ k, g.Within c.key k → ∃ ks, g k = .ok ks) ∧
          (∃ found, r = .ok (some found) ∧ IsClosure g c.key found) ∨
        ∃ e k, r = .error e ∧ g.Within c.key k ∧ g k = .error e) := by
  obtain ⟨steady, hs, hf⟩ := hg
  obtain ⟨r, w', hrun, hend⟩ :=
    (Searched.start hs).ends hf hfin (hfin.toFinset.card + 1) (by simp)
  refine ⟨r, ⟨hfin.toFinset.card + 1, w', fun fuel hfuel => ?_⟩, ?_⟩
  · rw [find_eq_explore hkind]
    exact hrun fuel hfuel
  · rcases hend with ⟨found, rfl, hfound⟩ | herror
    · exact .inl ⟨fun k => hfound.exists_ok_of_within, found.reverse, rfl,
        isClosure_reverse hfound⟩
    · exact .inr herror

/-- The search ends. It tells of all classes that the one class leads to, or fails with what one of
them failed with; another search of the same graph, in whatever order its classes tell of each
other, tells of the same classes. -/
theorem find_computes_closure (hkind : c.kind ≠ .array ∧ c.kind ≠ .primitive)
    (hg : Describes g s c w) (hfin : {k | g.Reaches c.key k}.Finite) :
    ∃ r, Ends s c w r ∧
      ((∀ k, g.Within c.key k → ∃ ks, g k = .ok ks) →
        ∃ found, r = .ok (some found) ∧ IsClosure g c.key found) ∧
      ((∃ k e, g.Within c.key k ∧ g k = .error e) →
        ∃ e k, r = .error e ∧ g.Within c.key k ∧ g k = .error e) ∧
      ∀ s' c' w', Describes g s' c' w' → c'.key = c.key →
        c'.kind ≠ .array ∧ c'.kind ≠ .primitive → ∀ found, r = .ok (some found) →
          ∃ found', Ends s' c' w' (.ok (some found')) ∧
            (found'.map ClassRef.key).Perm (found.map ClassRef.key) := by
  obtain ⟨r, hends, hcases⟩ := ends_cases hkind hg hfin
  refine ⟨r, hends, fun hall => ?_, ?_, ?_⟩
  · rcases hcases with ⟨-, hfound⟩ | ⟨e, k, -, hk, hke⟩
    · exact hfound
    · obtain ⟨ks, hks⟩ := hall k hk
      rw [hke] at hks
      cases hks
  · rintro ⟨k, e, hk, hke⟩
    rcases hcases with ⟨hall, -⟩ | herror
    · obtain ⟨ks, hks⟩ := hall k hk
      rw [hke] at hks
      cases hks
    · exact herror
  · rintro s' c' w' hg' hkey hkind' found rfl
    rcases hcases with ⟨hall, found', hr, hclosure⟩ | ⟨e, k, hr, -⟩
    · cases hr
      obtain ⟨r', hends', hcases'⟩ := ends_cases hkind' hg' (hkey ▸ hfin)
      rw [hkey] at hcases'
      rcases hcases' with ⟨-, found', rfl, hclosure'⟩ | ⟨e, k, -, hk, hke⟩
      · exact ⟨found', hends', hclosure'.perm hclosure⟩
      · obtain ⟨ks, hks⟩ := hall k hk
        rw [hke] at hks
        cases hks
    · cases hr

/-- A class of a loader that is asked for its numbered classes, with the members given for it. -/
def ringClass (name : String) (kind : ClassKind) (members : Nat) : ClassRef :=
  ⟨name, kind, some (.given 0 7), .given members⟩

def outer : ClassRef := ringClass "a.O" .topLevel 0

def member : ClassRef := ringClass "a.O$I" .member 1

/-- Another reference to the member. -/
def memberAgain : ClassRef := ringClass "a.O$I" .topLevel 1

def numbered : ClassRef := ringClass "a.O$1" .anonymous 2

def ringClasses : List ClassRef := [outer, member, memberAgain, numbered]

/-- The member leads back to the outer class and the anonymous class to the member. -/
def ring (log : List String) : World where
  files := ⟨#[], []⟩
  members := #[.ok [member], .ok [outer], .ok [memberAgain]]
  loaders := #[{ classes := ⟨[("a.O$1", numbered)]⟩, log }]

def probing : Settings := ⟨⟨[]⟩, ⟨2, .firstMiss⟩, none⟩

def ringNested (k : ClassKey) : List ClassKey :=
  if k = outer.key then [member.key, numbered.key]
  else if k = member.key then [outer.key]
  else [member.key]

def ringGraph : Graph := fun k => .ok {k' | k' ∈ ringNested k}

theorem direct_ring {o : ClassRef} (ho : o ∈ ringClasses) (log : List String) :
    ∃ l log', direct probing o (ring log) = (.ok l, ring log') ∧
      l.map ClassRef.key = ringNested o.key ∧ ∀ d ∈ l, d ∈ ringClasses := by
  simp only [ringClasses, List.mem_cons, List.not_mem_nil, or_false] at ho
  rcases ho with rfl | rfl | rfl | rfl
  · exact ⟨[member, numbered], "load a.O$2" :: "load a.O$1" :: log, by cbv, by decide, by decide⟩
  · exact ⟨[outer], "load a.O$I$1" :: log, by cbv, by decide, by decide⟩
  · exact ⟨[outer], "load a.O$I$1" :: log, by cbv, by decide, by decide⟩
  · exact ⟨[memberAgain], "load a.O$1$1" :: log, by cbv, by decide, by decide⟩

/-- Only what is noted of the questions changes. -/
theorem describes_ring : Describes ringGraph probing outer (ring []) := by
  refine ⟨fun held w => (∃ log, w = ring log) ∧ ∀ o ∈ held, o ∈ ringClasses, ⟨⟨[], rfl⟩, ?_⟩, ?_⟩
  · intro o ho
    rw [Multiset.mem_singleton.mp ho]
    exact List.mem_cons_self
  · constructor
    case told =>
      rintro o held - ks ⟨⟨log, rfl⟩, hheld⟩ - hks
      cases hks
      obtain ⟨l, log', hrun, hkeys, hl⟩ := direct_ring (hheld o (Multiset.mem_cons_self o held)) log
      refine ⟨l, _, hrun, fun k => by rw [hkeys]; rfl, ⟨log', rfl⟩, fun d hd => ?_⟩
      rcases Multiset.mem_add.mp hd with hd | hd
      · exact hl d hd
      · exact hheld d hd
    case failed =>
      intro o held w e _ _ he
      cases he
    case released =>
      rintro o held - ⟨⟨log, rfl⟩, hheld⟩
      have ho := hheld o (Multiset.mem_cons_self o held)
      refine ⟨⟨log, ?_⟩, fun d hd => hheld d (Multiset.mem_cons_of_mem hd)⟩
      simp only [ringClasses, List.mem_cons, List.not_mem_nil, or_false] at ho
      rcases ho with rfl | rfl | rfl | rfl <;> rfl

theorem within_ring {k : ClassKey} (h : ringGraph.Within outer.key k) :
    k ∈ ({outer.key, member.key, numbered.key} : Set ClassKey) := by
  refine h.mem_of_closed _ (by simp) ?_
  rintro a ha b ⟨ks, hks, hb⟩
  cases hks
  replace hb : b ∈ ringNested a := hb
  simp only [Set.mem_insert_iff, Set.mem_singleton_iff] at ha ⊢
  rcases ha with rfl | rfl | rfl <;> revert b <;> decide

theorem find_computes_closure_ring :
    ∃ found, Ends probing outer (ring []) (.ok (some found)) ∧
      (found.map ClassRef.key).Nodup ∧
      ∀ k, k ∈ found.map ClassRef.key ↔ k = member.key ∨ k = numbered.key := by
  have hfin : {k | ringGraph.Reaches outer.key k}.Finite :=
    (Set.toFinite {outer.key, member.key, numbered.key}).subset fun k hk =>
      within_ring (Relation.TransGen.to_reflTransGen hk)
  obtain ⟨r, hends, hok, -, -⟩ :=
    find_computes_closure ⟨by decide, by decide⟩ describes_ring hfin
  obtain ⟨found, rfl, honce, hiff⟩ := hok fun k _ => ⟨_, rfl⟩
  refine ⟨found, hends, honce, fun k => (hiff k).trans ⟨?_, ?_⟩⟩
  · rintro ⟨hk, hne⟩
    exact (within_ring hk.to_reflTransGen).resolve_left hne
  · have hmember : ringGraph.Reaches outer.key member.key := .single ⟨_, rfl, by decide⟩
    have hnumbered : ringGraph.Reaches outer.key numbered.key := .single ⟨_, rfl, by decide⟩
    rintro (rfl | rfl)
    · exact ⟨hmember, by decide⟩
    · exact ⟨hnumbered, by decide⟩

end ClassRecovery.Discovery
