import Mathlib
import ClassRecovery.Collector.Chain

/-!
A chain is a search for the first collector that settles the matter. Collectors are made to note
that they were asked, so that what the chain does is seen beside what it answers.
-/

namespace ClassRecovery

variable {σ α : Type}

abbrev Answer := Except Error (Option Bytes)

/-- A collector that notes each time it is asked, and otherwise does what it did. -/
def Collector.noting (note : α) (d : Collector σ) : Collector (σ × List α) where
  name := d.name
  priority := d.priority
  enabled := d.enabled
  point := d.point
  collect c := fun s =>
    let (a, s') := d.collect c s.1
    (a, s', s.2 ++ [note])

namespace Chain

/-- Collectors that note what they are labelled with. -/
def noting (registered : List (Collector σ × α)) : Chain (σ × List α) :=
  ofCollectors (registered.map fun x => x.1.noting x.2)

/-- The answers of collectors that are asked one after the other, and the state after the last. -/
def answers (c : ClassRef) : List (Collector σ) → σ → List Answer × σ
  | [], s => ([], s)
  | d :: ds, s =>
    let (a, s₁) := d.collect c s
    let (as, s₂) := answers c ds s₁
    (a :: as, s₂)

/-- Answers after which the next of the `enabled` collectors is asked: there are no bytes, or the
collector could not be started and is not the only one. -/
inductive PassedOver (enabled : Nat) : Answer → Prop
  | absent : PassedOver enabled (.ok none)
  | artifactBuild (reason : String) (others : 1 < enabled) :
      PassedOver enabled (.error (.artifactBuild reason))
  | artifactNotFound (path : String) (others : 1 < enabled) :
      PassedOver enabled (.error (.artifactNotFound path))
  | attach (reason : String) (others : 1 < enabled) : PassedOver enabled (.error (.attach reason))

/-- The enabled collectors and their places in `registered`, by ascending priority, and in the
order of registration where priorities agree. -/
structure AskingOrder (registered : List (Collector σ)) (order : List (Collector σ × Nat)) :
    Prop where
  mem_iff : ∀ d i, (d, i) ∈ order ↔ registered[i]? = some d ∧ d.enabled = true
  sorted : order.Pairwise fun x y =>
    x.1.priority < y.1.priority ∨ x.1.priority = y.1.priority ∧ x.2 < y.2
  once : (order.map (·.2)).Nodup

/-- Sorting by a key leaves elements of one key in the order they had. -/
theorem pairwise_mergeSort_stable {key : α → Int} {place : α → Nat} {l : List α}
    (h : l.Pairwise fun a b => place a < place b) :
    (l.mergeSort fun a b => key a ≤ key b).Pairwise fun a b =>
      key a < key b ∨ key a = key b ∧ place a < place b := by
  let le : α → α → Bool := fun a b => key a ≤ key b
  have trans : ∀ a b c : α, le a b → le b c → le a c := by
    simp only [le, decide_eq_true_eq]
    exact fun a b c => Int.le_trans
  have total : ∀ a b : α, le a b || le b a := by
    simp only [le, Bool.or_eq_true, decide_eq_true_eq]
    exact fun a b => Int.le_total _ _
  have sorted := List.pairwise_mergeSort (List.zipIdxLE_trans trans) (List.zipIdxLE_total total)
    l.zipIdx
  have distinct : (l.zipIdx.mergeSort (List.zipIdxLE le)).Pairwise fun x y => x.2 ≠ y.2 := by
    have perm := (List.mergeSort_perm l.zipIdx (List.zipIdxLE le)).map Prod.snd
    exact List.pairwise_map.mp (perm.nodup_iff.mpr (by simp [List.nodup_range']))
  rw [← List.mergeSort_zipIdx, List.pairwise_map]
  refine (sorted.and distinct).imp_of_mem ?_
  rintro ⟨a, i⟩ ⟨b, j⟩ ha hb ⟨hle, hne⟩
  have ha : l[i]? = some a := by simpa [List.mem_zipIdx_iff_getElem?] using ha
  have hb : l[j]? = some b := by simpa [List.mem_zipIdx_iff_getElem?] using hb
  obtain ⟨hi, rfl⟩ := List.getElem?_eq_some_iff.mp ha
  obtain ⟨hj, rfl⟩ := List.getElem?_eq_some_iff.mp hb
  have hij : key l[i] < key l[j] ∨ key l[i] = key l[j] ∧ i ≤ j := by
    simp only [List.zipIdxLE, le, decide_eq_true_eq] at hle
    split at hle
    · split at hle
      · exact .inr ⟨by omega, by simpa using hle⟩
      · exact .inl (by omega)
    · contradiction
  refine hij.imp_right fun ⟨hk, hp⟩ => ⟨hk, ?_⟩
  exact List.pairwise_iff_getElem.mp h i j hi hj (Nat.lt_of_le_of_ne hp hne)

/-- The enabled collectors with their places, as the chain sorts them. -/
def ordered (registered : List (Collector σ)) : List (Collector σ × Nat) :=
  (registered.zipIdx.filter (·.1.enabled)).mergeSort fun x y => x.1.priority ≤ y.1.priority

theorem askingOrder_ordered (registered : List (Collector σ)) :
    AskingOrder registered (ordered registered) where
  mem_iff d i := by
    rw [ordered, List.mem_mergeSort, List.mem_filter, List.mem_zipIdx_iff_getElem?]
  sorted := by
    have ascending : (registered.zipIdx.map Prod.snd).Pairwise (· < ·) := by
      simp [List.pairwise_lt_range']
    exact pairwise_mergeSort_stable ((List.pairwise_map.mp ascending).filter _)
  once := by
    have perm := (List.mergeSort_perm (registered.zipIdx.filter (·.1.enabled))
      fun x y => x.1.priority ≤ y.1.priority).map Prod.snd
    refine perm.nodup_iff.mpr ?_
    refine (List.filter_sublist.map Prod.snd).nodup ?_
    simp [List.nodup_range']

theorem collectors_noting (registered : List (Collector σ × α)) :
    (noting registered).collectors =
      ((registered.filter (·.1.enabled)).mergeSort fun x y =>
        x.1.priority ≤ y.1.priority).map fun x => x.1.noting x.2 := by
  rw [noting, ofCollectors, List.filter_map, List.map_mergeSort]
  · rfl
  · exact fun _ _ _ _ => rfl

theorem collectors_ofCollectors (registered : List (Collector σ)) :
    (ofCollectors registered).collectors = (ordered registered).map (·.1) := by
  have enabled : (registered.zipIdx.filter (·.1.enabled)).map (·.1) =
      registered.filter (·.enabled) := by
    have h := List.filter_map (f := Prod.fst) (p := (·.enabled)) (l := registered.zipIdx)
    rw [List.zipIdx_map_fst] at h
    exact h.symm
  rw [ordered, List.map_mergeSort (s := fun c d => c.priority ≤ d.priority), enabled]
  · rfl
  · exact fun _ _ _ _ => rfl

theorem length_ordered (registered : List (Collector σ)) :
    (ordered registered).length = (registered.filter (·.enabled)).length := by
  have h := congrArg List.length (collectors_ofCollectors registered)
  rw [List.length_map, ofCollectors, List.length_mergeSort] at h
  exact h.symm

theorem passedOver_error_iff {enabled : Nat} (h : 0 < enabled) {e : Error} :
    PassedOver enabled (.error e) ↔ isSkipped (enabled = 1) e = true := by
  have others : (!decide (enabled = 1)) = true ↔ 1 < enabled := by
    simp only [Bool.not_eq_true', decide_eq_false_iff_not]
    omega
  rw [isSkipped, Bool.and_eq_true, others]
  constructor
  · rintro (_ | ⟨_, h⟩ | ⟨_, h⟩ | ⟨_, h⟩) <;> exact ⟨rfl, h⟩
  · rintro ⟨hb, h⟩
    cases e with
    | artifactBuild reason => exact .artifactBuild reason h
    | artifactNotFound path => exact .artifactNotFound path h
    | attach reason => exact .attach reason h
    | _ => contradiction

theorem search_cons (sole : Bool) (c : ClassRef) (d : Collector σ) (rest : List (Collector σ))
    (s : σ) :
    search sole c (d :: rest) s =
      match d.collect c s with
      | (.ok (some bytes), s') => (.ok (some bytes), s')
      | (.ok none, s') => search sole c rest s'
      | (.error e, s') => if isSkipped sole e then search sole c rest s' else (.error e, s') := by
  rw [search, bind_apply]
  unfold outcome
  rcases d.collect c s with ⟨(e | _ | bytes), s'⟩
  · by_cases hs : isSkipped sole e = true
    · simp only [hs, if_true]
    · simp only [hs]
      rfl
  · rfl
  · rfl

theorem search_cons_of_passedOver {enabled : Nat} (h : 0 < enabled) {c : ClassRef}
    {d : Collector σ} {s s' : σ} {a : Answer} (hd : d.collect c s = (a, s'))
    (ha : PassedOver enabled a) (rest : List (Collector σ)) :
    search (enabled = 1) c (d :: rest) s = search (enabled = 1) c rest s' := by
  rw [search_cons, hd]
  rcases a with e | _ | bytes
  · simp [(passedOver_error_iff h).mp ha]
  · rfl
  · cases ha

theorem search_cons_of_not_passedOver {enabled : Nat} (h : 0 < enabled) {c : ClassRef}
    {d : Collector σ} {s s' : σ} {a : Answer} (hd : d.collect c s = (a, s'))
    (ha : ¬PassedOver enabled a) (rest : List (Collector σ)) :
    search (enabled = 1) c (d :: rest) s = (a, s') := by
  rw [search_cons, hd]
  rcases a with e | _ | bytes
  · exact if_neg fun hs => ha ((passedOver_error_iff h).mpr hs)
  · exact absurd .absent ha
  · rfl

/-- The search asks collectors from the front, each once, and stops with the first answer that is
not passed over. -/
theorem search_stops {enabled : Nat} (c : ClassRef) (order : List (Collector σ × α))
    (h : order ≠ [] → 0 < enabled) (s : σ) (noted : List α) :
    ∃ n ≤ order.length, ∃ as s' r,
      search (enabled = 1) c (order.map fun x => x.1.noting x.2) (s, noted) =
          (r, s', noted ++ (order.take n).map (·.2)) ∧
        search (enabled = 1) c (order.map (·.1)) s = (r, s') ∧
        answers c ((order.take n).map (·.1)) s = (as, s') ∧
        ((∃ before, as = before ++ [r] ∧ (∀ a ∈ before, PassedOver enabled a) ∧
            ¬PassedOver enabled r) ∨
          (n = order.length ∧ (∀ a ∈ as, PassedOver enabled a) ∧ r = .ok none)) := by
  induction order generalizing s noted with
  | nil =>
    exact ⟨0, Nat.le_refl _, [], s, .ok none, by simp [search]; rfl, rfl, rfl, .inr (by simp)⟩
  | cons x order ih =>
    obtain ⟨d, label⟩ := x
    have hpos := h (List.cons_ne_nil _ _)
    obtain ⟨a, s₁, hd⟩ : ∃ a s₁, d.collect c s = (a, s₁) := ⟨_, _, rfl⟩
    have hnoting : (d.noting label).collect c (s, noted) = (a, s₁, noted ++ [label]) := by
      simp only [Collector.noting, hd]
    by_cases ha : PassedOver enabled a
    · obtain ⟨n, hn, as, s', r, hnoted, hplain, hanswers, hends⟩ :=
        ih (fun _ => hpos) s₁ (noted ++ [label])
      refine ⟨n + 1, Nat.succ_le_succ hn, a :: as, s', r, ?_, ?_, ?_, ?_⟩
      · rw [List.map_cons, search_cons_of_passedOver hpos hnoting ha, hnoted]
        simp
      · rw [List.map_cons, search_cons_of_passedOver hpos hd ha, hplain]
      · rw [List.take_succ_cons, List.map_cons, answers, hd]
        simp only [hanswers]
      · rcases hends with ⟨before, rfl, hb, hr⟩ | ⟨hn, has, hr⟩
        · exact .inl ⟨a :: before, rfl, List.forall_mem_cons.mpr ⟨ha, hb⟩, hr⟩
        · exact .inr ⟨by simp [hn], List.forall_mem_cons.mpr ⟨ha, has⟩, hr⟩
    · refine ⟨1, by simp, [a], s₁, a, ?_, ?_, ?_, .inl ⟨[], rfl, by simp, ha⟩⟩
      · rw [List.map_cons, search_cons_of_not_passedOver hpos hnoting ha]
        simp
      · rw [List.map_cons, search_cons_of_not_passedOver hpos hd ha]
      · simp [answers, hd]

/-- A chain depends on nothing but the enabled collectors. -/
theorem noting_eq_of_filter_eq {l l' : List (Collector σ × α)}
    (h : l.filter (·.1.enabled) = l'.filter (·.1.enabled)) : noting l = noting l' := by
  have hc : (noting l).collectors = (noting l').collectors := by
    rw [collectors_noting, collectors_noting, h]
  exact congrArg Chain.mk hc

theorem eq_of_nodup_map {β : Type} {f : α → β} {l : List α} (h : (l.map f).Nodup) {a b : α}
    (ha : a ∈ l) (hb : b ∈ l) (hf : f a = f b) : a = b := by
  obtain ⟨i, hi, rfl⟩ := List.mem_iff_getElem.mp ha
  obtain ⟨j, hj, rfl⟩ := List.mem_iff_getElem.mp hb
  have hi' : i < (l.map f).length := by simpa using hi
  have hj' : j < (l.map f).length := by simpa using hj
  have hij : (l.map f)[i] = (l.map f)[j] := by simpa using hf
  have hij : i = j := (List.getElem_inj h).mp hij
  subst hij
  rfl

/-- Where priorities differ, the order of registration does not matter. -/
theorem noting_eq_of_perm {l l' : List (Collector σ × α)} (h : l.Perm l')
    (distinct : ((l.filter (·.1.enabled)).map (·.1.priority)).Nodup) : noting l = noting l' := by
  let le : Collector σ × α → Collector σ × α → Bool := fun x y => x.1.priority ≤ y.1.priority
  have sorted : ∀ m : List (Collector σ × α), (m.mergeSort le).Pairwise fun x y => le x y := by
    refine fun m => List.pairwise_mergeSort ?_ ?_ m
    · simp only [le, decide_eq_true_eq]
      exact fun _ _ _ => Int.le_trans
    · simp only [le, Bool.or_eq_true, decide_eq_true_eq]
      exact fun _ _ => Int.le_total _ _
  have same : (l.filter (·.1.enabled)).mergeSort le = (l'.filter (·.1.enabled)).mergeSort le := by
    refine List.Perm.eq_of_pairwise ?_ (sorted _) (sorted _) ?_
    · intro x y hx hy hxy hyx
      simp only [le, decide_eq_true_eq] at hxy hyx
      have hy := (h.filter _).mem_iff.mpr (List.mem_mergeSort.mp hy)
      exact eq_of_nodup_map distinct (List.mem_mergeSort.mp hx) hy (Int.le_antisymm hxy hyx)
    · exact (List.mergeSort_perm _ _).trans ((h.filter _).trans (List.mergeSort_perm _ _).symm)
  have hc : (noting l).collectors = (noting l').collectors := by
    rw [collectors_noting, collectors_noting]
    exact congrArg (List.map _) same
  exact congrArg Chain.mk hc

/-- A chain asks the enabled collectors by ascending priority, in the order of registration where
priorities agree, each once, and stops with the first answer that is not passed over; that answer
is its own, and if all are passed over there are no bytes. So collectors that are not enabled
have no influence, and where priorities differ the order of registration has none. -/
theorem get_stops_at_first (c : ClassRef) :
    (∀ (registered : List (Collector σ)) (s : σ),
      ∃ order, AskingOrder registered order ∧ ∃ n ≤ order.length, ∃ as s' r,
        (noting registered.zipIdx).get (some c) (s, []) = (r, s', (order.take n).map (·.2)) ∧
        (ofCollectors registered).get (some c) s = (r, s') ∧
        answers c ((order.take n).map (·.1)) s = (as, s') ∧
        let enabled := (registered.filter (·.enabled)).length
        ((∃ before, as = before ++ [r] ∧ (∀ a ∈ before, PassedOver enabled a) ∧
            ¬PassedOver enabled r) ∨
          (n = order.length ∧ (∀ a ∈ as, PassedOver enabled a) ∧ r = .ok none))) ∧
    (∀ l l' : List (Collector σ × α),
      l.filter (·.1.enabled) = l'.filter (·.1.enabled) →
        (noting l).get (some c) = (noting l').get (some c)) ∧
    (∀ l l' : List (Collector σ × α),
      l.Perm l' → ((l.filter (·.1.enabled)).map (·.1.priority)).Nodup →
        (noting l).get (some c) = (noting l').get (some c)) := by
  refine ⟨fun registered s => ?_, fun l l' h => ?_, fun l l' h hd => ?_⟩
  · have hpos : ordered registered ≠ [] → 0 < (registered.filter (·.enabled)).length := by
      rw [← length_ordered]
      exact List.length_pos_iff.mpr
    obtain ⟨n, hn, as, s', r, hnoted, hplain, hanswers, hends⟩ :=
      search_stops c (ordered registered) hpos s []
    refine ⟨ordered registered, askingOrder_ordered registered, n, hn, as, s', r, ?_, ?_,
      hanswers, hends⟩
    · rw [get, collectors_noting, ← ordered, List.length_map, length_ordered]
      simpa using hnoted
    · rw [get, collectors_ofCollectors, List.length_map, length_ordered]
      exact hplain
  · rw [noting_eq_of_filter_eq h]
  · rw [noting_eq_of_perm h hd]

/-- A collector with one answer. -/
def answering (name : String) (priority : Int) (enabled : Bool) (answer : Answer) :
    Collector Unit where
  name
  priority
  enabled
  collect _ := fun s => (answer, s)

/-- An agent that cannot be attached stands before two collectors that have the class. -/
def attachFirst : List (Collector Unit × String) :=
  [(answering "late" 9 true (.ok (some [9])), "late"),
    (answering "off" 0 false (.ok (some [0])), "off"),
    (answering "agent" (-1) true (.error (.attach "no listener")), "agent"),
    (answering "early" 3 true (.ok (some [3])), "early")]

theorem get_stops_at_first_attachFirst (c : ClassRef) :
    attachFirst.Perm attachFirst.reverse ∧
      ((attachFirst.filter (·.1.enabled)).map (·.1.priority)).Nodup ∧
      (noting attachFirst).get (some c) ((), []) = (.ok (some [3]), (), ["agent", "early"]) ∧
      (noting attachFirst.reverse).get (some c) ((), []) =
        (.ok (some [3]), (), ["agent", "early"]) := by
  have perm : attachFirst.Perm attachFirst.reverse := (List.reverse_perm _).symm
  have distinct : ((attachFirst.filter (·.1.enabled)).map (·.1.priority)).Nodup := by decide
  have asked : (noting attachFirst).get (some c) ((), []) =
      (.ok (some [3]), (), ["agent", "early"]) := by
    cbv
  obtain ⟨-, -, reordered⟩ := @get_stops_at_first Unit String c
  exact ⟨perm, distinct, asked, by rw [← reordered _ _ perm distinct]; exact asked⟩

end Chain

end ClassRecovery
