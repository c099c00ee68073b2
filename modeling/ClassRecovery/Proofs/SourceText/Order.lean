import ClassRecovery.Proofs.Collector.FirstHit
import ClassRecovery.Proofs.Discovery.Probing
import ClassRecovery.SourceText

/-!
The nested classes are a set, and whatever goes through a set does so in some order. The decompiler
is given the classes by their names, so it does not see that order, unless two classes of one name
have different bytes; nor does the caller, unless several lookups fail, each in its own way.
-/

namespace ClassRecovery

namespace Discovery

variable {σ : Type} {root : ClassRef} {found : List ClassRef}

theorem enlist_once (release : ClassRef → StateM σ Unit) (nested pending : List ClassRef)
    (h : ((root :: found).map ClassRef.key).Nodup) (s : σ) :
    ((root :: (enlist release root nested found pending s).1.1).map ClassRef.key).Nodup := by
  induction nested generalizing found pending s with
  | nil => exact h
  | cons c nested ih =>
    rw [enlist]
    split
    · exact ih pending h _
    · next hnew =>
      refine ih _ ?_ s
      simp only [Bool.or_eq_true, List.any_eq_true, ClassRef.same_iff, not_or, not_exists,
        not_and] at hnew
      simp only [List.map_cons, List.nodup_cons, List.mem_cons, List.mem_map, not_or, not_exists,
        not_and] at h ⊢
      exact ⟨⟨fun he => hnew.1 he.symm, h.1⟩, fun d hd he => hnew.2 d hd he.symm, h.2⟩

/-- A search tells of each class once. -/
theorem find_once {s : Settings} {fuel : Nat} {c : ClassRef} {w w' : World}
    (h : find s fuel (some c) w = (.ok (some found), w')) : found.Nodup := by
  obtain ⟨all, rfl, hall⟩ := explore_keeps
    (fun found _ (_ : World) => ((c :: found).map ClassRef.key).Nodup)
    (fun _ _ pending _ nested s₁ hkeep _ _ _ _ henlist => by
      have honce := enlist_once ClassRef.release nested pending hkeep s₁
      rw [henlist] at honce
      exact honce)
    (explore_of_find h) (List.nodup_singleton _)
  rw [List.nodup_reverse]
  exact (List.nodup_cons.mp hall).2.of_map ClassRef.key

end Discovery

namespace SourceParser

/-- An order to go through a set. -/
def Shuffles (order : List ClassRef → List ClassRef) : Prop := ∀ cs, (order cs).Perm cs

/-- The bytes of the class are at hand, and the classes nested in it are known. -/
def Gathers (p : SourceParser) (fuel : Nat) (c : ClassRef) (w : World) (bytes : Bytes)
    (nested : List ClassRef) (w' : World) : Prop :=
  ∃ w₁, p.chain.get (some c) w = (.ok (some bytes), w₁) ∧
    Discovery.find p.discovery fuel (some c) w₁ = (.ok (some nested), w')

/-- Asked about these classes in turn, up to the first fault, the chain answers so. -/
def Replies (chain : Chain World) (answer : ClassRef → Answer) : List ClassRef → World → Prop
  | [], _ => True
  | c :: cs, w => (chain.get (some c) w).1 = answer c ∧
      ∀ file w', chain.get (some c) w = (.ok file, w') → Replies chain answer cs w'

/-- A class under its name, if it has bytes. -/
def named? (answer : ClassRef → Answer) (c : ClassRef) : Option (String × Bytes) :=
  match answer c with
  | .ok (some bytes) => some (c.internalName, bytes)
  | _ => none

/-- What comes of going through the classes in this order. -/
inductive Concludes (decompile : List (String × Bytes) → Except Error String)
    (answer : ClassRef → Answer) (cs : List ClassRef) : Except Error (Option String) → Prop
  | decompiled {inner : List (String × Bytes)} (answered : ∀ c ∈ cs, ∃ file, answer c = .ok file)
      (entries : inner.Perm (cs.filterMap (named? answer)))
      (ascending : inner.Pairwise fun a b => a.1 ≤ b.1)
      (stable : ∀ name, inner.filter (·.1 = name) =
        (cs.filterMap (named? answer)).filter (·.1 = name)) :
      Concludes decompile answer cs ((decompile inner).map some)
  | failed {before behind : List ClassRef} {c : ClassRef} {e : Error}
      (order : cs = before ++ c :: behind) (answered : ∀ d ∈ before, ∃ file, answer d = .ok file)
      (fault : answer c = .error e) : Concludes decompile answer cs (.error e)

/-- All lookups that fail do so in one way, and if none fails, classes of one name that have bytes
have the same. -/
structure Agreed (answer : ClassRef → Answer) (nested : List ClassRef) : Prop where
  faults : ∀ c ∈ nested, ∀ d ∈ nested, ∀ e e', answer c = .error e → answer d = .error e' → e = e'
  bytes : (∀ c ∈ nested, ∃ file, answer c = .ok file) → ∀ c ∈ nested, ∀ d ∈ nested,
    c.internalName = d.internalName → ∀ b b', answer c = .ok (some b) →
      answer d = .ok (some b') → b = b'

variable {p : SourceParser} {chain : Chain World} {answer answer' : ClassRef → Answer}
  {c : ClassRef} {cs nested before behind : List ClassRef} {file : Option Bytes} {bytes : Bytes}
  {e : Error} {fuel : Nat} {order : List ClassRef → List ClassRef}
  {inner inner' : List (String × Bytes)} {w w' : World}

/-! ### What the chain answers -/

theorem Replies.answered (h : Replies chain answer (c :: cs) w) (hfile : answer c = .ok file) :
    ∃ w', chain.get (some c) w = (.ok file, w') ∧ Replies chain answer cs w' := by
  obtain ⟨hfirst, hrest⟩ := h
  rw [hfile] at hfirst
  have hrun : chain.get (some c) w = (.ok file, (chain.get (some c) w).2) := Prod.ext hfirst rfl
  exact ⟨_, hrun, hrest file _ hrun⟩

theorem Replies.congr (h : Replies chain answer cs w) (hsame : ∀ c ∈ cs, answer c = answer' c) :
    Replies chain answer' cs w := by
  induction cs generalizing w with
  | nil => trivial
  | cons c cs ih =>
    obtain ⟨hfirst, hrest⟩ := h
    refine ⟨hfirst.trans (hsame c List.mem_cons_self), fun file w' hrun => ?_⟩
    exact ih (hrest file w' hrun) fun d hd => hsame d (List.mem_cons_of_mem _ hd)

/-- Classes that are asked about once each have an answer each. -/
theorem exists_replies (chain : Chain World) (hcs : cs.Nodup) (w : World) :
    ∃ answer, Replies chain answer cs w := by
  induction cs generalizing w with
  | nil => exact ⟨fun _ => .ok none, trivial⟩
  | cons c cs ih =>
    obtain ⟨hc, hcs⟩ := List.nodup_cons.mp hcs
    obtain ⟨answer, hanswer⟩ := ih hcs (chain.get (some c) w).2
    refine ⟨fun d => if d = c then (chain.get (some c) w).1 else answer d, (if_pos rfl).symm,
      fun file w' hrun => ?_⟩
    rw [hrun] at hanswer
    refine hanswer.congr fun d hd => (if_neg ?_).symm
    rintro rfl
    exact hc hd

/-- A chain that comes to the same whatever was asked before answers alike in any order. -/
theorem replies_of_reproducible {roots : List OwnedRoot} (hw : w.Reopens roots w')
    (h : ∀ c ∈ cs, Reproducible roots (chain.get (some c))) :
    Replies chain (fun c => (chain.get (some c) w).1) cs w' := by
  induction cs generalizing w' with
  | nil => trivial
  | cons c cs ih =>
    obtain ⟨hc, hcs⟩ := List.forall_mem_cons.mp h
    obtain ⟨hsame, hlater⟩ := hc w w' hw
    refine ⟨hsame, fun file w₁ hrun => ?_⟩
    rw [hrun] at hlater
    exact ih hlater hcs

/-- Loaders of archives, and collectors that keep to their answers as these do, answer alike in any
order. -/
theorem replies_of_archives {l : Loader} (hl : l.IsArchives) (hids : l.Apart)
    (hchain : ∀ d : ClassRef, d.DefinedIn l → Reproducible l.allRoots (p.chain.get (some d)))
    (hdiscovery : ∀ d : ClassRef, d.DefinedIn l →
      Reproducible l.allRoots (p.discovery.chain.get (some d)))
    (hc : c.DefinedIn l) (h : Gathers p fuel c w bytes nested w') (hcs : cs.Perm nested) :
    Replies p.chain (fun d => (p.chain.get (some d) w).1) cs w' := by
  obtain ⟨w₁, hget, hfind⟩ := h
  have hopen : w.Reopens l.allRoots w₁ := by
    have hlater := (hchain c hc w w (.refl _ w)).2
    rwa [hget] at hlater
  have hshows := Discovery.shows_archives hl hids hdiscovery p.discovery.boot w
  obtain ⟨found, rfl, hfound⟩ := Discovery.explore_keeps (Discovery.Searched _ c _)
    (fun _ _ _ _ _ _ hsearched hdirect _ _ _ => hsearched.shown hshows hdirect)
    (Discovery.explore_of_find hfind) (.start ⟨hopen, fun d hd => by
      rw [Multiset.mem_singleton.mp hd]
      exact hc⟩)
  obtain ⟨hreopens, hdefined⟩ := hfound.steady
  refine replies_of_reproducible hreopens fun d hd => hchain d (hdefined d ?_)
  have hmem : d ∈ found := by simpa using hcs.mem_iff.mp hd
  exact Multiset.mem_coe.mpr (List.mem_cons_of_mem _ hmem)

theorem answered_or_failed (answer : ClassRef → Answer) (cs : List ClassRef) :
    (∀ c ∈ cs, ∃ file, answer c = .ok file) ∨ ∃ before c behind e, cs = before ++ c :: behind ∧
      (∀ d ∈ before, ∃ file, answer d = .ok file) ∧ answer c = .error e := by
  induction cs with
  | nil => exact .inl fun c hc => (by cases hc)
  | cons c cs ih =>
    cases hc : answer c with
    | error e => exact .inr ⟨[], c, cs, e, rfl, fun d hd => (by cases hd), hc⟩
    | ok file =>
      rcases ih with hall | ⟨before, d, behind, e, rfl, hbefore, hfault⟩
      · exact .inl (List.forall_mem_cons.mpr ⟨⟨file, hc⟩, hall⟩)
      · exact .inr ⟨c :: before, d, behind, e, rfl,
          List.forall_mem_cons.mpr ⟨⟨file, hc⟩, hbefore⟩, hfault⟩

theorem innerBytes_answered (h : Replies p.chain answer cs w)
    (hall : ∀ c ∈ cs, ∃ file, answer c = .ok file) :
    ∃ w', p.innerBytes cs w = (.ok (cs.filterMap (named? answer)), w') := by
  induction cs generalizing w with
  | nil => exact ⟨w, rfl⟩
  | cons c cs ih =>
    obtain ⟨⟨file, hfile⟩, hall⟩ := List.forall_mem_cons.mp hall
    obtain ⟨w₁, hrun, hrest⟩ := h.answered hfile
    obtain ⟨w', hmore⟩ := ih hrest hall
    refine ⟨w', ?_⟩
    rw [innerBytes, bind_apply, hrun, List.filterMap_cons, named?, hfile]
    cases file with
    | none => exact hmore
    | some bytes =>
      dsimp only
      rw [bind_apply, hmore]
      rfl

theorem innerBytes_failed (h : Replies p.chain answer (before ++ c :: behind) w)
    (hbefore : ∀ d ∈ before, ∃ file, answer d = .ok file) (hfault : answer c = .error e) :
    ∃ w', p.innerBytes (before ++ c :: behind) w = (.error e, w') := by
  induction before generalizing w with
  | nil =>
    have hrun : p.chain.get (some c) w = (.error e, (p.chain.get (some c) w).2) :=
      Prod.ext (h.1.trans hfault) rfl
    exact ⟨_, by rw [List.nil_append, innerBytes, bind_apply, hrun]⟩
  | cons d before ih =>
    obtain ⟨⟨file, hfile⟩, hbefore⟩ := List.forall_mem_cons.mp hbefore
    obtain ⟨w₁, hrun, hrest⟩ := h.answered hfile
    obtain ⟨w', hmore⟩ := ih hrest hbefore
    refine ⟨w', ?_⟩
    rw [List.cons_append, innerBytes, bind_apply, hrun]
    cases file with
    | none => exact hmore
    | some bytes =>
      dsimp only
      rw [bind_apply, hmore]

/-! ### What the decompiler is given -/

def precedes (a b : String × Bytes) : Bool := a.1 ≤ b.1

theorem precedes_trans (a b c : String × Bytes) (hab : precedes a b) (hbc : precedes b c) :
    precedes a c := by
  simp only [precedes, decide_eq_true_eq] at hab hbc ⊢
  exact String.le_trans hab hbc

theorem precedes_total (a b : String × Bytes) : precedes a b || precedes b a := by
  simp only [precedes, Bool.or_eq_true, decide_eq_true_eq]
  exact String.le_total a.1 b.1

/-- The classes by their names. -/
def byName (inner : List (String × Bytes)) : List (String × Bytes) := inner.mergeSort precedes

theorem byName_ascending (inner : List (String × Bytes)) :
    (byName inner).Pairwise fun a b => a.1 ≤ b.1 :=
  (List.pairwise_mergeSort precedes_trans precedes_total inner).imp fun h => by
    simpa [precedes] using h

theorem byName_perm (inner : List (String × Bytes)) : (byName inner).Perm inner :=
  List.mergeSort_perm _ _

/-- Those of one name stay in the order they were in. -/
theorem filter_byName (inner : List (String × Bytes)) (name : String) :
    (byName inner).filter (·.1 = name) = inner.filter (·.1 = name) := by
  have hsame : (inner.filter (·.1 = name)).Pairwise fun a b => precedes a b := by
    refine List.pairwise_of_forall_mem_list fun a ha b hb => ?_
    simp only [List.mem_filter, decide_eq_true_eq] at ha hb
    simp only [precedes, decide_eq_true_eq, ha.2, hb.2]
    exact String.le_refl name
  have hsublist := (List.sublist_mergeSort precedes_trans precedes_total hsame
    List.filter_sublist).filter (·.1 = name)
  rw [List.filter_filter] at hsublist
  simp only [Bool.and_self] at hsublist
  exact (hsublist.eq_of_length ((byName_perm inner).filter _).length_eq.symm).symm

theorem byName_of_ascending (h : inner.Pairwise fun a b => a.1 ≤ b.1) : byName inner = inner :=
  List.mergeSort_of_pairwise (h.imp fun hab => by simpa [precedes] using hab)

/-- If those of one name are equal, what they are sorted from does not show. -/
theorem byName_eq (h : inner.Perm inner') (hequal : ∀ a ∈ inner, ∀ b ∈ inner, a.1 = b.1 → a = b) :
    byName inner = byName inner' := by
  have hperm := (byName_perm inner).trans (h.trans (byName_perm inner').symm)
  refine hperm.eq_of_pairwise (fun a b ha hb hab hba => ?_) (byName_ascending inner)
    (byName_ascending inner')
  exact hequal a ((byName_perm inner).mem_iff.mp ha) b
    (h.mem_iff.mpr ((byName_perm inner').mem_iff.mp hb)) (String.le_antisymm hab hba)

/-! ### What comes of it -/

theorem parse_of_inner {w₂ : World} (h : Gathers p fuel c w bytes nested w')
    (hinner : p.innerBytes (order nested) w' = (.ok inner, w₂)) :
    (p.parse order fuel c w).1 = (p.decompile bytes (byName inner)).map some := by
  obtain ⟨w₁, hget, hfind⟩ := h
  have hlist : (inner.mergeSort fun a b => a.1 ≤ b.1) = byName inner := by rfl
  rw [parse, bind_apply, hget]
  dsimp only
  rw [bind_apply, hfind]
  dsimp only [Option.getD_some]
  rw [bind_apply, Discovery.holding_eq_ok.mpr hinner]
  dsimp only
  rw [hlist]
  cases p.decompile bytes (byName inner) <;> rfl

theorem parse_answered (h : Gathers p fuel c w bytes nested w')
    (hreplies : Replies p.chain answer (order nested) w')
    (hall : ∀ d ∈ order nested, ∃ file, answer d = .ok file) :
    (p.parse order fuel c w).1 =
      (p.decompile bytes (byName ((order nested).filterMap (named? answer)))).map some := by
  obtain ⟨w₂, hinner⟩ := innerBytes_answered hreplies hall
  exact parse_of_inner h hinner

theorem parse_failed {d : ClassRef} (h : Gathers p fuel c w bytes nested w')
    (hreplies : Replies p.chain answer (order nested) w')
    (hnested : order nested = before ++ d :: behind)
    (hbefore : ∀ d ∈ before, ∃ file, answer d = .ok file) (hfault : answer d = .error e) :
    (p.parse order fuel c w).1 = .error e := by
  obtain ⟨w₁, hget, hfind⟩ := h
  obtain ⟨w₂, hinner⟩ := innerBytes_failed (hnested ▸ hreplies) hbefore hfault
  rw [parse, bind_apply, hget]
  dsimp only
  rw [bind_apply, hfind]
  dsimp only [Option.getD_some]
  rw [bind_apply, Discovery.holding, onFailure, hnested, hinner]

/-- Without bytes of the class, or without the classes nested in it, none is gone through. -/
theorem parse_of_not_gathers {order' : List ClassRef → List ClassRef}
    (h : ∀ bytes nested w', ¬ Gathers p fuel c w bytes nested w') (horder : Shuffles order)
    (horder' : Shuffles order') : p.parse order fuel c w = p.parse order' fuel c w := by
  rw [parse, parse, bind_apply, bind_apply]
  rcases hget : p.chain.get (some c) w with ⟨e | _ | bytes, w₁⟩
  · rfl
  · rfl
  · dsimp only
    rw [bind_apply, bind_apply]
    rcases hfind : Discovery.find p.discovery fuel (some c) w₁ with ⟨e | _ | nested, w₂⟩
    · rfl
    · dsimp only [Option.getD_none]
      rw [(horder []).eq_nil, (horder' []).eq_nil]
    · exact absurd ⟨w₁, hget, hfind⟩ (h bytes nested w₂)

theorem concludes_parse (h : Gathers p fuel c w bytes nested w')
    (hreplies : Replies p.chain answer (order nested) w') :
    Concludes (p.decompile bytes) answer (order nested) (p.parse order fuel c w).1 := by
  rcases answered_or_failed answer (order nested) with
    hall | ⟨before, d, behind, e, hnested, hbefore, hfault⟩
  · rw [parse_answered h hreplies hall]
    exact .decompiled hall (byName_perm _) (byName_ascending _) (filter_byName _)
  · rw [parse_failed h hreplies hnested hbefore hfault]
    exact .failed hnested hbefore hfault

theorem gathers_of_fst (hget : (p.chain.get (some c) w).1 = .ok (some bytes))
    (hfind : (Discovery.find p.discovery fuel (some c) (p.chain.get (some c) w).2).1 =
      .ok (some nested)) :
    Gathers p fuel c w bytes nested
      (Discovery.find p.discovery fuel (some c) (p.chain.get (some c) w).2).2 :=
  ⟨_, Prod.ext hget rfl, Prod.ext hfind rfl⟩

theorem mem_entries {entry : String × Bytes} : entry ∈ cs.filterMap (named? answer) ↔
    ∃ c ∈ cs, ∃ bytes, answer c = .ok (some bytes) ∧ entry = (c.internalName, bytes) := by
  rw [List.mem_filterMap]
  refine exists_congr fun c => and_congr_right fun _ => ?_
  unfold named?
  split
  · next bytes hbytes => simp [hbytes, eq_comm]
  · next hnone => simpa using fun bytes hbytes => (hnone bytes hbytes).elim

/-- Where the answers agree, any two orders come to the same. -/
theorem parse_eq_of_agreed {order' : List ClassRef → List ClassRef}
    (h : Gathers p fuel c w bytes nested w') (horder : Shuffles order) (horder' : Shuffles order')
    (hreplies : Replies p.chain answer (order nested) w')
    (hreplies' : Replies p.chain answer (order' nested) w') (hagreed : Agreed answer nested) :
    (p.parse order fuel c w).1 = (p.parse order' fuel c w).1 := by
  have hmem : ∀ d ∈ order nested, d ∈ nested := fun d => (horder nested).mem_iff.mp
  have hmem' : ∀ d ∈ order' nested, d ∈ nested := fun d => (horder' nested).mem_iff.mp
  have hperm := (horder nested).trans (horder' nested).symm
  rcases answered_or_failed answer (order nested) with
    hall | ⟨before, d, behind, e, hnested, hbefore, hfault⟩
  · have hall' : ∀ d ∈ order' nested, ∃ file, answer d = .ok file := fun d hd =>
      hall d (hperm.mem_iff.mpr hd)
    rw [parse_answered h hreplies hall, parse_answered h hreplies' hall',
      byName_eq (hperm.filterMap _) fun a ha b hb hname => ?_]
    obtain ⟨d, hd, bytes₁, hbytes₁, rfl⟩ := mem_entries.mp ha
    obtain ⟨d', hd', bytes₂, hbytes₂, rfl⟩ := mem_entries.mp hb
    have hsame := hagreed.bytes (fun x hx => hall x ((horder nested).mem_iff.mpr hx)) d
      (hmem d hd) d' (hmem d' hd') hname bytes₁ bytes₂ hbytes₁ hbytes₂
    exact Prod.ext hname hsame
  · rcases answered_or_failed answer (order' nested) with
      hall | ⟨before', d', behind', e', hnested', hbefore', hfault'⟩
    · obtain ⟨file, hfile⟩ := hall d (hperm.mem_iff.mp (by rw [hnested]; simp))
      rw [hfault] at hfile
      cases hfile
    · have hd : d ∈ nested := hmem d (by rw [hnested]; simp)
      have hd' : d' ∈ nested := hmem' d' (by rw [hnested']; simp)
      rw [parse_failed h hreplies hnested hbefore hfault,
        parse_failed h hreplies' hnested' hbefore' hfault',
        hagreed.faults d hd d' hd' e e' hfault hfault']

/-- Any of the classes may come first. -/
theorem exists_order_first (hc : c ∈ nested) :
    ∃ order, Shuffles order ∧ ∃ rest, order nested = c :: rest := by
  obtain ⟨before, behind, rfl⟩ := List.append_of_mem hc
  refine ⟨fun cs => if cs = before ++ c :: behind then c :: (before ++ behind) else cs,
    fun cs => ?_, before ++ behind, if_pos rfl⟩
  dsimp only
  split
  · next h =>
    rw [h]
    exact List.perm_middle.symm
  · exact .refl cs

/-- A decompiler that knows one list from all others. -/
def recognizing (inner : List (String × Bytes)) : Bytes → List (String × Bytes) →
    Except Error String :=
  fun _ inner' => .ok (if inner' = inner then "known" else "unknown")

theorem gathers_decompile (h : Gathers p fuel c w bytes nested w')
    (decompile : Bytes → List (String × Bytes) → Except Error String) :
    Gathers { p with decompile } fuel c w bytes nested w' := h

/-- A list that no decompiler can tell from another is the other. -/
theorem byName_eq_of_parse_eq {order' : List ClassRef → List ClassRef}
    (h : Gathers p fuel c w bytes nested w') (hreplies : Replies p.chain answer (order nested) w')
    (hreplies' : Replies p.chain answer (order' nested) w')
    (hall : ∀ d ∈ order nested, ∃ file, answer d = .ok file)
    (hall' : ∀ d ∈ order' nested, ∃ file, answer d = .ok file)
    (hsame : ∀ decompile, (({ p with decompile } : SourceParser).parse order fuel c w).1 =
      (({ p with decompile } : SourceParser).parse order' fuel c w).1) :
    byName ((order nested).filterMap (named? answer)) =
      byName ((order' nested).filterMap (named? answer)) := by
  by_contra hne
  have hgathers := gathers_decompile h
    (recognizing (byName ((order nested).filterMap (named? answer))))
  have htold := hsame (recognizing (byName ((order nested).filterMap (named? answer))))
  rw [parse_answered hgathers hreplies hall, parse_answered hgathers hreplies' hall'] at htold
  simp [recognizing, Except.map, Ne.symm hne] at htold

/-- Where all orders come to the same, whatever the decompiler, the answers agree. -/
theorem agreed_of_parse_eq (h : Gathers p fuel c w bytes nested w')
    (hreplies : ∀ cs, cs.Perm nested → Replies p.chain answer cs w')
    (hsame : ∀ decompile order order', Shuffles order → Shuffles order' →
      (({ p with decompile } : SourceParser).parse order fuel c w).1 =
        (({ p with decompile } : SourceParser).parse order' fuel c w).1) :
    Agreed answer nested := by
  constructor
  · intro d hd d' hd' e e' hfault hfault'
    obtain ⟨order, horder, rest, hfirst⟩ := exists_order_first hd
    obtain ⟨order', horder', rest', hfirst'⟩ := exists_order_first hd'
    have hnone : ∀ x ∈ ([] : List ClassRef), ∃ file, answer x = .ok file := fun _ hx => (by cases hx)
    have hfailed := parse_failed h (hreplies _ (horder nested)) hfirst hnone hfault
    have hfailed' := parse_failed h (hreplies _ (horder' nested)) hfirst' hnone hfault'
    exact Except.error.inj (hfailed.symm.trans
      ((hsame p.decompile order order' horder horder').trans hfailed'))
  · intro hall d hd d' hd' hname bytes₁ bytes₂ hbytes₁ hbytes₂
    obtain ⟨order, horder, rest, hfirst⟩ := exists_order_first hd
    obtain ⟨order', horder', rest', hfirst'⟩ := exists_order_first hd'
    have hall₁ : ∀ x ∈ order nested, ∃ file, answer x = .ok file := fun x hx =>
      hall x ((horder nested).mem_iff.mp hx)
    have hall₂ : ∀ x ∈ order' nested, ∃ file, answer x = .ok file := fun x hx =>
      hall x ((horder' nested).mem_iff.mp hx)
    have hlists := byName_eq_of_parse_eq h (hreplies _ (horder nested)) (hreplies _ (horder' nested))
      hall₁ hall₂ fun decompile => hsame decompile order order' horder horder'
    have hfilter := congrArg (List.filter (·.1 = d.internalName)) hlists
    have hentry : named? answer d = some (d.internalName, bytes₁) := by rw [named?, hbytes₁]
    have hentry' : named? answer d' = some (d.internalName, bytes₂) := by
      rw [named?, hbytes₂, hname]
    rw [filter_byName, filter_byName, hfirst, hfirst', List.filterMap_cons_some hentry,
      List.filterMap_cons_some hentry', List.filter_cons_of_pos (by simp),
      List.filter_cons_of_pos (by simp)] at hfilter
    exact congrArg Prod.snd (List.cons.inj hfilter).1

/-- Without the bytes of the class, or without the classes nested in it, the order does not count.
With them, each run comes to what the answers tell that it was given. Two runs that were given the
same answers come to the same where these agree; and where the chain answers alike in whatever
order it is asked, the answers must agree for all orders to come to the same, whatever the
decompiler. -/
theorem same_outcome_in_any_order (p : SourceParser) (fuel : Nat) (c : ClassRef) (w : World) :
    ((∀ bytes nested w', ¬ Gathers p fuel c w bytes nested w') → ∀ order order', Shuffles order →
      Shuffles order' → p.parse order fuel c w = p.parse order' fuel c w) ∧
    ∀ bytes nested w', Gathers p fuel c w bytes nested w' →
      (∀ order, Shuffles order → ∃ answer, Replies p.chain answer (order nested) w' ∧
        Concludes (p.decompile bytes) answer (order nested) (p.parse order fuel c w).1) ∧
      (∀ answer order order', Shuffles order → Shuffles order' →
        Replies p.chain answer (order nested) w' → Replies p.chain answer (order' nested) w' →
        Agreed answer nested → (p.parse order fuel c w).1 = (p.parse order' fuel c w).1) ∧
      ∀ answer, (∀ cs, cs.Perm nested → Replies p.chain answer cs w') →
        (∀ decompile order order', Shuffles order → Shuffles order' →
          (({ p with decompile } : SourceParser).parse order fuel c w).1 =
            (({ p with decompile } : SourceParser).parse order' fuel c w).1) →
        Agreed answer nested := by
  refine ⟨fun h order order' horder horder' => parse_of_not_gathers h horder horder',
    fun bytes nested w' h => ⟨fun order horder => ?_, ?_, ?_⟩⟩
  · have honce : nested.Nodup := by
      obtain ⟨w₁, -, hfind⟩ := h
      exact Discovery.find_once hfind
    obtain ⟨answer, hreplies⟩ :=
      exists_replies p.chain ((horder nested).nodup_iff.mpr honce) w'
    exact ⟨answer, hreplies, concludes_parse h hreplies⟩
  · intro answer order order' horder horder' hreplies hreplies' hagreed
    exact parse_eq_of_agreed h horder horder' hreplies hreplies' hagreed
  · intro answer hreplies hsame
    exact agreed_of_parse_eq h hreplies hsame

section Listing

open Discovery (withGap withProbe)
open Loader (overDirectory outerClass)

/-- Names the classes nested in a class, and says how long their class files are. -/
def listing (_ : Bytes) (inner : List (String × Bytes)) : Except Error String :=
  .ok (" ".intercalate (inner.map fun entry => entry.1 ++ ":" ++ toString entry.2.length))

theorem shuffles_id : Shuffles id := fun cs => .refl cs

theorem shuffles_reverse : Shuffles List.reverse := fun cs => cs.reverse_perm

def overGap : SourceParser :=
  ⟨(withProbe ⟨3, .exhaust⟩).chain, withProbe ⟨3, .exhaust⟩, listing⟩

def anonymous : List ClassRef := ["A$1", "A$3"].map overDirectory.archiveClass

/-- The state in which the classes nested in the outer one have been found. -/
def withGapSearched : World :=
  (Discovery.find overGap.discovery 4 (some outerClass)
    (overGap.chain.get (some outerClass) withGap).2).2

theorem gathers_withGap :
    Gathers overGap 4 outerClass withGap (Loader.namedClass [0x41]) anonymous withGapSearched :=
  gathers_of_fst (by decide +kernel) (by decide +kernel)

theorem replies_withGap {cs : List ClassRef} (hcs : cs.Perm anonymous) :
    Replies overGap.chain (fun d => (overGap.chain.get (some d) withGap).1) cs withGapSearched := by
  have hl : overDirectory.IsArchives := trivial
  have hids : overDirectory.Apart := List.nodup_singleton _
  have hchain : ∀ d : ClassRef, d.DefinedIn overDirectory →
      Reproducible overDirectory.allRoots (overGap.chain.get (some d)) := fun d hd =>
    Discovery.search_reproducible (List.forall_mem_singleton.mpr
      (Discovery.classpath_reproducible hl hids Collector.classpathDefault overDirectory hd))
  have houter : outerClass.DefinedIn overDirectory :=
    ⟨overDirectory, List.mem_cons_self, rfl, by decide⟩
  exact replies_of_archives hl hids hchain hchain houter gathers_withGap hcs

theorem agreed_withGap :
    Agreed (fun d => (overGap.chain.get (some d) withGap).1) anonymous := by
  have hanswers : ∀ d ∈ anonymous,
      ∃ b ∈ [Loader.namedClass [0x41, 0x24, 0x31], Loader.namedClass [0x41, 0x24, 0x33]],
        (overGap.chain.get (some d) withGap).1 = .ok (some b) := by
    decide +kernel
  have hnames : ∀ d ∈ anonymous, ∀ d' ∈ anonymous, d.internalName = d'.internalName → d = d' := by
    decide +kernel
  constructor
  · intro d hd d' _ e e' hfault
    obtain ⟨b, -, hb⟩ := hanswers d hd
    cases hb.symm.trans hfault
  · intro _ d hd d' hd' hname b b' hb hb'
    obtain rfl := hnames d hd d' hd' hname
    exact Option.some.inj (Except.ok.inj (hb.symm.trans hb'))

/-- Two classes in a directory may be read in either order. -/
theorem same_outcome_in_any_order_withGap :
    Gathers overGap 4 outerClass withGap (Loader.namedClass [0x41]) anonymous withGapSearched ∧
      (∀ cs, cs.Perm anonymous → Replies overGap.chain
        (fun d => (overGap.chain.get (some d) withGap).1) cs withGapSearched) ∧
      Agreed (fun d => (overGap.chain.get (some d) withGap).1) anonymous ∧
      Shuffles id ∧ Shuffles List.reverse ∧
      (overGap.parse id 4 outerClass withGap).1 =
        (overGap.parse List.reverse 4 outerClass withGap).1 := by
  obtain ⟨-, hgathered⟩ := same_outcome_in_any_order overGap 4 outerClass withGap
  obtain ⟨-, hequal, -⟩ := hgathered _ _ _ gathers_withGap
  exact ⟨gathers_withGap, fun _ => replies_withGap, agreed_withGap, shuffles_id, shuffles_reverse,
    hequal _ id List.reverse shuffles_id shuffles_reverse (replies_withGap (shuffles_id _))
      (replies_withGap (shuffles_reverse _)) agreed_withGap⟩

/-! ### Where the order shows -/

def enclosing : ClassRef := ⟨"A", .topLevel, none, .given 0⟩

/-- A class with these members, and loaders with these resources. -/
def enclosingWith (members : List ClassRef) (resources : List (List (String × GivenResource))) :
    World where
  files := ⟨#[], []⟩
  members := #[.ok members]
  loaders := (resources.map fun entries => { resources := ⟨entries⟩ }).toArray

/-- The members are searched for by this chain, and nothing else is. -/
def overMembers (collector : Collector World) : SourceParser :=
  ⟨⟨[collector]⟩, ⟨⟨[]⟩, ⟨0, .firstMiss⟩, none⟩, listing⟩

def fromResources : SourceParser :=
  overMembers (Collector.classpath Collector.classpathDefault (.given 0 0))

def twinMembers : List ClassRef :=
  [⟨"A$M", .member, some (.given 1 1), .named⟩, ⟨"A$M", .member, some (.given 2 2), .named⟩]

/-- Two loaders have a class of one name. -/
def twins : World :=
  enclosingWith twinMembers
    [[("A.class", .bytes [0])], [("A$M.class", .bytes [1])], [("A$M.class", .bytes [1, 2])]]

/-- The files of two classes cannot be opened. -/
def closed : World :=
  let fault : IoError := ⟨.permissionDenied, "closed"⟩
  enclosingWith [⟨"A$L", .member, none, .named⟩, ⟨"A$M", .member, none, .named⟩]
    [[("A.class", .bytes [0]), ("A$L.class", .unopenable fault), ("A$M.class", .unopenable fault)]]

/-- Has bytes for the two classes that it is asked about first. -/
def rationing : Collector World where
  name := "rationing"
  priority := 0
  enabled := true
  collect _ := fun w =>
    if w.questions.size < 2 then (.ok (some [1]), { w with questions := w.questions.push 0 })
    else (.ok none, w)

def pair : World :=
  enclosingWith [⟨"A$L", .member, none, .named⟩, ⟨"A$M", .member, none, .named⟩] []

/-- The state in which the members have been found. -/
def twinsSearched : World :=
  (Discovery.find fromResources.discovery 3 (some enclosing)
    (fromResources.chain.get (some enclosing) twins).2).2

theorem parse_twins {cs : List ClassRef} (hcs : order twinMembers = cs)
    (hinner : (fromResources.innerBytes cs twinsSearched).1 = .ok inner)
    (hascending : inner.Pairwise fun a b => a.1 ≤ b.1) :
    (fromResources.parse order 3 enclosing twins).1 = (listing [0] inner).map some := by
  have hgathers : Gathers fromResources 3 enclosing twins [0] twinMembers twinsSearched :=
    gathers_of_fst (by decide +kernel) (by decide +kernel)
  rw [parse_of_inner hgathers (Prod.ext (hcs ▸ hinner) rfl), byName_of_ascending hascending]
  rfl

/-- The order shows where a name stands for two classes, where two lookups fail, and where a lookup
takes something away from those behind it. -/
theorem order_can_show : Shuffles id ∧ Shuffles List.reverse ∧
    (fromResources.parse id 3 enclosing twins).1 = .ok (some "A$M:1 A$M:2") ∧
    (fromResources.parse List.reverse 3 enclosing twins).1 = .ok (some "A$M:2 A$M:1") ∧
    (fromResources.parse id 3 enclosing closed).1 =
      .error (.resourceRead "A$L.class" ⟨.permissionDenied, "closed"⟩) ∧
    (fromResources.parse List.reverse 3 enclosing closed).1 =
      .error (.resourceRead "A$M.class" ⟨.permissionDenied, "closed"⟩) ∧
    ((overMembers rationing).parse id 3 enclosing pair).1 = .ok (some "A$L:1") ∧
    ((overMembers rationing).parse List.reverse 3 enclosing pair).1 = .ok (some "A$M:1") := by
  have hinner : (fromResources.innerBytes twinMembers twinsSearched).1 =
      .ok [("A$M", [1]), ("A$M", [1, 2])] := by decide +kernel
  have hreversed : (fromResources.innerBytes twinMembers.reverse twinsSearched).1 =
      .ok [("A$M", [1, 2]), ("A$M", [1])] := by decide +kernel
  refine ⟨shuffles_id, shuffles_reverse, ?_, ?_, by decide +kernel, by decide +kernel,
    by decide +kernel, by decide +kernel⟩
  · exact (parse_twins rfl hinner (by simp)).trans (by rfl)
  · exact (parse_twins rfl hreversed (by simp)).trans (by rfl)

end Listing

end SourceParser

end ClassRecovery
