import ClassRecovery.Collector.Classpath
import ClassRecovery.Proofs.Jvm.Throwing

/-!
Reading the streams of a machine. What a stream gives comes in pieces of whatever size, and a read
that throws on the way fails; so what is read is all of it, or a failure.
-/

namespace ClassRecovery.Jvm

open Machine

variable {d : Description} {ss : Array OpenStream} {n : Nat} {rs : List Throwable} {m : Machine}

/-- A stream that gives something as long as there is something. -/
structure StreamSpec.Steady (spec : StreamSpec) : Prop where
  chunk : spec.chunk ≠ some 0
  full : spec.emptyAt = none

/-- The stream after it gave some bytes. -/
def OpenStream.advance (bytes : Bytes) (s : OpenStream) : OpenStream :=
  { s with position := s.position + bytes.length, rest := s.rest.drop bytes.length }

namespace Machine

variable {t : OpenStream} {k buffer size : Nat} {path : String}

theorem reading_steady (ht : t.spec.Steady) (hsize : 0 < size) :
    (∃ e, reading t size = .throws e) ∨ (reading t size = .ended ∧ t.rest = []) ∨
      ∃ c, 0 < c ∧ c ≤ size ∧ t.rest ≠ [] ∧ reading t size = .gives (t.rest.take c) := by
  simp only [reading, ht.full, Option.any_none, Bool.false_and, Bool.false_eq_true, ↓reduceIte]
  split
  · exact .inl ⟨_, rfl⟩
  split
  · exact .inr (.inl ⟨rfl, ‹_›⟩)
  · refine .inr (.inr ⟨min size (t.spec.chunk.getD size), ?_, Nat.min_le_left _ _, ‹_›, rfl⟩)
    have hchunk : 0 < t.spec.chunk.getD size := by
      cases hc : t.spec.chunk with
      | none => exact hsize
      | some c => exact Nat.pos_of_ne_zero fun hzero => ht.chunk (hzero ▸ hc)
    exact Nat.lt_min.2 ⟨hsize, hchunk⟩

theorem portion_le (stream : Object) (size : Nat) (m : Machine) : m.portion stream size ≤ size := by
  unfold portion
  split
  · exact Nat.min_le_right _ _
  · exact le_rfl

theorem portion_pos (hm : m.Fair) (stream : Object) (hsize : 0 < size) :
    0 < m.portion stream size := by
  unfold portion
  split
  · next most hturn =>
    refine Nat.lt_min.2 ⟨Nat.pos_of_ne_zero ?_, hsize⟩
    rintro rfl
    exact hm m.log.length stream.subject hturn
  · exact hsize

/-- What a read came to that threw nothing: the end, or some bytes in the array. -/
def Received (d : Description) (ss : Array OpenStream) (rs : List Throwable) (k : Nat)
    (t : OpenStream) (buffer size : Nat) (read : Int) (m : Machine) : Prop :=
  (read = -1 ∧ t.rest = [] ∧ m.Calm d ss 0 rs) ∨
    ∃ c, 0 < c ∧ c ≤ size ∧ t.rest ≠ [] ∧ read = (t.rest.take c).length ∧
      m.arrays[buffer]? = some (t.rest.take c) ∧
      m.Calm d (ss.modify k (·.advance (t.rest.take c))) 0 rs

theorem Stands.fewer (h : m.Stands d ss n) : m.Stands d ss 0 :=
  ⟨h.description, h.streams, Nat.zero_le _, h.fair⟩

theorem readStream_received (hk : ss[k]? = some t) (ht : t.spec.Steady) (hsize : 0 < size) :
    Ensures (Calm d ss (buffer + 1) rs) (readStream (.stream k path) (.bytes buffer size))
      fun read m => (m.Stands d ss 0 ∧ m.pending.isSome) ∨
        m.Received d ss rs k t buffer size read := by
  refine .bind (R := fun _ => Calm d ss (buffer + 1) rs)
    (.modify fun _ h => ⟨h.1.of_same rfl rfl rfl rfl, h.2⟩) fun _ m h => ?_
  rw [state_bind_apply]
  rcases faults_cases "read" (Object.stream k path).subject m with ⟨e, -, hfaults⟩ | hfaults <;>
    rw [hfaults]
  · exact .inl ((raise_stands e m h.1).imp_left Stands.fewer)
  have hstream : m.streams[k]? = some t := h.1.streams ▸ hk
  have hpos := portion_pos h.1.fair (.stream k path) hsize
  have hle := portion_le (.stream k path) size m
  simp only [Bool.false_eq_true, ↓reduceIte]
  rw [state_get_bind]
  simp only [hstream, Option.map_some]
  rcases reading_steady ht hpos with
    ⟨e, hreading⟩ | ⟨hreading, hrest⟩ | ⟨c, hc, hcle, hrest, hreading⟩ <;> simp only [hreading]
  · exact .inl ((raise_stands e m h.1).imp_left Stands.fewer)
  · exact .inr (.inl ⟨rfl, hrest, h.1.fewer, h.2⟩)
  · refine .inr (.inr ⟨c, hc, hcle.trans hle, hrest, rfl, ?_, ⟨h.1.description, ?_, Nat.zero_le _,
      h.1.fair⟩, h.2⟩)
    · change (m.arrays.setIfInBounds buffer (t.rest.take c))[buffer]? = _
      rw [Array.getElem?_setIfInBounds, if_pos rfl, if_pos (Nat.lt_of_succ_le h.1.arrays)]
    · exact congrArg (·.modify k (OpenStream.advance (t.rest.take c))) h.1.streams

theorem region_received {read : Int} (hreceived : m.Received d ss rs k t buffer size read) :
    (read < 0 ∧ t.rest = [] ∧ m.Calm d ss 0 rs) ∨
      ¬ read < 0 ∧ ∃ c, 0 < c ∧ c ≤ size ∧ t.rest ≠ [] ∧
        (region (.bytes buffer size) 0 read.toNat m).1 = t.rest.take c ∧
        (region (.bytes buffer size) 0 read.toNat m).2.Calm d
          (ss.modify k (·.advance (t.rest.take c))) 0 rs := by
  rcases hreceived with ⟨rfl, hrest, hcalm⟩ | ⟨c, hc, hcle, hrest, rfl, harray, hcalm⟩
  · exact .inl ⟨by decide, hrest, hcalm⟩
  · refine .inr ⟨by omega, c, hc, hcle, hrest, ?_, hcalm.1.of_same rfl rfl rfl rfl, hcalm.2⟩
    change ((((m.arrays[buffer]?).getD []).drop 0).take (Int.toNat _)) = _
    rw [harray]
    simp [Nat.le_total]

end Machine

namespace InputStream

variable {t : OpenStream} {k size : Nat} {path : String} {s : InputStream}

theorem receive_received {buffer : Nat} (hk : ss[k]? = some t) (ht : t.spec.Steady)
    (hsize : 0 < size) :
    Attains (Alert d ss (buffer + 1) rs) (do
        Checked.requireMethod Checked.streamClass "read" "([BII)I"
        let n ← readStream (.stream k path) (.bytes buffer size)
        Checked.check "InputStream.read"
        return n)
      (fun read => Received d ss rs k t buffer size read) (Stands d ss 0) := by
  have hmethod : Attains (Alert d ss (buffer + 1) rs)
      (Checked.requireMethod Checked.streamClass "read" "([BII)I")
      (fun _ => Calm d ss (buffer + 1) rs) (Stands d ss 0) := by
    refine Attains.imp (Checked.requireMethod_calm _ _ _) (fun _ _ h => h) fun m hm => ?_
    exact Stands.fewer hm
  refine .bind hmethod fun _ => .lift_bind (readStream_received hk ht hsize) fun n =>
    .bind (Checked.check_known _ ?_) fun _ => .ok fun _ h => h
  rintro m (⟨-, -, hcalm⟩ | ⟨c, -, -, -, -, -, hcalm⟩) <;> exact hcalm.2.2

/-- What one read into a buffer came to: the end, or bytes that the stream had left. -/
def Gave (d : Description) (ss : Array OpenStream) (rs : List Throwable) (k : Nat) (t : OpenStream)
    (size : Nat) (s : InputStream) (x : Bytes × InputStream) (m : Machine) : Prop :=
  (x = ([], { s with ended := true }) ∧ t.rest = [] ∧ m.Calm d ss 0 rs) ∨
    ∃ c, 0 < c ∧ c ≤ min size readLimit ∧ t.rest ≠ [] ∧ x = (t.rest.take c, s) ∧
      m.Calm d (ss.modify k (·.advance (t.rest.take c))) 0 rs

/-- A read that asks gives what the stream has left, up to the size of the buffer. -/
theorem read_gave (hobject : s.reference.object = .stream k path) (hsize : 0 < size)
    (hended : s.ended = false) (hk : ss[k]? = some t) (ht : t.spec.Steady) :
    Attains (Alert d ss 0 rs) (s.read size) (Gave d ss rs k t size s) (Stands d ss 0) := by
  have hcount : 0 < min size readLimit := Nat.lt_min.2 ⟨hsize, by decide⟩
  unfold read
  rw [if_neg (by simp [hended, hsize.ne'])]
  refine .bind (.mapFailure Checked.environment_alert) fun _ => ?_
  unfold withArray
  refine .lift_bind (newByteArray_alert _) fun array => ?_
  cases array with
  | none => exact .bind (.mapFailure (Checked.check_calm _)) fun _ => .throw fun _ h => h.1
  | some array =>
    refine .andAlways (R := Gave d ss rs k t size s) (F := Stands d ss 0) ?_ (fun x => ?_)
      (of_alert fun _ => deleteLocal_alert (some array))
    · rintro m ⟨buffer, harray, hm⟩
      rw [harray, hobject]
      refine Attains.bind (.mapFailure (receive_received hk ht hcount)) (fun read => ?_) m hm
      intro m hm
      rcases region_received hm with ⟨hread, hrest, hcalm⟩ | ⟨hread, c, hc, hcle, hrest, hregion⟩
      · rw [if_pos hread]
        exact .inl ⟨rfl, hrest, hcalm⟩
      · rw [if_neg hread, lift_bind_apply, hregion.1]
        exact .inr ⟨c, hc, hcle, hrest, rfl, hregion.2⟩
    · rintro m (⟨rfl, hrest, hcalm⟩ | ⟨c, hc, hcle, hrest, rfl, hcalm⟩)
      · exact .inl ⟨rfl, hrest, deleteLocal_calm _ m hcalm⟩
      · exact .inr ⟨c, hc, hcle, hrest, rfl, deleteLocal_calm _ m hcalm⟩

/-- A stream of the machine with something left, and what reads it. -/
structure At (k : Nat) (path : String) (t : OpenStream) (s : InputStream) (m : Machine) :
    Prop where
  object : s.reference.object = .stream k path
  stream : m.streams[k]? = some t
  steady : t.spec.Steady
  fair : m.Fair
  ended : s.ended = true → t.rest = []

/-- What a read gave: the next bytes, without an exception, and none only at the end. -/
structure Next (k : Nat) (path : String) (t : OpenStream) (size : Nat) (rs : List Throwable)
    (x : Bytes × InputStream) (m : Machine) : Prop where
  moves : ∃ t', At k path t' x.2 m ∧ t.rest = x.1 ++ t'.rest
  bound : x.1.length ≤ min size readLimit
  unthrown : m.raised = rs
  empty : x.1 = [] → x.2.ended = true

theorem advance_rest (t : OpenStream) (c : Nat) :
    t.rest.take c ++ (t.advance (t.rest.take c)).rest = t.rest := by
  rw [OpenStream.advance, List.length_take]
  rcases Nat.le_total c t.rest.length with h | h
  · rw [Nat.min_eq_left h, List.take_append_drop]
  · rw [Nat.min_eq_right h, List.take_of_length_le h, List.drop_length, List.append_nil]

theorem read_ended (size : Nat) (m : Machine) (hended : s.ended = true) :
    s.read size m = (.ok ([], s), m) := by
  unfold read
  rw [if_pos (by simp [hended])]
  rfl

theorem read_next (hsize : 0 < size) :
    Attains (fun m => At k path t s m ∧ m.raised = rs) (s.read size) (Next k path t size rs)
      (At k path t s) := by
  rintro m ⟨h, hraised⟩
  by_cases hended : s.ended = true
  · rw [read_ended size m hended]
    exact ⟨⟨t, h, rfl⟩, Nat.zero_le _, hraised, fun _ => hended⟩
  have hgave := read_gave h.object hsize (by simpa using hended) h.stream h.steady m
    ⟨⟨rfl, rfl, Nat.zero_le _, h.fair⟩, .inl hraised⟩
  rcases hrun : s.read size m with ⟨e | x, m'⟩ <;> rw [hrun] at hgave
  · exact { h with stream := by rw [hgave.streams]; exact h.stream, fair := hgave.fair }
  rcases hgave with ⟨rfl, hrest, hcalm⟩ | ⟨c, hc, hcle, hrest, rfl, hcalm⟩
  · have hstream : m'.streams[k]? = some t := by rw [hcalm.1.streams]; exact h.stream
    exact ⟨⟨t, ⟨h.object, hstream, h.steady, hcalm.1.fair, fun _ => hrest⟩, rfl⟩, Nat.zero_le _,
      hcalm.2.1, fun _ => rfl⟩
  · refine ⟨⟨t.advance (t.rest.take c), ⟨h.object, ?_, h.steady, hcalm.1.fair,
      fun hs => absurd hs hended⟩, (advance_rest t c).symm⟩, (List.length_take_le _ _).trans hcle, hcalm.2.1, fun hempty => ?_⟩
    · rw [hcalm.1.streams, Array.getElem?_modify, if_pos rfl, h.stream]
      rfl
    · exact absurd hempty (by simp [hrest, hc.ne'])

namespace At

variable {m' : Machine} {s' : InputStream} {bytes : Bytes} {e : IoError}

theorem besides (hat : At k path t s m) (hstream : m'.streams[k]? = m.streams[k]?)
    (hfair : m'.Fair) : At k path t s m' :=
  { hat with stream := hstream.trans hat.stream, fair := hfair }

theorem read_ok (hat : At k path t s m) (hsize : 0 < size)
    (hread : s.read size m = (.ok (bytes, s'), m')) :
    Next k path t size m.raised (bytes, s') m' := by
  have hnext := read_next hsize m ⟨hat, rfl⟩
  rw [hread] at hnext
  exact hnext

theorem read_error (hat : At k path t s m) (hsize : 0 < size)
    (hread : s.read size m = (.error e, m')) : At k path t s m' := by
  have hnext := read_next hsize m ⟨hat, rfl⟩
  rw [hread] at hnext
  exact hnext

end At

/-! ### Any reads -/

/-- A read with a buffer of some size: what it was made in, what it left, and what came. -/
structure Request where
  size : Nat
  before : Machine
  after : Machine
  result : Except IoError Bytes

/-- Reads of a stream with buffers that are not empty. Whatever else happens between them leaves the
stream where it is. -/
inductive Reads (k : Nat) :
    InputStream → Machine → List Request → InputStream → Machine → Prop
  | done (s : InputStream) (m : Machine) : Reads k s m [] s m
  | besides {s s' m₁ m₂ m' requests} (hstream : m₂.streams[k]? = m₁.streams[k]?) (hfair : m₂.Fair)
      (hrest : Reads k s m₂ requests s' m') : Reads k s m₁ requests s' m'
  | gives {s₁ s₂ s' m₁ m₂ m' requests size bytes} (hsize : 0 < size)
      (hread : s₁.read size m₁ = (.ok (bytes, s₂), m₂)) (hrest : Reads k s₂ m₂ requests s' m') :
      Reads k s₁ m₁ (⟨size, m₁, m₂, .ok bytes⟩ :: requests) s' m'
  | fails {s s' m₁ m₂ m' requests size e} (hsize : 0 < size)
      (hread : s.read size m₁ = (.error e, m₂)) (hrest : Reads k s m₂ requests s' m') :
      Reads k s m₁ (⟨size, m₁, m₂, .error e⟩ :: requests) s' m'

/-- What the reads that succeeded gave. -/
def delivered (requests : List Request) : Bytes :=
  requests.flatMap fun r => r.result.toOption.getD []

namespace Reads

variable {s' : InputStream} {m' : Machine} {requests : List Request}

theorem delivers (h : Reads k s m requests s' m') (hat : At k path t s m) :
    ∃ t', At k path t' s' m' ∧ t.rest = delivered requests ++ t'.rest := by
  induction h generalizing t with
  | done s m => exact ⟨t, hat, rfl⟩
  | besides hstream hfair _ ih => exact ih (hat.besides hstream hfair)
  | gives hsize hread _ ih =>
    have hnext := hat.read_ok hsize hread
    obtain ⟨t₁, hat₁, hrest₁⟩ := hnext.moves
    obtain ⟨t', hat', hrest'⟩ := ih hat₁
    exact ⟨t', hat', by rw [hrest₁, hrest', ← List.append_assoc]; rfl⟩
  | fails hsize hread _ ih => exact ih (hat.read_error hsize hread)

/-- Once the end was seen, nothing is asked any more. -/
theorem idle (h : Reads k s m requests s' m') (hended : s.ended = true) :
    ∀ r ∈ requests, r.result = .ok [] ∧ r.after = r.before := by
  induction h with
  | done => exact List.forall_mem_nil _
  | besides _ _ _ ih => exact ih hended
  | gives _ hread _ ih =>
    rw [read_ended _ _ hended] at hread
    cases hread
    exact List.forall_mem_cons.2 ⟨⟨rfl, rfl⟩, ih hended⟩
  | fails _ hread _ _ =>
    rw [read_ended _ _ hended] at hread
    cases hread

theorem bounded (h : Reads k s m requests s' m') (hat : At k path t s m) :
    ∀ r ∈ requests, ∀ bytes, r.result = .ok bytes →
      bytes.length ≤ min r.size readLimit ∧ r.after.raised = r.before.raised := by
  induction h generalizing t with
  | done => exact List.forall_mem_nil _
  | besides hstream hfair _ ih => exact ih (hat.besides hstream hfair)
  | gives hsize hread _ ih =>
    have hnext := hat.read_ok hsize hread
    obtain ⟨t₁, hat₁, -⟩ := hnext.moves
    refine List.forall_mem_cons.2 ⟨?_, ih hat₁⟩
    rintro _ ⟨⟩
    exact ⟨hnext.bound, hnext.unthrown⟩
  | fails hsize hread _ ih =>
    exact List.forall_mem_cons.2 ⟨nofun, ih (hat.read_error hsize hread)⟩

/-- Nothing comes only at the end. -/
theorem ends (h : Reads k s m requests s' m') (hat : At k path t s m) {given later : List Request}
    {r : Request} (hrequests : requests = given ++ r :: later) (hr : r.result = .ok []) :
    t.rest = delivered given ∧ ∀ r ∈ later, r.result = .ok [] ∧ r.after = r.before := by
  induction h generalizing t given with
  | done => exact absurd hrequests (by simp)
  | besides hstream hfair _ ih =>
    exact ih (hat.besides hstream hfair) hrequests
  | gives hsize hread hrest ih =>
    have hnext := hat.read_ok hsize hread
    obtain ⟨t₁, hat₁, hrest₁⟩ := hnext.moves
    cases given with
    | nil =>
      obtain ⟨rfl, rfl⟩ := List.cons.inj hrequests
      cases hr
      have hended := hnext.empty rfl
      exact ⟨hrest₁.trans (hat₁.ended hended), hrest.idle hended⟩
    | cons first given =>
      obtain ⟨rfl, htail⟩ := List.cons.inj hrequests
      obtain ⟨hgiven, hlater⟩ := ih hat₁ htail
      exact ⟨hrest₁.trans (congrArg _ hgiven), hlater⟩
  | fails hsize hread _ ih =>
    cases given with
    | nil =>
      obtain ⟨rfl, -⟩ := List.cons.inj hrequests
      cases hr
    | cons first given =>
      obtain ⟨rfl, htail⟩ := List.cons.inj hrequests
      obtain ⟨hgiven, hlater⟩ := ih (hat.read_error hsize hread) htail
      exact ⟨hgiven, hlater⟩

end Reads

/-! ### Opening -/

/-- What a loader gave for a resource: a stream of it, or nothing if there is none. -/
def Found (d : Description) (ss : Array OpenStream) (rs : List Throwable) (loader : Option String)
    (path : String) : Option Reference → Machine → Prop
  | some r => fun m => ∃ spec, d.resource loader path = some spec ∧
      r.object = .stream ss.size path ∧ m.Alert d (ss.push { spec }) 0 rs
  | none => fun m => (m.pending.isSome ∨ d.resource loader path = none) ∧ m.Alert d ss 0 rs

theorem findStream_found (loader : Option String) (path : String) :
    Ensures (Alert d ss 0 rs) (findStream loader path) (Found d ss rs loader path) := by
  refine .get_bind fun m hm => ?_
  rw [hm.1.description]
  cases hresource : d.resource loader path with
  | none => exact .pure fun _ h => ⟨.inr hresource, h.2⟩
  | some spec =>
    rintro _ ⟨rfl, -⟩
    refine ⟨spec, hresource, ?_, ⟨hm.1.description, ?_, Nat.zero_le _, hm.1.fair⟩, hm.2⟩
    · exact congrArg (Object.stream ·.size path) hm.1.streams
    · exact congrArg (·.push { spec }) hm.1.streams

theorem resourceStream_found (loader : Option String) (path : String) :
    Ensures (Alert d ss 0 rs) (resourceStream loader path) (Found d ss rs loader path) := by
  cases loader with
  | some name =>
    refine .bind (note_alert _) fun _ => unless_faults_alert (fun _ h hp => ⟨.inl hp, h⟩) ?_
    exact unless_faults_alert (fun _ h hp => ⟨.inl hp, h⟩) (findStream_found _ _)
  | none =>
    exact .bind (note_alert _) fun _ =>
      unless_faults_alert (fun _ h hp => ⟨.inl hp, h⟩) (findStream_found _ _)

theorem deleteLocal_found {loader : Option String} (r found : Option Reference) :
    Ensures (Found d ss rs loader path found) (deleteLocal r) fun _ =>
      Found d ss rs loader path found := by
  refine deleteLocal_ensures (fun m locals h => ?_) r
  cases found with
  | some found =>
    obtain ⟨spec, hspec, hobject, h⟩ := h
    exact ⟨spec, hspec, hobject, h.1.of_same rfl rfl rfl rfl, h.2⟩
  | none => exact ⟨h.1, h.2.1.of_same rfl rfl rfl rfl, h.2.2⟩

theorem resourceObject_found (loader : Option String) (path : String) :
    Attains (Alert d ss 0 rs) (resourceObject loader path)
      (fun r m => Found d ss rs loader path r m ∧ m.pending = none) fun _ => True := by
  have hchecked (r : Option Reference) : Attains (Found d ss rs loader path r) (do
      Checked.check "getResourceAsStream"
      return r : Checked (Option Reference))
      (fun r m => Found d ss rs loader path r m ∧ m.pending = none) fun _ => True :=
    .bind (Checked.check_passed _) fun _ => .ok fun _ h => h
  refine .lift_bind (Checked.newString?_alert path) fun s => ?_
  cases s with
  | none => exact .bind (Checked.check_passed _) fun _ => .throw fun _ _ => trivial
  | some s =>
    refine .andAlways (R := fun r m => Found d ss rs loader path r m ∧ m.pending = none)
      (F := fun _ => True) ?_ (fun r m h => ⟨deleteLocal_found _ r m h.1, h.2⟩) fun _ _ => trivial
    cases loader with
    | some name =>
      refine .bind (R := fun _ => Alert d ss 0 rs) ?_ fun _ =>
        .lift_bind (resourceStream_found (some name) path) hchecked
      exact .imp (Checked.requireMethod_calm _ _ _) (fun _ _ => Calm.alert) fun _ _ => trivial
    | none =>
      refine .bind (R := fun r => Found d ss rs none path r) ?_ hchecked
      refine .lift_bind (Checked.findClass?_alert _) fun cls => ?_
      cases cls with
      | none => exact .bind (Checked.check_passed _) fun _ => .throw fun _ _ => trivial
      | some cls =>
        refine .andAlways (R := fun r => Found d ss rs none path r) (F := fun _ => True) ?_
          (fun r => deleteLocal_found _ r) fun _ _ => trivial
        refine .lift_bind (Checked.methodId_alert _ _ _ _) fun found => ?_
        cases found with
        | true => exact .lift (resourceStream_found none path)
        | false => exact .throw fun _ _ => trivial

/-- What an opening came to: a stream with all of the resource before it, or nothing. -/
def Opened (d : Description) (ss : Array OpenStream) (rs : List Throwable) (loader : Option String)
    (path : String) : Option InputStream → Machine → Prop
  | some s => fun m => ∃ spec, d.resource loader path = some spec ∧
      s.reference.object = .stream ss.size path ∧ s.ended = false ∧
      m.Alert d (ss.push { spec }) 0 rs
  | none => fun _ => d.resource loader path = none

theorem open?_opened (loader : Option String) (path : String) :
    Attains (Alert d ss 0 rs) (open? loader path) (Opened d ss rs loader path) fun _ => True := by
  refine .mapFailure <| .bind (Checked.environment_alert.imp (fun _ _ h => h) fun _ _ => trivial)
    fun _ => .bind (resourceObject_found loader path) fun r => ?_
  refine .andAlways (R := Opened d ss rs loader path) (F := fun _ => True) ?_ ?_ fun _ _ => trivial
  · cases r with
    | none =>
      refine .ok fun m h => h.1.1.resolve_left fun hpending => ?_
      rw [h.2] at hpending
      cases hpending
    | some r =>
      rintro m ⟨⟨spec, hspec, hobject, hm⟩, -⟩
      refine Attains.lift_bind (newGlobal_alert r.object) (fun pinned => ?_) m hm
      cases pinned with
      | some pinned =>
        exact .ok fun m h => ⟨spec, hspec, (h.1 pinned rfl).trans hobject, rfl, h.2⟩
      | none => exact .throw fun _ _ => trivial
  · rintro (_ | s) m h
    · exact h
    · obtain ⟨spec, hspec, hobject, hended, hm⟩ := h
      exact ⟨spec, hspec, hobject, hended, deleteLocal_alert r m hm⟩

/-- A stream that was opened stands at the start of its resource. -/
theorem Opened.at {loader : Option String}
    (hsteady : ∀ spec ∈ d.resource loader path, spec.Steady)
    (h : Opened d ss rs loader path (some s) m) :
    ∃ spec, d.resource loader path = some spec ∧ At ss.size path { spec } s m := by
  obtain ⟨spec, hspec, hobject, hended, hm⟩ := h
  refine ⟨spec, hspec, hobject, ?_, hsteady spec hspec, hm.1.fair, fun h => ?_⟩
  · rw [hm.1.streams]
    exact Array.getElem?_push_size
  · rw [hended] at h
    cases h

/-! ### Reading to the end -/

theorem Growth.makeRoom_most (g : Growth) : g.makeRoom.most = g.most := by
  unfold makeRoom
  split <;> rfl

theorem Growth.makeRoom_size_pos {g : Growth} (hmost : 0 < g.most) : 0 < g.makeRoom.size := by
  unfold makeRoom
  split
  · change 0 < min (max (2 * g.capacity) (g.held + probeSize) - g.held) g.most
    have hroom : 0 < probeSize := by decide
    omega
  · next hroom =>
    have hprobe : 0 < probeSize := by decide
    unfold size
    split <;> omega

theorem Growth.add_most_pos {g : Growth} (n : Nat) (hmost : 0 < g.most) : 0 < (g.add n).most := by
  unfold add
  dsimp only
  split <;> omega

/-- A read gives the next bytes, and none only at the end. -/
theorem read_moves (hsize : 0 < size) :
    Attains (At k path t s) (s.read size)
      (fun x m => ∃ t', At k path t' x.2 m ∧ t.rest = x.1 ++ t'.rest ∧ (x.1 = [] → t'.rest = []))
      fun _ => True := by
  intro m hat
  refine Attains.imp (read_next hsize) (fun x m h => ?_) (fun _ _ => trivial) m
    ⟨hat, rfl⟩
  obtain ⟨t', hat', hrest⟩ := h.moves
  exact ⟨t', hat', hrest, fun hempty => hat'.ended (h.empty hempty)⟩

/-- Reading on gives all that is left. -/
theorem readOn_whole {fuel : Nat} {g : Growth} (parts : List Bytes) (hfuel : t.rest.length < fuel)
    (hmost : 0 < g.most) :
    Attains (At k path t s) (readOn fuel g s parts)
      (fun bytes _ => bytes = parts.reverse.flatten ++ t.rest) fun _ => True := by
  induction fuel generalizing t g s parts with
  | zero => exact absurd hfuel (Nat.not_lt_zero _)
  | succ fuel ih =>
    refine .bind (read_moves (Growth.makeRoom_size_pos hmost)) fun (bytes, s') => ?_
    rintro m ⟨t', hat', hrest, hempty⟩
    dsimp only at hat' hrest hempty ⊢
    split
    · next hbytes =>
      rw [hrest, hbytes, hempty hbytes]
      exact (List.append_nil _).symm
    · next hbytes =>
      have hlength : t'.rest.length < fuel := by
        have := List.length_pos_iff.2 hbytes
        rw [hrest, List.length_append] at hfuel
        omega
      have hread := ih (bytes :: parts) hlength
        (Growth.add_most_pos bytes.length (g.makeRoom_most.symm ▸ hmost)) m hat'
      rw [hrest]
      simpa using hread

theorem readAll_whole (hlength : t.rest.length ≤ t.spec.content.length) :
    Attains (At k path t s) s.readAll (fun bytes _ => bytes = t.rest) fun _ => True := by
  refine .get_bind fun m hat => ?_
  have hbound : s.readBound m = t.spec.content.length + 1 := by
    unfold readBound
    rw [hat.object]
    simp only [hat.stream, Option.map_some, Option.getD_some]
  rw [hbound]
  refine .bind (.of_imp (fun _ h => h.2) (read_moves (by decide))) fun (bytes, s') => ?_
  rintro m ⟨t', hat', hrest, hempty⟩
  dsimp only at hat' hrest hempty ⊢
  split
  · next hbytes => exact (by rw [hrest, hbytes, hempty hbytes]; rfl)
  · next hbytes =>
    have hleft : t'.rest.length < t.spec.content.length + 1 := by
      rw [hrest, List.length_append] at hlength
      omega
    have hread := readOn_whole [bytes] (g := Growth.afterProbe bytes.length) hleft
      (Nat.zero_lt_succ _) m hat'
    rw [hrest]
    simpa using hread

/-- A resource is read as a whole, or the reading fails. -/
theorem readResource_whole {loader : Option String}
    (hsteady : ∀ spec ∈ d.resource loader path, spec.Steady) :
    Attains (Stands d ss 0) (readResource loader path)
      (fun r _ => r = (d.resource loader path).map (·.content)) fun _ => True := by
  intro m h
  refine Attains.bind (open?_opened loader path) (fun s => ?_) m h.alert
  rintro m' hopened
  cases s with
  | none => exact (congrArg (Option.map (·.content)) hopened).symm
  | some s =>
    obtain ⟨spec, hspec, hat⟩ := hopened.at hsteady
    rw [hspec]
    exact Attains.map (.andAlways (R := fun bytes _ => bytes = spec.content) (F := fun _ => True)
      (readAll_whole (t := { spec }) le_rfl) (fun _ _ h => congrArg some h) fun _ _ => trivial) m' hat

/-- What reads of a stream came to that was opened on some content: the bytes in their order, never
fewer because of an exception, and nothing only when all were given. -/
structure Faithful (content : Bytes) (k : Nat) (requests : List Request) (m : Machine) :
    Prop where
  order : ∃ t, m.streams[k]? = some t ∧ content = delivered requests ++ t.rest
  bounded : ∀ r ∈ requests, ∀ bytes, r.result = .ok bytes →
    bytes.length ≤ min r.size readLimit ∧ r.after.raised = r.before.raised
  ends : ∀ given r later, requests = given ++ r :: later → r.result = .ok [] →
    content = delivered given ∧ ∀ a ∈ later, a.result = .ok [] ∧ a.after = a.before

theorem Opened.faithful {loader : Option String} {s' : InputStream} {m' : Machine}
    {requests : List Request} (hsteady : ∀ spec ∈ d.resource loader path, spec.Steady)
    (h : Opened d ss rs loader path (some s) m) (hreads : Reads ss.size s m requests s' m') :
    ∃ spec, d.resource loader path = some spec ∧
      Faithful spec.content ss.size requests m' := by
  obtain ⟨spec, hspec, hat⟩ := h.at hsteady
  refine ⟨spec, hspec, ?_, hreads.bounded hat, fun given r later => hreads.ends hat⟩
  obtain ⟨t', hat', horder⟩ := hreads.delivers hat
  exact ⟨t', hat'.stream, horder⟩

/-- The class file of a class whose loader is an object of the machine is read as a whole, or the
reading fails. -/
theorem readClasspath_whole {boot : Loader} {c : ClassRef} {i id : Nat} {w : World}
    (hloader : c.loader.getD boot = .object i id) (hfair : w.link.machine.Fair)
    (hsteady : ∀ spec ∈ w.link.machine.description.resource (Link.loaderName i id w.link)
      (ClassName.resourcePath c.name), spec.Steady) :
    (Collector.readClasspath boot c w).1 = .ok ((w.link.machine.description.resource
        (Link.loaderName i id w.link) (ClassName.resourcePath c.name)).map (·.content)) ∨
      ∃ e, (Collector.readClasspath boot c w).1 =
        .error (.resourceRead (ClassName.resourcePath c.name) e) := by
  have hread := readResource_whole hsteady w.link.machine ⟨rfl, rfl, Nat.zero_le _, hfair⟩
  have hresource : ((Loader.object i id).readResource (ClassName.resourcePath c.name) w).1 =
      (readResource (Link.loaderName i id w.link) (ClassName.resourcePath c.name)
        w.link.machine).1 := rfl
  unfold Collector.readClasspath mapFailure
  rw [hloader]
  rcases hrun : (Loader.object i id).readResource (ClassName.resourcePath c.name) w with
    ⟨e | bytes, w'⟩ <;> rw [hrun] at hresource
  · exact .inr ⟨e, rfl⟩
  · rw [← hresource] at hread
    exact .inl (congrArg Except.ok hread)

/-- A stream loses nothing and adds nothing, in whatever pieces it comes and is asked for, so a class
file is collected as a whole or not at all. -/
theorem streams_read_whole :
    (∀ {loader path m m₁ m' s s' requests}, m.Fair →
      (∀ spec ∈ m.description.resource loader path, spec.Steady) →
      open? loader path m = (.ok (some s), m₁) → Reads m.streams.size s m₁ requests s' m' →
      ∃ spec, m.description.resource loader path = some spec ∧
        Faithful spec.content m.streams.size requests m') ∧
    ∀ {boot c i id} {w : World}, c.loader.getD boot = .object i id → w.link.machine.Fair →
      (∀ spec ∈ w.link.machine.description.resource (Link.loaderName i id w.link)
        (ClassName.resourcePath c.name), spec.Steady) →
      (Collector.readClasspath boot c w).1 = .ok ((w.link.machine.description.resource
          (Link.loaderName i id w.link) (ClassName.resourcePath c.name)).map (·.content)) ∨
        ∃ e, (Collector.readClasspath boot c w).1 =
          .error (.resourceRead (ClassName.resourcePath c.name) e) := by
  refine ⟨fun {loader path m m₁ m' s s' requests} hfair hsteady hopen hreads => ?_,
    readClasspath_whole⟩
  have hopened := open?_opened loader path m (Stands.alert ⟨rfl, rfl, Nat.zero_le _, hfair⟩)
  rw [hopen] at hopened
  exact hopened.faithful hsteady hreads

/-- A machine that gives a class file in pieces of two bytes. -/
def inPieces : Machine where
  description := { bootResources := [("K.class", { content := [1, 2, 3], chunk := some 2 })] }

def atStart : Machine := (open? none "K.class" inPieces).2

def fromStart : InputStream := { reference := ⟨1, .stream 0 "K.class"⟩ }

def inside : Machine := (fromStart.read 5 atStart).2

def atEnd : Machine := (fromStart.read 5 inside).2

/-- The class of the file, which has no loader of its own. -/
def ofBoot : ClassRef := ⟨"K", .topLevel, none, .named⟩

def world : World := { files := ⟨#[], []⟩, link := { machine := inPieces } }

theorem streams_read_whole_inPieces :
    Faithful [1, 2, 3] 0 [⟨5, atStart, inside, .ok [1, 2]⟩, ⟨5, inside, atEnd, .ok [3]⟩] atEnd ∧
      (Collector.readClasspath (.object 0 Loader.bootId) ofBoot world).1 = .ok (some [1, 2, 3]) := by
  have hfair : inPieces.Fair := fun _ _ => nofun
  have hresource : inPieces.description.resource none "K.class" =
      some { content := [1, 2, 3], chunk := some 2 } := by decide +kernel
  have hsteady : ∀ spec ∈ inPieces.description.resource none "K.class", spec.Steady := by
    rw [hresource]
    rintro _ ⟨⟩
    exact ⟨by decide, rfl⟩
  constructor
  · have hopen : open? none "K.class" inPieces = (.ok (some fromStart), atStart) :=
      Prod.ext (by decide +kernel) rfl
    have hfirst : fromStart.read 5 atStart = (.ok ([1, 2], fromStart), inside) :=
      Prod.ext (by decide +kernel) rfl
    have hsecond : fromStart.read 5 inside = (.ok ([3], fromStart), atEnd) :=
      Prod.ext (by decide +kernel) rfl
    obtain ⟨spec, hspec, hfaithful⟩ := streams_read_whole.1 hfair hsteady hopen
      (.gives (by decide) hfirst (.gives (by decide) hsecond (.done _ _)))
    rw [hresource] at hspec
    cases hspec
    exact hfaithful
  · have hpath : ClassName.resourcePath ofBoot.name = "K.class" := by decide +kernel
    have hloader : Link.loaderName 0 Loader.bootId world.link = none := rfl
    have hread := streams_read_whole.2
      (show ofBoot.loader.getD (.object 0 Loader.bootId) = .object 0 Loader.bootId from rfl)
      (show world.link.machine.Fair from hfair)
    rw [hpath, hloader] at hread
    have hcame : (Collector.readClasspath (.object 0 Loader.bootId) ofBoot world).1.toBool = true := by
      decide +kernel
    rcases hread hsteady with hok | ⟨e, herror⟩
    · rw [hok]
      exact congrArg (fun r => Except.ok (r.map (·.content))) hresource
    · rw [herror] at hcame
      cases hcame

end InputStream

end ClassRecovery.Jvm
