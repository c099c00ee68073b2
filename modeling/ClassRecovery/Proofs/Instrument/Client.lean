import ClassRecovery.Instrument.Client
import ClassRecovery.Proofs.Instrument.Balance

/-!
What the operations of a client leave behind.
-/

namespace ClassRecovery

open Jvm (Machine Reference References Holdings HeldClass Link InputStream Throwable)

/-- A loader object of the machine is held. -/
def Jvm.Holdings.keep (l : Loader) (K : Holdings) : Holdings :=
  match l with
  | .object i id => { K with loaders := (i, id) :: K.loaders }
  | _ => K

section

variable {b : Machine} {reliable : Prop} {A : Throwable → Prop} {owed : List Reference}
  {K : Holdings} {n : Option Nat}

open World (Has)

theorem Loader.retain_has (l : Loader) :
    Ensures (Has n fun link => Link.Since b reliable A owed (K.with n) link ∧
        (reliable → ∀ i id, l = .object i id → link.Knows i id)) l.retain
      fun _ => Has n (Link.Since b reliable A owed ((K.keep l).with n)) := by
  cases l with
  | object i id =>
    refine World.onLink_has (.of_imp (fun l h => ?_) (Link.retainLoader_since (K := K.with n)))
    exact ⟨h.1, fun hr => h.2 hr i id rfl⟩
  | _ => exact .pure fun _ hw => ⟨hw.1, hw.2.1⟩

theorem ClassRef.release_has {d : ClassRef} {h : HeldClass} :
    Ensures (Has n (Link.Since b reliable A owed { K with classes := (d, h) :: K.classes }))
      d.release fun _ => Has n (Link.Since b reliable A owed K) := by
  unfold release
  split
  · next index horigin => exact World.onLink_has (Link.releaseClass_since horigin)
  · next horigin =>
    refine .pure fun w hw => ?_
    have hthere : ¬ reliable := fun hr => by
      obtain ⟨⟨index, hindex, -⟩, -⟩ := (hw.2.books hr).classes _ List.mem_cons_self
      exact horigin index hindex
    exact ⟨hw.1, hw.2.machine.repin fun hr => absurd hr hthere, fun hr => absurd hr hthere⟩

end

namespace Client

def machine (c : Client) : Machine := c.world.link.machine

/-- What a client holds, with what is pinned for each class. -/
def holdings (c : Client) (es : List (ClassRef × HeldClass)) : Holdings :=
  ⟨c.connections, es, c.loaders, c.streams.map (·.reference)⟩

/-- Since `b`, what is held is what the client holds, and the hook. -/
def Since (b : Machine) (reliable : Prop) (A : Throwable → Prop) (owed : List Reference)
    (c : Client) : Prop :=
  ∃ es : List (ClassRef × HeldClass), (es.map (·.1)).Perm c.classes ∧
    c.world.Since b reliable A owed (c.holdings es)

/-- What can be pending after an operation that failed, or did not, if nothing was before. -/
def Operation.Throws (b : Machine) (failed : Bool) : Operation → Throwable → Prop
  | .systemLoader _, t => failed ∧ (b.LookupThrows true "getSystemClassLoader" t ∨ b.PinThrows t)
  | .meet _ _, t | .members _, t => failed ∧ b.MeetThrows t
  | .load _ _, t => failed ∧ (b.LookupThrows true "forName" t ∨ b.MeetThrows t)
  | .openResource _ _, t =>
    failed ∧ (b.LookupThrows true "getSystemResourceAsStream" t ∨ b.PinThrows t)
  | .allLoaded, t => b.MeetThrows t
  | .classFile _, _ => True
  | _, _ => False

/-- What an operation can leave to its thread: a stream object, if it asked the built-in loader for
it while an exception was pending. -/
def Leaves (c : Client) (A : Throwable → Prop) (op : Operation) (left : List Reference) : Prop :=
  left = [] ∨ ∃ i id path, op = .openResource (i, id) path ∧
    Link.loaderName i id c.world.link = none ∧ (∃ t, A t) ∧ ∃ r, left = [r]

/-- What an operation made of one client is another, for whom the books are right too. -/
def Yields (b : Machine) (reliable : Prop) (A : Throwable → Prop) (owed : List Reference)
    (c : Client) (op : Operation) (c' : Client) : Prop :=
  ∃ left, c.Leaves A op left ∧
    c'.Since b reliable (fun t => A t ∨ op.Throws b c'.failed t) (left ++ owed)

section

variable {b : Machine} {reliable : Prop} {A : Throwable → Prop} {owed : List Reference}
  {c c' : Client} {op : Operation} {es : List (ClassRef × HeldClass)} {ε α : Type}

theorem Yields.of_since (h : c'.Since b reliable (fun t => A t ∨ op.Throws b c'.failed t) owed) :
    Yields b reliable A owed c op c' :=
  ⟨[], .inl rfl, h⟩

theorem yields_attempt {a : Attempt ε α} {keep : α → Client → Client} {P : World → Prop}
    {Q : α → World → Prop} {E : World → Prop} (h : Attains P a Q E) (hP : P c.world)
    (hok : ∀ x w, Q x w →
      Yields b reliable A owed c op (keep x { c with world := w, failed := false }))
    (herror : ∀ w, E w → Yields b reliable A owed c op { c with world := w, failed := true }) :
    Yields b reliable A owed c op (c.attempt a keep) := by
  have hw := h c.world hP
  unfold attempt
  rcases hrun : a c.world with ⟨e | x, w⟩ <;> rw [hrun] at hw
  · exact herror w hw
  · exact hok x w hw

/-- Where only the world became another one. -/
theorem yields_same {w : World} {failed : Bool} {B : Throwable → Prop}
    (hes : (es.map (·.1)).Perm c.classes) (hw : w.Since b reliable B owed (c.holdings es))
    (hB : ∀ t, B t → A t ∨ op.Throws b failed t) :
    Yields b reliable A owed c op { c with world := w, failed } :=
  .of_since ⟨es, hes, hw.mono hB⟩

/-- Classes that were met are held too. -/
theorem yields_met {n : Option Nat} {w : World} {failed : Bool} {ds : List ClassRef}
    {B : Throwable → Prop} (hes : (es.map (·.1)).Perm c.classes)
    (hw : w.Has n (Link.Met b reliable B owed ((c.holdings es).with n) ds))
    (hB : ∀ t, B t → A t ∨ op.Throws b failed t) :
    Yields b reliable A owed c op { c with world := w, failed, classes := ds ++ c.classes } := by
  obtain ⟨rfl, new, rfl, -, hl⟩ := hw
  exact .of_since ⟨new ++ es, by rw [List.map_append]; exact hes.append_left _, hl.mono hB⟩

theorem yields_keepLoader {n : Option Nat} {l : Loader} {w : World} {failed : Bool}
    {B : Throwable → Prop} (hes : (es.map (·.1)).Perm c.classes)
    (hw : w.Has n (Link.Since b reliable B owed (((c.holdings es).keep l).with n)))
    (hB : ∀ t, B t → A t ∨ op.Throws b failed t) :
    Yields b reliable A owed c op (keepLoader l { c with world := w, failed }) := by
  cases l <;> exact .of_since ⟨es, hes, Link.Since.mono hw.since hB⟩

theorem exists_held {d : ClassRef} (hes : (es.map (·.1)).Perm c.classes) (hd : d ∈ c.classes) :
    ∃ h, (d, h) ∈ es := by
  obtain ⟨⟨_, h⟩, he, rfl⟩ := List.mem_map.mp (hes.mem_iff.mpr hd)
  exact ⟨h, he⟩

variable (hes : (es.map (·.1)).Perm c.classes) (hc : c.world.Since b reliable A owed (c.holdings es))

include hes hc

/-! ### What gives something -/

theorem connect_yields : Yields b reliable A owed c .connect (c.use .connect) := by
  refine yields_attempt (.lift (World.onLink_has Link.connect_since)) hc.has (fun i w hw => ?_)
    (fun w (hw : w.Since b reliable A owed (c.holdings es)) =>
      yields_same hes hw fun _ => .inl)
  refine .of_since ⟨es, hes, World.Has.since (n := c.world.hooked) ⟨hw.1, ?_⟩⟩
  exact Link.Since.mono (hw.2.same (Holdings.with_cons (c.holdings es) _ i)) fun _ => .inl

theorem install_yields {i : Nat} (hi : i ∈ c.connections) :
    Yields b reliable A owed c (.install i) (c.use (.install i)) :=
  yields_attempt (Hook.install_since fun _ => List.mem_append_left _ hi) hc
    (fun _ _ hw => yields_same hes hw fun _ => .inl) fun _ hw => yields_same hes hw fun _ => .inl

theorem meet_yields {i : Nat} (hi : i ∈ c.connections) (cls : Option Reference) :
    Yields b reliable A owed c (.meet i cls) (c.use (.meet i cls)) := by
  refine yields_attempt (World.attemptLink_has (Link.classOf_since (fun _ => ?_) cls)) hc.has
    (fun d w hw => yields_met hes hw fun _ => False.elim)
    fun w hw => yields_same hes hw.since fun _ => .imp_right fun ht => ⟨rfl, ht⟩
  exact List.mem_append_left _ (List.mem_append_right _ hi)

theorem members_yields {d : ClassRef} (hd : d ∈ c.classes) :
    Yields b reliable A owed c (.members d) (c.use (.members d)) := by
  obtain ⟨h, hh⟩ := exists_held hes hd
  simp only [use]
  split
  · next index horigin =>
    exact yields_attempt (World.attemptLink_has (Link.declaredClasses_since horigin hh)) hc.has
      (fun ds w hw => yields_met hes hw fun _ => .inl)
      fun w hw => yields_same hes hw.since fun _ => .imp_right fun ht => ⟨rfl, ht⟩
  · exact yields_same (c := c) hes hc fun _ => .inl

theorem load_yields (i id : Nat) (name : String) :
    Yields b reliable A owed c (.load (i, id) name) (c.use (.load (i, id) name)) :=
  yields_attempt (World.attemptLink_has (Link.load_since id name)) hc.has
    (fun _ _ hw => yields_met hes hw fun _ => False.elim)
    fun _ hw => yields_same hes hw.since fun _ => .imp_right fun ht => ⟨rfl, ht⟩

theorem allLoaded_yields : Yields b reliable A owed c .allLoaded (c.use .allLoaded) :=
  yields_attempt Hook.allLoaded_since hc.has (fun _ _ hw => yields_met hes hw fun _ => id)
    fun _ hw => yields_same hes hw.since fun _ => .inl

theorem openResource_yields (i id : Nat) (path : String) :
    Yields b reliable A owed c (.openResource (i, id) path)
      (c.use (.openResource (i, id) path)) := by
  have hopen : Attains (fun w => w = c.world ∧ w.Has c.world.hooked
      (Link.Since b reliable A owed ((c.holdings es).with c.world.hooked))) (do
        let name := Link.loaderName i id (← get).link
        World.attemptMachine (InputStream.open? name path) : Attempt IoError (Option InputStream))
      (fun s => World.Has c.world.hooked (Link.Since b reliable A owed
        { (c.holdings es).with c.world.hooked with
            streams := (s.map (·.reference)).toList ++ c.streams.map (·.reference) }))
      (World.Has c.world.hooked fun l => ∃ left,
        InputStream.Forgets (Link.loaderName i id c.world.link) A left ∧
          Link.Since b reliable (InputStream.OpenThrows b A) (left ++ owed)
            ((c.holdings es).with c.world.hooked) l) := by
    refine .get_bind fun w hw => ?_
    obtain ⟨rfl, -⟩ := hw
    exact .of_imp (fun _ hw => hw.2.2) (World.attemptLink_has (Link.open_since _ path))
  refine yields_attempt hopen ⟨rfl, hc.has⟩ (fun s w hw => ?_) fun w hw => ?_
  · refine .of_since ⟨es, hes, World.Has.since (n := c.world.hooked) ⟨hw.1, ?_⟩⟩
    have hstreams : (s.toList ++ c.streams).map (·.reference) =
        (s.map (·.reference)).toList ++ c.streams.map (·.reference) := by
      cases s <;> rfl
    unfold holdings
    dsimp only
    rw [hstreams]
    exact hw.2.mono fun _ => .inl
  · obtain ⟨hhook, left, hleft, hl⟩ := hw
    refine ⟨left, hleft.imp_right fun hleft => ⟨i, id, path, rfl, hleft⟩, es, hes,
      World.Has.since ⟨hhook, hl.mono fun _ => .imp_right fun ht => ⟨rfl, ht⟩⟩⟩

theorem read_yields {s : InputStream} (hs : s ∈ c.streams) (size : Nat) :
    Yields b reliable A owed c (.read s size) (c.use (.read s size)) := by
  refine yields_attempt (World.attemptLink_has (Link.read_since s size)) hc.has ?_
    fun w hw => yields_same hes hw.since fun _ => .inl
  rintro ⟨bytes, s'⟩ w ⟨hhook, hl, hs'⟩
  have hsame : Holdings.Same ((c.holdings es).with c.world.hooked)
      (Holdings.with { c.holdings es with
        streams := (s' :: c.streams.erase s).map (·.reference) } c.world.hooked) := by
    refine ⟨.refl _, .refl _, .refl _, ((List.perm_cons_erase hs).map _).trans ?_⟩
    rw [List.map_cons, List.map_cons, ← hs']
    exact .refl _
  exact .of_since ⟨es, hes, World.Has.since (n := c.world.hooked)
    ⟨hhook, Link.Since.mono (hl.same hsame) fun _ => .inl⟩⟩

theorem systemLoader_yields {i : Nat} (hi : i ∈ c.connections) :
    Yields b reliable A owed c (.systemLoader i) (c.use (.systemLoader i)) := by
  have hi' : i ∈ ((c.holdings es).with c.world.hooked).holders :=
    List.mem_append_left _ (List.mem_append_right _ hi)
  refine yields_attempt (.bind (World.attemptLink_has (Link.systemLoader_since fun _ => hi'))
    fun l => .lift_bind (.of_imp (fun w hw => ⟨hw.1, hw.2.1, fun hr i' id' heq => ?_⟩)
      (Loader.retain_has l)) fun _ => .ok fun _ hw => hw) hc.has
    (fun l w hw => yields_keepLoader hes hw fun _ => False.elim)
    fun w hw => yields_same hes hw.since fun _ => .imp_right fun ht => ⟨rfl, ht⟩
  obtain ⟨id, hid, hknows⟩ := hw.2.2 hr
  obtain ⟨rfl, rfl⟩ := Loader.object.inj (hid.symm.trans heq)
  exact hknows

theorem takeLoader_yields {l : Loader}
    (hl : reliable → ∀ i id, l = .object i id → c.world.link.Knows i id) :
    Yields b reliable A owed c op (c.takeLoader l) :=
  yields_keepLoader hes (Loader.retain_has l c.world ⟨rfl, hc, hl⟩) fun _ => .inl

theorem bootLoader_yields {i : Nat} (hi : i ∈ c.connections) :
    Yields b reliable A owed c (.bootLoader i) (c.use (.bootLoader i)) := by
  refine takeLoader_yields hes hc fun hr i' id heq => ?_
  obtain ⟨rfl, rfl⟩ := Loader.object.inj heq
  obtain ⟨x, hx, -⟩ := (hc.books hr).held (i := i)
    (List.mem_append_left _ (List.mem_append_right _ hi))
  exact ⟨x, hx, ((hc.books hr).tidy hx).next⟩

theorem loaderOf_yields {d : ClassRef} (hd : d ∈ c.classes) :
    Yields b reliable A owed c (.loaderOf d) (c.use (.loaderOf d)) := by
  obtain ⟨h, hh⟩ := exists_held hes hd
  simp only [use]
  split
  · next l hloader =>
    refine takeLoader_yields hes hc fun hr i id heq => ?_
    obtain ⟨-, htells⟩ := (hc.books hr).classes _ hh
    obtain ⟨id', hid', hknows⟩ := htells l hloader
    obtain ⟨rfl, rfl⟩ := Loader.object.inj (hid'.symm.trans heq)
    exact hknows
  · exact yields_same (c := c) hes hc fun _ => .inl

/-- Whatever the transformers do. -/
theorem classFile_yields (f : Hook.ClassFile) :
    Yields b reliable A owed c (.classFile f) (c.use (.classFile f)) := by
  have hstart : c.world.Balanced b reliable owed (c.holdings es) c.world.hooked :=
    ⟨rfl, hc.mono fun _ _ => trivial⟩
  exact yields_same hes (Hook.onClassFile_balanced Transform.run_balances f c.world hstart).since
    fun _ _ => .inr trivial

/-! ### What is dropped -/

theorem dropConnection_yields {i : Nat} (hi : i ∈ c.connections) :
    Yields b reliable A owed c (.dropConnection i) (c.use (.dropConnection i)) := by
  have hperm : (c.world.hooked.toList ++ c.connections).Perm
      (i :: (c.world.hooked.toList ++ c.connections.erase i)) :=
    ((List.perm_cons_erase hi).append_left _).trans List.perm_middle
  have hw := World.onLink_has (n := c.world.hooked) (Link.releaseConnection_since
    (K := Holdings.with { c.holdings es with connections := c.connections.erase i } c.world.hooked))
    c.world ⟨rfl, hc.same ⟨hperm, .refl _, .refl _, .refl _⟩⟩
  exact .of_since ⟨es, hes, World.Has.since (n := c.world.hooked)
    ⟨hw.1, Link.Since.mono hw.2 fun _ => .inl⟩⟩

theorem dropClass_yields {d : ClassRef} (hd : d ∈ c.classes) :
    Yields b reliable A owed c (.dropClass d) (c.use (.dropClass d)) := by
  obtain ⟨h, hh⟩ := exists_held hes hd
  obtain ⟨front, back, rfl⟩ := List.append_of_mem hh
  have hperm : (front ++ (d, h) :: back).Perm ((d, h) :: (front ++ back)) := List.perm_middle
  have hw := ClassRef.release_has (n := c.world.hooked) c.world ⟨rfl, hc.same
    (J := { (c.holdings (front ++ back)).with c.world.hooked with
      classes := (d, h) :: (front ++ back) }) ⟨.refl _, hperm, .refl _, .refl _⟩⟩
  refine .of_since ⟨front ++ back, ?_, World.Has.since (n := c.world.hooked)
    ⟨hw.1, Link.Since.mono hw.2 fun _ => .inl⟩⟩
  exact ((hperm.map _).symm.trans (hes.trans (List.perm_cons_erase hd))).cons_inv

theorem dropLoader_yields {i id : Nat} (hid : (i, id) ∈ c.loaders) :
    Yields b reliable A owed c (.dropLoader (i, id)) (c.use (.dropLoader (i, id))) := by
  have hw := World.onLink_has (n := c.world.hooked) (Link.releaseLoader_since
    (K := Holdings.with { c.holdings es with loaders := c.loaders.erase (i, id) } c.world.hooked))
    c.world ⟨rfl, hc.same ⟨.refl _, .refl _, List.perm_cons_erase hid, .refl _⟩⟩
  exact .of_since ⟨es, hes, World.Has.since (n := c.world.hooked)
    ⟨hw.1, Link.Since.mono hw.2 fun _ => .inl⟩⟩

theorem dropStream_yields {s : InputStream} (hs : s ∈ c.streams) :
    Yields b reliable A owed c (.dropStream s) (c.use (.dropStream s)) := by
  have hw := World.onLink_has (n := c.world.hooked) (Link.dropStream_since
    (K := Holdings.with { c.holdings es with
      streams := (c.streams.erase s).map (·.reference) } c.world.hooked) s)
    c.world ⟨rfl, hc.same ⟨.refl _, .refl _, .refl _, (List.perm_cons_erase hs).map _⟩⟩
  exact .of_since ⟨es, hes, World.Has.since (n := c.world.hooked)
    ⟨hw.1, Link.Since.mono hw.2 fun _ => .inl⟩⟩

omit hes hc

theorem perform_yields (h : c.Since b reliable A owed) (op : Operation) :
    Yields b reliable A owed c op (c.perform op) := by
  obtain ⟨es, hes, hc⟩ := h
  unfold perform
  split
  · next hop =>
    cases op with
    | connect => exact connect_yields hes hc
    | install i => exact install_yields hes hc (of_decide_eq_true hop)
    | bootLoader i => exact bootLoader_yields hes hc (of_decide_eq_true hop)
    | systemLoader i => exact systemLoader_yields hes hc (of_decide_eq_true hop)
    | meet i cls => exact meet_yields hes hc (of_decide_eq_true hop) cls
    | members d => exact members_yields hes hc (of_decide_eq_true hop)
    | loaderOf d => exact loaderOf_yields hes hc (of_decide_eq_true hop)
    | load l name => exact load_yields hes hc l.1 l.2 name
    | openResource l path => exact openResource_yields hes hc l.1 l.2 path
    | read s size => exact read_yields hes hc (of_decide_eq_true hop) size
    | allLoaded => exact allLoaded_yields hes hc
    | classFile f => exact classFile_yields hes hc f
    | dropConnection i => exact dropConnection_yields hes hc (of_decide_eq_true hop)
    | dropClass d => exact dropClass_yields hes hc (of_decide_eq_true hop)
    | dropLoader l => exact dropLoader_yields hes hc (of_decide_eq_true hop)
    | dropStream s => exact dropStream_yields hes hc (of_decide_eq_true hop)
  · exact yields_same (c := c) hes hc fun _ => .inl

/-! ### Runs -/

/-- The books of a client that stands alone are right. -/
def Sound (c : Client) : Prop := c.Since c.machine True (fun _ => True) []

theorem Since.sound (h : c.Since b True A owed) : c.Sound := by
  obtain ⟨es, hes, hc⟩ := h
  refine ⟨es, hes, ⟨rfl, rfl, fun _ _ => trivial, fun _ => ?_⟩, hc.books⟩
  obtain ⟨hserves, hlocals, hglobals⟩ := hc.machine.ledger trivial
  exact ⟨hserves, .refl hlocals.fresh_after, hglobals⟩

/-- Only what happens now is looked at. -/
theorem Sound.since (h : c.Sound) :
    c.Since c.machine True (fun t => c.machine.pending = some t) [] := by
  obtain ⟨es, hes, hc⟩ := h
  exact ⟨es, hes, ⟨rfl, rfl, fun _ => id, hc.machine.ledger⟩, hc.books⟩

theorem Sound.onMachine (h : c.Sound) {a : Jvm.Native Unit}
    (ha : ∀ pins m, m.Serves → ({} : References).Owes m.globals pins → m.locals.Fresh →
      (a m).2.Serves ∧ ({} : References).Owes (a m).2.globals pins ∧ (a m).2.locals.Fresh) :
    (c.onMachine a).Sound := by
  obtain ⟨es, hes, hc⟩ := h
  refine ⟨es, hes, ⟨rfl, rfl, fun _ _ => trivial, fun _ => ?_⟩, fun hr =>
    (hc.books hr).of_machine _⟩
  obtain ⟨hserves, hlocals, hglobals⟩ := hc.machine.ledger trivial
  obtain ⟨hserves', hglobals', hlocals'⟩ := ha _ _ hserves hglobals hlocals.fresh_after
  exact ⟨hserves', .refl hlocals', hglobals'⟩

theorem Sound.move (h : c.Sound) {m : Move} (hm : ∀ x, m = .machine x → x.Serves) :
    (c.move m).Sound := by
  cases m with
  | perform op =>
    obtain ⟨left, -, hleft⟩ := perform_yields h op
    exact hleft.sound
  | own o =>
    refine h.onMachine fun pins m hserves hglobals hlocals => ⟨hserves, hglobals, ?_⟩
    exact ((References.Owes.refl hlocals).add o).fresh_after
  | giveBack r =>
    refine h.onMachine fun pins m hserves hglobals hlocals => ⟨hserves, hglobals, fun r' hr' => ?_⟩
    exact hlocals r' (List.mem_filter.mp hr').1
  | machine m =>
    exact h.onMachine fun pins old _ hglobals hlocals => ⟨hm m rfl, hglobals, hlocals⟩
  | others w =>
    obtain ⟨es, hes, hc⟩ := h
    refine ⟨es, hes, ?_⟩
    have hhooked : (c.move (.others w)).world.hooked = c.world.hooked := by
      unfold World.hooked Client.move
      dsimp only
      split
      · assumption
      · rfl
    unfold World.Since
    rw [hhooked]
    exact hc

/-- A client that is in its state because of moves, all of them to machines that serve. -/
def Reached (c : Client) : Prop :=
  ∃ files moves, (∀ m, .machine m ∈ moves → m.Serves) ∧ run files moves = c

theorem serves_new : ({} : Machine).Serves :=
  ⟨⟨(fun _ h => nomatch h), rfl, (fun _ h => nomatch h), (fun h => nomatch h)⟩,
    fun _ h => nomatch h⟩

theorem start_sound (files : FileSystem) : (start files).Sound := by
  refine ⟨[], .refl _, ⟨rfl, rfl, fun _ _ => trivial, fun _ => ⟨serves_new,
    .refl References.fresh_empty, .refl References.fresh_empty⟩⟩, fun _ => ⟨?_, ?_, ?_, ?_⟩⟩
  · exact fun _ he => absurd he List.not_mem_nil
  · intro i
    simp [start, holdings, Holdings.with, Holdings.holders, World.hooked]
  · intro i x hx
    simp [start] at hx
  · exact fun _ he => absurd he List.not_mem_nil

theorem Reached.sound (h : c.Reached) : c.Sound := by
  obtain ⟨files, moves, hserves, rfl⟩ := h
  have hrun : ∀ c : Client, c.Sound → (moves.foldl move c).Sound := by
    induction moves with
    | nil => exact fun _ hc => hc
    | cons m moves ih =>
      refine fun c hc => ih (fun x hx => hserves x (List.mem_cons_of_mem _ hx)) _
        (hc.move fun x hx => ?_)
      exact hserves x (hx ▸ List.mem_cons_self)
  exact hrun _ (start_sound files)

/-- What the link holds for a class. -/
def heldFor (c : Client) (d : ClassRef) : Option HeldClass :=
  match d.origin with
  | .object index => c.world.link.held[index]?
  | _ => none

/-- The connections that are held: by the hook, by the client, or by one of its classes. -/
def live (c : Client) : List Nat :=
  c.world.hooked.toList ++ c.connections ++ (c.classes.filterMap c.heldFor).map (·.connection)

/-- All pins that were ever made are given back, each once, but one for each class of the client,
one for each of its open streams, and one for each loader that a connection knows. Connections that
nobody holds know only the loaders that the client holds. -/
structure Balanced (c : Client) : Prop where
  pins : ({} : References).Owes c.machine.globals
    ((c.classes.filterMap c.heldFor).map (·.reference) ++
      (c.world.link.loaderPins ++ c.streams.map (·.reference)))
  classes : ∀ d ∈ c.classes, (c.heldFor d).isSome
  loaders : ∀ {i : Nat} {x : Jvm.Connection}, c.world.link.connections[i]? = some x →
    ∀ k ∈ x.loaders, i ∈ c.live ∨ (i, k.id) ∈ c.loaders

theorem Sound.balanced (h : c.Sound) : c.Balanced := by
  obtain ⟨es, hes, hc⟩ := h
  have hbooks := hc.books trivial
  have hheld : ∀ e ∈ es, c.heldFor e.1 = some e.2 := fun e he => by
    obtain ⟨⟨index, hindex, hheld⟩, -⟩ := hbooks.classes e he
    unfold heldFor
    rw [hindex]
    exact hheld
  have hperm : (es.map (·.2)).Perm (c.classes.filterMap c.heldFor) := by
    refine .trans (.of_eq ?_) (hes.filterMap c.heldFor)
    rw [List.filterMap_map, ← List.filterMap_eq_map]
    exact List.filterMap_congr fun e he => (hheld e he).symm
  refine ⟨?_, fun d hd => ?_, fun {i x} hx k hk => ?_⟩
  · refine (hc.machine.ledger trivial).2.2.perm ?_
    have hpins := (hperm.map (·.reference)).append_right
      (c.world.link.loaderPins ++ c.streams.map (·.reference))
    rw [List.map_map] at hpins
    exact hpins
  · obtain ⟨h, hh⟩ := exists_held hes hd
    rw [hheld _ hh]
    rfl
  · have htidy := hbooks.tidy hx
    by_cases hnone : x.holders = 0
    · refine .inr (List.count_pos_iff.mp ?_)
      have hcount := htidy.counted k hk
      change k.holders = c.loaders.count (i, k.id) at hcount
      rw [← hcount]
      exact Nat.pos_of_ne_zero fun hidle => nomatch htidy.kept hnone k hk hidle
    · refine .inl ?_
      rw [← hbooks.count_eq hx] at hnone
      have hmem := List.count_pos_iff.mp (Nat.pos_of_ne_zero hnone)
      refine List.mem_append.mpr ((List.mem_append.mp hmem).imp_right fun hclass => ?_)
      have hmap := hperm.map (·.connection)
      rw [List.map_map] at hmap
      exact hmap.subset hclass

/-- Whatever fails on the way, an operation gives back once each reference of the thread that it
made, and no other; but a stream object may stay if an exception was pending before. -/
theorem references_balanced (h : c.Reached) (op : Operation) :
    c.Balanced ∧ (c.perform op).Balanced ∧
      ∃ left, c.Leaves (fun t => c.machine.pending = some t) op left ∧
        c.machine.locals.Owes (c.perform op).machine.locals left := by
  obtain ⟨left, hleft, es, hes, hc⟩ := perform_yields h.sound.since op
  have hsound : (c.perform op).Sound := Since.sound ⟨es, hes, hc⟩
  refine ⟨h.sound.balanced, hsound.balanced, left, hleft, ?_⟩
  have hlocals := (hc.machine.ledger trivial).2.1
  rwa [List.append_nil] at hlocals

end

/-- A machine in which one method is not found. -/
def lacking : Machine where
  description := {
    classes := [("K", {})]
    bootResources := [("x", { content := [0] })]
    missingMethods := ["getSystemClassLoader"] }

theorem serves_lacking : lacking.Serves :=
  ⟨⟨(fun _ h => nomatch h), rfl, (fun _ h => nomatch h), (fun h => nomatch h)⟩,
    fun _ h => nomatch h⟩

theorem reached_lacking (moves : List Move) (h : ∀ m, .machine m ∈ moves → m = lacking) :
    (run ⟨#[], []⟩ moves).Reached :=
  ⟨_, moves, fun m hm => h m hm ▸ serves_lacking, rfl⟩

/-- A client that has a class and a stream of the machine. -/
def holder : Client :=
  run ⟨#[], []⟩ [.machine lacking, .perform .connect, .own (.cls "K"),
    .perform (.meet 0 (some ⟨1, .cls "K"⟩)), .perform (.bootLoader 0),
    .perform (.openResource (0, 0) "x")]

theorem references_balanced_holder :
    holder.Reached ∧ holder.classes.length = 1 ∧ holder.streams.length = 1 ∧ holder.Balanced := by
  have hreached : holder.Reached := reached_lacking _ (by simp)
  exact ⟨hreached, by decide +kernel, by decide +kernel,
    (references_balanced hreached .allLoaded).1⟩

/-- A client that is going to ask for the system loader. -/
def seeker : Client :=
  run ⟨#[], []⟩ [.machine lacking, .perform .connect, .perform (.bootLoader 0)]

def notFound : Throwable := Machine.linkageError "NoSuchMethodError" "getSystemClassLoader"

/-- The next operation takes the exception for its own, and leaves what it was given. -/
theorem opening_leaves_stream : ¬ ∀ c : Client, c.Reached → ∀ op,
    c.machine.locals.Owes (c.perform op).machine.locals [] := by
  intro h
  have hreached : (seeker.perform (.systemLoader 0)).Reached :=
    reached_lacking [.machine lacking, .perform .connect, .perform (.bootLoader 0),
      .perform (.systemLoader 0)] (by simp)
  have hlive := (h _ hreached (.openResource (0, 0) "x")).live.length_eq
  revert hlive
  decide +kernel

end Client

end ClassRecovery
