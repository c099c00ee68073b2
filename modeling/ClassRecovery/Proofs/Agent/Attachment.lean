import ClassRecovery.Agent.Threads
import ClassRecovery.Proofs.Agent.Frame
import ClassRecovery.Proofs.Interleaving

/-!
However many threads want an agent attached, or want its instrument, and whatever fails on the way:
one attempt at most succeeds, and nothing is built, attached or deleted for the agent after the turn
of that thread. Failures change nothing for the next attempt.
-/

namespace ClassRecovery.Agent.Threads

/-- The machine was made to load the agent. -/
def Deed.succeeds : Deed → Bool
  | attached _ (.ok ()) => true
  | _ => false

/-- No attempt succeeded. -/
def Failed (turns : List (List Deed)) : Prop := ∀ turn ∈ turns, ∀ d ∈ turn, d.succeeds = false

/-- The turn of a thread that was successful. After the success it deleted what it had built, if
anything. -/
def IsSuccess (turn : List Deed) : Prop :=
  ∃ tidied command before, turn = tidied ++ .attached command (.ok ()) :: before ∧
    (∀ d ∈ tidied, ∃ path, d = .deleted path) ∧ ∀ d ∈ before, d.succeeds = false

/-- One thread was successful; the ones before it were not, and the ones after it did nothing. -/
def Done (turns : List (List Deed)) : Prop :=
  ∃ later turn earlier, turns = later ++ turn :: earlier ∧ (∀ t ∈ later, t = []) ∧
    IsSuccess turn ∧ Failed earlier

theorem not_failed_of_done {turns : List (List Deed)} (h : Done turns) : ¬ Failed turns := by
  obtain ⟨later, _, earlier, rfl, -, ⟨tidied, command, before, rfl, -⟩, -⟩ := h
  intro hfailed
  have hsucceeds := hfailed (tidied ++ .attached command (.ok ()) :: before) (by simp)
    (.attached command (.ok ())) (by simp)
  cases hsucceeds

theorem failed_cons {turn : List Deed} {turns : List (List Deed)} :
    Failed (turn :: turns) ↔ (∀ d ∈ turn, d.succeeds = false) ∧ Failed turns :=
  List.forall_mem_cons

theorem Failed.begin {turns : List (List Deed)} (h : Failed turns) : Failed ([] :: turns) :=
  failed_cons.mpr ⟨nofun, h⟩

theorem Done.begin {turns : List (List Deed)} (h : Done turns) : Done ([] :: turns) := by
  obtain ⟨later, turn, earlier, rfl, hlater, hturn, hfailed⟩ := h
  exact ⟨[] :: later, turn, earlier, rfl, List.forall_mem_cons.mpr ⟨rfl, hlater⟩, hturn, hfailed⟩

/-- The file that is attached for `path`: the full name of the file that it names, if it has one. -/
def Names (path full : String) : Prop := ∃ w w', existing path w = (.ok full, w')

/-- What may be done for an agent: a library is only attached; a jar is built and attached, and
deleted if that is the policy. -/
def Deed.Allowed (o : Options) : Deed → Prop
  | built _ => o.agent.library = none
  | attached command _ => ∃ full, command = (target o).2 full ∧ Names (target o).1 full
  | deleted path => o.agent.library = none ∧ o.agent.cache = .buildAttachDelete ∧
      path = o.artifactPath

variable {index : Nat} {o : Options} {s s' : Shared} {w w' : World}

theorem settings_eq_of_keeps {α : Type} {a : Action α} (h : Keeps World.handlesAndStanding a)
    (w : World) : settings index (a w).2 = settings index w := by
  have hstanding := congrArg (fun v => (v.2 index).map fun x => (x.1, x.2.2)) (h w)
  simpa [World.handlesAndStanding, World.standing, settings, Function.comp_def] using hstanding

/-- The thread at work has not succeeded, and nobody has. -/
structure Trying (index : Nat) (o : Options) (s : Shared) : Prop where
  settings : settings index s.world = some (o, false)
  failed : Failed s.turns
  turn : s.turns ≠ []

/-- The thread at work has succeeded, and nobody has noted it. -/
structure Won (index : Nat) (o : Options) (s : Shared) : Prop where
  settings : settings index s.world = some (o, false)
  turn : ∃ turn rest, s.turns = turn :: rest ∧ IsSuccess turn ∧ Failed rest

/-- Whether the agent counts as attached tells whether an attempt succeeded. -/
def Settled (index : Nat) (o : Options) (s : Shared) : Prop :=
  settings index s.world = some (o, false) ∧ Failed s.turns ∨
    settings index s.world = some (o, true) ∧ Done s.turns

theorem Trying.settled (h : Trying index o s) : Settled index o s := .inl ⟨h.settings, h.failed⟩

theorem Won.done (h : Won index o s) : Done s.turns := by
  obtain ⟨turn, rest, hturns, hturn, hfailed⟩ := h.turn
  exact ⟨[], turn, rest, hturns, nofun, hturn, hfailed⟩

def Phase.inside : Phase → Bool
  | .begun _ | .locking _ | .collecting => false
  | _ => true

def Phase.Relies (index : Nat) (o : Options) (s : Shared) : Phase → Prop
  | .begun _ => True
  | .locking _ => o.agentConfigured = true
  | .checking _ => Settled index o s ∧ ∃ rest, s.turns = [] :: rest
  | .building _ _ => Trying index o s ∧ o.agent.library = none
  | .finding _ => Trying index o s
  | .requesting _ command => Trying index o s ∧
      ∃ full, command = (target o).2 full ∧ Names (target o).1 full
  | .cleaning _ (.ok ()) => Won index o s
  | .cleaning _ (.error _) => Trying index o s
  | .marking _ => Won index o s
  | .unlocking _ result => Settled index o s ∧ s.turns ≠ [] ∧ (result = .ok () → Done s.turns)
  | .collecting => Done s.turns

/-- An answer is what it should be, after what was done so far. -/
def Answer.Holds (o : Options) (turns : List (List Deed)) : Answer → Prop
  | attach (.ok ()) => o.agentConfigured = true → Done turns
  | attach (.error _) | unattached _ => o.agentConfigured = true
  | own told => o.agentConfigured = false ∧ ∃ host w, (Host.instrument host w).1 = told
  | delivered told => Done turns ∧
      ∃ delivered host w, (Host.deliveredInstrument delivered host w).1 = told

structure Sound (index : Nat) (o : Options) (s : Shared) : Prop where
  agent : ∃ attached, settings index s.world = some (o, attached)
  configured : s.turns ≠ [] → o.agentConfigured = true
  allowed : ∀ turn ∈ s.turns, ∀ d ∈ turn, d.Allowed o
  answered : ∀ x ∈ s.answered, x.Holds o s.turns

def monitor (index : Nat) (o : Options) : Routine.Monitor Shared Phase where
  holder := (·.holder)
  inside := Phase.inside
  Always := Sound index o
  Free := Settled index o
  Relies phase s := phase.Relies index o s

theorem Answer.Holds.mono {turns turns' : List (List Deed)} (h : Done turns → Done turns')
    {x : Answer} (hx : x.Holds o turns) : x.Holds o turns' := by
  rcases x with (_ | ⟨⟨⟩⟩) | _ | _ | _
  · exact hx
  · exact fun hc => h (hx hc)
  · exact hx
  · exact hx
  · exact ⟨h hx.1, hx.2⟩

theorem relies_outside (h : Done s.turns → Done s'.turns) {phase : Phase}
    (hout : phase.inside = false) (hs : phase.Relies index o s) : phase.Relies index o s' := by
  cases phase with
  | begun => trivial
  | locking => exact hs
  | collecting => exact h hs
  | _ => cases hout

/-- Whoever is inside sees no difference. -/
structure Agrees (index : Nat) (s s' : Shared) : Prop where
  settings : settings index s'.world = settings index s.world
  turns : s'.turns = s.turns

namespace Agrees

theorem refl (s : Shared) : Agrees index s s := ⟨rfl, rfl⟩

variable (h : Agrees index s s')

include h

theorem trying (hs : Trying index o s) : Trying index o s' :=
  ⟨h.settings.trans hs.settings, by rw [h.turns]; exact hs.failed, by rw [h.turns]; exact hs.turn⟩

theorem won (hs : Won index o s) : Won index o s' :=
  ⟨h.settings.trans hs.settings, by rw [h.turns]; exact hs.turn⟩

theorem settled (hs : Settled index o s) : Settled index o s' := by
  unfold Settled
  rw [h.settings, h.turns]
  exact hs

theorem relies {phase : Phase} (hs : phase.Relies index o s) : phase.Relies index o s' := by
  rcases phase with _ | _ | _ | _ | _ | _ | ⟨_, _ | ⟨⟨⟩⟩⟩ | _ | _ | _
  case checking => exact ⟨h.settled hs.1, by rw [h.turns]; exact hs.2⟩
  case unlocking => exact ⟨h.settled hs.1, by rw [h.turns]; exact hs.2⟩
  case collecting =>
    change Done s'.turns
    rw [h.turns]
    exact hs
  case building => exact ⟨h.trying hs.1, hs.2⟩
  case requesting => exact ⟨h.trying hs.1, hs.2⟩
  case finding => exact h.trying hs
  case cleaning.error => exact h.trying hs
  case cleaning.ok => exact h.won hs
  case marking => exact h.won hs
  all_goals exact hs

theorem outside {t : Nat} (hholder : s'.holder = s.holder) :
    (monitor index o).Turn t s s' false false :=
  .outside hholder h.settled fun _ _ => h.relies

theorem sound (hs : Sound index o s) (hanswered : s'.answered = s.answered) :
    Sound index o s' := by
  refine ⟨?_, ?_, ?_, ?_⟩
  · rw [h.settings]
    exact hs.agent
  · rw [h.turns]
    exact hs.configured
  · rw [h.turns]
    exact hs.allowed
  · rw [h.turns, hanswered]
    exact hs.answered

end Agrees

theorem note_eq {turn : List Deed} {rest : List (List Deed)} (h : s.turns = turn :: rest)
    (d : Deed) : s.note d = { s with turns := (d :: turn) :: rest } := by
  unfold Shared.note
  rw [h]

/-- A deed of the thread that has the lock. -/
theorem Sound.note (hs : Sound index o s) (hturn : s.turns ≠ []) {d : Deed} (hd : d.Allowed o)
    (hgrows : Done s.turns → Done (s.note d).turns) : Sound index o (s.note d) := by
  obtain ⟨turn, rest, hturns⟩ := List.exists_cons_of_ne_nil hturn
  have hanswered := hs.answered
  rw [note_eq hturns] at hgrows ⊢
  refine ⟨hs.agent, fun _ => hs.configured hturn, ?_, fun x hx => (hs.answered x hx).mono hgrows⟩
  have hallowed := hs.allowed
  rw [hturns, List.forall_mem_cons] at hallowed
  exact List.forall_mem_cons.mpr ⟨List.forall_mem_cons.mpr ⟨hd, hallowed.1⟩, hallowed.2⟩

theorem Trying.note (h : Trying index o s) {d : Deed} (hd : d.succeeds = false) :
    Trying index o (s.note d) := by
  obtain ⟨turn, rest, hturns⟩ := List.exists_cons_of_ne_nil h.turn
  have hfailed := h.failed
  rw [hturns, failed_cons] at hfailed
  rw [note_eq hturns]
  exact ⟨h.settings, failed_cons.mpr ⟨List.forall_mem_cons.mpr ⟨hd, hfailed.1⟩, hfailed.2⟩,
    List.cons_ne_nil _ _⟩

/-- The one success. -/
theorem Trying.win (h : Trying index o s) (command : Attach.Command) :
    Won index o (s.note (.attached command (.ok ()))) := by
  obtain ⟨turn, rest, hturns⟩ := List.exists_cons_of_ne_nil h.turn
  have hfailed := h.failed
  rw [hturns, failed_cons] at hfailed
  rw [note_eq hturns]
  exact ⟨h.settings, _, rest, rfl, ⟨[], command, turn, rfl, nofun, hfailed.1⟩, hfailed.2⟩

theorem Won.note (h : Won index o s) (path : String) : Won index o (s.note (.deleted path)) := by
  obtain ⟨_, rest, hturns, ⟨tidied, command, before, rfl, htidied, hbefore⟩, hfailed⟩ := h.turn
  rw [note_eq hturns]
  exact ⟨h.settings, _, rest, rfl, ⟨.deleted path :: tidied, command, before, rfl,
    List.forall_mem_cons.mpr ⟨⟨path, rfl⟩, htidied⟩, hbefore⟩, hfailed⟩

theorem agrees_of_keeps {α : Type} {a : Action α} (index : Nat)
    (h : Keeps World.handlesAndStanding a) (s : Shared) : Agrees index s { s with world := (a s.world).2 } :=
  ⟨settings_eq_of_keeps h s.world, rfl⟩

theorem note_holder (s : Shared) (d : Deed) : (s.note d).holder = s.holder := by
  unfold Shared.note
  split <;> rfl

theorem note_answered (s : Shared) (d : Deed) : (s.note d).answered = s.answered := by
  unfold Shared.note
  split <;> rfl

/-- A step of the thread that has the lock and keeps it. -/
theorem passes_works {t : Nat} {phase next : Phase} (hphase : phase.inside = true)
    (hnext : next.inside = true) (hholder : s'.holder = s.holder) (hsound : Sound index o s')
    (hrelies : next.Relies index o s') (hgrows : Done s.turns → Done s'.turns) :
    (monitor index o).Passes t phase s (some next) s' where
  always := hsound
  relies := by
    rintro _ ⟨⟩
    exact hrelies
  others _ := relies_outside hgrows
  turn := by
    rw [Option.any_some, show (monitor index o).inside next = true from hnext,
      show (monitor index o).inside phase = true from hphase]
    exact .works hholder

/-- A step to an answer, from outside or by giving the lock back. -/
theorem sound_answer (hs : Sound index o s) {x : Answer} (hx : x.Holds o s.turns) :
    Sound index o { s with answered := x :: s.answered } :=
  ⟨hs.agent, hs.configured, hs.allowed, List.forall_mem_cons.mpr ⟨hx, hs.answered⟩⟩

theorem passes_answer {t : Nat} {phase : Phase} {x : Answer} (hphase : phase.inside = false)
    (hagrees : Agrees index s s') (hholder : s'.holder = s.holder)
    (hanswered : s'.answered = s.answered) (hs : Sound index o s) (hx : x.Holds o s.turns) :
    (monitor index o).Passes t phase s none { s' with answered := x :: s'.answered } := by
  have hagrees' : Agrees index s { s' with answered := x :: s'.answered } :=
    ⟨hagrees.settings, hagrees.turns⟩
  refine ⟨?_, nofun, fun _ _ => hagrees'.relies, ?_⟩
  · rw [← hagrees.turns] at hx
    exact sound_answer (hagrees.sound hs hanswered) hx
  · rw [Option.any_none, show (monitor index o).inside phase = false from hphase]
    exact hagrees'.outside hholder

section Steps

variable {a : Agent} {t : Nat} {r : Request} {next : Option Phase}

theorem options_eq (hs : Sound index o s)
    (ha : settings index s.world = some (a.options, a.attached)) : a.options = o := by
  obtain ⟨attached, hsettings⟩ := hs.agent
  rw [ha] at hsettings
  exact congrArg Prod.fst (Option.some.inj hsettings)

theorem passes_begun (hs : Sound index a.options s)
    (h : nextOf index t a (.begun r) s = some (next, s')) :
    (monitor index a.options).Passes t (.begun r) s next s' := by
  simp only [nextOf] at h
  split at h
  next hconfigured =>
    cases h
    refine ⟨hs, ?_, fun _ => relies_outside id, (Agrees.refl s).outside rfl⟩
    rintro _ ⟨⟩
    exact hconfigured
  next hconfigured =>
    cases r with
    | attach =>
      cases h
      exact passes_answer rfl (.refl s) rfl rfl hs fun hc => absurd hc hconfigured
    | acquire =>
      rcases hrun : Host.instrument a.host s.world with ⟨told, w'⟩
      have hagrees := agrees_of_keeps index (instrument_keeps a.host) s
      simp only [hrun] at h hagrees
      cases h
      exact passes_answer rfl hagrees rfl rfl hs
        ⟨by simpa using hconfigured, a.host, s.world, congrArg Prod.fst hrun⟩

theorem passes_locking (hs : Sound index o s) (hfree : s.holder = none → Settled index o s)
    (hconfigured : o.agentConfigured = true)
    (h : nextOf index t a (.locking r) s = some (next, s')) :
    (monitor index o).Passes t (.locking r) s next s' := by
  simp only [nextOf] at h
  split at h <;> cases h
  next hholder =>
    refine ⟨⟨hs.agent, fun _ => hconfigured, ?_, fun x hx => (hs.answered x hx).mono .begin⟩, ?_,
      fun _ => relies_outside .begin, .enters hholder rfl⟩
    · exact List.forall_mem_cons.mpr ⟨nofun, hs.allowed⟩
    · rintro _ ⟨⟩
      exact ⟨(hfree hholder).imp (.imp id .begin) (.imp id .begin), s.turns, rfl⟩

theorem first_relies (htrying : Trying index o s) (hconfigured : o.agentConfigured = true)
    (files : FileSystem) :
    (first r o files).inside = true ∧ (first r o files).Relies index o s := by
  unfold first
  split
  · exact ⟨rfl, htrying⟩
  · split
    · exact ⟨rfl, htrying⟩
    · exact ⟨rfl, htrying, ‹_›⟩
  next hlibrary hclass =>
    rw [Options.agentConfigured, hlibrary, hclass] at hconfigured
    cases hconfigured

theorem passes_checking (hs : Sound index a.options s)
    (ha : settings index s.world = some (a.options, a.attached))
    (hsettled : Settled index a.options s) (hturn : ∃ rest, s.turns = [] :: rest)
    (h : nextOf index t a (.checking r) s = some (next, s')) :
    (monitor index a.options).Passes t (.checking r) s next s' := by
  have hne : s.turns ≠ [] := by
    obtain ⟨rest, hrest⟩ := hturn
    rw [hrest]
    exact List.cons_ne_nil _ _
  simp only [nextOf] at h
  split at h <;> cases h
  next hattached =>
    rw [hattached] at ha
    have hdone : Done s.turns := by
      rcases hsettled with ⟨hno, -⟩ | ⟨-, hdone⟩
      · rw [ha] at hno
        cases hno
      · exact hdone
    exact passes_works rfl rfl rfl hs ⟨hsettled, hne, fun _ => hdone⟩ id
  next hattached =>
    have htrying : Trying index a.options s := by
      rcases hsettled with ⟨hno, hfailed⟩ | ⟨hyes, -⟩
      · exact ⟨hno, hfailed, hne⟩
      · rw [ha] at hyes
        exact absurd (congrArg Prod.snd (Option.some.inj hyes)) hattached
    obtain ⟨hinside, hrelies⟩ := first_relies (r := r) htrying (hs.configured hne) s.world.files
    exact passes_works rfl hinside rfl hs hrelies id

theorem passes_building {agentClass : String} (hs : Sound index o s) (htrying : Trying index o s)
    (hlibrary : o.agent.library = none)
    (h : nextOf index t a (.building r agentClass) s = some (next, s')) :
    (monitor index o).Passes t (.building r agentClass) s next s' := by
  have hagrees := agrees_of_keeps index
    (World.keeps_of_building (buildConfigured_keeps a agentClass)) s
  rcases hrun : buildConfigured a agentClass s.world with ⟨result, w'⟩
  simp only [nextOf, hrun] at h
  rw [hrun] at hagrees
  have hgrows : ∀ s' : Shared, Done s.turns → Done s'.turns :=
    fun s' hdone => absurd htrying.failed (not_failed_of_done hdone)
  have htrying' := (hagrees.trying htrying).note (d := .built result) rfl
  have hsound := (hagrees.sound hs rfl).note htrying.turn (d := .built result) hlibrary (hgrows _)
  cases result with
  | ok => cases h; exact passes_works rfl rfl (note_holder _ _) hsound htrying' (hgrows _)
  | error e =>
    cases h
    exact passes_works rfl rfl (note_holder _ _) hsound
      ⟨htrying'.settled, htrying'.turn, nofun⟩ (hgrows _)

theorem passes_finding (hs : Sound index a.options s) (htrying : Trying index a.options s)
    (h : nextOf index t a (.finding r) s = some (next, s')) :
    (monitor index a.options).Passes t (.finding r) s next s' := by
  have hagrees := agrees_of_keeps index (existing_keeps (target a.options).1) s
  rcases hrun : existing (target a.options).1 s.world with ⟨e | full, w'⟩ <;>
    rw [hrun] at hagrees <;> simp only [nextOf, hrun] at h <;> cases h
  · exact passes_works rfl rfl rfl (hagrees.sound hs rfl) (hagrees.trying htrying) id
  · exact passes_works rfl rfl rfl (hagrees.sound hs rfl)
      ⟨hagrees.trying htrying, full, rfl, _, _, hrun⟩ id

theorem passes_requesting {command : Attach.Command} (hs : Sound index o s)
    (htrying : Trying index o s)
    (hcommand : ∃ full, command = (target o).2 full ∧ Names (target o).1 full)
    (h : nextOf index t a (.requesting r command) s = some (next, s')) :
    (monitor index o).Passes t (.requesting r command) s next s' := by
  have hagrees := agrees_of_keeps index (request_keeps index command) s
  rcases hrun : request index command s.world with ⟨result, w'⟩
  simp only [nextOf, hrun] at h
  rw [hrun] at hagrees
  have hgrows : ∀ s' : Shared, Done s.turns → Done s'.turns :=
    fun s' hdone => absurd htrying.failed (not_failed_of_done hdone)
  have hsound := (hagrees.sound hs rfl).note htrying.turn (d := .attached command result) hcommand
    (hgrows _)
  cases h
  refine passes_works rfl rfl (note_holder _ _) hsound ?_ (hgrows _)
  cases result with
  | ok => exact (hagrees.trying htrying).win command
  | error e => exact (hagrees.trying htrying).note rfl

/-- The file goes, whether or not it was attached. -/
theorem deleted_of_deletes (hdeletes : deletes o = true) :
    (Deed.deleted o.artifactPath).Allowed o := by
  simpa [deletes, Deed.Allowed] using hdeletes

theorem concluding_relies {result : Except Error Unit} (hne : s.turns ≠ [])
    (h : (Phase.cleaning r result).Relies index o s) :
    (concluding r result).inside = true ∧ (concluding r result).Relies index o s := by
  rcases result with e | ⟨⟨⟩⟩
  · exact ⟨rfl, Trying.settled h, hne, nofun⟩
  · exact ⟨rfl, h⟩

theorem cleaning_note {result : Except Error Unit} (h : (Phase.cleaning r result).Relies index o s)
    (path : String) : (Phase.cleaning r result).Relies index o (s.note (.deleted path)) := by
  rcases result with e | ⟨⟨⟩⟩
  · exact Trying.note h rfl
  · exact Won.note h path

theorem cleaning_turns {result : Except Error Unit} (h : (Phase.cleaning r result).Relies index o s) :
    s.turns ≠ [] := by
  rcases result with e | ⟨⟨⟩⟩
  · exact Trying.turn h
  · obtain ⟨turn, rest, hturns, -⟩ := Won.turn h
    rw [hturns]
    exact List.cons_ne_nil _ _

theorem cleaning_grows {result : Except Error Unit}
    (h : (Phase.cleaning r result).Relies index o s)
    (h' : (Phase.cleaning r result).Relies index o s') (hdone : Done s.turns) : Done s'.turns := by
  rcases result with e | ⟨⟨⟩⟩
  · exact absurd (Trying.failed h) (not_failed_of_done hdone)
  · exact Won.done h'

theorem passes_cleaning {result : Except Error Unit} (hs : Sound index a.options s)
    (hrelies : (Phase.cleaning r result).Relies index a.options s)
    (h : nextOf index t a (.cleaning r result) s = some (next, s')) :
    (monitor index a.options).Passes t (.cleaning r result) s next s' := by
  simp only [nextOf] at h
  split at h
  next hdeletes =>
    have hagrees := agrees_of_keeps index
      (Attach.removeQuietly_keeps a.options.artifactPath) s
    generalize (Attach.removeQuietly a.options.artifactPath s.world).2 = w' at h hagrees
    have hrelies' := cleaning_note (hagrees.relies hrelies) a.options.artifactPath
    have hgrows := cleaning_grows hrelies hrelies'
    have hsound := (hagrees.sound hs rfl).note (cleaning_turns (hagrees.relies hrelies))
      (deleted_of_deletes hdeletes) hgrows
    cases h
    obtain ⟨hinside, hnext⟩ := concluding_relies (cleaning_turns hrelies') hrelies'
    exact passes_works rfl hinside (note_holder _ _) hsound hnext hgrows
  next =>
    cases h
    obtain ⟨hinside, hnext⟩ := concluding_relies (cleaning_turns hrelies) hrelies
    exact passes_works rfl hinside rfl hs hnext id

theorem settings_updateAgent (ha : settings index w = some (o, false)) :
    settings index (World.updateAgent index (fun a => { a with attached := true }) w).2 =
      some (o, true) := by
  obtain ⟨a, ha, hoptions⟩ := Option.map_eq_some_iff.mp ha
  have hmodified : (w.agents.modify index fun a => { a with attached := true })[index]? =
      some { a with attached := true } := by
    rw [Array.getElem?_modify, if_pos rfl, ha]
    rfl
  exact Option.map_eq_some_iff.mpr ⟨_, hmodified,
    congrArg (·, true) (congrArg Prod.fst hoptions)⟩

theorem passes_marking (hs : Sound index o s) (hwon : Won index o s)
    (h : nextOf index t a (.marking r) s = some (next, s')) :
    (monitor index o).Passes t (.marking r) s next s' := by
  have hmarked := settings_updateAgent hwon.settings
  have hne : s.turns ≠ [] := by
    obtain ⟨turn, rest, hturns, -⟩ := hwon.turn
    rw [hturns]
    exact List.cons_ne_nil _ _
  cases h
  exact passes_works rfl rfl rfl ⟨⟨true, hmarked⟩, hs.configured, hs.allowed, hs.answered⟩
    ⟨.inr ⟨hmarked, hwon.done⟩, hne, fun _ => hwon.done⟩ id

theorem passes_unlocking {result : Except Error Unit} (hs : Sound index o s)
    (hrelies : (Phase.unlocking r result).Relies index o s)
    (h : nextOf index t a (.unlocking r result) s = some (next, s')) :
    (monitor index o).Passes t (.unlocking r result) s next s' := by
  obtain ⟨hsettled, hne, hdone⟩ := hrelies
  have hagrees : Agrees index s { s with holder := none } := ⟨rfl, rfl⟩
  have hanswered : ∀ x : Answer,
      Agrees index s { s with holder := none, answered := x :: s.answered } := fun _ => ⟨rfl, rfl⟩
  have hanswer : ∀ x : Answer, x.Holds o s.turns → (monitor index o).Passes t
      (.unlocking r result) s none { s with holder := none, answered := x :: s.answered } :=
    fun x hx => ⟨sound_answer (hagrees.sound hs rfl) hx, nofun,
      fun _ _ => (hanswered x).relies, .leaves rfl hsettled⟩
  cases r with
  | attach =>
    cases h
    refine hanswer _ ?_
    rcases result with e | ⟨⟨⟩⟩
    · exact hs.configured hne
    · exact fun _ => hdone rfl
  | acquire =>
    rcases result with e | ⟨⟨⟩⟩ <;> cases h
    · exact hanswer _ (hs.configured hne)
    · refine ⟨hagrees.sound hs rfl, ?_, fun _ _ => hagrees.relies, .leaves rfl hsettled⟩
      rintro _ ⟨⟩
      exact hdone rfl

theorem passes_collecting (hs : Sound index o s) (hdone : Done s.turns)
    (h : nextOf index t a .collecting s = some (next, s')) :
    (monitor index o).Passes t .collecting s next s' := by
  rcases hrun : Host.deliveredInstrument a.delivered a.host s.world with ⟨told, w'⟩
  have hagrees := agrees_of_keeps index
    (deliveredInstrument_keeps a.delivered a.host) s
  simp only [nextOf, hrun] at h
  rw [hrun] at hagrees
  cases h
  exact passes_answer rfl hagrees rfl rfl hs
    ⟨hdone, a.delivered, a.host, s.world, congrArg Prod.fst hrun⟩

end Steps

theorem besides_eq {world : World} (h : besides index world s = some s') :
    Agrees index s s' ∧ s' = { s with world } := by
  unfold besides at h
  split at h <;> cases h
  exact ⟨⟨‹_›, rfl⟩, rfl⟩

theorem guards (index : Nat) (o : Options) : (monitor index o).Guards (routine index) where
  outside _ := rfl
  start _ _ _ := trivial
  next {t phase s next s'} h hs hrelies hfree := by
    obtain ⟨a, ha, h⟩ := Option.bind_eq_some_iff.mp h
    have hs : Sound index o s := hs
    have hrelies : phase.Relies index o s := hrelies
    have hsettings : settings index s.world = some (a.options, a.attached) := by
      rw [settings, ha]
      rfl
    obtain rfl := options_eq hs hsettings
    cases phase with
    | begun r => exact passes_begun hs h
    | locking r => exact passes_locking hs hfree hrelies h
    | checking r => exact passes_checking hs hsettings hrelies.1 hrelies.2 h
    | building r agentClass => exact passes_building hs hrelies.1 hrelies.2 h
    | finding r => exact passes_finding hs hrelies h
    | requesting r command => exact passes_requesting hs hrelies.1 hrelies.2 h
    | cleaning r result => exact passes_cleaning hs hrelies h
    | marking r => exact passes_marking hs hrelies h
    | unlocking r result => exact passes_unlocking hs hrelies h
    | collecting => exact passes_collecting hs hrelies h
  holder h := by
    obtain ⟨-, rfl⟩ := besides_eq h
    rfl
  always h hs := by
    obtain ⟨hagrees, rfl⟩ := besides_eq h
    exact hagrees.sound hs rfl
  free h hs := (besides_eq h).1.settled hs
  relies h _ hs := (besides_eq h).1.relies hs

end ClassRecovery.Agent.Threads
