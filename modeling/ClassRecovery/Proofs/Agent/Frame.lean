import ClassRecovery.Instrument.Source
import ClassRecovery.Proofs.Loader.Reading

/-!
What bringing an agent in leaves alone, whatever comes of it: what the handles hold, and of each
agent its options, its host, and whether it is attached. Only the step that notes an agent as
attached changes that. The classes that a jar is built from are looked up without any trace but with
those who are asked.
-/

namespace ClassRecovery

variable {ε α : Type}

namespace World

/-- What decides about each agent. -/
def standing (w : World) : Nat → Option (Options × AgentHost × Bool) :=
  fun i => w.agents[i]?.map fun a => (a.options, a.host, a.attached)

def handlesAndStanding (w : World) :
    Array (Option Instrument) × (Nat → Option (Options × AgentHost × Bool)) :=
  (w.handles, w.standing)

/-- Everything but the loaders, the archives they have open and the virtual machine. -/
def besideClasses (w : World) : World := { w with jars := {}, loaders := #[], link := {} }

/-- Everything that building a jar leaves alone. -/
def besideBuilding (w : World) : World := { w.besideClasses with files := ⟨#[], []⟩ }

theorem keeps_of_building {a : Action α} (h : Keeps besideBuilding a) :
    Keeps handlesAndStanding a :=
  h.of_view handlesAndStanding fun _ => rfl

theorem keeps_of_classes {a : Action α} (h : Keeps besideClasses a) : Keeps handlesAndStanding a :=
  h.of_view handlesAndStanding fun _ => rfl

theorem building_of_classes {a : Action α} (h : Keeps besideClasses a) : Keeps besideBuilding a :=
  h.of_view besideBuilding fun _ => rfl

theorem keeps_handles {a : Attempt ε α} (h : Keeps handlesAndStanding a) : Keeps (·.handles) a :=
  fun w => congrArg Prod.fst (h w)

theorem withFiles_keeps (f : FileSystem → Except ε α) :
    Keeps handlesAndStanding (withFiles f) := by
  refine .attempt .get fun w => ?_
  split
  · exact .ok _
  · exact .throw _

theorem changeFiles_keeps (f : FileSystem → Except ε FileSystem) :
    Keeps besideBuilding (changeFiles f) := by
  refine .attempt .get fun w => ?_
  split
  · exact .lift (.modify fun _ => rfl)
  · exact .throw _

theorem fillFile_keeps (path : String) (bytes : Bytes) :
    Keeps besideBuilding (fillFile path bytes) := by
  refine .attempt .get fun w => ?_
  split
  · exact changeFiles_keeps _
  · exact .attempt (changeFiles_keeps _) fun _ => .throw _

theorem workFiles_keeps (f : FileSystem → FileSystem × Except ε Unit) :
    Keeps besideBuilding (workFiles f) := by
  refine .attempt .get fun w => ?_
  refine .attempt (.lift (.modify fun _ => rfl)) fun _ => ?_
  split
  · exact .ok _
  · exact .throw _

theorem onLink_keeps (a : StateM Jvm.Link α) : Keeps besideClasses (onLink a) := fun _ => rfl

theorem attemptLink_keeps (a : ExceptT ε (StateM Jvm.Link) α) :
    Keeps besideClasses (attemptLink a) := fun _ => rfl

theorem updateAgent_keeps (i : Nat) {f : Agent → Agent}
    (h : ∀ a, ((f a).options, (f a).host, (f a).attached) = (a.options, a.host, a.attached)) :
    Keeps handlesAndStanding (updateAgent i f) :=
  .modify fun w => congrArg (w.handles, ·) (funext fun j => map_getElem?_modify h j)

theorem openSocket_keeps : Keeps handlesAndStanding openSocket := by
  refine .modify fun w => ?_
  split
  · rfl
  · split <;> rfl

end World

open World

namespace Loader

theorem readOwn_keeps (id : Nat) (roots : List ClassRoot) (resource : String) :
    Keeps besideClasses (readOwn id roots resource) :=
  (readOwn_besideJars id roots resource).of_view besideClasses fun _ => rfl

theorem define_keeps (self : Loader) (roots : List ClassRoot) (name : String) :
    Keeps besideClasses (self.define roots name) :=
  (define_besideJars self roots name).of_view besideClasses fun _ => rfl

theorem readResource_keeps (path : String) (l : Loader) :
    Keeps besideClasses (l.readResource path) := by
  induction l with
  | archive id roots => exact readOwn_keeps id roots path
  | child id roots parent ih =>
    refine .attempt ih fun found => ?_
    cases found with
    | some bytes => exact .ok _
    | none => exact readOwn_keeps id roots path
  | given index id =>
    refine .attempt (.lift (.modify fun _ => rfl)) fun _ => .attempt .get fun w => ?_
    split
    · exact .ok _
    · split
      · exact .ok _
      · exact .throw _
  | object connection id => exact .attempt .get fun w => attemptLink_keeps _

theorem load_keeps (name : String) (l : Loader) : Keeps besideClasses (l.load name) := by
  induction l with
  | archive id roots => exact define_keeps _ roots name
  | child id roots parent ih =>
    refine .attempt ih fun found => ?_
    cases found with
    | some c => exact .ok _
    | none => exact define_keeps _ roots name
  | given index id =>
    refine .attempt (.lift (.modify fun _ => rfl)) fun _ => .attempt .get fun w => ?_
    split
    · exact .ok _
    · split
      · exact .throw _
      · exact .ok _
  | object connection id => exact attemptLink_keeps _

end Loader

namespace ClassRef

theorem release_keeps (c : ClassRef) : Keeps besideClasses c.release := by
  unfold release
  split
  · exact onLink_keeps _
  · exact .pure _

theorem releaseAll_keeps (cs : List ClassRef) : Keeps besideClasses (releaseAll cs) := by
  induction cs with
  | nil => exact .pure _
  | cons c cs ih => exact .bind c.release_keeps fun _ => ih

end ClassRef

namespace Attach

theorem makeFirst_keeps (paths : List String) : Keeps handlesAndStanding (makeFirst paths) := by
  induction paths with
  | nil => exact .pure _
  | cons path rest ih =>
    refine .bind .get fun w => ?_
    split
    · exact .bind (.modify fun _ => rfl) fun _ => .pure _
    · exact ih

theorem removeQuietly_keeps (path : String) : Keeps handlesAndStanding (removeQuietly path) := by
  refine .bind .get fun w => ?_
  split
  · exact .modify fun _ => rfl
  · exact .pure _

theorem signal_keeps (t : Target) : Keeps handlesAndStanding (signal t) := by
  refine .bind .get fun w => ?_
  dsimp only
  split
  · cases w.listener with
    | none => exact .bind (.pure _) fun _ => .pure _
    | some l =>
      dsimp only
      split
      · exact .bind openSocket_keeps fun _ => .pure _
      · exact .bind (.pure _) fun _ => .pure _
  · exact .pure _

theorem send_keeps (path : String) (c : Command) : Keeps handlesAndStanding (send path c) := by
  have hconnect : Keeps handlesAndStanding (connect path) := by
    unfold connect
    split
    · exact .throw _
    refine .attempt .get fun w => .attempt (withFiles_keeps _) fun found => ?_
    dsimp only
    split
    · exact .throw _
    split
    · exact .throw _
    · exact .ok _
  refine .attempt hconnect.mapFailure fun _ => .attempt (.lift ?_) fun reply => ?_
  · exact .bind (.modify fun _ => rfl) fun _ => .bind .get fun w => .pure _
  · split
    · exact .throw _
    · split
      · exact .ok _
      · exact .throw _

theorem attach_keeps (t : Target) (c : Command) : Keeps handlesAndStanding (attach t c) := by
  have hawaken : Keeps handlesAndStanding (awaken t) := by
    refine .attempt (.lift (makeFirst_keeps _)) fun trigger => ?_
    split
    · exact .throw _
    · refine .attempt (.lift (signal_keeps t)) fun signalled => .attempt .get fun w =>
        .attempt (.lift (removeQuietly_keeps _)) fun _ => ?_
      split <;> dsimp only
      · split
        · exact .attempt (.throw _) fun _ => .ok _
        · exact .ok _
      · split
        · exact .attempt (.throw _) fun _ => .throw _
        · exact .throw _
  refine .attempt .get fun w => ?_
  split
  · exact send_keeps _ c
  · exact .attempt hawaken fun socket => send_keeps socket c

end Attach

theorem Hook.install_keeps (connection : Nat) : Keeps handlesAndStanding (install connection) := by
  have huse : ∀ {α : Type} (a : Jvm.Tool.Use α), Keeps handlesAndStanding (use a) :=
    fun _ => keeps_of_classes (attemptLink_keeps _).mapFailure
  refine .attempt .get fun w => ?_
  split
  · exact .ok _
  refine .attempt ?_ fun h => .attempt
    (.lift (.bind (keeps_of_classes (onLink_keeps _)) fun _ => .modify fun _ => rfl))
    fun _ => .attempt (huse _) fun _ => .attempt (huse _) fun _ => .ok _
  exact .attempt (keeps_of_classes (attemptLink_keeps _).mapFailure) fun tool =>
    .attempt (huse _) fun _ => .attempt (huse _) fun _ => .attempt (huse _) fun _ => .ok _

namespace Agent

theorem existing_keeps (path : String) : Keeps handlesAndStanding (existing path) := by
  refine .attempt .get fun w => ?_
  dsimp only
  split
  · split <;> exact .ok _
  · exact .throw _

theorem attachGiven_keeps (index : Nat) (p : GivenProvider) (c : Attach.Command) :
    Keeps handlesAndStanding (attachGiven index p c) := by
  refine .attempt .get fun w => .attempt (.lift (updateAgent_keeps index fun _ => rfl)) fun _ => ?_
  dsimp only
  split
  on_goal 1 => refine .attempt (.lift (Attach.removeQuietly_keeps _)) fun _ => ?_
  -- Eaten or not, the file makes no difference to what follows.
  all_goals
    split
    · exact .throw _
    · split
      on_goal 1 => refine .attempt (.lift (updateAgent_keeps index fun _ => rfl)) fun _ => ?_
      all_goals
        split
        · exact .lift (.modify fun _ => rfl)
        · exact .ok _

theorem at?_keeps (index : Nat) : Keeps handlesAndStanding (at? index) :=
  .bind .get fun _ => .pure _

theorem request_keeps (index : Nat) (c : Attach.Command) :
    Keeps handlesAndStanding (request index c) := by
  refine .attempt (.lift (at?_keeps index)) fun a => ?_
  cases a with
  | none => exact .ok _
  | some a =>
    dsimp only
    split
    · exact attachGiven_keeps index _ c
    · exact .attempt (.lift (.bind .get fun _ => .pure _)) fun target => Attach.attach_keeps target c

theorem lookup_keeps (loader : Loader) (name : String) :
    Keeps besideClasses (lookup loader name) := by
  refine .attempt (loader.load_keeps name).mapFailure fun found => ?_
  cases found with
  | some c => exact .ok _
  | none => exact .throw _

theorem lookupAll_keeps (loader : Loader) (names : List String) (found : List ClassRef) :
    Keeps besideClasses (lookupAll loader names found) := by
  induction names generalizing found with
  | nil => exact .ok _
  | cons name names ih =>
    exact .attempt (.onFailure (ClassRef.releaseAll_keeps found) (lookup_keeps loader name))
      fun c => ih (c :: found)

theorem systemLoader_keeps (host : AgentHost) : Keeps besideClasses (Host.systemLoader host) := by
  cases host with
  | given h => exact .ofExcept h.system
  | machine connection => exact attemptLink_keeps _

theorem readClasspath_keeps (boot : Loader) (c : ClassRef) :
    Keeps besideClasses (Collector.readClasspath boot c) :=
  (Loader.readResource_keeps _ _).mapFailure

theorem classEntry_keeps (boot : Loader) (c : ClassRef) :
    Keeps besideClasses (classEntry boot c) := by
  refine .attempt (readClasspath_keeps boot c).mapFailure fun bytes => ?_
  cases bytes with
  | some bytes => exact .ok _
  | none => exact .throw _

theorem write_keeps (path agentClass : String) (classes : List (String × Bytes))
    (extra : List (String × String)) :
    Keeps besideBuilding (Artifact.write path agentClass classes extra) := by
  refine (Keeps.attempt ?_ fun _ => fillFile_keeps _ _).mapFailure
  unfold Artifact.makeParent
  split
  · exact .ok _
  · exact .ok _
  · exact workFiles_keeps _

theorem build_keeps (a : Agent) (agentClass : ClassRef) (companions : List ClassRef)
    (extra : List (String × String)) :
    Keeps besideBuilding (a.build agentClass companions extra) :=
  .attempt (building_of_classes (.mapM (fun c => classEntry_keeps _ c) _)) fun _ =>
    .attempt (write_keeps _ _ _ _) fun _ => .ok _

theorem buildConfigured_keeps (a : Agent) (agentClass : String) :
    Keeps besideBuilding (buildConfigured a agentClass) :=
  .attempt (building_of_classes (systemLoader_keeps a.host)) fun loader =>
    .attempt (building_of_classes (lookup_keeps loader agentClass)) fun agent =>
      .andAlways (building_of_classes agent.release_keeps) <|
        .attempt (building_of_classes (lookupAll_keeps loader _ _)) fun companions =>
          .andAlways (building_of_classes (ClassRef.releaseAll_keeps companions)) <|
            .attempt (build_keeps a agent companions []) fun _ => .ok _

theorem instrument_keeps (host : AgentHost) : Keeps handlesAndStanding (Host.instrument host) := by
  cases host with
  | given h => exact .ofExcept h.instrument
  | machine connection => exact Hook.install_keeps connection

theorem deliveredInstrument_keeps (delivered : Option Instrument) (host : AgentHost) :
    Keeps handlesAndStanding (Host.deliveredInstrument delivered host) := by
  cases host with
  | given h =>
    simp only [Host.deliveredInstrument]
    split
    · exact .throw _
    · exact .ok _
  | machine connection =>
    refine .attempt .get fun w => ?_
    split
    · exact .map _ (Hook.install_keeps connection)
    · exact .ok _

/-- What is done for an agent before it counts as attached. -/
theorem attachConfiguredJar_keeps (index : Nat) (a : Agent) (agentClass : String) :
    Keeps handlesAndStanding (attachConfiguredJar index a agentClass) := by
  have hattach : ∀ path args, Keeps handlesAndStanding (attachJar index path args) := fun path args =>
    .attempt (existing_keeps path) fun full => request_keeps index _
  refine .attempt .get fun w => ?_
  dsimp only
  split
  on_goal 2 => refine .attempt (keeps_of_building (buildConfigured_keeps a agentClass)) fun _ => ?_
  all_goals
    refine .andAlways ?_ (hattach _ _)
    split
    · exact Attach.removeQuietly_keeps _
    · exact .pure _

/-- No handle is filled by bringing an agent in. -/
theorem ensureAttached_keeps (index : Nat) : Keeps (·.handles) (ensureAttached index) := by
  have hmark : Keeps (·.handles)
      (World.updateAgent index fun a => { a with attached := true }) := fun _ => rfl
  refine .attempt (.lift (.bind .get fun _ => .pure _)) fun a => ?_
  cases a with
  | none => exact .ok _
  | some a =>
    dsimp only
    split
    · exact .ok _
    · split
      · exact .attempt (keeps_handles (.attempt (existing_keeps _) fun _ => request_keeps index _))
          fun _ => .lift hmark
      · exact .attempt (keeps_handles (attachConfiguredJar_keeps index a _)) fun _ => .lift hmark
      · exact .ok _

end Agent

/-- A source does not touch the handles that it is asked for. -/
theorem InstrumentSource.acquire_keeps (source : InstrumentSource) :
    Keeps (·.handles) source.acquire := by
  cases source with
  | fixed i => exact .ok i
  | unavailable reason => exact .throw _
  | answers index =>
    refine .attempt .get fun w => ?_
    split
    · exact .throw _
    · refine .attempt (.lift (.modify fun _ => rfl)) fun _ => ?_
      split
      · exact .ofExcept _
      · exact .throw _
  | agent index =>
    refine .attempt (.lift (.bind .get fun _ => .pure _)) fun a => ?_
    cases a with
    | none => exact .throw _
    | some a =>
      dsimp only
      split
      · exact keeps_handles (Agent.instrument_keeps a.host)
      · refine .attempt (Agent.ensureAttached_keeps index) fun _ =>
          .attempt (.lift (.bind .get fun _ => .pure _)) fun a' =>
          .attempt (keeps_handles (Agent.deliveredInstrument_keeps _ _)) fun found => ?_
        cases found with
        | some i => exact .ok i
        | none => exact .throw _

end ClassRecovery
