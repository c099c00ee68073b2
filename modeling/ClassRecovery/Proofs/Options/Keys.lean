import Mathlib
import ClassRecovery.Options

/-!
Options are fields that know nothing of one another. A key stands for one field and says how its
value is read; to set it either fails without a trace or writes that field. So of many settings the
last one for each key counts, and the order of different keys does not.
-/

namespace ClassRecovery.Options

/-- The fields of the options, each of which has a key. -/
inductive Key
  | classpathEnabled
  | classpathPriority
  | dumperEnabled
  | dumperPriority
  | dumperDirectory
  | instrumentationEnabled
  | instrumentationPriority
  | agentDirectory
  | agentFile
  | agentCache
  | agentClass
  | agentCompanions
  | agentLibrary
  | agentArgs
  | toolsPath
  | probeMax
  | probeStop
  deriving DecidableEq

namespace Key

def text : Key → String
  | classpathEnabled => "classpath.enabled"
  | classpathPriority => "classpath.priority"
  | dumperEnabled => "dumper.enabled"
  | dumperPriority => "dumper.priority"
  | dumperDirectory => "dumper.directory"
  | instrumentationEnabled => "instrumentation.enabled"
  | instrumentationPriority => "instrumentation.priority"
  | agentDirectory => "agent.directory"
  | agentFile => "agent.file"
  | agentCache => "agent.cache"
  | agentClass => "agent.class"
  | agentCompanions => "agent.companions"
  | agentLibrary => "agent.library"
  | agentArgs => "agent.args"
  | toolsPath => "tools.path"
  | probeMax => "probe.max"
  | probeStop => "probe.stop"

def Value : Key → Type
  | classpathEnabled | dumperEnabled | instrumentationEnabled => Bool
  | classpathPriority | dumperPriority | instrumentationPriority => Int
  | dumperDirectory | agentDirectory | agentFile | agentArgs => String
  | agentClass | agentLibrary | toolsPath => Option String
  | agentCompanions => List String
  | agentCache => ArtifactPolicy
  | probeMax => Nat
  | probeStop => ProbeStop

def get : (k : Key) → Options → k.Value
  | classpathEnabled, o => o.classpath.enabled
  | classpathPriority, o => o.classpath.priority
  | dumperEnabled, o => o.dumper.enabled
  | dumperPriority, o => o.dumper.priority
  | dumperDirectory, o => o.dumpDirectory
  | instrumentationEnabled, o => o.instrumentation.enabled
  | instrumentationPriority, o => o.instrumentation.priority
  | agentDirectory, o => o.agent.directory
  | agentFile, o => o.agent.fileName
  | agentCache, o => o.agent.cache
  | agentClass, o => o.agent.agentClass
  | agentCompanions, o => o.agent.companions
  | agentLibrary, o => o.agent.library
  | agentArgs, o => o.agent.args
  | toolsPath, o => o.toolsPath
  | probeMax, o => o.probe.max
  | probeStop, o => o.probe.stop

def write : (k : Key) → Options → k.Value → Options
  | classpathEnabled, o, v => { o with classpath.enabled := v }
  | classpathPriority, o, v => { o with classpath.priority := v }
  | dumperEnabled, o, v => { o with dumper.enabled := v }
  | dumperPriority, o, v => { o with dumper.priority := v }
  | dumperDirectory, o, v => { o with dumpDirectory := v }
  | instrumentationEnabled, o, v => { o with instrumentation.enabled := v }
  | instrumentationPriority, o, v => { o with instrumentation.priority := v }
  | agentDirectory, o, v => { o with agent.directory := v }
  | agentFile, o, v => { o with agent.fileName := v }
  | agentCache, o, v => { o with agent.cache := v }
  | agentClass, o, v => { o with agent.agentClass := v }
  | agentCompanions, o, v => { o with agent.companions := v }
  | agentLibrary, o, v => { o with agent.library := v }
  | agentArgs, o, v => { o with agent.args := v }
  | toolsPath, o, v => { o with toolsPath := v }
  | probeMax, o, v => { o with probe.max := v }
  | probeStop, o, v => { o with probe.stop := v }

/-- How the text of a value is understood. -/
def read (k : Key) (value : String) : Except Fault k.Value :=
  match k with
  | classpathEnabled | dumperEnabled | instrumentationEnabled => readBool k.text value
  | classpathPriority | dumperPriority | instrumentationPriority => readPriority k.text value
  | dumperDirectory | agentDirectory => readNonEmpty k.text value
  | agentFile => readFileName value
  | agentCache => readPolicy value
  | agentClass | agentLibrary | toolsPath => (readNonEmpty k.text value).map some
  | agentCompanions => .ok (readCompanions value)
  | agentArgs => .ok value
  | probeMax => readCount k.text value
  | probeStop => readStop value

variable {k k' : Key} {o o' : Options}

theorem text_injective : Function.Injective text := by
  intro k k' h
  cases k <;> cases k' <;> first | rfl | exact absurd h (by decide)

theorem get_write (k : Key) (o : Options) (v : k.Value) : k.get (k.write o v) = v := by
  cases k <;> rfl

theorem get_write_of_ne (h : k' ≠ k) (o : Options) (v : k.Value) :
    k'.get (k.write o v) = k'.get o := by
  cases k <;> cases k' <;> first | rfl | exact absurd rfl h

/-- The fields are all there is to options. -/
theorem options_ext (h : ∀ k : Key, k.get o = k.get o') : o = o' := by
  rcases o with ⟨⟨_, _⟩, ⟨_, _⟩, _, ⟨_, _⟩, ⟨_, _, _, _, _, _, _⟩, _, _, _⟩
  rcases o' with ⟨⟨_, _⟩, ⟨_, _⟩, _, ⟨_, _⟩, ⟨_, _, _, _, _, _, _⟩, _, _, _⟩
  simp only [Options.mk.injEq, CollectorOptions.mk.injEq, AgentOptions.mk.injEq,
    ProbeOptions.mk.injEq]
  exact ⟨⟨h classpathEnabled, h classpathPriority⟩, ⟨h dumperEnabled, h dumperPriority⟩,
    h dumperDirectory, ⟨h instrumentationEnabled, h instrumentationPriority⟩,
    ⟨h agentDirectory, h agentFile, h agentCache, h agentClass, h agentLibrary,
      h agentCompanions, h agentArgs⟩,
    h toolsPath, h probeMax, h probeStop⟩

end Key

variable {key value : String}

theorem store_map {α β : Type} (o : Options) (read : Except Fault α) (f : α → β)
    (write : β → Options) : o.store (read.map f) write = o.store read fun v => write (f v) := by
  cases read <;> rfl

/-- To set an option is to read its value and to write its field. -/
theorem put_text (o : Options) (k : Key) (value : String) :
    o.put k.text value = o.store (k.read value) (k.write o) := by
  cases k with
  | agentClass => exact (store_map o (readNonEmpty _ value) some (Key.agentClass.write o)).symm
  | agentLibrary => exact (store_map o (readNonEmpty _ value) some (Key.agentLibrary.write o)).symm
  | toolsPath => exact (store_map o (readNonEmpty _ value) some (Key.toolsPath.write o)).symm
  | _ => rfl

theorem put_of_unknown (o : Options) (value : String) (h : ∀ k : Key, k.text ≠ key) :
    o.put key value = (o, .error (.unknownKey key)) := by
  unfold put
  split
  exacts [absurd rfl (h .classpathEnabled), absurd rfl (h .classpathPriority),
    absurd rfl (h .dumperEnabled), absurd rfl (h .dumperPriority), absurd rfl (h .dumperDirectory),
    absurd rfl (h .instrumentationEnabled), absurd rfl (h .instrumentationPriority),
    absurd rfl (h .agentDirectory), absurd rfl (h .agentFile), absurd rfl (h .agentCache),
    absurd rfl (h .agentClass), absurd rfl (h .agentCompanions), absurd rfl (h .agentLibrary),
    absurd rfl (h .agentArgs), absurd rfl (h .toolsPath), absurd rfl (h .probeMax),
    absurd rfl (h .probeStop), rfl]

/-- All that setting an option can come to, whatever the options are. -/
theorem put_cases (key value : String) :
    (∃ fault, ∀ o : Options, o.put key value = (o, .error fault)) ∨
      ∃ k : Key, k.text = key ∧ ∃ v, k.read value = .ok v ∧
        ∀ o : Options, o.put key value = (k.write o v, .ok ()) := by
  by_cases hknown : ∃ k : Key, k.text = key
  · obtain ⟨k, rfl⟩ := hknown
    cases hread : k.read value with
    | error fault => exact .inl ⟨fault, fun o => by rw [put_text, hread, store]⟩
    | ok v => exact .inr ⟨k, rfl, v, hread, fun o => by rw [put_text, hread, store]⟩
  · exact .inl ⟨_, fun o => put_of_unknown o value fun k hk => hknown ⟨k, hk⟩⟩

/-! ### Many settings -/

/-- Sets one option after the other, up to the first fault. -/
def putAll (o : Options) : List (String × String) → Change
  | [] => (o, .ok ())
  | (key, value) :: rest => goOn (o.put key value) fun o' => putAll o' rest

/-- The option can be set so, whatever the options are. -/
def Accepted (key value : String) : Prop := ∀ o : Options, (o.put key value).2 = .ok ()

/-- The value that a key was given last. -/
def lastValue (key : String) (settings : List (String × String)) : Option String :=
  ((settings.filter (·.1 = key)).map (·.2)).getLast?

variable {o : Options} {settings settings' : List (String × String)}

/-- Whether an option can be set does not depend on the options. -/
theorem accepted_iff (o : Options) : Accepted key value ↔ (o.put key value).2 = .ok () := by
  refine ⟨fun h => h o, fun h o' => ?_⟩
  rcases put_cases key value with ⟨fault, hput⟩ | ⟨k, -, v, -, hput⟩
  · rw [hput] at h
    cases h
  · rw [hput]

theorem goOn_of_ok {r : Change} (h : r.2 = .ok ()) (f : Options → Change) : goOn r f = f r.1 := by
  obtain ⟨o, r⟩ := r
  obtain rfl : r = .ok () := h
  rfl

theorem goOn_of_error {r : Change} (h : r.2 ≠ .ok ()) (f : Options → Change) : goOn r f = r := by
  obtain ⟨o, fault | ⟨⟩⟩ := r
  · rfl
  · exact absurd rfl h

theorem goOn_done (r : Change) : goOn r (fun o => (o, .ok ())) = r := by
  obtain ⟨o, fault | ⟨⟩⟩ := r <;> rfl

theorem goOn_goOn (r : Change) (f g : Options → Change) :
    goOn (goOn r f) g = goOn r fun o => goOn (f o) g := by
  obtain ⟨o, fault | ⟨⟩⟩ := r <;> rfl

theorem putAll_append (o : Options) (before after : List (String × String)) :
    o.putAll (before ++ after) = goOn (o.putAll before) (·.putAll after) := by
  induction before generalizing o with
  | nil => rfl
  | cons s before ih => simp only [List.cons_append, putAll, goOn_goOn, ih]

theorem putAll_ok_iff (o : Options) :
    (o.putAll settings).2 = .ok () ↔ ∀ s ∈ settings, Accepted s.1 s.2 := by
  induction settings generalizing o with
  | nil => simp [putAll]
  | cons s rest ih =>
    obtain ⟨key, value⟩ := s
    rw [List.forall_mem_cons, putAll, accepted_iff o]
    rcases put_cases key value with ⟨fault, hput⟩ | ⟨k, -, v, -, hput⟩
    · rw [hput]
      exact ⟨fun h => (by cases h), fun h => (by cases h.1)⟩
    · rw [hput]
      exact (ih _).trans ⟨fun h => ⟨rfl, h⟩, fun h => h.2⟩

theorem lastValue_concat (key : String) (settings : List (String × String))
    (s : String × String) :
    lastValue key (settings ++ [s]) = if s.1 = key then some s.2 else lastValue key settings := by
  unfold lastValue
  by_cases hs : s.1 = key <;> simp [hs]

/-- A setting makes no difference if its key is set again later. -/
theorem lastValue_of_later {before after : List (String × String)} (h : key ∈ after.map (·.1))
    (value key' : String) :
    lastValue key' (before ++ (key, value) :: after) = lastValue key' (before ++ after) := by
  by_cases hkey : key = key'
  · subst hkey
    obtain ⟨s, hs, hs'⟩ := List.mem_map.mp h
    have hne : (after.filter (·.1 = key)).map (·.2) ≠ [] :=
      List.ne_nil_of_mem (List.mem_map_of_mem (List.mem_filter.mpr ⟨hs, by simpa using hs'⟩))
    simp only [lastValue, List.filter_append, List.filter_cons, decide_true, if_true,
      List.map_append, List.map_cons]
    rw [List.getLast?_append_of_ne_nil _ hne, List.getLast?_append_of_ne_nil _ (by simp),
      List.getLast?_cons_of_ne_nil hne]
  · simp [lastValue, hkey]

/-- Of all the settings the last one for a field tells what it holds; a field without one stays. -/
theorem get_putAll (h : ∀ s ∈ settings, Accepted s.1 s.2) (o : Options) (k : Key) :
    (lastValue k.text settings = none → k.get (o.putAll settings).1 = k.get o) ∧
      ∀ value, lastValue k.text settings = some value →
        k.read value = .ok (k.get (o.putAll settings).1) := by
  induction settings using List.reverseRecOn with
  | nil => exact ⟨fun _ => rfl, fun value h => (by cases h)⟩
  | append_singleton settings s ih =>
    obtain ⟨key, value⟩ := s
    obtain ⟨hbefore, hs⟩ := List.forall_mem_append.mp h
    obtain ⟨hnone, hsome⟩ := ih hbefore
    have hstep : o.putAll (settings ++ [(key, value)]) = (o.putAll settings).1.put key value := by
      rw [putAll_append, goOn_of_ok ((putAll_ok_iff o).mpr hbefore)]
      exact goOn_done _
    have haccepted : Accepted key value := hs _ List.mem_cons_self
    rw [lastValue_concat, hstep]
    rcases put_cases key value with ⟨fault, hput⟩ | ⟨k', rfl, v, hread, hput⟩
    · have hok := haccepted o
      rw [hput] at hok
      cases hok
    · rw [hput]
      by_cases hk : k = k'
      · subst hk
        rw [if_pos rfl, Key.get_write]
        refine ⟨fun h => (by cases h), fun value' h => ?_⟩
        obtain rfl : value = value' := Option.some.inj h
        exact hread
      · have htext : k'.text ≠ k.text := fun h => hk (Key.text_injective h).symm
        rw [if_neg htext, Key.get_write_of_ne hk]
        exact ⟨hnone, hsome⟩

/-- Settings that can be made and that agree on the last value of each key come to the same. -/
theorem putAll_eq_of_lastValue (h : ∀ s ∈ settings, Accepted s.1 s.2)
    (h' : ∀ s ∈ settings', Accepted s.1 s.2)
    (hlast : ∀ key, lastValue key settings = lastValue key settings') (o : Options) :
    o.putAll settings = o.putAll settings' := by
  refine Prod.ext (Key.options_ext fun k => ?_)
    (((putAll_ok_iff o).mpr h).trans ((putAll_ok_iff o).mpr h').symm)
  obtain ⟨hnone, hsome⟩ := get_putAll h o k
  obtain ⟨hnone', hsome'⟩ := get_putAll h' o k
  rw [← hlast] at hnone' hsome'
  cases hvalue : lastValue k.text settings with
  | none => rw [hnone hvalue, hnone' hvalue]
  | some value => exact Except.ok.inj ((hsome value hvalue).symm.trans (hsome' value hvalue))

/-- The keys name all fields there are. To set one fails or succeeds whatever the options are; a
failure leaves them as they were, and a success changes one field at most, to a value that the
texts alone decide. So of settings that all succeed the last value for each key counts: keys may
change places, and what a key was given before may be left out. -/
theorem last_value_counts :
    (∀ o o' : Options, (∀ k : Key, k.get o = k.get o') → o = o') ∧
    (∀ (key value : String) (o o' : Options), (o.put key value).2 = (o'.put key value).2) ∧
    (∀ (key value : String) (o : Options), (o.put key value).2 ≠ .ok () →
      (o.put key value).1 = o) ∧
    (∀ key value : String, Accepted key value → ∃ k : Key, k.text = key ∧ ∃ v : k.Value,
      ∀ o : Options, k.get (o.put key value).1 = v ∧
        ∀ k' ≠ k, k'.get (o.put key value).1 = k'.get o) ∧
    (∀ (o : Options) (settings settings' : List (String × String)),
      (o.putAll settings).2 = .ok () → (o.putAll settings').2 = .ok () →
      (∀ key, lastValue key settings = lastValue key settings') →
      o.putAll settings = o.putAll settings') ∧
    (∀ (o : Options) (settings settings' : List (String × String)),
      (o.putAll settings).2 = .ok () →
      (∀ key, settings.filter (·.1 = key) = settings'.filter (·.1 = key)) →
      o.putAll settings = o.putAll settings') ∧
    ∀ (o : Options) (before after : List (String × String)) (key value : String),
      (o.putAll (before ++ (key, value) :: after)).2 = .ok () → key ∈ after.map (·.1) →
      o.putAll (before ++ (key, value) :: after) = o.putAll (before ++ after) := by
  refine ⟨fun o o' => Key.options_ext, fun key value o o' => ?_, fun key value o h => ?_,
    fun key value h => ?_, fun o settings settings' h h' => ?_, fun o settings settings' h hsame =>
    ?_, fun o before after key value h hlater => ?_⟩
  · rcases put_cases key value with ⟨fault, hput⟩ | ⟨k, -, v, -, hput⟩ <;> rw [hput, hput]
  · rcases put_cases key value with ⟨fault, hput⟩ | ⟨k, -, v, -, hput⟩
    · rw [hput]
    · rw [hput] at h
      exact absurd rfl h
  · rcases put_cases key value with ⟨fault, hput⟩ | ⟨k, hk, v, -, hput⟩
    · have hok := h {}
      rw [hput] at hok
      cases hok
    · refine ⟨k, hk, v, fun o => ?_⟩
      rw [hput]
      exact ⟨k.get_write o v, fun k' hne => Key.get_write_of_ne hne o v⟩
  · rw [putAll_ok_iff] at h h'
    exact fun hlast => putAll_eq_of_lastValue h h' hlast o
  · rw [putAll_ok_iff] at h
    refine putAll_eq_of_lastValue h (fun s hs => h s ?_) (fun key => ?_) o
    · have hmem : s ∈ settings'.filter (·.1 = s.1) := List.mem_filter.mpr ⟨hs, by simp⟩
      rw [← hsame] at hmem
      exact List.mem_of_mem_filter hmem
    · rw [lastValue, hsame, lastValue]
  · rw [putAll_ok_iff] at h
    refine putAll_eq_of_lastValue h (fun s hs => h s ?_) (lastValue_of_later hlater value) o
    simp only [List.mem_append, List.mem_cons] at hs ⊢
    tauto

/-- A ceiling is given twice, and something else in between. -/
def ceilingTwice : List (String × String) :=
  [("probe.max", "7"), ("agent.args", "x"), ("probe.max", "9")]

theorem last_value_counts_ceilingTwice :
    (({} : Options).putAll ceilingTwice).2 = .ok () ∧
      ({} : Options).putAll ceilingTwice =
        ({} : Options).putAll [("agent.args", "x"), ("probe.max", "9")] := by
  have hok : (({} : Options).putAll ceilingTwice).2 = .ok () := by decide
  obtain ⟨-, -, -, -, -, -, hdrop⟩ := last_value_counts
  exact ⟨hok, hdrop {} [] [("agent.args", "x"), ("probe.max", "9")] "probe.max" "7" hok (by decide)⟩

end ClassRecovery.Options
