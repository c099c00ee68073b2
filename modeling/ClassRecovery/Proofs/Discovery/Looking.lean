import ClassRecovery.Proofs.Discovery.Closure

/-!
What a look into a class comes to, when it succeeds: the members, then the numbered classes that
were tried one by one, then the local classes among those that the class file refers to. A search is
such looks in a row, each of which puts what is new onto both lists.
-/

namespace ClassRecovery

section Runs

variable {σ ε α β : Type} {s s' : σ}

theorem bind_run_eq_ok {a : ExceptT ε (StateM σ) α} {f : α → ExceptT ε (StateM σ) β} {y : β} :
    (a >>= f) s = (.ok y, s') ↔ ∃ x s₁, a s = (.ok x, s₁) ∧ f x s₁ = (.ok y, s') := by
  rw [bind_apply]
  constructor
  · intro h
    rcases ha : a s with ⟨e | x, s₁⟩ <;> rw [ha] at h
    · cases h
    · exact ⟨x, s₁, rfl, h⟩
  · rintro ⟨x, s₁, ha, hf⟩
    rw [ha]
    exact hf

theorem onFailure_eq_ok {cleanup : StateM σ Unit} {a : ExceptT ε (StateM σ) α} {x : α} :
    onFailure cleanup a s = (.ok x, s') ↔ a s = (.ok x, s') := by
  unfold onFailure
  constructor
  · intro h
    rcases ha : a s with ⟨e | y, s₁⟩ <;> rw [ha] at h
    · cases h
    · exact h
  · intro h
    rw [h]

theorem mapFailure_eq_ok {δ : Type} {f : ε → δ} {a : ExceptT ε (StateM σ) α} {x : α} :
    mapFailure f a s = (.ok x, s') ↔ a s = (.ok x, s') := by
  unfold mapFailure
  constructor
  · intro h
    rcases ha : a s with ⟨e | y, s₁⟩ <;> rw [ha] at h
    · cases h
    · cases h
      rfl
  · intro h
    rw [h]

/-- What comes of attempts in a row comes of one of them. -/
theorem exists_of_mem_mapM {f : α → ExceptT ε (StateM σ) β} {xs : List α} {ys : List β} {y : β}
    (h : xs.mapM f s = (.ok ys, s')) (hy : y ∈ ys) :
    ∃ x ∈ xs, ∃ s₁ s₂, f x s₁ = (.ok y, s₂) := by
  induction xs generalizing ys s with
  | nil =>
    cases h
    cases hy
  | cons x xs ih =>
    rw [List.mapM_cons, bind_run_eq_ok] at h
    obtain ⟨first, s₁, hfirst, h⟩ := h
    obtain ⟨rest, s₂, hrest, h⟩ := bind_run_eq_ok.mp h
    cases h
    rcases List.mem_cons.mp hy with rfl | hy
    · exact ⟨x, List.mem_cons_self, s, s₁, hfirst⟩
    · obtain ⟨x', hx', hrun⟩ := ih hrest hy
      exact ⟨x', List.mem_cons_of_mem _ hx', hrun⟩

end Runs

namespace Discovery

section Worklist

variable {σ : Type} {direct : ClassRef → ExceptT Error (StateM σ) (List ClassRef)}
  {release : ClassRef → StateM σ Unit} {root : ClassRef} {found pending all : List ClassRef}
  {s s' : σ}

/-- The lists grow by the same classes, which were told. -/
theorem enlist_adds (release : ClassRef → StateM σ Unit) (root : ClassRef)
    (nested found pending : List ClassRef) (s : σ) :
    ∃ new ⊆ nested, (enlist release root nested found pending s).1 =
      (new ++ found, new ++ pending) := by
  induction nested generalizing found pending s with
  | nil => exact ⟨[], List.nil_subset _, rfl⟩
  | cons c nested ih =>
    rw [enlist]
    split
    · obtain ⟨new, hnew, hrun⟩ := ih found pending (release c s).2
      exact ⟨new, List.subset_cons_of_subset c hnew, hrun⟩
    · obtain ⟨new, hnew, hrun⟩ := ih (c :: found) (c :: pending) s
      refine ⟨new ++ [c], ?_, by rw [hrun]; simp⟩
      exact List.append_subset.mpr ⟨List.subset_cons_of_subset c hnew, by simp⟩

/-- What each look of a search keeps holds when the search has come to its end. -/
theorem explore_keeps (keep : List ClassRef → List ClassRef → σ → Prop) {fuel : Nat}
    (hlook : ∀ found outer pending s nested s₁, keep found (outer :: pending) s →
      direct outer s = (.ok nested, s₁) → ∀ found' pending' s₂,
        enlist release root nested found pending s₁ = ((found', pending'), s₂) →
          keep found' pending' s₂)
    (h : explore direct release root fuel found pending s = (.ok (some all), s'))
    (hkeep : keep found pending s) : ∃ found', all = found'.reverse ∧ keep found' [] s' := by
  induction fuel generalizing found pending s with
  | zero =>
    cases pending with
    | nil =>
      cases h
      exact ⟨found, rfl, hkeep⟩
    | cons outer pending => cases h
  | succ fuel ih =>
    cases pending with
    | nil =>
      cases h
      exact ⟨found, rfl, hkeep⟩
    | cons outer pending =>
      rcases hdirect : direct outer s with ⟨e | nested, s₁⟩
      · obtain ⟨s₂, hfailed⟩ := explore_failed release root found pending
          (show (direct outer s).1 = .error e by rw [hdirect])
        cases (hfailed fuel).symm.trans h
      · rw [explore_told hdirect rfl] at h
        exact ih h (hlook _ _ _ _ _ _ hkeep hdirect _ _ _ rfl)

end Worklist

/-- The name of a numbered class. -/
def numberedName (outer : String) (n : Nat) : String := outer ++ "$" ++ toString n

/-- Numbered classes are tried from `n` on, `left` of them at most, and these were found. -/
inductive Numbered (loader : Loader) (outer : String) (stop : ProbeStop) :
    (left n : Nat) → World → List ClassRef → World → Prop
  | done {n : Nat} {w : World} : Numbered loader outer stop 0 n w [] w
  | hit {left n : Nat} {w w₁ w' : World} {c : ClassRef} {cs : List ClassRef}
      (load : loader.load (numberedName outer n) w = (.ok (some c), w₁))
      (rest : Numbered loader outer stop left (n + 1) w₁ cs w') :
      Numbered loader outer stop (left + 1) n w (c :: cs) w'
  | miss {left n : Nat} {w w' : World} (first : stop = .firstMiss)
      (load : loader.load (numberedName outer n) w = (.ok none, w')) :
      Numbered loader outer stop (left + 1) n w [] w'
  | gap {left n : Nat} {w w₁ w' : World} {cs : List ClassRef} (first : stop ≠ .firstMiss)
      (load : loader.load (numberedName outer n) w = (.ok none, w₁))
      (rest : Numbered loader outer stop left (n + 1) w₁ cs w') :
      Numbered loader outer stop (left + 1) n w cs w'

/-- The name goes on behind the name of the class and a `$`. -/
def IsBelow (outer name : String) : Prop := (outer ++ "$").toList <+: name.toList

/-- Of the references that go on behind the name of the class, those to local classes were kept. -/
inductive Referred (loader : Loader) (outer : String) :
    List (Except ClassFile.Malformed String) → World → List ClassRef → World → Prop
  | nil {w : World} : Referred loader outer [] w [] w
  | beside {name : String} {refs : List (Except ClassFile.Malformed String)} {w w' : World}
      {cs : List ClassRef} (below : ¬ IsBelow outer name)
      (rest : Referred loader outer refs w cs w') :
      Referred loader outer (.ok name :: refs) w cs w'
  | absent {name : String} {refs : List (Except ClassFile.Malformed String)} {w w₁ w' : World}
      {cs : List ClassRef} (below : IsBelow outer name)
      (load : loader.load name w = (.ok none, w₁)) (rest : Referred loader outer refs w₁ cs w') :
      Referred loader outer (.ok name :: refs) w cs w'
  | kept {name : String} {refs : List (Except ClassFile.Malformed String)} {w w₁ w' : World}
      {c : ClassRef} {cs : List ClassRef} (below : IsBelow outer name)
      (load : loader.load name w = (.ok (some c), w₁)) (kind : c.kind = .local)
      (rest : Referred loader outer refs w₁ cs w') :
      Referred loader outer (.ok name :: refs) w (c :: cs) w'
  | other {name : String} {refs : List (Except ClassFile.Malformed String)} {w w₁ w' : World}
      {c : ClassRef} {cs : List ClassRef} (below : IsBelow outer name)
      (load : loader.load name w = (.ok (some c), w₁)) (kind : c.kind ≠ .local)
      (rest : Referred loader outer refs (c.release w₁).2 cs w') :
      Referred loader outer (.ok name :: refs) w cs w'

/-- What a class file refers to; a class whose bytes are not known refers to nothing. -/
def references (file : Option Bytes) : List (Except ClassFile.Malformed String) :=
  file.elim [] fun bytes => (ClassFile.References.ofBytes .qualified bytes).toList

/-- The loader that is asked for the classes nested in a class. -/
def asked (s : Settings) (outer : ClassRef) : Option Loader := outer.loader.orElse fun _ => s.boot

/-- What a look into a class gave, by where it comes from. -/
inductive Looks (s : Settings) (outer : ClassRef) :
    World → (declared numbered referred : List ClassRef) → World → Prop
  | members {w w' : World} {declared : List ClassRef}
      (members : outer.members w = (.ok declared, w')) (loader : asked s outer = none) :
      Looks s outer w declared [] [] w'
  | whole {w w₁ w₂ w₃ w' : World} {declared numbered referred : List ClassRef} {loader : Loader}
      {file : Option Bytes} (members : outer.members w = (.ok declared, w₁))
      (asked : asked s outer = some loader)
      (probe : Numbered loader outer.name s.probe.stop s.probe.max 1 w₁ numbered w₂)
      (bytes : s.chain.get (some outer) w₂ = (.ok file, w₃))
      (locals : Referred loader outer.name (references file) w₃ referred w') :
      Looks s outer w declared numbered referred w'

variable {s : Settings} {loader : Loader} {outer : ClassRef} {name : String} {stop : ProbeStop}
  {w w' : World}

theorem holding_eq_ok {α : Type} {cs : List ClassRef} {a : Attempt Error α} {x : α} :
    holding cs a w = (.ok x, w') ↔ a w = (.ok x, w') :=
  onFailure_eq_ok

theorem exists_numbered {left n : Nat} {found cs : List ClassRef}
    (h : probe loader name stop left n found w = (.ok cs, w')) :
    ∃ more, cs = found.reverse ++ more ∧ Numbered loader name stop left n w more w' := by
  induction left generalizing n found w with
  | zero =>
    cases h
    exact ⟨[], (List.append_nil _).symm, .done⟩
  | succ left ih =>
    rw [probe, bind_run_eq_ok] at h
    obtain ⟨answer, w₁, hload, h⟩ := h
    rw [holding_eq_ok] at hload
    cases answer with
    | some c =>
      obtain ⟨more, rfl, hmore⟩ := ih h
      exact ⟨c :: more, by simp, .hit hload hmore⟩
    | none =>
      dsimp only at h
      split at h
      · next hstop =>
        cases h
        exact ⟨[], (List.append_nil _).symm, .miss hstop hload⟩
      · next hstop =>
        obtain ⟨more, rfl, hmore⟩ := ih h
        exact ⟨more, rfl, .gap hstop hload hmore⟩

theorem Numbered.probe_eq {left n : Nat} {more : List ClassRef}
    (h : Numbered loader name stop left n w more w') (found : List ClassRef) :
    probe loader name stop left n found w = (.ok (found.reverse ++ more), w') := by
  induction h generalizing found with
  | done =>
    rw [List.append_nil]
    rfl
  | @hit _ _ _ _ _ c _ hload _ ih =>
    rw [probe]
    refine bind_run_eq_ok.mpr ⟨some c, _, holding_eq_ok.mpr hload, ?_⟩
    simpa using ih (c :: found)
  | miss hstop hload =>
    rw [probe]
    refine bind_run_eq_ok.mpr ⟨none, _, holding_eq_ok.mpr hload, ?_⟩
    simp only [hstop, ↓reduceIte, List.append_nil]
    rfl
  | gap hstop hload _ ih =>
    rw [probe]
    refine bind_run_eq_ok.mpr ⟨none, _, holding_eq_ok.mpr hload, ?_⟩
    simp only [hstop, ↓reduceIte]
    exact ih found

theorem exists_referred {refs : List (Except ClassFile.Malformed String)}
    {found cs : List ClassRef} (h : locals loader name refs found w = (.ok cs, w')) :
    ∃ more, cs = found.reverse ++ more ∧ Referred loader name refs w more w' := by
  induction refs generalizing found w with
  | nil =>
    cases h
    exact ⟨[], (List.append_nil _).symm, .nil⟩
  | cons ref refs ih =>
    cases ref with
    | error m =>
      rw [locals, holding_eq_ok] at h
      cases h
    | ok other =>
      rw [locals] at h
      split at h
      · next hbelow =>
        replace hbelow : IsBelow name other := List.isPrefixOf_iff_prefix.mp hbelow
        obtain ⟨answer, w₁, hload, h⟩ := bind_run_eq_ok.mp h
        rw [holding_eq_ok] at hload
        cases answer with
        | none =>
          obtain ⟨more, rfl, hmore⟩ := ih h
          exact ⟨more, rfl, .absent hbelow hload hmore⟩
        | some c =>
          dsimp only at h
          split at h
          · next hkind =>
            obtain ⟨more, rfl, hmore⟩ := ih h
            exact ⟨c :: more, by simp, .kept hbelow hload hkind hmore⟩
          · next hkind =>
            obtain ⟨more, rfl, hmore⟩ := ih h
            exact ⟨more, rfl, .other hbelow hload hkind hmore⟩
      · next hbelow =>
        obtain ⟨more, rfl, hmore⟩ := ih h
        exact ⟨more, rfl, .beside (mt List.isPrefixOf_iff_prefix.mpr hbelow) hmore⟩

theorem Referred.locals_eq {refs : List (Except ClassFile.Malformed String)}
    {more : List ClassRef} (h : Referred loader name refs w more w') (found : List ClassRef) :
    locals loader name refs found w = (.ok (found.reverse ++ more), w') := by
  induction h generalizing found with
  | nil =>
    rw [List.append_nil]
    rfl
  | beside hbelow _ ih =>
    rw [locals, if_neg (mt List.isPrefixOf_iff_prefix.mp hbelow)]
    exact ih found
  | absent hbelow hload _ ih =>
    rw [locals, if_pos (List.isPrefixOf_iff_prefix.mpr hbelow)]
    exact bind_run_eq_ok.mpr ⟨none, _, holding_eq_ok.mpr hload, ih found⟩
  | @kept _ _ _ _ _ c _ hbelow hload hkind _ ih =>
    rw [locals, if_pos (List.isPrefixOf_iff_prefix.mpr hbelow)]
    refine bind_run_eq_ok.mpr ⟨some c, _, holding_eq_ok.mpr hload, ?_⟩
    simp only [hkind, ↓reduceIte]
    simpa using ih (c :: found)
  | @other _ _ _ _ _ c _ hbelow hload hkind _ ih =>
    rw [locals, if_pos (List.isPrefixOf_iff_prefix.mpr hbelow)]
    refine bind_run_eq_ok.mpr ⟨some c, _, holding_eq_ok.mpr hload, ?_⟩
    simp only [hkind, ↓reduceIte]
    exact ih found

theorem exists_looks {nested : List ClassRef} (h : direct s outer w = (.ok nested, w')) :
    ∃ declared numbered referred, nested = declared ++ numbered ++ referred ∧
      Looks s outer w declared numbered referred w' := by
  unfold direct at h
  obtain ⟨declared, w₁, hmembers, h⟩ := bind_run_eq_ok.mp h
  cases hasked : asked s outer with
  | none =>
    rw [asked] at hasked
    rw [hasked] at h
    cases h
    exact ⟨_, [], [], by simp, .members hmembers hasked⟩
  | some loader =>
    rw [asked] at hasked
    rw [hasked] at h
    obtain ⟨numbered, w₂, hprobe, h⟩ := bind_run_eq_ok.mp h
    obtain ⟨_, rfl, hprobe⟩ := exists_numbered (holding_eq_ok.mp hprobe)
    obtain ⟨file, w₃, hbytes, h⟩ := bind_run_eq_ok.mp h
    have hlooks : ∀ {referred w'}, Referred loader outer.name (references file) w₃ referred w' →
        Looks s outer w declared numbered referred w' :=
      .whole hmembers hasked hprobe (holding_eq_ok.mp hbytes)
    cases file with
    | none =>
      cases h
      exact ⟨declared, _, [], by simp, hlooks .nil⟩
    | some bytes =>
      obtain ⟨referred, w₄, hlocals, h⟩ := bind_run_eq_ok.mp h
      obtain ⟨_, rfl, hlocals⟩ := exists_referred (holding_eq_ok.mp hlocals)
      cases h
      exact ⟨declared, _, _, rfl, hlooks hlocals⟩

theorem Looks.direct_eq {declared numbered referred : List ClassRef}
    (h : Looks s outer w declared numbered referred w') :
    direct s outer w = (.ok (declared ++ numbered ++ referred), w') := by
  unfold direct
  cases h with
  | members hmembers hasked =>
    refine bind_run_eq_ok.mpr ⟨declared, w', hmembers, ?_⟩
    rw [asked] at hasked
    rw [hasked]
    simp only [List.append_nil]
    rfl
  | @whole w₁ w₂ w₃ _ _ _ _ loader file hmembers hasked hprobe hbytes hlocals =>
    refine bind_run_eq_ok.mpr ⟨declared, w₁, hmembers, ?_⟩
    rw [asked] at hasked
    rw [hasked]
    refine bind_run_eq_ok.mpr ⟨numbered, w₂, holding_eq_ok.mpr (hprobe.probe_eq []), ?_⟩
    refine bind_run_eq_ok.mpr ⟨file, w₃, holding_eq_ok.mpr hbytes, ?_⟩
    cases file with
    | none =>
      cases hlocals
      simp only [List.append_nil]
      rfl
    | some bytes =>
      exact bind_run_eq_ok.mpr ⟨referred, w', holding_eq_ok.mpr (hlocals.locals_eq []), rfl⟩

/-- A look tells the members, the numbered classes and the local ones, in this order. -/
theorem direct_eq_ok_iff {nested : List ClassRef} : direct s outer w = (.ok nested, w') ↔
    ∃ declared numbered referred, nested = declared ++ numbered ++ referred ∧
      Looks s outer w declared numbered referred w' := by
  refine ⟨exists_looks, ?_⟩
  rintro ⟨_, _, _, rfl, hlooks⟩
  exact hlooks.direct_eq

/-- A search that succeeds is one of a class that can have others nested in it. -/
theorem explore_of_find {fuel : Nat} {r : Option (List ClassRef)}
    (h : find s fuel (some outer) w = (.ok r, w')) :
    explore (direct s) ClassRef.release outer fuel [] [outer] w = (.ok r, w') := by
  unfold find at h
  dsimp only at h
  split at h
  · cases h
  · exact h

end Discovery

end ClassRecovery
