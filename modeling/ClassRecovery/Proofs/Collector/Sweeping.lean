import ClassRecovery.Proofs.Files.Permissions

/-!
Removals in a tree, by what is gone after them. Everything goes that nothing keeps, unless a
directory is met that holds something but does not tell. Removals of parts that lie beside each
other add up to one of the whole.
-/

namespace ClassRecovery.DumpTree

open FileSystem

/-- What was taken out along the paths below an entry of which `within` holds, and how that ended:
either everything is gone that nothing keeps, or a sealed directory was in the way. -/
structure Swept (fs : FileSystem) (parent : Nat) (name : String) (i : Nat)
    (within : List String → Prop) (gone : List (Nat × String)) (outcome : Except IoError Unit) :
    Prop where
  free : ∀ e ∈ gone, ∃ names, within names ∧ fs.link? parent name i names = some e ∧
    ¬fs.Kept parent i names
  ended : outcome = .ok () ∧ (∀ names, within names → ¬fs.Sealed parent i names ∧
      ∀ e, fs.link? parent name i names = some e → ¬fs.Kept parent i names → e ∈ gone) ∨
    outcome = .error .directoryNotEmpty ∧ ∃ names, within names ∧ fs.Sealed parent i names

variable {fs : FileSystem} {path name n : String} {parent i j mode : Nat}
  {within within' : List String → Prop} {gone first second : List (Nat × String)}
  {outcome : Except IoError Unit} {entries : List (String × Nat)}

namespace Swept

theorem complete (h : Swept fs parent name i within gone (.ok ())) {names : List String}
    (hnames : within names) : ¬fs.Sealed parent i names ∧
      ∀ e, fs.link? parent name i names = some e → ¬fs.Kept parent i names → e ∈ gone := by
  rcases h.ended with ⟨-, hall⟩ | ⟨hfault, -⟩
  · exact hall names hnames
  · cases hfault

theorem of_iff (h : Swept fs parent name i within gone outcome)
    (hiff : ∀ names, within' names ↔ within names) :
    Swept fs parent name i within' gone outcome := by
  rwa [show within' = within from funext fun names => propext (hiff names)]

/-- A fault stays one however much more was to be removed. -/
theorem mono {e : IoError} (h : Swept fs parent name i within gone (.error e))
    (hsub : ∀ names, within names → within' names) :
    Swept fs parent name i within' gone (.error e) := by
  refine ⟨fun entry he => ?_, ?_⟩
  · obtain ⟨names, hnames, hentry⟩ := h.free entry he
    exact ⟨names, hsub names hnames, hentry⟩
  · rcases h.ended with ⟨hok, -⟩ | ⟨hfault, names, hnames, hsealed⟩
    · cases hok
    · exact .inr ⟨hfault, names, hsub names hnames, hsealed⟩

/-- One removal after another. -/
theorem append (hfirst : Swept fs parent name i within first (.ok ()))
    (hsecond : Swept fs parent name i within' second outcome) :
    Swept fs parent name i (fun names => within names ∨ within' names) (first ++ second)
      outcome := by
  constructor
  · intro e he
    rcases List.mem_append.mp he with he | he
    · obtain ⟨names, hnames, hentry⟩ := hfirst.free e he
      exact ⟨names, .inl hnames, hentry⟩
    · obtain ⟨names, hnames, hentry⟩ := hsecond.free e he
      exact ⟨names, .inr hnames, hentry⟩
  · rcases hsecond.ended with ⟨hok, hall⟩ | ⟨hfault, names, hnames, hsealed⟩
    · refine .inl ⟨hok, fun names hnames => ?_⟩
      rcases hnames with hnames | hnames
      · obtain ⟨hsealed, hgone⟩ := hfirst.complete hnames
        exact ⟨hsealed, fun e he hfree => List.mem_append_left _ (hgone e he hfree)⟩
      · obtain ⟨hsealed, hgone⟩ := hall names hnames
        exact ⟨hsealed, fun e he hfree => List.mem_append_right _ (hgone e he hfree)⟩
    · exact .inr ⟨hfault, names, .inr hnames, hsealed⟩

/-- What happens to an entry of an open directory happens below that directory. -/
theorem child (hread : fs.lets i .read = true) (hsearch : fs.lets i .search = true)
    (hj : fs.descend? i [n] = some j) (h : Swept fs i n j (fun _ => True) gone outcome) :
    Swept fs parent name i (fun names => names.head? = some n) gone outcome := by
  constructor
  · intro e he
    obtain ⟨names, -, hentry, hfree⟩ := h.free e he
    refine ⟨n :: names, rfl, ?_, ?_⟩
    · rwa [link?_cons parent name hj]
    · rwa [kept_cons_iff hread hsearch hj]
  · rcases h.ended with ⟨hok, hall⟩ | ⟨hfault, names, -, hsealed⟩
    · refine .inl ⟨hok, fun names hnames => ?_⟩
      obtain ⟨names, rfl⟩ := List.head?_eq_some_iff.mp hnames
      rw [sealed_cons_iff hread hsearch hj, link?_cons parent name hj,
        kept_cons_iff hread hsearch hj]
      exact hall names trivial
    · exact .inr ⟨hfault, n :: names, rfl, (sealed_cons_iff hread hsearch hj).mpr hsealed⟩

/-- What was removed elsewhere before makes no difference. -/
theorem of_without (hclear : fs.Clear i first)
    (h : Swept (fs.without first) parent name i within gone outcome) :
    Swept fs parent name i within gone outcome := by
  obtain ⟨hfree, hended⟩ := h
  simp only [hclear.link?_eq, hclear.kept_iff, hclear.sealed_iff] at hfree hended
  exact ⟨hfree, hended⟩

end Swept

section Nothing

/-- Below what has no entries there is nothing to remove. -/
theorem swept_nil (h : ∀ names, within names → fs.descend? i names = none) :
    Swept fs parent name i within [] (.ok ()) := by
  refine ⟨by simp, .inl ⟨rfl, fun names hnames => ⟨?_, fun e he => ?_⟩⟩⟩
  · rintro ⟨j, -, -, -, hj, -⟩
    rw [h names hnames] at hj
    cases hj
  · have hsome := descend?_isSome_of_link? he
    rw [h names hnames] at hsome
    cases hsome

/-- A directory that may not be listed or searched keeps what it holds. -/
theorem swept_closed (h : fs.lets i .read = false ∨ fs.lets i .search = false) :
    Swept fs parent name i (· ≠ []) [] (.ok ()) := by
  refine ⟨by simp, .inl ⟨rfl, fun names hnames => ?_⟩⟩
  obtain ⟨n, names, rfl⟩ := List.exists_cons_of_ne_nil hnames
  exact ⟨not_sealed_of_closed h,
    fun e he hfree => absurd (kept_of_closed h (descend?_isSome_of_link? he)) hfree⟩

end Nothing

section Children

/-- Paths that start with none of these names. -/
def Beside (rest names : List String) : Prop := ∃ n ∈ names.head?, n ∉ rest

theorem beside_nil_iff {names : List String} : Beside [] names ↔ names ≠ [] := by
  cases names <;> simp [Beside]

theorem beside_iff {rest names : List String} (hn : n ∉ rest) :
    Beside rest names ↔ Beside (n :: rest) names ∨ names.head? = some n := by
  cases names with
  | nil => simp [Beside]
  | cons m names =>
    by_cases hm : m = n
    · simp [Beside, hm, hn]
    · simp [Beside, hm]

/-- What was taken out from below a directory is at that directory or below. -/
theorem Swept.below (h : Swept fs parent name i within gone outcome)
    (hwithin : ∀ names, within names → names ≠ []) :
    ∀ e ∈ gone, ∃ names, fs.descend? i names = some e.1 := by
  intro e he
  obtain ⟨names, hnames, hentry, -⟩ := h.free e he
  rcases link?_eq_some hentry with ⟨hnil, -⟩ | ⟨front, hfront, -⟩
  · exact absurd hnil (hwithin names hnames)
  · exact ⟨front, hfront⟩

theorem Swept.exists_child {rest : List String}
    (h : Swept fs parent name i (Beside rest) gone outcome) {e : Nat × String} (he : e ∈ gone) :
    ∃ m k, m ∉ rest ∧ fs.descend? i [m] = some k ∧ (e = (i, m) ∨
      ∃ front, fs.descend? k front = some e.1 ∧ fs.isDirectoryNode e.1 = true) := by
  obtain ⟨names, ⟨m, hm, hrest⟩, hentry, -⟩ := h.free e he
  obtain ⟨names, rfl⟩ := List.head?_eq_some_iff.mp hm
  obtain ⟨k, hk, hentry⟩ := Option.bind_eq_some_iff.mp hentry
  exact ⟨m, k, hrest, hk, (link?_eq_some hentry).imp_left And.right⟩

/-- The children of a directory do not share what is below them. -/
theorem Swept.clear_child {rest : List String} (htree : FileTree fs path i)
    (hi : fs.isDirectoryNode i = true) (hj : fs.descend? i [n] = some j) (hn : n ∈ rest)
    (h : Swept fs parent name i (Beside rest) gone outcome) :
    fs.Clear j gone ∧ (i, n) ∉ gone := by
  constructor
  · intro e he names hnames
    obtain ⟨m, k, hm, hk, rfl | ⟨front, hfront, hdirectory⟩⟩ := h.exists_child he
    · exact htree.ne_of_child hi hj names hnames
    · exact hm (htree.eq_of_children hj hk hnames hfront hdirectory ▸ hn)
  · intro hmem
    obtain ⟨m, k, hm, hk, heq | ⟨front, hfront, -⟩⟩ := h.exists_child hmem
    · exact hm ((Prod.mk.inj heq).2 ▸ hn)
    · exact htree.ne_of_child hi hk front hfront

/-- The one path to an entry of a directory. -/
theorem eq_singleton_of_link? (htree : FileTree fs path i) (hi : fs.isDirectoryNode i = true)
    {names : List String} (hnames : names ≠ [])
    (hentry : fs.link? parent name i names = some (i, n)) : names = [n] := by
  obtain ⟨m, names, rfl⟩ := List.exists_cons_of_ne_nil hnames
  obtain ⟨j, hj, hentry⟩ := Option.bind_eq_some_iff.mp hentry
  rcases link?_eq_some hentry with ⟨rfl, heq⟩ | ⟨front, hfront, -⟩
  · rw [(Prod.mk.inj heq).2]
  · exact absurd hfront (htree.ne_of_child hi hj front)

/-- What is left in a directory that could go keeps it. -/
theorem Swept.kept_nil_iff (htree : FileTree fs path i)
    (hnode : fs.node? i = some ⟨.directory entries, mode⟩) (hwrite : fs.lets parent .write = true)
    (h : Swept fs parent name i (· ≠ []) gone (.ok ())) :
    fs.Kept parent i [] ↔ (entries.filter fun e => (i, e.1) ∉ gone) ≠ [] := by
  have hi := isDirectoryNode_of_node? hnode
  constructor
  · rintro ⟨rest, hsome, hdenied⟩
    rw [List.nil_append] at hsome hdenied
    cases rest with
    | nil => exact absurd hdenied (by simp [Denied, hwrite])
    | cons n rest =>
      -- Something below the entry `n` stays, so `n` was not free to go.
      have hkept : fs.Kept parent i [n] := Kept.above rest ⟨[], by simpa, by simpa⟩
      obtain ⟨k, hk⟩ := Option.isSome_iff_exists.mp hsome
      rw [descend?_cons] at hk
      obtain ⟨j, hj, -⟩ := Option.bind_eq_some_iff.mp hk
      refine List.ne_nil_of_mem (List.mem_filter.mpr ⟨(htree.descend?_iff_mem hnode).mp hj, ?_⟩)
      refine decide_eq_true fun hmem => ?_
      obtain ⟨names, hnames, hentry, hfree⟩ := h.free _ hmem
      rw [eq_singleton_of_link? htree hi hnames hentry] at hfree
      exact hfree hkept
  · intro hne
    obtain ⟨⟨n, j⟩, hmem⟩ := List.exists_mem_of_ne_nil _ hne
    obtain ⟨hmem, hleft⟩ := List.mem_filter.mp hmem
    have hj := (htree.descend?_iff_mem hnode).mpr hmem
    have hentry : fs.link? parent name i [n] = some (i, n) := by
      rw [link?_cons parent name hj]
      rfl
    have hkept : fs.Kept parent i [n] := by
      by_contra hfree
      exact of_decide_eq_true hleft ((h.complete (List.cons_ne_nil n [])).2 _ hentry hfree)
    exact Kept.above [n] hkept

end Children

section Root

/-! The entry itself, when what was below it is done with. -/

theorem not_sealed_nil_of_denied (h : fs.lets parent .write = false) : ¬fs.Sealed parent i [] := by
  rintro ⟨-, -, -, -, -, -, -, hdenied⟩
  exact hdenied h

theorem not_sealed_nil_of_readable (h : fs.lets i .read = true) : ¬fs.Sealed parent i [] := by
  rintro ⟨j, -, -, -, hj, -, hread, -⟩
  cases hj
  rw [h] at hread
  cases hread

theorem kept_nil_of_denied (h : fs.lets parent .write = false) : fs.Kept parent i [] :=
  ⟨[], rfl, h⟩

theorem swept_kept (hkept : fs.Kept parent i []) (hsealed : ¬fs.Sealed parent i []) :
    Swept fs parent name i (· = []) [] (.ok ()) := by
  refine ⟨by simp, .inl ⟨rfl, ?_⟩⟩
  rintro names rfl
  exact ⟨hsealed, fun e he hfree => absurd hkept hfree⟩

theorem swept_free (hfree : ¬fs.Kept parent i []) :
    Swept fs parent name i (· = []) [(parent, name)] (.ok ()) := by
  constructor
  · intro e he
    cases List.mem_singleton.mp he
    exact ⟨[], rfl, rfl, hfree⟩
  · refine .inl ⟨rfl, ?_⟩
    rintro names rfl
    exact ⟨fun hsealed => hfree hsealed.kept,
      fun e he _ => List.mem_singleton.mpr (Option.some.inj he).symm⟩

theorem swept_sealed (hsealed : fs.Sealed parent i []) :
    Swept fs parent name i (· = []) [] (.error .directoryNotEmpty) :=
  ⟨by simp, .inr ⟨rfl, [], rfl, hsealed⟩⟩

end Root

end ClassRecovery.DumpTree
