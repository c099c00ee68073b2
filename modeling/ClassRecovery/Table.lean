/-!
Finite tables. A key has at most one value that can be seen, the one it was given last; `get?` is
the view that tells tables apart. Arrays, of which one element is changed at a time, are told apart
by their elements.
-/

namespace ClassRecovery

structure Table (κ α : Type) where
  entries : List (κ × α) := []
  deriving DecidableEq, Repr

namespace Table

variable {κ α : Type} [DecidableEq κ]

def find (k : κ) : List (κ × α) → Option α
  | [] => none
  | (k', v) :: rest => if k' = k then some v else find k rest

def get? (t : Table κ α) (k : κ) : Option α := find k t.entries

def erase (t : Table κ α) (k : κ) : Table κ α :=
  ⟨t.entries.filter fun e => !decide (e.1 = k)⟩

def put (t : Table κ α) (k : κ) (v : α) : Table κ α :=
  ⟨(k, v) :: (t.erase k).entries⟩

def ofList (l : List (κ × α)) : Table κ α :=
  l.foldl (fun t (k, v) => t.put k v) ⟨[]⟩

def keys (t : Table κ α) : List κ := t.entries.map (·.1)

def size (t : Table κ α) : Nat := t.entries.length

/-- Changes the value of a key that has one. -/
def update (t : Table κ α) (k : κ) (f : α → α) : Table κ α :=
  ⟨t.entries.map fun (k', v) => if k' = k then (k', f v) else (k', v)⟩

theorem find_filter_ne (k k' : κ) (l : List (κ × α)) :
    find k' (l.filter fun e => !decide (e.1 = k)) = if k' = k then none else find k' l := by
  induction l with
  | nil => simp [find]
  | cons e l ih =>
    obtain ⟨a, v⟩ := e
    by_cases ha : a = k
    · by_cases hk : k' = k
      · simpa [List.filter, ha, hk] using ih
      · have hk' : ¬ k = k' := fun h => hk h.symm
        simpa [List.filter, ha, hk, find, hk'] using ih
    · by_cases hk : k' = k
      · subst hk; simpa [List.filter, find, ha] using ih
      · simp only [hk, ↓reduceIte] at ih
        simp [List.filter, ha, hk, find, ih]

@[simp] theorem get?_empty (k : κ) : (⟨[]⟩ : Table κ α).get? k = none := rfl

theorem get?_erase (t : Table κ α) (k k' : κ) :
    (t.erase k).get? k' = if k' = k then none else t.get? k' :=
  find_filter_ne k k' t.entries

theorem get?_put (t : Table κ α) (k k' : κ) (v : α) :
    (t.put k v).get? k' = if k' = k then some v else t.get? k' := by
  by_cases h : k' = k
  · simp [put, get?, find, h]
  · have h' : ¬ k = k' := fun e => h e.symm
    simp [put, get?, find, h, h', erase, find_filter_ne]

theorem eq_empty_of_get? (t : Table κ α) (h : ∀ k, t.get? k = none) : t = ⟨[]⟩ := by
  obtain ⟨l⟩ := t
  cases l with
  | nil => rfl
  | cons e l => simpa [get?, find] using h e.1

theorem put_put (t : Table κ α) (k : κ) (v v' : α) : (t.put k v).put k v' = t.put k v' := by
  simp [put, erase, List.filter_filter]

theorem get?_update (t : Table κ α) (k k' : κ) (f : α → α) :
    (t.update k f).get? k' = if k' = k then (t.get? k).map f else t.get? k' := by
  obtain ⟨l⟩ := t
  simp only [update, get?]
  induction l with
  | nil => simp [find]
  | cons e l ih =>
    obtain ⟨a, v⟩ := e
    by_cases ha : a = k <;> by_cases hk : k' = k <;> simp_all [find]
    all_goals (split <;> simp_all [eq_comm])

end Table

section Modify

variable {α β : Type} {xs : Array α} {i : Nat} {f g : α → α}

/-- A view that an update does not change. -/
theorem map_getElem?_modify {view : α → β} (h : ∀ a, view (f a) = view a) (j : Nat) :
    (xs.modify i f)[j]?.map view = xs[j]?.map view := by
  rw [Array.getElem?_modify]
  split
  · simp [Function.comp_def, h]
  · rfl

theorem modify_modify (xs : Array α) (i : Nat) (f g : α → α) :
    (xs.modify i f).modify i g = xs.modify i (g ∘ f) := by
  apply Array.ext_getElem?
  intro j
  simp only [Array.getElem?_modify]
  split
  · rw [Option.map_map]
  · rfl

/-- Only what an update makes of the one element counts. -/
theorem modify_congr (h : ∀ a, xs[i]? = some a → f a = g a) : xs.modify i f = xs.modify i g := by
  apply Array.ext_getElem?
  intro j
  simp only [Array.getElem?_modify]
  split
  · next hij => exact Option.map_congr fun a ha => h a (hij ▸ ha)
  · rfl

end Modify

end ClassRecovery
