import ClassRecovery.Proofs.Attach.Request
import ClassRecovery.Proofs.Options.Keys
import ClassRecovery.Proofs.Text.Separated

/-!
What an option text says: one item for each piece between commas that is not blank. Applying the
text is to do what its items ask for, from left to right up to the first fault, so two texts with a
comma between them are applied one after the other, and blanks and blank pieces do not count.
-/

namespace ClassRecovery.Options

open Text (Blank Trimmed)

/-- What a piece of an option text asks for. -/
inductive Item
  | pair (key value : String)
  /-- Text without an equals sign, which sets nothing. -/
  | bare (text : String)
  deriving DecidableEq, Repr

/-- Does what an item asks for. -/
def enter (o : Options) : Item → Change
  | .pair key value => o.put key value
  | .bare text => (o, .error (.notAPair text))

/-- How an item is written. Blanks may stand around it, and around the equals sign; the key ends at
the first one. -/
inductive Spells : Item → String → Prop
  | pair {l key m n value r : String} (hl : Blank l) (hkey : Trimmed key.toList)
      (hequals : '=' ∉ key.toList) (hm : Blank m) (hn : Blank n) (hvalue : Trimmed value.toList)
      (hr : Blank r) : Spells (.pair key value) (l ++ key ++ m ++ "=" ++ (n ++ value ++ r))
  | bare {l text r : String} (hl : Blank l) (htext : Trimmed text.toList) (hne : text ≠ "")
      (hequals : '=' ∉ text.toList) (hr : Blank r) : Spells (.bare text) (l ++ text ++ r)

/-- The items of the pieces of a text. -/
inductive Lists : List String → List Item → Prop
  | nil : Lists [] []
  | blank {piece : String} {pieces : List String} {items : List Item} (h : Blank piece)
      (rest : Lists pieces items) : Lists (piece :: pieces) items
  | item {item : Item} {piece : String} {pieces : List String} {items : List Item}
      (h : Spells item piece) (rest : Lists pieces items) : Lists (piece :: pieces) (item :: items)

/-- The text says these items, one after the other, with commas in between. -/
def Says (text : String) (items : List Item) : Prop :=
  ∃ pieces, pieces ≠ [] ∧ (∀ piece ∈ pieces, ',' ∉ piece.toList) ∧
    ",".intercalate pieces = text ∧ Lists pieces items

/-! ### The items of a text -/

/-- What is asked for by a piece without blanks around it. -/
def itemOf (pair : String) : Item :=
  match Text.splitFirst? '=' pair with
  | none => .bare pair
  | some (key, value) => .pair (Text.trim key) (Text.trim value)

variable {text piece : String} {item : Item} {items : List Item} {pieces : List String}

theorem putPair_eq (o : Options) (pair : String) : o.putPair pair = o.enter (itemOf pair) := by
  unfold putPair itemOf
  cases Text.splitFirst? '=' pair <;> rfl

theorem itemOf_bare (h : '=' ∉ text.toList) : itemOf text = .bare text := by
  rw [itemOf, Text.splitFirst?, Text.splitFirst_eq_none_iff.mpr h]
  rfl

theorem itemOf_pair {front : String} (h : '=' ∉ front.toList) (back : String) :
    itemOf (front ++ "=" ++ back) = .pair (Text.trim front) (Text.trim back) := by
  have hchars : (front ++ "=" ++ back).toList = front.toList ++ '=' :: back.toList := by simp
  rw [itemOf, Text.splitFirst?, hchars, Text.splitFirst_append h, Option.map_some]
  simp only [String.ofList_toList]

theorem exists_equals (h : '=' ∈ text.toList) :
    ∃ front back, text = front ++ "=" ++ back ∧ '=' ∉ front.toList := by
  obtain ⟨front, back, htext, hfront⟩ := List.eq_append_cons_of_mem h
  refine ⟨.ofList front, .ofList back, String.toList_inj.mp ?_, by simpa using hfront⟩
  simpa using htext

/-- The first equals sign parts a text in one way. -/
theorem append_equals_inj {front front' back back' : String} (h : '=' ∉ front.toList)
    (h' : '=' ∉ front'.toList) (he : front ++ "=" ++ back = front' ++ "=" ++ back') :
    front = front' ∧ back = back' := by
  have hchars : front.toList ++ '=' :: back.toList = front'.toList ++ '=' :: back'.toList := by
    simpa using congrArg String.toList he
  have hsplit := Text.splitFirst_append h back.toList
  rw [hchars, Text.splitFirst_append h', Option.some.injEq, Prod.mk.injEq] at hsplit
  exact ⟨(String.toList_inj.mp hsplit.1).symm, (String.toList_inj.mp hsplit.2).symm⟩

/-- A piece that is not blank says one item. -/
theorem spells_itemOf (h : ¬ Blank piece) : Spells (itemOf (Text.trim piece)) piece := by
  obtain ⟨l, r, hpiece, hl, htrim, hr⟩ := Text.exists_padded piece
  by_cases hequals : '=' ∈ (Text.trim piece).toList
  · obtain ⟨front, back, hsplit, hfront⟩ := exists_equals hequals
    obtain ⟨l₁, r₁, hkey, hl₁, hkeyTrim, hr₁⟩ := Text.exists_padded front
    obtain ⟨l₂, r₂, hvalue, hl₂, hvalueTrim, hr₂⟩ := Text.exists_padded back
    have hspelled : piece = (l ++ l₁) ++ Text.trim front ++ r₁ ++ "=" ++
        (l₂ ++ Text.trim back ++ (r₂ ++ r)) := by
      nth_rewrite 1 [hpiece, hsplit, hkey, hvalue]
      simp only [String.append_assoc]
    have hkeyEquals : '=' ∉ (Text.trim front).toList := by
      rw [hkey] at hfront
      simp only [String.toList_append, List.mem_append, not_or] at hfront
      exact hfront.1.2
    rw [hsplit, itemOf_pair hfront]
    rw [hspelled]
    exact .pair (hl.append hl₁) hkeyTrim hkeyEquals hr₁ hl₂ hvalueTrim (hr₂.append hr)
  · have hne : Text.trim piece ≠ "" := fun he => h (Text.trim_eq_empty_iff.mp he)
    rw [itemOf_bare hequals]
    nth_rewrite 2 [hpiece]
    exact .bare hl htrim hne hequals hr

/-- It says no other. -/
theorem Spells.eq_itemOf (h : Spells item piece) :
    ¬ Blank piece ∧ item = itemOf (Text.trim piece) := by
  cases h with
  | bare hl htext hne hequals hr =>
    have htrim := Text.trim_padded hl htext hr
    refine ⟨fun hblank => hne ?_, ?_⟩
    · rw [← htrim, Text.trim_eq_empty_iff]
      exact hblank
    · rw [htrim, itemOf_bare hequals]
  | @pair l key m n value r hl hkey hequals hm hn hvalue hr =>
    have hsign : Text.isBlank '=' = false := by decide
    generalize hpiece : l ++ key ++ m ++ "=" ++ (n ++ value ++ r) = piece
    have hmem : '=' ∈ piece.toList := by simp [← hpiece]
    refine ⟨fun hblank => hblank.notMem hsign hmem, ?_⟩
    obtain ⟨l', r', hpadded, hl', -, hr'⟩ := Text.exists_padded piece
    have htrim : '=' ∈ (Text.trim piece).toList := by
      rw [hpadded] at hmem
      simp only [String.toList_append, List.mem_append] at hmem
      exact (hmem.resolve_right (hr'.notMem hsign)).resolve_left (hl'.notMem hsign)
    obtain ⟨front, back, hsplit, hfront⟩ := exists_equals htrim
    -- Both ways to part the piece at its first equals sign are the same.
    have hparts : (l' ++ front) ++ "=" ++ (back ++ r') = (l ++ key ++ m) ++ "=" ++
        (n ++ value ++ r) := by
      rw [hpiece, hpadded, hsplit]
      simp only [String.append_assoc]
    obtain ⟨hbefore, hbehind⟩ := append_equals_inj
      (by simp [hl'.notMem hsign, hfront])
      (by simp [hl.notMem hsign, hm.notMem hsign, hequals]) hparts
    have hkey' : Text.trim front = key := by
      rw [← Text.trim_padded hl hkey hm, ← hbefore]
      have hnone : Blank "" := by simp [Blank]
      simpa using (Text.trim_blanks hl' front hnone).symm
    have hvalue' : Text.trim back = value := by
      rw [← Text.trim_padded hn hvalue hr, ← hbehind]
      have hnone : Blank "" := by simp [Blank]
      simpa using (Text.trim_blanks hnone back hr').symm
    rw [hsplit, itemOf_pair hfront, hkey', hvalue']

theorem Lists.eq_itemOf (h : Lists pieces items) :
    items = ((pieces.map Text.trim).filter (· ≠ "")).map itemOf := by
  induction h with
  | nil => rfl
  | blank hblank rest ih =>
    rw [List.map_cons, List.filter_cons_of_neg (by simpa using Text.trim_eq_empty_iff.mpr hblank)]
    exact ih
  | item hspells rest ih =>
    obtain ⟨hblank, rfl⟩ := hspells.eq_itemOf
    have hne : Text.trim _ ≠ "" := fun he => hblank (Text.trim_eq_empty_iff.mp he)
    rw [List.map_cons, List.filter_cons_of_pos (by simpa using hne), List.map_cons, ih]

theorem lists_itemOf (pieces : List String) :
    Lists pieces (((pieces.map Text.trim).filter (· ≠ "")).map itemOf) := by
  induction pieces with
  | nil => exact .nil
  | cons piece pieces ih =>
    rw [List.map_cons]
    by_cases hblank : Blank piece
    · rw [List.filter_cons_of_neg (by simpa using Text.trim_eq_empty_iff.mpr hblank)]
      exact .blank hblank ih
    · have hne : Text.trim piece ≠ "" := fun he => hblank (Text.trim_eq_empty_iff.mp he)
      rw [List.filter_cons_of_pos (by simpa using hne), List.map_cons]
      exact .item (spells_itemOf hblank) ih

theorem comma_toList : (",").toList = [','] := by rfl

/-- What a text says is read off it piece by piece. -/
theorem says_iff : Says text items ↔ items = (pairs text).map itemOf := by
  constructor
  · rintro ⟨pieces, hne, hcomma, rfl, hlists⟩
    rw [pairs, Text.split_intercalate comma_toList hne hcomma]
    exact hlists.eq_itemOf
  · rintro rfl
    exact ⟨Text.split ',' text, Text.split_ne_nil text,
      fun piece hpiece hcomma => (Text.mem_of_mem_split hpiece hcomma).2 rfl,
      Text.intercalate_split_glue comma_toList text, lists_itemOf _⟩

/-! ### Applying a text -/

/-- Does what the items ask for, one after the other, up to the first fault. -/
def enterAll (o : Options) (items : List Item) : Change :=
  items.foldl (fun r item => goOn r (·.enter item)) (o, .ok ())

theorem putPairs_eq (o : Options) (texts : List String) :
    o.putPairs texts = o.enterAll (texts.map itemOf) := by
  have hfold (r : Change) : (texts.map itemOf).foldl (fun r item => goOn r (·.enter item)) r =
      goOn r (·.putPairs texts) := by
    induction texts generalizing r with
    | nil => exact (goOn_done r).symm
    | cons text texts ih =>
      simp only [List.map_cons, List.foldl_cons, ih, goOn_goOn, putPairs, putPair_eq]
  exact (hfold (o, .ok ())).symm

theorem putPairs_append (o : Options) (front back : List String) :
    o.putPairs (front ++ back) = goOn (o.putPairs front) (·.putPairs back) := by
  induction front generalizing o with
  | nil => rfl
  | cons text front ih => simp only [List.cons_append, putPairs, goOn_goOn, ih]

theorem pairs_append (s t : String) : pairs (s ++ "," ++ t) = pairs s ++ pairs t := by
  rw [pairs, Text.split_append_glue comma_toList, List.map_append, List.filter_append]
  rfl

theorem apply_append (o : Options) (s t : String) :
    o.apply (s ++ "," ++ t) = goOn (o.apply s) (·.apply t) := by
  rw [apply, pairs_append, putPairs_append]
  rfl

/-- Two texts with a comma in between apply one after the other, the second one only if nothing went
wrong with the first. A text says one list of items, and to apply it is to do what they ask for in
turn, up to the first fault; so blanks, and pieces of blanks, make no difference. An item without an
equals sign is such a fault. -/
theorem option_texts_compose :
    (∀ (o : Options) (s t : String),
      ((o.apply s).2 = .ok () → o.apply (s ++ "," ++ t) = (o.apply s).1.apply t) ∧
      ((o.apply s).2 ≠ .ok () → o.apply (s ++ "," ++ t) = o.apply s)) ∧
    (∀ text : String, ∃ items, ∀ items', Says text items' ↔ items' = items) ∧
    (∀ (o : Options) (text : String) (items : List Item), Says text items →
      o.apply text = o.enterAll items) ∧
    (∀ (o : Options) (s s' : String) (items : List Item), Says s items → Says s' items →
      o.apply s = o.apply s') ∧
    ∀ (o : Options) (text : String), ∃ fault, o.enter (.bare text) = (o, .error fault) ∧
      fault.error = .configuration s!"expected key=value, got `{text}`" := by
  have hitems (o : Options) (text : String) (items : List Item) (h : Says text items) :
      o.apply text = o.enterAll items := by
    rw [says_iff.mp h]
    exact putPairs_eq o (pairs text)
  refine ⟨fun o s t => ?_, fun text => ⟨_, fun items' => says_iff⟩, hitems,
    fun o s s' items h h' => (hitems o s items h).trans (hitems o s' items h').symm,
    fun o text => ⟨_, rfl, rfl⟩⟩
  rw [apply_append]
  exact ⟨fun h => goOn_of_ok h _, fun h => goOn_of_error h _⟩

/-- Of three pieces one says nothing and one is at fault, and what stands before the fault counts. -/
theorem option_texts_compose_bareLast :
    Says " probe.max = 7 ,, reuse" [.pair "probe.max" "7", .bare "reuse"] ∧
      ({} : Options).apply " probe.max = 7 ,, reuse" =
        ({ probe.max := 7 }, .error (.notAPair "reuse")) := by
  have hitems : Says " probe.max = 7 ,, reuse" [.pair "probe.max" "7", .bare "reuse"] :=
    says_iff.mpr (by decide)
  obtain ⟨-, -, happly, -⟩ := option_texts_compose
  exact ⟨hitems, (happly {} _ _ hitems).trans (by decide)⟩

end ClassRecovery.Options
