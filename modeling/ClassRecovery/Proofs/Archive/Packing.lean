import Mathlib
import ClassRecovery.Archive.Writer

/-!
How long packed bytes can become. Every code has a limited length, every place adds at most two
pieces, and at most one block ends there; so there is a bound for each byte, if not a sharp one.
-/

namespace ClassRecovery.Archive.Deflate

namespace Bits

/-- The number of bits written so far. -/
def size (w : Bits) : Nat := 8 * w.bytes.size + w.width

variable {w : Bits}

theorem size_drain (fuel : Nat) (w : Bits) : (drain fuel w).size = w.size := by
  induction fuel generalizing w with
  | zero => rfl
  | succ fuel ih =>
    rw [drain]
    split
    · rfl
    · next hwidth =>
      rw [ih]
      simp only [size, Array.size_push]
      omega

@[simp] theorem size_put (value n : Nat) (w : Bits) : (w.put value n).size = w.size + n := by
  rw [put, size_drain]
  simp only [size]
  omega

theorem size_pad_le (w : Bits) : w.pad.size ≤ w.size + 7 := by
  rw [pad, size_put]
  omega

theorem size_foldl_le {α : Type} {f : Bits → α → Bits} {n : Nat} (as : List α)
    (hf : ∀ a ∈ as, ∀ w, (f w a).size ≤ w.size + n) (w : Bits) :
    (as.foldl f w).size ≤ w.size + as.length * n := by
  induction as generalizing w with
  | nil => simp
  | cons a as ih =>
    have hrest := ih (fun x hx => hf x (List.mem_cons_of_mem _ hx)) (f w a)
    have hfirst := hf a List.mem_cons_self w
    rw [List.foldl_cons, List.length_cons, Nat.succ_mul]
    omega

end Bits

/-- No code is longer than this. -/
def Short (n : Nat) (codes : Array (Nat × Nat)) : Prop := ∀ i : Nat, (codes[i]?.getD (0, 0)).2 ≤ n

variable {n : Nat} {w : Bits}

theorem short_of_mem {codes : Array (Nat × Nat)} (h : ∀ c ∈ codes.toList, c.2 ≤ n) :
    Short n codes := by
  intro i
  cases hi : codes[i]? with
  | none => exact Nat.zero_le _
  | some c => exact h c (Array.mem_toList_iff.mpr (Array.mem_of_getElem? hi))

theorem size_putCode_le {codes : Array (Nat × Nat)} (h : Short n codes) (symbol : Nat) (w : Bits) :
    (w.putCode codes symbol).size ≤ w.size + n := by
  rw [Bits.putCode, Bits.size_put]
  exact Nat.add_le_add_left (h symbol) _

theorem size_putRow_le {table codes : Array (Nat × Nat)} {m : Nat} (ht : Short m table)
    (hc : Short n codes) (shift value : Nat) (w : Bits) :
    (putRow table codes shift value w).size ≤ w.size + n + m := by
  rw [putRow, Bits.size_put]
  exact Nat.add_le_add (size_putCode_le hc _ w) (ht _)

theorem short_lengthTable : Short 13 Inflate.lengthTable := short_of_mem (by decide)

theorem short_distanceTable : Short 13 Inflate.distanceTable := short_of_mem (by decide)

theorem size_putPiece_le {literals distances : Array (Nat × Nat)} (hl : Short n literals)
    (hd : Short n distances) (w : Bits) (p : Piece) :
    (putPiece literals distances w p).size ≤ w.size + (2 * n + 26) := by
  cases p with
  | literal b =>
    have hcode := size_putCode_le hl b.toNat w
    rw [putPiece]
    omega
  | copy m =>
    have hlength := size_putRow_le short_lengthTable hl 257 m.length w
    have hdistance := size_putRow_le short_distanceTable hd 0 m.distance
      (putRow Inflate.lengthTable literals 257 m.length w)
    rw [putPiece]
    omega

theorem short_codes {lengths : List Nat} (h : ∀ m ∈ lengths, m ≤ n) : Short n (codes lengths) := by
  refine short_of_mem ?_
  unfold codes
  refine List.foldlRecOn (motive := fun st : Array (Nat × Nat) × Array Nat =>
    ∀ c ∈ st.1.toList, c.2 ≤ n) lengths _ nofun fun st hst length hlength => ?_
  dsimp only
  split
  · intro c hc
    rcases List.mem_append.mp (Array.toList_push ▸ hc) with hc | hc
    · exact hst c hc
    · rw [List.mem_singleton.mp hc]
      exact Nat.zero_le _
  · intro c hc
    rcases List.mem_append.mp (Array.toList_push ▸ hc) with hc | hc
    · exact hst c hc
    · rw [List.mem_singleton.mp hc]
      exact h length hlength

theorem size_putPieces_le {literals distances : List Nat} (hl : ∀ m ∈ literals, m ≤ n)
    (hd : ∀ m ∈ distances, m ≤ n) (pieces : List Piece) (w : Bits) :
    (putPieces literals distances pieces w).size ≤ w.size + pieces.length * (2 * n + 26) + n := by
  refine (size_putCode_le (short_codes hl) endMark _).trans (Nat.add_le_add_right ?_ n)
  exact Bits.size_foldl_le pieces
    (fun p _ w => size_putPiece_le (short_codes hl) (short_codes hd) w p) w

theorem length_lift (limit : Nat) (depths : List Nat) :
    (lift limit depths).length = depths.length := by
  unfold lift
  dsimp only
  split <;> simp

theorem length_limitDepths (limit : Nat) (depths : List Nat) :
    (limitDepths limit depths).length = limit + 1 := by
  unfold limitDepths
  dsimp only
  refine List.foldlRecOn (motive := fun ds : List Nat => ds.length = limit + 1) _ _ (by simp)
    fun ds hds _ _ => ?_
  rw [length_lift, hds]

/-- No code is longer than its limit, and each symbol has one. -/
theorem codeLengths_le {limit : Nat} (hlimit : 0 < limit) (counts : List Nat) :
    (codeLengths limit counts).length = counts.length ∧
      ∀ m ∈ codeLengths limit counts, m ≤ limit := by
  unfold codeLengths
  dsimp only
  generalize (counts.zipIdx.filter (·.1 ≠ 0)).mergeSort (fun a b => decide (a.1 ≤ b.1)) = sorted
  have hdepths : (if sorted.length ≤ 1 then [0, sorted.length]
      else limitDepths limit (mergeAll sorted.length (sorted.map (·.1)) [])).length ≤
        limit + 1 := by
    split
    · simp only [List.length_cons, List.length_nil]
      omega
    · rw [length_limitDepths]
  generalize (if sorted.length ≤ 1 then [0, sorted.length]
    else limitDepths limit (mergeAll sorted.length (sorted.map (·.1)) [])) = depths at hdepths ⊢
  have hgiven : ∀ g ∈ sorted.reverse.zip (depths.zipIdx.flatMap fun row =>
      List.replicate row.1 row.2), g.2 ≤ limit := by
    intro g hg
    obtain ⟨row, hrow, hlength⟩ := List.mem_flatMap.mp (List.of_mem_zip hg).2
    have hdepth := (List.mem_zipIdx hrow).2.1
    rw [List.eq_of_mem_replicate hlength]
    omega
  rw [Array.length_toList]
  refine List.foldlRecOn (motive := fun a : Array Nat =>
    a.size = counts.length ∧ ∀ m ∈ a.toList, m ≤ limit) _ _ ⟨by simp, by simp⟩
    fun a ha g hg => ⟨?_, fun m hm => ?_⟩
  · rw [Array.size_setIfInBounds]
    exact ha.1
  · rw [Array.toList_setIfInBounds] at hm
    rcases List.mem_or_eq_of_mem_set hm with hm | rfl
    · exact ha.2 m hm
    · exact hgiven g hg

theorem length_portions_le (most k : Nat) : (portions most k).length ≤ k + 1 := by
  have hdiv := Nat.div_le_self k most
  unfold portions
  rw [List.length_append, List.length_replicate]
  split
  · simp only [List.length_nil]
    omega
  · simp only [List.length_cons, List.length_nil]
    omega

theorem length_flatMap_le {α β : Type} {f : α → List β} {c : Nat} {as : List α}
    (h : ∀ a ∈ as, (f a).length ≤ c) : (as.flatMap f).length ≤ as.length * c := by
  induction as with
  | nil => simp
  | cons a as ih =>
    have hrest := ih fun x hx => h x (List.mem_cons_of_mem _ hx)
    have hfirst := h a List.mem_cons_self
    rw [List.flatMap_cons, List.length_append, List.length_cons, Nat.succ_mul]
    omega

theorem portions_flatMap_le {f : Nat → List LengthSymbol}
    (hf : ∀ m, (f m).length ≤ 2 ∧ ∀ s ∈ f m, s.width ≤ 7) (most k : Nat) :
    ((portions most k).flatMap f).length ≤ 2 * (k + 1) ∧
      ∀ s ∈ (portions most k).flatMap f, s.width ≤ 7 := by
  constructor
  · have hlength := length_portions_le most k
    have hflat := length_flatMap_le (f := f) fun m (_ : m ∈ portions most k) => (hf m).1
    omega
  · intro s hs
    obtain ⟨m, -, hs⟩ := List.mem_flatMap.mp hs
    exact (hf m).2 s hs

/-- The symbols of a run are not many more than the run is long, and few bits follow each. -/
theorem lengthRun_le (length : Nat) {k : Nat} (hk : 0 < k) :
    (lengthRun length k).length ≤ 5 * k ∧ ∀ s ∈ lengthRun length k, s.width ≤ 7 := by
  unfold lengthRun
  split
  · obtain ⟨hlength, hwidth⟩ := portions_flatMap_le (f := fun m =>
      if m < 3 then List.replicate m ⟨0, 0, 0⟩
      else if m ≤ 10 then [⟨17, m - 3, 3⟩]
      else [⟨18, m - 11, 7⟩]) (fun m => by grind) 138 k
    exact ⟨by omega, hwidth⟩
  · obtain ⟨hlength, hwidth⟩ := portions_flatMap_le (f := fun m =>
      if m < 3 then List.replicate m ⟨length, 0, 0⟩ else [⟨16, m - 3, 2⟩])
      (fun m => by grind) 6 (k - 1)
    refine ⟨?_, fun s hs => ?_⟩
    · rw [List.length_cons]
      omega
    · rcases List.mem_cons.mp hs with rfl | hs
      · exact Nat.zero_le _
      · exact hwidth s hs

theorem lengthSymbols_le (lengths : List Nat) :
    (lengthSymbols lengths).length ≤ 5 * lengths.length ∧
      ∀ s ∈ lengthSymbols lengths, s.width ≤ 7 := by
  have hruns : ∀ run ∈ lengths.splitBy (· == ·), 0 < run.length := fun run hrun =>
    List.length_pos_of_ne_nil (List.ne_nil_of_mem_splitBy hrun)
  have hflat : ((lengths.splitBy (· == ·)).map List.length).sum = lengths.length := by
    rw [← List.length_flatten, List.flatten_splitBy]
  unfold lengthSymbols
  rw [← hflat]
  generalize lengths.splitBy (· == ·) = runs at hruns ⊢
  induction runs with
  | nil => simp
  | cons run runs ih =>
    obtain ⟨hlength, hwidth⟩ := lengthRun_le (run.headD 0) (hruns run List.mem_cons_self)
    obtain ⟨hlengths, hwidths⟩ := ih fun r hr => hruns r (List.mem_cons_of_mem _ hr)
    rw [List.flatMap_cons, List.length_append, List.map_cons, List.sum_cons]
    refine ⟨by omega, fun s hs => ?_⟩
    rcases List.mem_append.mp hs with hs | hs
    · exact hwidth s hs
    · exact hwidths s hs

theorem length_trimZeros_le (least : Nat) (l : List Nat) :
    (trimZeros least l).length ≤ l.length := by
  have hdrop := List.length_dropWhile_le (fun m => decide (m = 0)) (l.drop least).reverse
  unfold trimZeros
  rw [List.length_append, List.length_take, List.length_reverse]
  rw [List.length_reverse, List.length_drop] at hdrop
  omega

/-- The lengths of codes for this many symbols take up so much. -/
theorem size_putLengths_le (literals distances : List Nat) (w : Bits) :
    (putLengths literals distances w).size ≤
      w.size + 71 + 70 * (literals.length + distances.length) := by
  have hls := length_trimZeros_le 257 literals
  have hds := length_trimZeros_le 1 distances
  unfold putLengths
  dsimp only
  generalize trimZeros 257 literals = ls at hls ⊢
  generalize trimZeros 1 distances = ds at hds ⊢
  obtain ⟨hsymbols, hwidths⟩ := lengthSymbols_le (ls ++ ds)
  generalize lengthSymbols (ls ++ ds) = symbols at hsymbols hwidths ⊢
  have hshort : Short 7 (codes (codeLengths 7
      ((List.range 19).map fun i => (symbols.map (·.symbol)).count i))) :=
    short_codes (codeLengths_le (by decide) _).2
  generalize codeLengths 7 ((List.range 19).map fun i => (symbols.map (·.symbol)).count i) =
    lengths at hshort ⊢
  have hordered : (trimZeros 4 (Inflate.lengthOrder.map fun i => lengths.getD i 0)).length ≤ 19 :=
    (length_trimZeros_le 4 _).trans (by simp [Inflate.lengthOrder])
  generalize trimZeros 4 (Inflate.lengthOrder.map fun i => lengths.getD i 0) = ordered
    at hordered ⊢
  rw [List.length_append] at hsymbols
  refine (Bits.size_foldl_le (n := 14) symbols (fun s hs w => ?_) _).trans ?_
  · have hcode := size_putCode_le hshort s.symbol w
    have hwidth := hwidths s hs
    rw [Bits.size_put]
    omega
  · have hfold := Bits.size_foldl_le (n := 3) (f := fun w n => w.put n 3) ordered
      (fun m _ w => le_of_eq (Bits.size_put m 3 w))
      (((w.put (ls.length - 257) 5).put (ds.length - 1) 5).put (ordered.length - 4) 4)
    simp only [Bits.size_put] at hfold
    omega

theorem length_tally (pieces : List Piece) :
    (tally pieces).1.toList.length = 286 ∧ (tally pieces).2.toList.length = 30 := by
  simp only [Array.length_toList]
  unfold tally
  refine List.foldlRecOn (motive := fun t : Array Nat × Array Nat =>
    t.1.size = 286 ∧ t.2.size = 30) pieces _ (by simp) fun t ht p _ => ?_
  cases p <;> simp [ht.1, ht.2]

theorem size_putFixed_le (pieces : List Piece) (w : Bits) :
    (putFixed pieces w).size ≤ w.size + 11 + pieces.length * 44 := by
  have hliterals : ∀ m ∈ Inflate.fixedLiterals, m ≤ 9 := by
    intro m hm
    simp only [Inflate.fixedLiterals, List.mem_append, List.mem_replicate] at hm
    omega
  have hdistances : ∀ m ∈ List.replicate 32 5, m ≤ 9 := by
    intro m hm
    have hm := List.eq_of_mem_replicate hm
    omega
  have hpieces := size_putPieces_le hliterals hdistances pieces (w.put 1 2)
  rw [Bits.size_put] at hpieces
  unfold putFixed
  omega

theorem size_putOwn_le (pieces : List Piece) (w : Bits) :
    (putOwn pieces w).size ≤ w.size + 22208 + pieces.length * 56 := by
  obtain ⟨hl, hd⟩ := length_tally pieces
  unfold putOwn
  generalize tally pieces = t at hl hd ⊢
  rcases t with ⟨ls, ds⟩
  dsimp only at hl hd ⊢
  obtain ⟨hliterals, hshort⟩ := codeLengths_le (show 0 < 15 by decide) ls.toList
  obtain ⟨hdistances, hshort'⟩ := codeLengths_le (show 0 < 15 by decide) ds.toList
  rw [hl] at hliterals
  rw [hd] at hdistances
  have hlengths := size_putLengths_le (codeLengths 15 ls.toList) (codeLengths 15 ds.toList)
    (w.put 2 2)
  have hpieces := size_putPieces_le hshort hshort' pieces
    (putLengths (codeLengths 15 ls.toList) (codeLengths 15 ds.toList) (w.put 2 2))
  rw [Bits.size_put] at hlengths
  omega

theorem size_putBytes (bytes : Array UInt8) (w : Bits) :
    (bytes.foldl (fun w b => w.put b.toNat 8) w).size = w.size + 8 * bytes.size := by
  rw [← Array.foldl_toList, ← Array.length_toList]
  generalize bytes.toList = l
  induction l generalizing w with
  | nil => rfl
  | cons b l ih =>
    rw [List.foldl_cons, ih, Bits.size_put, List.length_cons]
    omega

theorem size_putPlain_le (bytes : Array UInt8) (w : Bits) :
    (putPlain bytes w).size ≤ w.size + 41 + 8 * bytes.size := by
  have hpad := Bits.size_pad_le (w.put 0 2)
  rw [Bits.size_put] at hpad
  have hstart : (((w.put 0 2).pad.put (bytes.size % 0x10000) 16).put
      (0xFFFF - bytes.size % 0x10000) 16).size ≤ w.size + 41 := by
    rw [Bits.size_put, Bits.size_put]
    omega
  unfold putPlain
  dsimp only
  rw [size_putBytes]
  omega

theorem size_packed_le (covered : Nat) (pieces : List Piece) (w : Bits) :
    (if covered < 48 then putFixed pieces w else putOwn pieces w).size ≤
      w.size + 22208 + pieces.length * 56 := by
  have hfixed := size_putFixed_le pieces w
  have hown := size_putOwn_le pieces w
  split
  · omega
  · exact hown

/-- A block takes up so much, whichever form it is written in. -/
theorem size_putBlock_le (data : Array UInt8) (b : Block) (inside last : Bool) (w : Bits) :
    (putBlock data b inside last w).size ≤
      w.size + 22209 + 8 * data.size + b.pieces.length * 56 := by
  have hextract : (data.extract b.start (b.start + b.covered)).size ≤ data.size := by
    rw [Array.size_extract]
    omega
  have hplain := size_putPlain_le (data.extract b.start (b.start + b.covered)) (w.put last.toNat 1)
  have hpacked := size_packed_le b.covered b.pieces.reverse (w.put last.toNat 1)
  rw [Bits.size_put] at hplain hpacked
  rw [List.length_reverse] at hpacked
  unfold putBlock
  dsimp only
  generalize (if b.covered < 48 then putFixed b.pieces.reverse (w.put last.toNat 1)
    else putOwn b.pieces.reverse (w.put last.toNat 1)) = packed at hpacked ⊢
  split
  · refine hplain.trans ?_
    omega
  · refine hpacked.trans ?_
    omega

@[simp] theorem pieces_add (b : Block) (p : Piece) : (b.add p).pieces = p :: b.pieces := rfl

namespace Packer

/-- Two pieces are added where what waited gives way to a match that is taken at once. -/
theorem choose_spec (data : Array UInt8) (links : Array Nat) (p : Packer) :
    (p.choose data links).1.written = p.written ∧
      (p.choose data links).1.block.pieces.length ≤ p.block.pieces.length + 2 := by
  unfold choose
  dsimp only
  repeat' split
  all_goals exact ⟨rfl, by simp only [pieces_add, List.length_cons]; omega⟩

/-- What is written in the end: at each place come two pieces and a block, at most. -/
theorem size_run_le (data : Array UInt8) (links : Array Nat) (fuel moved : Nat) (p : Packer) :
    (run data links fuel moved p).size ≤
      p.written.size + p.block.pieces.length * 56 + (fuel + 1) * (22321 + 8 * data.size) + 7 := by
  induction fuel generalizing moved p with
  | zero =>
    rw [run]
    omega
  | succ fuel ih =>
    rw [run]
    split
    · have hblock := size_putBlock_le data p.block
        (inWindow data.size p.block.start p.place moved) true p.written
      refine (Bits.size_pad_le _).trans ?_
      rw [Nat.succ_mul]
      omega
    · obtain ⟨hwritten, hpieces⟩ := choose_spec data links p
      generalize p.choose data links = next at hwritten hpieces ⊢
      rcases next with ⟨q, moved⟩
      dsimp only at hwritten hpieces ⊢
      rw [Nat.succ_mul (fuel + 1)]
      split
      · have hblock := size_putBlock_le data q.block
          (inWindow data.size q.block.start (q.place + moved) moved) false q.written
        refine (ih moved _).trans ?_
        dsimp only [List.length_nil]
        rw [hwritten] at hblock ⊢
        omega
      · refine (ih moved _).trans ?_
        dsimp only
        rw [hwritten]
        omega

end Packer

/-- However badly bytes pack, what they pack into is of limited length. -/
theorem length_deflate_le (b : Bytes) :
    (deflate b).length ≤ (b.length + 2) * (b.length + 3000) := by
  have hrun := Packer.size_run_le b.toArray (links b.toArray) (b.toArray.size + 1) 0 {}
  rw [List.size_toArray] at hrun
  unfold deflate
  dsimp only
  rw [Array.length_toList]
  simp only [Bits.size, List.length_nil, List.size_toArray] at hrun ⊢
  have hbound : (b.length + 1 + 1) * (22321 + 8 * b.length) + 7 ≤
      8 * ((b.length + 2) * (b.length + 3000)) := by
    nlinarith
  have hempty : (#[] : Array UInt8).size = 0 := rfl
  omega

end ClassRecovery.Archive.Deflate
