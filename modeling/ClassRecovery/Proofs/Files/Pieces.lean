import Mathlib
import ClassRecovery.FileSystem

/-!
Paths and their pieces. A path without empty pieces is known by its pieces, and a path behind a
directory has the pieces of both.
-/

namespace ClassRecovery

namespace Text

variable {sep : Char} {s t p : List Char}

theorem splitChars_of_notMem (h : sep ∉ s) : splitChars sep s = [s] := by
  induction s with
  | nil => rfl
  | cons c rest ih =>
    have hc : c ≠ sep := fun hc => h (by simp [hc])
    rw [splitChars, if_neg hc, ih fun hs => h (List.mem_cons_of_mem _ hs)]

theorem splitChars_append_sep (sep : Char) (s t : List Char) :
    splitChars sep (s ++ sep :: t) = splitChars sep s ++ splitChars sep t := by
  induction s with
  | nil => simp [splitChars]
  | cons c rest ih =>
    obtain ⟨p, ps, hrest⟩ := List.exists_cons_of_ne_nil (splitChars_ne_nil sep rest)
    by_cases hc : c = sep
    · simp only [List.cons_append, splitChars, if_pos hc, ih]
    · simp only [List.cons_append, splitChars, if_neg hc, ih, hrest]

/-- What holds no separator goes to the last piece. -/
theorem splitChars_append (s : List Char) (ht : sep ∉ t) :
    ∃ front last, splitChars sep s = front ++ [last] ∧
      splitChars sep (s ++ t) = front ++ [last ++ t] := by
  induction s with
  | nil => exact ⟨[], [], rfl, splitChars_of_notMem ht⟩
  | cons c rest ih =>
    obtain ⟨front, last, hrest, happend⟩ := ih
    by_cases hc : c = sep
    · refine ⟨[] :: front, last, ?_, ?_⟩
      · simp only [splitChars, if_pos hc, hrest, List.cons_append]
      · simp only [List.cons_append, splitChars, if_pos hc, happend]
    · cases front with
      | nil =>
        refine ⟨[], c :: last, ?_, ?_⟩
        · simp only [splitChars, if_neg hc, hrest, List.nil_append]
        · simp only [List.cons_append, splitChars, if_neg hc, happend, List.nil_append]
      | cons first front =>
        refine ⟨(c :: first) :: front, last, ?_, ?_⟩
        · simp only [splitChars, if_neg hc, hrest, List.cons_append]
        · simp only [List.cons_append, splitChars, if_neg hc, happend]

theorem mem_of_mem_splitChars {c : Char} (hp : p ∈ splitChars sep s) (hc : c ∈ p) :
    c ∈ s ∧ c ≠ sep := by
  induction s generalizing p with
  | nil => simp_all [splitChars]
  | cons d rest ih =>
    obtain ⟨q, qs, hrest⟩ := List.exists_cons_of_ne_nil (splitChars_ne_nil sep rest)
    rw [splitChars] at hp
    by_cases hd : d = sep
    · rw [if_pos hd, List.mem_cons] at hp
      rcases hp with rfl | hp
      · cases hc
      · exact ⟨List.mem_cons_of_mem _ (ih hp hc).1, (ih hp hc).2⟩
    · simp only [if_neg hd, hrest, List.mem_cons] at hp
      rcases hp with rfl | hp
      · rcases List.mem_cons.mp hc with rfl | hc
        · exact ⟨List.mem_cons_self, hd⟩
        · have hq := ih (hrest ▸ List.mem_cons_self) hc
          exact ⟨List.mem_cons_of_mem _ hq.1, hq.2⟩
      · have hq := ih (hrest ▸ List.mem_cons_of_mem _ hp) hc
        exact ⟨List.mem_cons_of_mem _ hq.1, hq.2⟩

theorem splitChars_inj (h : splitChars sep s = splitChars sep t) : s = t := by
  rw [← intercalate_splitChars sep s, h, intercalate_splitChars]

theorem split_inj {a b : String} (h : split sep a = split sep b) : a = b := by
  have hchars : splitChars sep a.toList = splitChars sep b.toList :=
    List.map_injective_iff.mpr (fun _ _ h => String.ofList_injective h) h
  exact String.toList_inj.mp (splitChars_inj hchars)

theorem split_of_notMem {a : String} (h : sep ∉ a.toList) : split sep a = [a] := by
  simp [split, splitChars_of_notMem h]

theorem mem_of_mem_split {a piece : String} {c : Char} (hp : piece ∈ split sep a)
    (hc : c ∈ piece.toList) : c ∈ a.toList ∧ c ≠ sep := by
  obtain ⟨p, hmem, rfl⟩ := List.mem_map.mp hp
  rw [String.toList_ofList] at hc
  exact mem_of_mem_splitChars hmem hc

theorem split_append_glue {glue : String} (hglue : glue.toList = [sep])
    (a b : String) : split sep (a ++ glue ++ b) = split sep a ++ split sep b := by
  have hchars : (a ++ glue ++ b).toList = a.toList ++ sep :: b.toList := by simp [hglue]
  rw [split, hchars, splitChars_append_sep, List.map_append]
  rfl

/-- Every text is put together from pieces. -/
theorem intercalate_split_glue {glue : String} (hglue : glue.toList = [sep]) (a : String) :
    glue.intercalate (split sep a) = a := by
  apply String.toList_inj.mp
  have hpieces : (split sep a).map String.toList = splitChars sep a.toList := by
    simp [split, Function.comp_def]
  rw [String.toList_intercalate, hpieces, hglue, intercalate_splitChars]

theorem split_ne_nil (a : String) : split sep a ≠ [] := by
  simpa [split] using splitChars_ne_nil sep a.toList

theorem split_append (a : String) {b : String} (hb : sep ∉ b.toList) :
    ∃ front last, split sep a = front ++ [last] ∧ split sep (a ++ b) = front ++ [last ++ b] := by
  obtain ⟨front, last, ha, hab⟩ := splitChars_append a.toList hb
  refine ⟨front.map .ofList, .ofList last, ?_, ?_⟩
  · simp [split, ha]
  · simp [split, String.toList_append, hab, String.ofList_append]

end Text

theorem split_slash (a b : String) :
    Text.split '/' (a ++ "/" ++ b) = Text.split '/' a ++ Text.split '/' b :=
  Text.split_append_glue (by simp) a b

namespace Path

/-- A path that names something inside a directory, each piece of which counts. -/
def Inner (path : String) : Prop := "" ∉ Text.split '/' path

theorem Inner.pieces {path : String} (h : Inner path) :
    FileSystem.pieces path = Text.split '/' path :=
  List.filter_eq_self.mpr fun piece hp => by
    have hne : piece ≠ "" := fun he => h (he ▸ hp)
    simp [hne]

theorem Inner.ne_empty {path : String} (h : Inner path) : path ≠ "" := by
  rintro rfl
  exact h (by decide)

theorem Inner.not_isAbsolute {path : String} (h : Inner path) : isAbsolute path = false := by
  by_contra habsolute
  have hhead : path.toList.head? = some '/' := by simpa [isAbsolute] using habsolute
  obtain ⟨rest, hrest⟩ : ∃ rest, path.toList = '/' :: rest := by
    cases hpath : path.toList with
    | nil => simp [hpath] at hhead
    | cons c rest => exact ⟨rest, by simp_all⟩
  exact h (List.mem_map.mpr ⟨[], by simp [hrest, Text.splitChars], rfl⟩)

theorem Inner.not_endsInSlash {path : String} (h : Inner path) :
    FileSystem.endsInSlash path = false := by
  by_contra hends
  have hlast : path.toList.getLast? = some '/' := by simpa [FileSystem.endsInSlash] using hends
  obtain ⟨front, hfront⟩ := List.getLast?_eq_some_iff.mp hlast
  refine h (List.mem_map.mpr ⟨[], ?_, rfl⟩)
  rw [hfront, Text.splitChars_append_sep]
  simp [Text.splitChars]

theorem Inner.inj {p q : String} (hp : Inner p) (hq : Inner q)
    (h : FileSystem.pieces p = FileSystem.pieces q) : p = q :=
  Text.split_inj (hp.pieces.symm.trans (h.trans hq.pieces))

theorem inner_of_notMem {path : String} (h : '/' ∉ path.toList) (hne : path ≠ "") : Inner path := by
  rw [Inner, Text.split_of_notMem h]
  simpa using Ne.symm hne

/-- What holds no slash goes to the last piece. -/
theorem Inner.append {path tail : String} (h : Inner path) (ht : '/' ∉ tail.toList) :
    Inner (path ++ tail) ∧ ∃ front last, FileSystem.pieces path = front ++ [last] ∧
      FileSystem.pieces (path ++ tail) = front ++ [last ++ tail] := by
  obtain ⟨front, last, hpath, htail⟩ := Text.split_append path ht
  have hinner : Inner (path ++ tail) := by
    unfold Inner at h ⊢
    rw [hpath, List.mem_append, List.mem_singleton, not_or] at h
    rw [htail, List.mem_append, List.mem_singleton, not_or]
    refine ⟨h.1, fun he => h.2 ?_⟩
    have hlength := congrArg String.length he
    rw [String.length_append, String.length_empty] at hlength
    exact (String.length_eq_zero_iff.mp (by omega)).symm
  exact ⟨hinner, front, last, h.pieces.trans hpath, hinner.pieces.trans htail⟩

theorem inner_slash {p q : String} : Inner (p ++ "/" ++ q) ↔ Inner p ∧ Inner q := by
  rw [Inner, Inner, Inner, split_slash, List.mem_append, not_or]

theorem pieces_slash (p q : String) :
    FileSystem.pieces (p ++ "/" ++ q) = FileSystem.pieces p ++ FileSystem.pieces q := by
  simp [FileSystem.pieces, split_slash]

variable {directory path : String}

theorem join_eq (hd : directory ≠ "") (hp : isAbsolute path = false) :
    ∃ front, join directory path = front ++ "/" ++ path ∧
      (directory = front ++ "/" ∨ directory = front) := by
  unfold join
  rw [hp, if_neg (by simp), if_neg hd]
  split
  · next hlast =>
    obtain ⟨front, hfront⟩ := List.getLast?_eq_some_iff.mp hlast
    have hdirectory : directory = String.ofList front ++ "/" := by
      apply String.toList_inj.mp
      simp [hfront]
    exact ⟨.ofList front, by rw [← hdirectory], .inl hdirectory⟩
  · exact ⟨directory, rfl, .inr rfl⟩

theorem pieces_join (hd : directory ≠ "") (hp : isAbsolute path = false) :
    FileSystem.pieces (join directory path) =
      FileSystem.pieces directory ++ FileSystem.pieces path := by
  obtain ⟨front, hjoin, rfl | rfl⟩ := join_eq hd hp
  · have hfront : FileSystem.pieces (front ++ "/") = FileSystem.pieces front := by
      have hsplit := pieces_slash front ""
      rwa [String.append_empty, show FileSystem.pieces "" = [] by decide,
        List.append_nil] at hsplit
    rw [hjoin, pieces_slash, hfront]
  · rw [hjoin, pieces_slash]

theorem isAbsolute_join (hd : directory ≠ "") (hp : isAbsolute path = false) :
    isAbsolute (join directory path) = isAbsolute directory := by
  obtain ⟨front, hjoin, hdirectory⟩ := join_eq hd hp
  have hhead : (join directory path).toList.head? = directory.toList.head? := by
    rcases hdirectory with rfl | rfl
    · simp [hjoin, List.head?_append]
    · have hne : directory.toList ≠ [] := by simpa using hd
      obtain ⟨c, cs, hcs⟩ := List.exists_cons_of_ne_nil hne
      simp [hjoin, hcs]
  unfold isAbsolute
  rw [hhead]

theorem mem_join {c : Char} (hd : directory ≠ "") (hp : isAbsolute path = false)
    (hc : c ∈ (join directory path).toList) :
    c ∈ directory.toList ∨ c = '/' ∨ c ∈ path.toList := by
  obtain ⟨front, hjoin, hdirectory⟩ := join_eq hd hp
  simp only [hjoin, String.toList_append, List.mem_append, String.reduceToList,
    List.mem_singleton] at hc
  rcases hdirectory with rfl | rfl
  · simp only [String.toList_append, List.mem_append]
    tauto
  · tauto

theorem endsInSlash_join (hd : directory ≠ "") (hp : Inner path) :
    FileSystem.endsInSlash (join directory path) = false := by
  obtain ⟨front, hjoin, -⟩ := join_eq hd hp.not_isAbsolute
  have hne : path.toList ≠ [] := by simpa using hp.ne_empty
  have hlast : (join directory path).toList.getLast? = path.toList.getLast? := by
    rw [hjoin, String.toList_append, List.getLast?_append_of_ne_nil _ hne]
  unfold FileSystem.endsInSlash
  rw [hlast]
  exact hp.not_endsInSlash

theorem join_append (directory : String) (hp : path ≠ "") (tail : String) :
    join directory (path ++ tail) = join directory path ++ tail := by
  have hhead : (path ++ tail).toList.head? = path.toList.head? := by
    have hne : path.toList ≠ [] := by simpa using hp
    obtain ⟨c, cs, hcs⟩ := List.exists_cons_of_ne_nil hne
    simp [hcs]
  unfold join isAbsolute
  rw [hhead]
  split
  · rfl
  · split
    · rfl
    · split <;> simp only [String.append_assoc]

end Path

namespace FileSystem

theorem byteLength_append (a b : String) : byteLength (a ++ b) = byteLength a + byteLength b := by
  simp [byteLength, Text.Utf8.encode]

end FileSystem

end ClassRecovery
