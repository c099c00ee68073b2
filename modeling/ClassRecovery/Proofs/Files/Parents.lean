import ClassRecovery.Proofs.Text.Separated

/-!
The parent of a path, which has all its components but the last. What is put into a directory under
a plain name therefore lies in it: the directory is the parent, and the name the last component.
-/

namespace ClassRecovery.Path

/-- The path names what stands directly in the directory, under this name. -/
def LiesIn (directory name path : String) : Prop :=
  (∃ above, parent? path = some above ∧ same above directory = true) ∧ fileName? path = some name

/-- What only the first piece of a path can say. -/
def leading : List String → List Component
  | "" :: _ :: _ => [.root]
  | "." :: _ => [.here]
  | _ => []

variable {path above directory name : String} {pieces : List String}

theorem innerComponent_eq_none {piece : String} (h : innerComponent piece = none) :
    piece = "" ∨ piece = "." := by
  unfold innerComponent at h
  split at h
  · assumption
  · split at h <;> cases h

/-- What is trimmed off says nothing. -/
theorem eq_trimPieces_append (pieces : List String) :
    ∃ junk, pieces = trimPieces pieces ++ junk ∧ ∀ piece ∈ junk, piece = "" ∨ piece = "." := by
  let blank : String → Bool := fun piece => (innerComponent piece).isNone
  refine ⟨pieces.rtakeWhile blank, List.rdropWhile_append_rtakeWhile.symm, fun piece hpiece => ?_⟩
  have hblank : blank piece = true := List.mem_rtakeWhile_imp hpiece
  exact innerComponent_eq_none (Option.isNone_iff_eq_none.mp hblank)

theorem trimPieces_getLast {pieces : List String} (h : trimPieces pieces ≠ []) :
    (trimPieces pieces).getLast h ≠ "" ∧ (trimPieces pieces).getLast h ≠ "." := by
  have hlast : (innerComponent ((trimPieces pieces).getLast h)).isNone ≠ true :=
    List.rdropWhile_last_not _ pieces h
  constructor <;> intro he <;> exact hlast (by rw [he]; decide)

/-- Pieces that are not all trimmed off, parted at the last one that counts. -/
theorem exists_last (h : trimPieces pieces ≠ []) : ∃ between last behind,
    pieces = trimPieces (trimPieces pieces).dropLast ++ (between ++ last :: behind) ∧
      (∀ piece ∈ between, piece = "" ∨ piece = ".") ∧ last ≠ "" ∧ last ≠ "." ∧
      ∀ piece ∈ behind, piece = "" ∨ piece = "." := by
  obtain ⟨behind, hbehind, hempty'⟩ := eq_trimPieces_append pieces
  obtain ⟨between, hbetween, hempty⟩ := eq_trimPieces_append (trimPieces pieces).dropLast
  obtain ⟨hlast, hdot⟩ := trimPieces_getLast h
  refine ⟨between, (trimPieces pieces).getLast h, behind, ?_, hempty, hlast, hdot, hempty'⟩
  rw [← List.append_assoc, ← hbetween, ← List.singleton_append, ← List.append_assoc,
    List.dropLast_append_getLast, ← hbehind]

/-- An empty piece that is left stands in front. -/
theorem append_trimPieces_eq_iff {front pieces : List String} :
    front ++ trimPieces pieces = [""] ↔ front = [""] ∧ trimPieces pieces = [] := by
  constructor
  · intro h
    rcases List.append_eq_singleton_iff.mp h with ⟨-, hrest⟩ | hfront
    · have hlast := (trimPieces_getLast (by rw [hrest]; simp)).1
      simp [hrest] at hlast
    · exact hfront
  · rintro ⟨hfront, hrest⟩
    rw [hfront, hrest]
    rfl

theorem intercalate_split (path : String) : "/".intercalate (Text.split '/' path) = path :=
  Text.intercalate_split_glue (by simp) path

/-! ### Components by pieces -/

theorem leading_split (path : String) : leading (Text.split '/' path) =
    if isAbsolute path then [.root]
    else if (Text.split '/' path).head? = some "." then [.here] else [] := by
  split
  · next habsolute =>
    obtain ⟨rest, hrest⟩ : ∃ rest, path = "" ++ "/" ++ rest := by
      have hhead : path.toList.head? = some '/' := by simpa [isAbsolute] using habsolute
      obtain ⟨rest, hrest⟩ := List.head?_eq_some_iff.mp hhead
      exact ⟨.ofList rest, String.toList_inj.mp (by simp [hrest])⟩
    obtain ⟨piece, more, hmore⟩ := List.exists_cons_of_ne_nil (Text.split_ne_nil rest)
    rw [hrest, split_slash, hmore]
    rfl
  · next habsolute =>
    obtain ⟨piece, more, hmore⟩ := List.exists_cons_of_ne_nil (Text.split_ne_nil path)
    rw [hmore]
    by_cases hdot : piece = "."
    · rw [hdot]
      rfl
    · rw [if_neg (by simpa using hdot)]
      unfold leading
      split
      · next heq =>
        -- An empty piece that is not the last one stands in front of a slash.
        refine absurd ?_ habsolute
        rw [← intercalate_split path, hmore, heq]
        simp [isAbsolute, String.toList_intercalate, List.intercalate]
      · next heq => exact absurd (List.cons.inj heq).1 hdot
      · rfl

theorem components_eq (path : String) : components path =
    leading (Text.split '/' path) ++ (Text.split '/' path).filterMap innerComponent := by
  rw [leading_split, components]
  split
  · rfl
  · split <;> rfl

theorem components_intercalate (h : ∀ piece ∈ pieces, '/' ∉ piece.toList) :
    components ("/".intercalate pieces) = leading pieces ++ pieces.filterMap innerComponent := by
  rcases eq_or_ne pieces [] with rfl | hne
  · rfl
  · rw [components_eq, Text.split_intercalate (by simp) hne h]

theorem filterMap_of_blank (h : ∀ piece ∈ pieces, piece = "" ∨ piece = ".") :
    pieces.filterMap innerComponent = [] := by
  refine List.filterMap_eq_nil_iff.mpr fun piece hpiece => ?_
  rcases h piece hpiece with rfl | rfl <;> rfl

theorem filterMap_of_trimPieces_eq_nil (h : trimPieces pieces = []) :
    pieces.filterMap innerComponent = [] := by
  obtain ⟨junk, hjunk, hempty⟩ := eq_trimPieces_append pieces
  rw [h, List.nil_append] at hjunk
  rw [hjunk]
  exact filterMap_of_blank hempty

theorem leading_cases (pieces : List String) :
    (∃ body, pieces = "" :: body ∧ body ≠ [] ∧ leading pieces = [.root]) ∨
      (∃ body, pieces = "." :: body ∧ leading pieces = [.here]) ∨ leading pieces = [] := by
  unfold leading
  split
  · exact .inl ⟨_, rfl, List.cons_ne_nil _ _, rfl⟩
  · exact .inr (.inl ⟨_, rfl, rfl⟩)
  · exact .inr (.inr rfl)

theorem leading_eq_nil_of_append {more : List String} (h : leading (pieces ++ more) = []) :
    leading pieces = [] := by
  rcases leading_cases pieces with ⟨body, rfl, hne, -⟩ | ⟨body, rfl, -⟩ | hleading
  · obtain ⟨piece, body, rfl⟩ := List.exists_cons_of_ne_nil hne
    cases h
  · cases h
  · exact hleading

theorem leading_append (hne : pieces ≠ []) (hempty : pieces ≠ [""]) (more : List String) :
    leading (pieces ++ more) = leading pieces := by
  rcases leading_cases pieces with ⟨body, rfl, hbody, -⟩ | ⟨body, rfl, -⟩ | hleading
  · obtain ⟨piece, body, rfl⟩ := List.exists_cons_of_ne_nil hbody
    rfl
  · rfl
  · rw [hleading]
    rcases leading_cases (pieces ++ more) with ⟨body, h, -⟩ | ⟨body, h, -⟩ | h
    · obtain ⟨piece, rest, rfl⟩ := List.exists_cons_of_ne_nil hne
      obtain ⟨rfl, -⟩ := List.cons.inj h
      obtain ⟨next, others, rfl⟩ := List.exists_cons_of_ne_nil fun hnil : rest = [] =>
        hempty (by rw [hnil])
      cases hleading
    · obtain ⟨piece, rest, rfl⟩ := List.exists_cons_of_ne_nil hne
      obtain ⟨rfl, -⟩ := List.cons.inj h
      cases hleading
    · exact h

/-! ### Parents -/

/-- The parts of a path that its parent is read off. -/
theorem exists_parts (path : String) : ∃ front body, Text.split '/' path = front ++ body ∧
    (front = [] ∧ leading body = [] ∨ front = ["."] ∨ front = [""] ∧ body ≠ []) ∧
    parent? path =
      if trimPieces body = [] then if front = ["."] then some "" else none
      else some (if front ++ trimPieces (trimPieces body).dropLast = [""] then "/"
        else "/".intercalate (front ++ trimPieces (trimPieces body).dropLast)) := by
  have hcut : (if isAbsolute path || (Text.split '/' path).head? = some "." then
      (Text.split '/' path).splitAt 1 else ([], Text.split '/' path)) =
      if leading (Text.split '/' path) = [] then ([], Text.split '/' path)
      else (Text.split '/' path).splitAt 1 := by
    rw [leading_split]
    split_ifs <;> simp_all
  unfold parent?
  dsimp only
  rw [hcut]
  generalize hparts : (if leading (Text.split '/' path) = [] then ([], Text.split '/' path)
    else (Text.split '/' path).splitAt 1) = parts
  obtain ⟨front, body⟩ := parts
  have hshape : Text.split '/' path = front ++ body ∧
      (front = [] ∧ leading body = [] ∨ front = ["."] ∨ front = [""] ∧ body ≠ []) := by
    rcases leading_cases (Text.split '/' path) with
      ⟨more, hsplit, hne, hleading⟩ | ⟨more, hsplit, hleading⟩ | hleading
    · rw [hleading, if_neg (List.cons_ne_nil _ _), hsplit, List.splitAt_eq] at hparts
      obtain ⟨rfl, rfl⟩ := Prod.mk.inj hparts
      exact ⟨hsplit, .inr (.inr ⟨rfl, hne⟩)⟩
    · rw [hleading, if_neg (List.cons_ne_nil _ _), hsplit, List.splitAt_eq] at hparts
      obtain ⟨rfl, rfl⟩ := Prod.mk.inj hparts
      exact ⟨hsplit, .inr (.inl rfl)⟩
    · rw [if_pos hleading] at hparts
      obtain ⟨rfl, rfl⟩ := Prod.mk.inj hparts
      exact ⟨rfl, .inl ⟨rfl, hleading⟩⟩
  refine ⟨front, body, hshape.1, hshape.2, ?_⟩
  dsimp only
  split
  · next hbody => rw [if_pos hbody]
  · next hbody =>
    have hbody : trimPieces body ≠ [] := hbody
    rw [if_neg hbody]
    simp only [append_trimPieces_eq_iff, Bool.and_eq_true, decide_eq_true_eq, List.isEmpty_iff]

/-- Such parts say in front what they say without the last pieces. -/
theorem leading_of_front {front rest more : List String}
    (hfront : front = [] ∧ leading (rest ++ more) = [] ∨ front = ["."] ∨
      front = [""] ∧ rest ++ more ≠ []) (hroot : front ++ rest ≠ [""]) :
    leading (front ++ rest) = leading (front ++ (rest ++ more)) := by
  rcases hfront with ⟨rfl, hleading⟩ | rfl | ⟨rfl, -⟩
  · rw [List.nil_append, List.nil_append, hleading]
    exact leading_eq_nil_of_append hleading
  · rfl
  · obtain ⟨piece, others, rfl⟩ := List.exists_cons_of_ne_nil fun hnil : rest = [] =>
      hroot (by rw [hnil]; rfl)
    rfl

/-- The pieces of a path are those of its parent, a last one that counts, and between and behind
these such as say nothing. -/
theorem split_of_parent? (h : parent? path = some above) (hne : above ≠ "") :
    ∃ lead between last behind, Text.split '/' path = lead ++ (between ++ last :: behind) ∧
      lead ≠ [] ∧ (∀ piece ∈ between, piece = "" ∨ piece = ".") ∧ last ≠ "" ∧ last ≠ "." ∧
      above = if lead = [""] then "/" else "/".intercalate lead := by
  obtain ⟨front, body, hsplit, -, hparent⟩ := exists_parts path
  rw [hparent] at h
  split at h
  · split at h
    · exact absurd (Option.some.inj h).symm hne
    · cases h
  · next hbody =>
    obtain ⟨between, last, behind, hparted, hempty, hlast, hdot, -⟩ := exists_last hbody
    have habove := (Option.some.inj h).symm
    refine ⟨front ++ trimPieces (trimPieces body).dropLast, between, last, behind, ?_, ?_, hempty,
      hlast, hdot, habove⟩
    · rw [hsplit, List.append_assoc, ← hparted]
    · intro hnil
      rw [hnil] at habove
      exact hne habove

/-- The parent of a path has all its components but the last. -/
theorem components_of_parent? (h : parent? path = some above) :
    components above = (components path).dropLast := by
  obtain ⟨front, body, hsplit, hfront, hparent⟩ := exists_parts path
  rw [hparent] at h
  rw [components_eq path, hsplit, List.filterMap_append]
  split at h
  · next hbody =>
    split at h
    · next hdot =>
      obtain rfl := Option.some.inj h
      rw [hdot, filterMap_of_trimPieces_eq_nil hbody]
      rfl
    · cases h
  · next hbody =>
    obtain ⟨between, last, behind, hparted, hempty, hlast, hdot, hempty'⟩ := exists_last hbody
    obtain rfl := Option.some.inj h
    generalize hrest : trimPieces (trimPieces body).dropLast = rest at hparted ⊢
    obtain ⟨component, hcomponent⟩ := Option.ne_none_iff_exists'.mp fun hnone =>
      (innerComponent_eq_none hnone).elim hlast hdot
    -- What the body says: the rest, the last piece, and nothing besides.
    have htold : body.filterMap innerComponent =
        rest.filterMap innerComponent ++ [component] := by
      rw [hparted, List.filterMap_append, List.filterMap_append, filterMap_of_blank hempty,
        List.filterMap_cons_some hcomponent, filterMap_of_blank hempty']
      rfl
    rw [htold, ← List.append_assoc, ← List.append_assoc, List.dropLast_concat, List.append_assoc,
      ← List.filterMap_append]
    split
    · next hroot =>
      rw [← hrest] at hroot
      obtain ⟨rfl, hnil⟩ := append_trimPieces_eq_iff.mp hroot
      obtain ⟨piece, more, rfl⟩ := List.exists_cons_of_ne_nil fun hnil : body = [] =>
        hbody (by rw [hnil]; rfl)
      rw [← hrest, hnil]
      rfl
    · next hroot =>
      rw [components_intercalate fun piece hpiece hslash => ?_]
      · rw [hparted] at hfront
        rw [hparted, leading_of_front hfront hroot]
      · have hmem : piece ∈ Text.split '/' path := by
          rw [hsplit, hparted, ← List.append_assoc]
          exact List.mem_append_left _ hpiece
        exact (Text.mem_of_mem_split hmem hslash).2 rfl

/-- The path has a parent if its last component is a name. -/
theorem exists_parent? (h : fileName? path = some name) : ∃ above, parent? path = some above := by
  obtain ⟨front, body, hsplit, hfront, hparent⟩ := exists_parts path
  rw [hparent]
  split
  · next hbody =>
    rw [fileName?, components_eq, hsplit, List.filterMap_append,
      filterMap_of_trimPieces_eq_nil hbody] at h
    rcases hfront with ⟨rfl, hleading⟩ | rfl | ⟨rfl, hne⟩
    · rw [List.nil_append, hleading] at h
      cases h
    · exact ⟨"", rfl⟩
    · obtain ⟨piece, more, rfl⟩ := List.exists_cons_of_ne_nil hne
      cases h
  · exact ⟨_, rfl⟩

/-! ### What lies in a directory -/

/-- Behind a directory a path says what its pieces say. -/
theorem components_join (hd : directory ≠ "") (hp : isAbsolute path = false) :
    components (join directory path) =
      components directory ++ (Text.split '/' path).filterMap innerComponent := by
  obtain ⟨front, hjoin, hdirectory⟩ := join_eq hd hp
  have hfront : Text.split '/' front ≠ [] := Text.split_ne_nil front
  rw [hjoin, components_eq, components_eq, split_slash, List.filterMap_append, ← List.append_assoc]
  rcases hdirectory with rfl | rfl
  · have hsplit : Text.split '/' (front ++ "/") = Text.split '/' front ++ [""] := by
      rw [← String.append_empty (s := front ++ "/"), split_slash]
      rfl
    have hleading : leading (Text.split '/' front ++ Text.split '/' path) =
        leading (Text.split '/' front ++ [""]) := by
      by_cases hempty : Text.split '/' front = [""]
      · obtain ⟨piece, more, hmore⟩ := List.exists_cons_of_ne_nil (Text.split_ne_nil path)
        rw [hempty, hmore]
        rfl
      · rw [leading_append hfront hempty, leading_append hfront hempty]
    have hnone : [""].filterMap innerComponent = [] := by rfl
    rw [hsplit, List.filterMap_append, hleading, hnone, List.append_nil]
  · have hempty : Text.split '/' directory ≠ [""] := fun he =>
      hd (Text.split_inj (he.trans (by rfl)))
    rw [leading_append hfront hempty]

/-- Dots are no names. -/
theorem fileName?_ne (h : fileName? path = some name) : name ≠ "." ∧ name ≠ ".." := by
  have hmem : Component.name name ∈ components path := by
    unfold fileName? at h
    split at h
    · next hlast =>
      obtain rfl := Option.some.inj h
      exact List.mem_of_getLast? hlast
    · cases h
  rw [components_eq, List.mem_append, List.mem_filterMap] at hmem
  rcases hmem with hmem | ⟨piece, -, hpiece⟩
  · rcases leading_cases (Text.split '/' path) with ⟨body, -, -, hl⟩ | ⟨body, -, hl⟩ | hl <;>
      simp [hl] at hmem
  · unfold innerComponent at hpiece
    split at hpiece
    · cases hpiece
    · next hdot =>
      split at hpiece
      · cases hpiece
      · next hup =>
        obtain rfl := Component.name.inj (Option.some.inj hpiece)
        exact ⟨fun he => hdot (.inr he), hup⟩

/-- A name leads into the directory, unless it is that of the directory itself or of the one
above. -/
theorem liesIn_join_iff (hslash : '/' ∉ name.toList) (hne : name ≠ "") :
    LiesIn directory name (join directory name) ↔ name ≠ "." ∧ name ≠ ".." := by
  refine ⟨fun h => fileName?_ne h.2, fun ⟨hdot, hup⟩ => ?_⟩
  have hinner := inner_of_notMem hslash hne
  have hname : (Text.split '/' name).filterMap innerComponent = [.name name] := by
    rw [Text.split_of_notMem hslash]
    simp [innerComponent, hne, hdot, hup]
  have hjoin : components (join directory name) = components directory ++ [.name name] := by
    rcases eq_or_ne directory "" with rfl | hd
    · have hleading : leading [name] = [] := by
        rcases leading_cases [name] with ⟨body, h, hbody, -⟩ | ⟨body, h, -⟩ | h
        · exact absurd (List.cons.inj h).2.symm hbody
        · exact absurd (List.cons.inj h).1 hdot
        · exact h
      rw [join, hinner.not_isAbsolute, if_neg (by simp), if_pos rfl, components_eq, hname,
        Text.split_of_notMem hslash, hleading]
      rfl
    · rw [components_join hd hinner.not_isAbsolute, hname]
  have hfile : fileName? (join directory name) = some name := by
    rw [fileName?, hjoin, List.getLast?_concat]
  obtain ⟨above, hparent⟩ := exists_parent? hfile
  refine ⟨⟨above, hparent, ?_⟩, hfile⟩
  rw [same, decide_eq_true_iff, components_of_parent? hparent, hjoin, List.dropLast_concat]

end ClassRecovery.Path
