import ClassRecovery.Proofs.Files.Absence
import ClassRecovery.Proofs.Files.Parents
import ClassRecovery.Proofs.Files.Written

/-!
Directories that are made to put a file in. Whatever is found at the path of the file, all of them
are there already and none is made. Where nothing is found, each of them that is made is new and
empty, so nothing is found afterwards either, unless the path goes up again on its way.
-/

namespace ClassRecovery

namespace Path

/-- What is written behind a directory to come to something inside it. -/
def Leads (pieces : List String) : Prop :=
  ∃ dots name rest, pieces = dots ++ name :: rest ∧ (∀ dot ∈ dots, dot = ".") ∧ name ≠ "."

/-- The path is written on from its front, from which it comes to something inside. -/
structure GoesOn (front path : String) : Prop where
  filled : front ≠ ""
  text : ∃ tail, path = front ++ tail
  pieces : ∃ behind, FileSystem.pieces path = FileSystem.pieces front ++ behind ∧ Leads behind

variable {front path above : String}

theorem Leads.append {pieces : List String} (h : Leads pieces) (more : List String) :
    Leads (pieces ++ more) := by
  obtain ⟨dots, name, rest, rfl, hdots, hname⟩ := h
  exact ⟨dots, name, rest ++ more, by simp, hdots, hname⟩

theorem GoesOn.trans {middle : String} (h : GoesOn front middle) (h' : GoesOn middle path) :
    GoesOn front path := by
  obtain ⟨tail, rfl⟩ := h.text
  obtain ⟨tail', rfl⟩ := h'.text
  obtain ⟨behind, hbehind, hleads⟩ := h.pieces
  obtain ⟨behind', hbehind', -⟩ := h'.pieces
  refine ⟨h.filled, ⟨tail ++ tail', String.append_assoc⟩, behind ++ behind', ?_,
    hleads.append behind'⟩
  rw [hbehind', hbehind, List.append_assoc]

theorem goesOn_of_parent? (h : parent? path = some above) (hne : above ≠ "") :
    GoesOn above path := by
  obtain ⟨lead, between, last, behind, hsplit, hlead, hempty, hlast, hdot, habove⟩ :=
    split_of_parent? h hne
  obtain ⟨a, b, hpath, ha, -⟩ := Text.split_eq_append hsplit hlead (by simp)
  have hpath : path = a ++ "/" ++ b := String.toList_inj.mp (by simp [hpath])
  have hleads : Leads ((between ++ last :: behind).filter (· ≠ "")) := by
    refine ⟨between.filter (· ≠ ""), last, behind.filter (· ≠ ""), ?_, fun dot hmem => ?_, hdot⟩
    · rw [List.filter_append, List.filter_cons, if_pos (by simpa using hlast)]
    · obtain ⟨hbetween, hfilled⟩ := List.mem_filter.mp hmem
      exact (hempty dot hbetween).resolve_left (by simpa using hfilled)
  have hpieces : FileSystem.pieces path =
      lead.filter (· ≠ "") ++ (between ++ last :: behind).filter (· ≠ "") := by
    rw [FileSystem.pieces, hsplit, List.filter_append]
  split at habove
  · next hroot =>
    subst hroot
    obtain rfl : a = "" := by rw [← intercalate_split a, ha]; rfl
    refine ⟨hne, ⟨b, ?_⟩, _, ?_, hleads⟩
    · rw [hpath, habove]
      rfl
    · rw [hpieces, habove]
      rfl
  · rw [← ha, intercalate_split] at habove
    subst habove
    refine ⟨hne, ⟨"/" ++ b, by rw [hpath, String.append_assoc]⟩, _, ?_, hleads⟩
    rw [hpieces, ← ha]
    rfl

end Path

namespace FileSystem

variable {fs fs' : FileSystem} {path front above : String} {place next : Place} {i : Nat}

/-- From each of the directories above it, a path comes to something inside. -/
theorem goesOn_of_mem_ancestry {depth : Nat} (h : Path.GoesOn above path) :
    ∀ front ∈ ancestry depth above, Path.GoesOn front path := by
  induction depth generalizing above with
  | zero => simp [ancestry]
  | succ depth ih =>
    intro front hfront
    rw [ancestry] at hfront
    cases hparent : Path.parent? above with
    | none =>
      rw [hparent] at hfront
      cases hfront
    | some outer =>
      rw [hparent] at hfront
      rcases List.mem_cons.mp hfront with rfl | hfront
      · exact h
      · by_cases hne : outer = ""
        · -- There is nothing above the empty path.
          subst hne
          cases depth <;> cases hfront
        · exact ih ((Path.goesOn_of_parent? hparent hne).trans h) front hfront

theorem start_of_goesOn (h : Path.GoesOn front path) {origin : Place}
    (hstart : fs.start path = .ok origin) : fs.start front = .ok origin := by
  obtain ⟨tail, rfl⟩ := h.text
  exact start_of_append h.filled hstart

section Present

/-- A path that can be walked ends in dots or in a name that is there. -/
theorem ending_of_walk {origin : Place} (hstart : fs.start front = .ok origin)
    (hwalk : fs.walk origin (pieces front) = .ok place) :
    ∃ ending, fs.ending front = .ok ending ∧ ∀ i name, ending = .name i name →
      ∃ t, fs.target i name = .ok t ∧ t.node.isSome := by
  unfold ending
  rw [hstart]
  rcases List.eq_nil_or_concat (pieces front) with hnil | ⟨names, name, hconcat⟩
  · rw [hnil]
    exact ⟨.root, rfl, fun i name h => by cases h⟩
  · rw [List.concat_eq_append] at hconcat
    rw [hconcat, walk_append] at hwalk
    obtain ⟨before, hbefore, hlast⟩ := bind_eq_ok_iff.mp hwalk
    obtain ⟨next, hstep, -⟩ := bind_eq_ok_iff.mp (show fs.step before name >>= _ = _ from hlast)
    obtain ⟨entries, hentries, hname⟩ := searchable_of_step hstep
    obtain ⟨_, mode, hplace, hnode, -⟩ := searchable_eq_ok_iff.mp hentries
    obtain ⟨⟨last, i⟩, hhead, rfl⟩ := Option.map_eq_some_iff.mp hplace
    rw [hconcat]
    simp only [bind, Except.bind, List.getLast?_concat, List.dropLast_concat, hbefore, hentries,
      hhead]
    split
    · exact ⟨.here, rfl, fun i name h => by cases h⟩
    · exact ⟨.up, rfl, fun i name h => by cases h⟩
    · next name _ _ _ _ hhere hup hsome =>
      cases hsome
      refine ⟨.name i name, rfl, fun i name h => ?_⟩
      cases h
      obtain ⟨hlong, hthere⟩ := (hname.resolve_left hhere).resolve_left hup
      refine ⟨⟨i, name, entries.lookup name⟩, ?_, hthere⟩
      simp only [target, Nat.not_lt.mpr hlong, ↓reduceIte, hnode]
    · next hnone => cases hnone

/-- A directory that can be walked to is there already. -/
theorem makeDirectory_of_walk {origin : Place} (hstart : fs.start front = .ok origin)
    (hwalk : fs.walk origin (pieces front) = .ok place) :
    fs.makeDirectory front = .error .alreadyExists := by
  obtain ⟨ending, hending, hname⟩ := ending_of_walk hstart hwalk
  unfold makeDirectory
  rw [hending]
  cases ending with
  | name i name =>
    obtain ⟨t, ht, hnode⟩ := hname i name rfl
    simp only [bind, Except.bind, ht, hnode, ↓reduceIte]
    rfl
  | root => rfl
  | here => rfl
  | up => rfl

/-- No directory is made for what is found. -/
theorem makeDirectories_of_present (h : fs.isPresent path = true)
    (hgoes : Path.GoesOn above path) : (fs.makeDirectories above).1 = fs := by
  obtain ⟨⟨i, n⟩, hfind⟩ := isPresent_iff.mp h
  obtain ⟨origin, place, hstart, hwalk, -⟩ := find_eq_ok_iff.mp hfind
  obtain ⟨behind, hbehind, -⟩ := hgoes.pieces
  rw [hbehind, walk_append] at hwalk
  obtain ⟨before, hbefore, -⟩ := bind_eq_ok_iff.mp hwalk
  have hmake := makeDirectory_of_walk (start_of_goesOn hgoes hstart) hbefore
  unfold makeDirectories
  cases hdepth : ancestry (Path.components above).length above with
  | nil => rfl
  | cons first upwards =>
    have hfirst : first = above := by
      cases hcount : (Path.components above).length with
      | zero =>
        rw [hcount] at hdepth
        cases hdepth
      | succ depth =>
        rw [hcount, ancestry] at hdepth
        split at hdepth
        · cases hdepth
        · exact (List.cons.inj hdepth).1.symm
    rw [hfirst, makeDirectories.go, hmake]
    dsimp only
    rw [if_neg (by decide)]
    split <;> rfl

end Present

section Making

variable (kept : FileSystem → Prop) {paths : List String}
  (hstep : ∀ {fs fs' front}, front ∈ paths → kept fs → fs.makeDirectory front = .ok fs' → kept fs')

include hstep

theorem keeps_makeAll {missing : List String} (hmissing : missing ⊆ paths) (h : kept fs) :
    kept (fs.makeAll missing).1 := by
  induction missing generalizing fs with
  | nil => exact h
  | cons front missing ih =>
    obtain ⟨hfront, hmissing⟩ := List.cons_subset.mp hmissing
    rw [makeAll]
    split
    · next hmade => exact ih hmissing (hstep hfront h hmade)
    · split
      · exact ih hmissing h
      · exact h

theorem keeps_go {upwards missing : List String} (hupwards : upwards ⊆ paths)
    (hmissing : missing ⊆ paths) (h : kept fs) : kept (makeDirectories.go fs upwards missing).1 := by
  induction upwards generalizing missing with
  | nil => exact keeps_makeAll kept hstep hmissing h
  | cons front upwards ih =>
    obtain ⟨hfront, hupwards⟩ := List.cons_subset.mp hupwards
    rw [makeDirectories.go]
    split
    · next hmade => exact keeps_makeAll kept hstep hmissing (hstep hfront h hmade)
    · split
      · exact ih hupwards (List.cons_subset.mpr ⟨hfront, hmissing⟩)
      · split
        · exact keeps_makeAll kept hstep hmissing h
        · exact h

/-- What is kept when each directory above a path is made is kept when all of them are. -/
theorem keeps_makeDirectories (habove : ancestry (Path.components above).length above ⊆ paths)
    (h : kept fs) : kept (fs.makeDirectories above).1 :=
  keeps_go kept hstep habove (List.nil_subset _) h

end Making

section Absent

/-- From an empty directory there is no way on but by dots. -/
theorem walk_of_empty {mode : Nat} {behind : List String} (hplace : place.head?.map (·.2) = some i)
    (hnode : fs.node? i = some ⟨.directory [], mode⟩)
    (hsearch : mode.testBit Access.search.bit = true) (hleads : Path.Leads behind)
    (hup : ".." ∉ behind) : fs.walk place behind ≠ .ok next := by
  obtain ⟨dots, name, rest, rfl, hdots, hhere⟩ := hleads
  obtain ⟨above, hhead, rfl⟩ := Option.map_eq_some_iff.mp hplace
  have hsearchable : fs.searchable place = .ok [] := by
    simp [searchable, hhead, hnode, FileNode.allows, hsearch]
  induction dots with
  | nil =>
    have hname : name ≠ ".." := fun h => hup (by simp [h])
    intro hwalk
    obtain ⟨p, hstep, -⟩ := bind_eq_ok_iff.mp (show fs.step place name >>= _ = _ from hwalk)
    unfold step at hstep
    rw [hsearchable] at hstep
    simp only [bind, Except.bind, hhere, hname, ↓reduceIte, List.lookup_nil] at hstep
    split at hstep <;> cases hstep
  | cons dot dots ih =>
    obtain rfl : dot = "." := hdots dot List.mem_cons_self
    have hstep : fs.step place "." = .ok place := by
      unfold step
      rw [hsearchable]
      rfl
    rw [List.cons_append, walk, hstep]
    exact ih (fun hmem => hup (List.mem_cons_of_mem _ hmem))
      fun d hd => hdots d (List.mem_cons_of_mem _ hd)

/-- A directory that is made is new and empty. -/
theorem makeDirectory_eq_ok (h : fs.makeDirectory front = .ok fs') :
    ∃ a : fs.Approach front, a.entries.lookup a.name = none ∧
      fs' = a.added ⟨.directory [], 0o755⟩ := by
  unfold makeDirectory at h
  obtain ⟨ending, hending, hmake⟩ := bind_eq_ok_iff.mp h
  split at hmake
  · next i name =>
    obtain ⟨t, ht, hcreate⟩ := bind_eq_ok_iff.mp hmake
    obtain ⟨a, rfl, rfl⟩ := exists_approach hending (short_of_target ht)
    rw [a.target_eq] at ht
    cases ht
    dsimp only at hcreate
    split at hcreate
    · cases hcreate
    · next hnone =>
      exact ⟨a, Option.not_isSome_iff_eq_none.mp hnone, a.create_eq_ok rfl rfl hcreate⟩
  · cases hmake

theorem isPresent_of_made (h : fs.makeDirectory front = .ok fs') (hgoes : Path.GoesOn front path)
    (hup : ".." ∉ pieces path) : fs'.isPresent path = false := by
  obtain ⟨behind, hbehind, hleads⟩ := hgoes.pieces
  obtain ⟨a, hnone, rfl⟩ := makeDirectory_eq_ok h
  let new : FileNode := ⟨.directory [], 0o755⟩
  have hmade := (a.extended new).walk_of_lookup (a.lookup_extended hnone new)
  by_contra hpresent
  obtain ⟨⟨j, n⟩, hfind⟩ := isPresent_iff.mp (Bool.eq_true_of_not_eq_false hpresent)
  obtain ⟨origin, place, hstart, hwalk, -⟩ := find_eq_ok_iff.mp hfind
  cases (a.extended new).start.symm.trans (start_of_goesOn hgoes hstart)
  rw [hbehind, walk_append, hmade] at hwalk
  refine walk_of_empty rfl (a.node?_extended new) (by decide) hleads (fun hmem => hup ?_) hwalk
  rw [hbehind]
  exact List.mem_append_right _ hmem

/-- What is not found is not found when the directories above it have been made. -/
theorem isPresent_makeDirectories (hup : ".." ∉ pieces path) (hgoes : Path.GoesOn above path)
    (h : fs.isPresent path = false) : (fs.makeDirectories above).1.isPresent path = false :=
  keeps_makeDirectories (fun fs => fs.isPresent path = false)
    (fun hfront _ hmade => isPresent_of_made hmade (goesOn_of_mem_ancestry hgoes _ hfront) hup)
    (List.Subset.refl _) h

end Absent

end FileSystem

end ClassRecovery
