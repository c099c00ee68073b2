import ClassRecovery.Collector.DumpTree
import ClassRecovery.Proofs.Collector.Sweeping

/-!
What the removal of a dump directory leaves. Lack of permission does not end it, so it leaves what
is kept, with one exception: a directory that cannot be listed is not seen to hold anything, and
that it cannot be removed is then a fault.
-/

namespace ClassRecovery.DumpTree

open FileSystem

variable {fs : FileSystem} {path name n : String} {parent i j depth mode : Nat}
  {first : List (Nat × String)} {outcome : Except IoError Unit}
  {entries rest : List (String × Nat)}

section Children

/-- Removals that go so deep take out of every tree no deeper than that what nothing keeps, or end
at a sealed directory. -/
def Sweeps (depth : Nat) : Prop :=
  ∀ {fs : FileSystem} {path : String} {parent : Nat} {name : String} {i : Nat},
    Located fs path parent name i → FileTree fs path i →
    (∀ names j, fs.descend? i names = some j → names.length < depth) →
    ∃ gone outcome, removeBelow depth fs path (fs.isDirectoryNode i) = (fs.without gone, outcome) ∧
      Swept fs parent name i (fun _ => True) gone outcome

variable (hlocated : Located fs path parent name i) (htree : FileTree fs path i)
  (hnode : fs.node? i = some ⟨.directory entries, mode⟩)
  (hdepth : ∀ names j, fs.descend? i names = some j → names.length < depth + 1)

include hlocated htree hnode hdepth

/-- One child of an open directory. -/
theorem removeBelow_child (hsweeps : Sweeps depth) (hread : fs.lets i .read = true)
    (hsearch : fs.lets i .search = true) {names : List String} (hn : n ∈ names)
    (hproper : Proper n) (hj : fs.descend? i [n] = some j)
    (hbefore : Swept fs parent name i (Beside names) first outcome) :
    ∃ gone outcome, removeBelow depth (fs.without first) (Path.join path n)
        (fs.isDirectoryNode j) = (fs.without (first ++ gone), outcome) ∧
      Swept fs parent name i (fun names => names.head? = some n) gone outcome := by
  have hi := isDirectoryNode_of_node? hnode
  obtain ⟨hclear, hmem⟩ := hbefore.clear_child htree hi hj hn
  have hlocated' := hlocated.without
    (hbefore.below fun names hnames hnil => by simp [Beside, hnil] at hnames)
  have htree' := htree.without first
  have hj' : (fs.without first).descend? i [n] = some j := by
    rw [descend?_singleton (node?_without_directory hnode first), lookup_without, if_neg hmem,
      ← descend?_singleton hnode, hj]
  have hback := htree'.ne_of_child (by rwa [isDirectoryNode_without]) hj'
  have hchild := hlocated'.child hproper (htree.short_child hj) (by rwa [lets_without]) hj' hback
  have hdepth' : ∀ names k, (fs.without first).descend? j names = some k →
      names.length < depth := by
    intro names k hk
    have hlength := hdepth (n :: names) k (descend?_of_child hj (descend?_of_without hk))
    exact Nat.lt_of_succ_lt_succ hlength
  obtain ⟨gone, outcome, heq, hswept⟩ := hsweeps hchild (htree'.child hj') hdepth'
  rw [isDirectoryNode_without, without_without] at heq
  exact ⟨gone, outcome, heq, (hswept.of_without hclear).child hread hsearch hj⟩

/-- All children of an open directory, from where some of them were already done with. -/
theorem removeEach_swept (hsweeps : Sweeps depth) (hread : fs.lets i .read = true)
    (hsearch : fs.lets i .search = true) (hnodup : (rest.map (·.1)).Nodup)
    (hrest : ∀ e ∈ rest, Proper e.1 ∧ fs.descend? i [e.1] = some e.2)
    (hbefore : Swept fs parent name i (Beside (rest.map (·.1))) first (.ok ())) :
    ∃ gone outcome, removeEach (removeBelow depth) path (fs.without first)
        (rest.map fun e => (e.1, fs.isDirectoryNode e.2)) = (fs.without gone, outcome) ∧
      Swept fs parent name i (· ≠ []) gone outcome := by
  induction rest generalizing first with
  | nil =>
    exact ⟨first, .ok (), rfl, hbefore.of_iff fun names => beside_nil_iff.symm⟩
  | cons e rest ih =>
    obtain ⟨n, j⟩ := e
    obtain ⟨hproper, hj⟩ := hrest (n, j) List.mem_cons_self
    obtain ⟨hn, hnodup⟩ := List.nodup_cons.mp hnodup
    obtain ⟨gone, outcome, heq, hswept⟩ := removeBelow_child hlocated htree hnode hdepth hsweeps
      hread hsearch List.mem_cons_self hproper hj hbefore
    have hboth := hbefore.append hswept
    rw [List.map_cons, removeEach, heq]
    cases outcome with
    | error e =>
      refine ⟨first ++ gone, .error e, rfl, hboth.mono fun names hnames => ?_⟩
      rintro rfl
      simp [Beside] at hnames
    | ok _ =>
      exact ih hnodup (fun e he => hrest e (List.mem_cons_of_mem _ he))
        (hboth.of_iff fun names => beside_iff hn)

end Children

section Entry

@[simp] theorem isDenied_permissionDenied : isDenied .permissionDenied = true := rfl

@[simp] theorem isDenied_directoryNotEmpty : isDenied .directoryNotEmpty = false := rfl

/-- What the removal of an emptied entry comes to, where the names in `first` are gone. -/
def RemovesEntry (fs : FileSystem) (path : String) (parent : Nat) (name : String) (i : Nat)
    (first : List (Nat × String)) : Prop :=
  (∃ gone, removeEntry (fs.without first) path (fs.isDirectoryNode i) =
      .ok (fs.without (first ++ gone)) ∧ Swept fs parent name i (· = []) gone (.ok ())) ∨
    removeEntry (fs.without first) path (fs.isDirectoryNode i) = .error .directoryNotEmpty ∧
      Swept fs parent name i (· = []) [] (.error .directoryNotEmpty)

variable (hlocated : Located fs path parent name i)

include hlocated

theorem removeEntry_file {content : Bytes} (hnode : fs.node? i = some ⟨.file content, mode⟩)
    (hfirst : ∀ e ∈ first, ∃ names, fs.descend? i names = some e.1) :
    RemovesEntry fs path parent name i first := by
  have hi : fs.isDirectoryNode i = false := by rw [isDirectoryNode, hnode]
  have hremove := (hlocated.without hfirst).removeFile_eq (by rwa [isDirectoryNode_without])
  rw [lets_without, without_without] at hremove
  refine .inl ?_
  cases hwrite : fs.lets parent .write with
  | false =>
    refine ⟨[], ?_, swept_kept (kept_nil_of_denied hwrite) (not_sealed_nil_of_denied hwrite)⟩
    simp [removeEntry, hi, hremove, hwrite]
  | true =>
    refine ⟨[(parent, name)], ?_, swept_free ?_⟩
    · simp [removeEntry, hi, hremove, hwrite]
    · rintro ⟨rest, hsome, hdenied⟩
      cases rest with
      | nil => exact absurd hdenied (by simp [Denied, hwrite])
      | cons n rest => simp [descend?, hnode] at hsome

theorem removeEntry_directory (htree : FileTree fs path i)
    (hnode : fs.node? i = some ⟨.directory entries, mode⟩)
    (hfirst : Swept fs parent name i (· ≠ []) first (.ok ())) :
    RemovesEntry fs path parent name i first := by
  have hi := isDirectoryNode_of_node? hnode
  have hlocated' := hlocated.without (hfirst.below fun names => id)
  have hnode' := node?_without_directory hnode first
  have hremove := hlocated'.removeDirectory_eq hnode'
  have hlist := hlocated'.list_eq hnode'
  rw [lets_without] at hremove hlist
  rw [without_without] at hremove
  cases hwrite : fs.lets parent .write with
  | false =>
    refine .inl ⟨[], ?_, swept_kept (kept_nil_of_denied hwrite) (not_sealed_nil_of_denied hwrite)⟩
    simp [removeEntry, hi, hremove, hwrite]
  | true =>
    have hkept := hfirst.kept_nil_iff htree hnode hwrite
    by_cases hempty : (entries.filter fun e => (i, e.1) ∉ first) = []
    · refine .inl ⟨[(parent, name)], ?_, swept_free (mt hkept.mp (not_not_intro hempty))⟩
      simp only [removeEntry, hi, hremove, hwrite, if_pos hempty, ↓reduceIte]
    · rw [hwrite, if_neg hempty] at hremove
      cases hread : fs.lets i .read with
      | true =>
        have hseen : isSeenFull (fs.without first) path = true := by
          simpa [isSeenFull, hlist, hread] using hempty
        refine .inl ⟨[], ?_, swept_kept (hkept.mpr hempty) (not_sealed_nil_of_readable hread)⟩
        simp [removeEntry, hi, hremove, hseen]
      | false =>
        -- The directory holds something, but the look into it that would tell so is denied too.
        have hseen : isSeenFull (fs.without first) path = false := by
          simp [isSeenFull, hlist, hread]
        obtain ⟨e, hmem⟩ := List.exists_mem_of_ne_nil _ hempty
        obtain ⟨e, entries, rfl⟩ :=
          List.exists_cons_of_ne_nil (List.ne_nil_of_mem (List.mem_of_mem_filter hmem))
        refine .inr ⟨?_, swept_sealed ⟨i, e, entries, mode, rfl, hnode, hread, ?_⟩⟩
        · simp [removeEntry, hi, hremove, hseen]
        · simp [Denied, hwrite]

end Entry

section Below

/-- What is removed from below a path before the path itself. -/
def contents (depth : Nat) (fs : FileSystem) (path : String) (isDirectory : Bool) :
    FileSystem × Except IoError Unit :=
  if isDirectory then
    match fs.list path with
    | .ok entries => removeEach (removeBelow depth) path fs entries
    | .error e => (fs, if isDenied e then .ok () else .error e)
  else (fs, .ok ())

/-- The path itself is removed after what is below it, if that met no fault. -/
def withEntry (path : String) (isDirectory : Bool) :
    FileSystem × Except IoError Unit → FileSystem × Except IoError Unit
  | (fs, .error e) => (fs, .error e)
  | (fs, .ok _) =>
    match removeEntry fs path isDirectory with
    | .ok fs => (fs, .ok ())
    | .error e => (fs, .error e)

variable {fs' fs'' : FileSystem} {isDirectory : Bool} {e : IoError}

theorem removeBelow_succ (depth : Nat) (fs : FileSystem) (path : String) (isDirectory : Bool) :
    removeBelow (depth + 1) fs path isDirectory =
      withEntry path isDirectory (contents depth fs path isDirectory) := rfl

theorem removeBelow_of_removeEntry_ok (h : contents depth fs path isDirectory = (fs', .ok ()))
    (hentry : removeEntry fs' path isDirectory = .ok fs'') :
    removeBelow (depth + 1) fs path isDirectory = (fs'', .ok ()) := by
  rw [removeBelow_succ, h, withEntry, hentry]

theorem removeBelow_of_removeEntry_error (h : contents depth fs path isDirectory = (fs', .ok ()))
    (hentry : removeEntry fs' path isDirectory = .error e) :
    removeBelow (depth + 1) fs path isDirectory = (fs', .error e) := by
  rw [removeBelow_succ, h, withEntry, hentry]

/-- Where nothing can be found, nothing is removed, and that is no fault. -/
theorem removeBelow_denied (hfind : fs.find path = .error .permissionDenied)
    (hending : fs.ending path = .error .permissionDenied) (depth : Nat) (isDirectory : Bool) :
    removeBelow depth fs path isDirectory = (fs, .ok ()) := by
  cases depth with
  | zero => rfl
  | succ depth =>
    have hlist : fs.list path = .error .permissionDenied := by
      rw [list, hfind]
      rfl
    have hfile : fs.removeFile path = .error .permissionDenied := by
      rw [removeFile, hending]
      rfl
    have hdirectory : fs.removeDirectory path = .error .permissionDenied := by
      rw [removeDirectory, hending]
      rfl
    have hcontents : contents depth fs path isDirectory = (fs, .ok ()) := by
      cases isDirectory <;> simp [contents, hlist]
    refine removeBelow_of_removeEntry_ok hcontents ?_
    cases isDirectory <;> simp [removeEntry, hfile, hdirectory]

theorem removeEach_of_forall_eq
    {removeOne : FileSystem → String → Bool → FileSystem × Except IoError Unit}
    {list : List (String × Bool)}
    (h : ∀ e ∈ list, removeOne fs (Path.join path e.1) e.2 = (fs, .ok ())) :
    removeEach removeOne path fs list = (fs, .ok ()) := by
  induction list with
  | nil => rfl
  | cons e list ih =>
    rw [removeEach, h e List.mem_cons_self]
    exact ih fun e he => h e (List.mem_cons_of_mem _ he)

theorem contents_swept (hsweeps : Sweeps depth) (hlocated : Located fs path parent name i)
    (htree : FileTree fs path i) (hnode : fs.node? i = some ⟨.directory entries, mode⟩)
    (hdepth : ∀ names j, fs.descend? i names = some j → names.length < depth + 1) :
    ∃ gone outcome, contents depth fs path true = (fs.without gone, outcome) ∧
      Swept fs parent name i (· ≠ []) gone outcome := by
  have hlist := hlocated.list_eq hnode
  obtain ⟨hnodup, hproper⟩ := htree.listing hnode
  have hchild : ∀ e ∈ entries, fs.descend? i [e.1] = some e.2 :=
    fun e he => (htree.descend?_iff_mem hnode).mpr he
  cases hread : fs.lets i .read with
  | false =>
    refine ⟨[], .ok (), ?_, swept_closed (.inl hread)⟩
    simp [contents, hlist, hread]
  | true =>
    rw [hread, if_pos rfl] at hlist
    have hcontents : contents depth fs path true = removeEach (removeBelow depth) path fs
        (entries.map fun e => (e.1, fs.isDirectoryNode e.2)) := by
      simp [contents, hlist]
    rw [hcontents]
    cases hsearch : fs.lets i .search with
    | false =>
      refine ⟨[], .ok (), ?_, swept_closed (.inr hsearch)⟩
      rw [without_nil]
      refine removeEach_of_forall_eq fun e he => ?_
      obtain ⟨e, hmem, rfl⟩ := List.mem_map.mp he
      obtain ⟨hfind, hending⟩ :=
        hlocated.denied (hproper e hmem) (htree.short_child (hchild e hmem)) hnode hsearch
      exact removeBelow_denied hfind hending depth _
    | true =>
      have hnone : Swept fs parent name i (Beside (entries.map (·.1))) [] (.ok ()) := by
        refine swept_nil fun names hnames => ?_
        obtain ⟨n, hn, hother⟩ := hnames
        obtain ⟨names, rfl⟩ := List.head?_eq_some_iff.mp hn
        have hlookup : entries.lookup n = none := by
          refine List.lookup_eq_none_iff.mpr fun e he => bne_iff_ne.mpr ?_
          rintro rfl
          exact hother (List.mem_map_of_mem he)
        rw [descend?_directory hnode, hlookup, Option.bind_none]
      have heach := removeEach_swept hlocated htree hnode hdepth hsweeps hread hsearch hnodup
        (fun e he => ⟨hproper e he, hchild e he⟩) hnone
      rwa [without_nil] at heach

theorem removeBelow_swept
    (hcontents : contents depth fs path (fs.isDirectoryNode i) = (fs.without first, .ok ()))
    (hfirst : Swept fs parent name i (· ≠ []) first (.ok ()))
    (hentry : RemovesEntry fs path parent name i first) :
    ∃ gone outcome, removeBelow (depth + 1) fs path (fs.isDirectoryNode i) =
        (fs.without gone, outcome) ∧ Swept fs parent name i (fun _ => True) gone outcome := by
  have hall : ∀ names : List String, True ↔ names ≠ [] ∨ names = [] :=
    fun names => (iff_true_intro (ne_or_eq names [])).symm
  obtain ⟨gone, hremove, hroot⟩ | ⟨hremove, hroot⟩ := hentry
  · exact ⟨first ++ gone, .ok (), removeBelow_of_removeEntry_ok hcontents hremove,
      (hfirst.append hroot).of_iff hall⟩
  · exact ⟨first ++ [], _, by simpa using removeBelow_of_removeEntry_error hcontents hremove,
      (hfirst.append hroot).of_iff hall⟩

/-- The induction is on the depth; the trees below the children are less deep by one. -/
theorem sweeps (depth : Nat) : Sweeps depth := by
  induction depth with
  | zero =>
    intro fs path parent name i hlocated htree hdepth
    exact absurd (hdepth [] i rfl) (Nat.not_lt_zero _)
  | succ depth ih =>
    intro fs path parent name i hlocated htree hdepth
    obtain ⟨⟨content, mode⟩, hnode⟩ := htree.root
    cases content with
    | file content =>
      have hnone : Swept fs parent name i (· ≠ []) [] (.ok ()) := by
        refine swept_nil fun names hnames => ?_
        obtain ⟨n, names, rfl⟩ := List.exists_cons_of_ne_nil hnames
        rw [descend?, hnode]
      have hi : fs.isDirectoryNode i = false := by rw [isDirectoryNode, hnode]
      have hcontents : contents depth fs path (fs.isDirectoryNode i) = (fs.without [], .ok ()) := by
        simp [contents, hi]
      exact removeBelow_swept hcontents hnone (removeEntry_file hlocated hnode (by simp))
    | directory entries =>
      have hi := isDirectoryNode_of_node? hnode
      obtain ⟨first, outcome, heq, hswept⟩ := contents_swept ih hlocated htree hnode hdepth
      rw [← hi] at heq
      cases outcome with
      | error e =>
        refine ⟨first, .error e, ?_, hswept.mono fun names _ => trivial⟩
        rw [removeBelow_succ, heq]
        rfl
      | ok _ =>
        exact removeBelow_swept heq hswept
          (removeEntry_directory hlocated htree hnode hswept)

end Below

/-- Nothing goes that is kept, and everything else does, unless a directory in the tree is sealed:
that is the one fault there is. -/
theorem remove_leaves_kept (hlocated : Located fs path parent name i)
    (htree : FileTree fs path i) :
    ∃ gone, (remove fs path).1 = fs.without gone ∧
      (∀ e ∈ gone, ∃ names, fs.link? parent name i names = some e ∧ ¬fs.Kept parent i names) ∧
      ((∀ names, ¬fs.Sealed parent i names) → (remove fs path).2 = .ok () ∧
        ∀ names e, fs.link? parent name i names = some e → ¬fs.Kept parent i names → e ∈ gone) ∧
      ((∃ names, fs.Sealed parent i names) →
        (remove fs path).2 = .error .directoryNotEmpty) := by
  obtain ⟨node, hnode⟩ := htree.root
  have hfind := hlocated.find_eq hnode
  have hpresent : fs.isPresent path = true := by rw [isPresent, hfind]; rfl
  have hdirectory : fs.isDirectory path = fs.isDirectoryNode i := by
    obtain ⟨content, mode⟩ := node
    rw [isDirectory, hfind, isDirectoryNode, hnode]
    cases content <;> rfl
  have hremove : remove fs path =
      removeBelow (fs.nodes.size + 1) fs path (fs.isDirectoryNode i) := by
    rw [remove, hpresent, hdirectory, if_pos rfl]
  obtain ⟨gone, outcome, heq, hswept⟩ := sweeps (fs.nodes.size + 1) hlocated htree
    fun names j hj => Nat.lt_succ_of_le (htree.length_le hj)
  rw [hremove, heq]
  refine ⟨gone, rfl, fun e he => ?_, fun hopen => ?_, fun hsealed => ?_⟩
  · obtain ⟨names, -, hentry⟩ := hswept.free e he
    exact ⟨names, hentry⟩
  · rcases hswept.ended with ⟨hok, hall⟩ | ⟨-, names, -, hsealed⟩
    · exact ⟨hok, fun names e hentry hfree => (hall names trivial).2 e hentry hfree⟩
    · exact absurd hsealed (hopen names)
  · rcases hswept.ended with ⟨-, hall⟩ | ⟨hfault, -⟩
    · obtain ⟨names, hsealed⟩ := hsealed
      exact absurd hsealed (hall names trivial).1
    · exact hfault

/-- A directory `dump` in the working directory, as it stands with this in it. -/
def dumpHolding (entries : List (String × Nat)) (nodes : List FileNode) : FileSystem where
  nodes := (⟨.directory [("home", 1)], 0o755⟩ :: ⟨.directory [("dump", 2)], 0o755⟩ ::
    ⟨.directory entries, 0o755⟩ :: nodes).toArray
  working := [("home", 1), ("", 0)]

/-- One directory may not be written, one may not be searched, and the third can go. -/
def guarded : FileSystem :=
  dumpHolding [("locked", 3), ("shut", 5), ("open", 7)] [
    ⟨.directory [("a", 4)], 0o555⟩, ⟨.file [], 0o644⟩,
    ⟨.directory [("b", 6)], 0o644⟩, ⟨.file [], 0o644⟩,
    ⟨.directory [("c", 8)], 0o755⟩, ⟨.file [], 0o000⟩]

/-- One directory tells nothing of what it holds. -/
def silent : FileSystem :=
  dumpHolding [("silent", 3), ("open", 5)] [
    ⟨.directory [("a", 4)], 0o000⟩, ⟨.file [], 0o644⟩,
    ⟨.file [], 0o644⟩]

theorem node?_dumpHolding (entries : List (String × Nat)) (nodes : List FileNode) :
    (dumpHolding entries nodes).node? 1 = some ⟨.directory [("dump", 2)], 0o755⟩ := by
  simp [node?, dumpHolding]

theorem located_dumpHolding {nodes : List FileNode} (depth : Nat)
    (hends : ∀ p ∈ (dumpHolding entries nodes).reached (depth + 1) 2, p.1.length < depth)
    (hback : ∀ p ∈ (dumpHolding entries nodes).reached depth 2, p.2 ≠ 1) :
    Located (dumpHolding entries nodes) "dump" 1 "dump" 2 where
  start := rfl
  above := ⟨[], [("home", 1), ("", 0)], by decide, rfl, rfl⟩
  apart := by
    have hpieces : pieces "dump" = ["dump"] := by decide
    rw [hpieces]
    refine ⟨?_, fun next hstep => trivial⟩
    rintro p ⟨⟩ names hnames
    exact hback _ (mem_reached_of_length_lt hends hnames) rfl
  searched := by
    rw [lets_directory (node?_dumpHolding entries nodes)]
    decide
  entry := by
    rw [descend?_singleton (node?_dumpHolding entries nodes)]
    decide
  proper := (show Proper "dump" by decide).names
  slash := fun h => absurd h (by decide)

theorem located_guarded : Located guarded "dump" 1 "dump" 2 :=
  located_dumpHolding 4 (by decide) (by decide)

theorem fileTree_guarded : FileTree guarded "dump" 2 :=
  FileTree.of_reached 4 (by decide) (by decide) (by decide)
    (by decide)

theorem not_sealed_guarded (names : List String) : ¬guarded.Sealed 1 2 names := by
  rintro ⟨j, e, entries, mode, hj, hnode, hread, -⟩
  have hmem : (names, j) ∈ guarded.reached 4 2 :=
    mem_reached_of_length_lt (by decide) hj
  have hreadable : ∀ p ∈ guarded.reached 4 2, guarded.isDirectoryNode p.2 = true →
      guarded.lets p.2 .read = true := by decide
  rw [hreadable _ hmem (isDirectoryNode_of_node? hnode)] at hread
  cases hread

theorem remove_leaves_kept_guarded :
    Located guarded "dump" 1 "dump" 2 ∧ FileTree guarded "dump" 2 ∧
      (∀ names, ¬guarded.Sealed 1 2 names) ∧ (remove guarded "dump").2 = .ok () ∧
      ["dump/open/c", "dump/open", "dump/locked/a", "dump/locked", "dump/shut"].map
        (remove guarded "dump").1.isPresent = [false, false, true, true, true] := by
  obtain ⟨gone, -, -, hopen, -⟩ := remove_leaves_kept located_guarded fileTree_guarded
  refine ⟨located_guarded, fileTree_guarded, not_sealed_guarded, (hopen not_sealed_guarded).1, ?_⟩
  decide

theorem located_silent : Located silent "dump" 1 "dump" 2 :=
  located_dumpHolding 4 (by decide) (by decide)

theorem fileTree_silent : FileTree silent "dump" 2 :=
  FileTree.of_reached 4 (by decide) (by decide) (by decide)
    (by decide)

/-- A directory that does not tell what it holds ends the removal, and what stands after it stays
though nothing keeps it. -/
theorem remove_stops_at_silent :
    Located silent "dump" 1 "dump" 2 ∧ FileTree silent "dump" 2 ∧
      silent.lets 1 .write = true ∧ silent.lets 1 .search = true ∧
      (remove silent "dump").2 = .error .directoryNotEmpty ∧
      silent.link? 1 "dump" 2 ["open"] = some (2, "open") ∧ ¬silent.Kept 1 2 ["open"] ∧
      (remove silent "dump").1.isPresent "dump/open" = true := by
  refine ⟨located_silent, fileTree_silent, rfl, rfl, ?_, ?_, ?_, ?_⟩
  · decide
  · decide
  · rintro ⟨rest, hsome, hdenied⟩
    have hopen : silent.descend? 2 ["open"] = some 5 := by decide
    rw [List.singleton_append] at hsome hdenied
    rw [descend?_cons, hopen, Option.bind_some] at hsome
    rw [denied_cons_iff (by decide) (by decide) hopen] at hdenied
    cases rest with
    | nil => exact absurd hdenied (show ¬silent.lets 2 .write = false by decide)
    | cons n rest => cases hsome
  · decide

end ClassRecovery.DumpTree
