import NTux.Fat.Slots

/-!
# Renaming on a FAT volume

`fat_op_rename` replaces the eleven bytes of the short name.  Every entry the code makes
has a long name, in the slots before it, and that is the name the walk goes by: after a
successful rename the new name is not found, and the old one still is.

`rename_right_iff` says when a rename does what it says.  It has to be of an entry without
a long name, which only the entries `.` and `..` of a new directory are.
-/

namespace NTux.Fat

open NTux.Fs NTux.Lib

variable {dir : Dir} {oldLeaf newLeaf : CString}

/-- If the rename succeeds, the new name is that of the entry the old one was found at, the
old one is not found, and the names of all other entries are found as before. -/
def RenameRight (dir : Dir) (oldLeaf newLeaf : CString) : Prop :=
  ∀ dir', fatRename dir oldLeaf newLeaf = (dir', true) →
    ∃ f, fatDirFindEntry dir oldLeaf = some f ∧
      (∃ g, fatDirFindEntry dir' newLeaf = some g ∧ g.entry.cluster = f.entry.cluster ∧
        g.entry.size = f.entry.size ∧ g.entry.attr = f.entry.attr) ∧
      fatDirFindEntry dir' oldLeaf = none ∧
      ∀ h ∈ entries dir, h.index ≠ f.index →
        fatDirFindEntry dir' h.name = fatDirFindEntry dir h.name

/-- The entry has no long name, the old name is no other entry's and not the new one, and
no other entry is looked up past the renamed one. -/
structure Renamable (dir : Dir) (oldLeaf : CString) (f : Found) (newName : CString) : Prop where
  short : f.long = false
  only : ∀ h ∈ entries dir, h.index ≠ f.index → ¬ fatNameEquals h.name oldLeaf
  other : ¬ fatNameEquals newName oldLeaf
  apart : ∀ h ∈ entries dir, h.index ≠ f.index →
    (∃ g ∈ entries dir, g.index < f.index ∧ fatNameEquals g.name h.name) ∨
      (¬ fatNameEquals f.name h.name ∧ ¬ fatNameEquals newName h.name)

/-- The rename is refused, or what the old name finds can be renamed. -/
def RenameClean (dir : Dir) (oldLeaf newLeaf : CString) : Prop :=
  ∀ f sfn, fatDirFindEntry dir oldLeaf = some f → fatDirFindEntry dir newLeaf = none →
    fatMakeSfn newLeaf = some sfn → Renamable dir oldLeaf f (fatSfnToName sfn)

/-! ## Looking up in a list -/

theorem firstNamed_append (name : CString) (pre post : List Found) (f : Found) :
    firstNamed name (pre ++ f :: post) =
      (firstNamed name pre).or (if fatNameEquals f.name name then some f else firstNamed name post) := by
  unfold firstNamed
  rw [List.find?_append, List.find?_cons]
  split <;> simp_all

theorem firstNamed_eq_none {name : CString} {found : List Found} :
    firstNamed name found = none ↔ ∀ f ∈ found, ¬ fatNameEquals f.name name := by
  unfold firstNamed
  exact List.find?_eq_none

/-- The name decoded from the eleven bytes of a name answers to the name. -/
theorem fatNameEquals_sfn {name : CString} {sfn : List UInt8} (made : fatMakeSfn name = some sfn) :
    fatNameEquals (fatSfnToName sfn) name = true := by
  unfold fatNameEquals fatNameEqualsCi
  rw [made]
  simp

/-! ## The rename -/

/-- What is found is in the list and answers to the name. -/
theorem of_firstNamed {name : CString} {found : List Found} {f : Found}
    (eq : firstNamed name found = some f) : f ∈ found ∧ fatNameEquals f.name name = true := by
  unfold firstNamed at eq
  have hit := List.find?_some eq
  exact ⟨List.mem_of_find?_eq_some eq, hit⟩

/-- The directory around the entry that is found, and the walk after another entry with the
same attributes has been written over it. -/
theorem entries_around (shaped : Shaped dir) {f : Found} {e : FatDirEntry}
    (found : fatDirFindEntry dir oldLeaf = some f) (attr : e.attr = f.entry.attr) :
    ∃ pre post, entries dir = pre ++ f :: post ∧
      (∀ h ∈ pre, h.index < f.index) ∧ (∀ h ∈ post, f.index < h.index) ∧
      (∀ h ∈ pre, ¬ fatNameEquals h.name oldLeaf) ∧
      entries (fatWriteEntryAt dir f.index (.entry e)) = pre ++ f.overwrite f.index e :: post := by
  have found' := found
  unfold fatDirFindEntry firstNamed at found'
  obtain ⟨-, pre, post, eq, before⟩ := List.find?_eq_some_iff_append.1 found'
  have sorted := scan_pairwise lfnReset 0 dir.flatten
  change (entries dir).Pairwise _ at sorted
  rw [eq, List.pairwise_append, List.pairwise_cons] at sorted
  have smaller : ∀ h ∈ pre, h.index < f.index := fun h mem =>
    sorted.2.2 h mem f List.mem_cons_self
  have larger : ∀ h ∈ post, f.index < h.index := sorted.2.1.1
  refine ⟨pre, post, eq, smaller, larger, fun h mem => by simpa using before h mem, ?_⟩
  rw [entries_overwrite shaped (mem_entries_of_find found) attr, eq, List.map_append,
    List.map_cons]
  have keptPre : pre.map (Found.overwrite f.index e) = pre :=
    (List.map_congr_left fun h mem => if_neg (Nat.ne_of_lt (smaller h mem))).trans (List.map_id pre)
  have keptPost : post.map (Found.overwrite f.index e) = post :=
    (List.map_congr_left fun h mem => if_neg (Nat.ne_of_gt (larger h mem))).trans
      (List.map_id post)
  rw [keptPre, keptPost]

/-- What a name finds is the same with another entry in the middle, if and only if it is
found before, or by neither of the two. -/
theorem firstNamed_replace_iff {name : CString} {pre post : List Found} {f f' : Found}
    (apart : ∀ h ∈ post, h ≠ f ∧ h ≠ f') (ne : f' ≠ f) :
    firstNamed name (pre ++ f' :: post) = firstNamed name (pre ++ f :: post) ↔
      (∃ g ∈ pre, fatNameEquals g.name name) ∨
        (¬ fatNameEquals f.name name ∧ ¬ fatNameEquals f'.name name) := by
  rw [firstNamed_append, firstNamed_append]
  cases before : firstNamed name pre with
  | some g =>
      simp only [Option.some_or, true_iff]
      exact .inl ⟨g, of_firstNamed before⟩
  | none =>
      have miss := firstNamed_eq_none.1 before
      have late : ∀ x, firstNamed name post = some x → x ≠ f ∧ x ≠ f' := fun x eq =>
        apart x (of_firstNamed eq).1
      rw [Option.none_or, Option.none_or]
      constructor
      · intro same
        refine .inr ?_
        by_cases hit : fatNameEquals f.name name <;> by_cases hit' : fatNameEquals f'.name name
        · rw [if_pos hit, if_pos hit'] at same
          exact absurd (Option.some.inj same) ne
        · rw [if_pos hit, if_neg hit'] at same
          exact absurd rfl (late f same).1
        · rw [if_neg hit, if_pos hit'] at same
          exact absurd rfl (late f' same.symm).2
        · exact ⟨hit, hit'⟩
      · rintro (⟨g, mem, hit⟩ | ⟨hit, hit'⟩)
        · exact absurd hit (miss g mem)
        · rw [if_neg hit, if_neg hit']

/-! ## The rename -/

/-- A rename that succeeds: what it found, and what it wrote. -/
theorem fatRename_ok {dir' : Dir} : fatRename dir oldLeaf newLeaf = (dir', true) ↔
    ∃ f sfn, fatDirFindEntry dir oldLeaf = some f ∧ fatDirFindEntry dir newLeaf = none ∧
      fatMakeSfn newLeaf = some sfn ∧
      dir' = fatWriteEntryAt dir f.index (.entry { f.entry with name := sfn }) := by
  unfold fatRename
  cases fatDirFindEntry dir oldLeaf with
  | none => simp
  | some f =>
      cases fatDirFindEntry dir newLeaf with
      | some g => simp
      | none =>
          cases fatMakeSfn newLeaf with
          | none => simp
          | some sfn => simp [eq_comm]

/-- An entry with a long name keeps it, and one without gets the decoded short one. -/
theorem name_overwrite (f : Found) (e : FatDirEntry) :
    (f.overwrite f.index e).name = if f.long then f.name else fatSfnToName e.name := by
  simp [Found.overwrite]

theorem index_overwrite (f : Found) (e : FatDirEntry) : (f.overwrite f.index e).index = f.index := by
  simp [Found.overwrite]

/-- **A rename is right exactly if it is refused or clean**, in every directory that is
reached (`Reached.shaped`) and in any other. -/
theorem rename_right_iff (dir : Dir) (oldLeaf newLeaf : CString) (shaped : Shaped dir) :
    RenameRight dir oldLeaf newLeaf ↔ RenameClean dir oldLeaf newLeaf := by
  constructor
  · intro right f sfn found new made
    obtain ⟨f₀, found₀, ⟨g, hit, -⟩, gone, kept⟩ :=
      right _ (fatRename_ok.2 ⟨f, sfn, found, new, made, rfl⟩)
    obtain rfl : f = f₀ := Option.some.inj (found.symm.trans found₀)
    obtain ⟨pre, post, eq, smaller, larger, before, eq'⟩ :=
      entries_around (e := { f.entry with name := sfn }) shaped found rfl
    generalize written : f.overwrite f.index { f.entry with name := sfn } = f' at eq'
    have name' : f'.name = if f.long then f.name else fatSfnToName sfn := by
      rw [← written, name_overwrite]
    have index' : f'.index = f.index := by rw [← written, index_overwrite]
    have notNew : ∀ h ∈ entries dir, ¬ fatNameEquals h.name newLeaf := firstNamed_eq_none.1 new
    unfold fatDirFindEntry at hit gone kept
    rw [eq'] at hit gone kept
    -- the entry that answers to the new name can only be the one that was written
    have renamed : fatNameEquals f'.name newLeaf = true := by
      obtain ⟨mem, answers⟩ := of_firstNamed hit
      rcases List.mem_append.1 mem with inPre | inRest
      · exact absurd answers (notNew g (by rw [eq]; exact List.mem_append_left _ inPre))
      · rcases List.mem_cons.1 inRest with rfl | inPost
        · exact answers
        · exact absurd answers
            (notNew g (by rw [eq]; exact List.mem_append_right _ (List.mem_cons_of_mem _ inPost)))
    have ownName := notNew f (mem_entries_of_find found)
    have short : f.long = false := by
      by_contra long
      rw [name', if_pos (Bool.eq_true_of_not_eq_false long)] at renamed
      exact ownName renamed
    rw [short, if_neg Bool.false_ne_true] at name'
    have ne : f' ≠ f := fun same => ownName (same ▸ renamed)
    have apart : ∀ h ∈ post, h ≠ f ∧ h ≠ f' := by
      intro h mem
      have behind := larger h mem
      exact ⟨fun same => by rw [same] at behind; omega, fun same => by rw [same] at behind; omega⟩
    have silent := firstNamed_eq_none.1 gone
    refine ⟨short, fun h mem ne => ?_, ?_, fun h mem ne' => ?_⟩
    · rw [eq] at mem
      rcases List.mem_append.1 mem with inPre | inRest
      · exact before h inPre
      · rcases List.mem_cons.1 inRest with rfl | inPost
        · exact absurd rfl ne
        · exact silent h (List.mem_append_right _ (List.mem_cons_of_mem _ inPost))
    · rw [← name']
      exact silent f' (List.mem_append_right _ List.mem_cons_self)
    · have same := kept h mem ne'
      rw [eq, firstNamed_replace_iff apart ne, name'] at same
      refine same.imp (fun ⟨g, mem, answers⟩ => ⟨g, ?_, smaller g mem, answers⟩) id
      rw [eq]
      exact List.mem_append_left _ mem
  · intro clean dir' result
    obtain ⟨f, sfn, found, new, made, rfl⟩ := fatRename_ok.1 result
    obtain ⟨short, only, other, apart⟩ := clean f sfn found new made
    obtain ⟨pre, post, eq, smaller, larger, before, eq'⟩ :=
      entries_around (e := { f.entry with name := sfn }) shaped found rfl
    generalize written : f.overwrite f.index { f.entry with name := sfn } = f' at eq'
    have name' : f'.name = fatSfnToName sfn := by
      rw [← written, name_overwrite, short, if_neg Bool.false_ne_true]
    have entry' : f'.entry = { f.entry with name := sfn } := by
      rw [← written]
      simp [Found.overwrite]
    have index' : f'.index = f.index := by rw [← written, index_overwrite]
    have notNew : ∀ h ∈ entries dir, ¬ fatNameEquals h.name newLeaf := firstNamed_eq_none.1 new
    have renamed : fatNameEquals f'.name newLeaf = true := by
      rw [name']
      exact fatNameEquals_sfn made
    have ne : f' ≠ f := fun same => notNew f (mem_entries_of_find found) (same ▸ renamed)
    have inPre : ∀ h ∈ pre, h ∈ entries dir ∧ h.index ≠ f.index := fun h mem =>
      ⟨by rw [eq]; exact List.mem_append_left _ mem, Nat.ne_of_lt (smaller h mem)⟩
    have inPost : ∀ h ∈ post, h ∈ entries dir ∧ h.index ≠ f.index := fun h mem =>
      ⟨by rw [eq]; exact List.mem_append_right _ (List.mem_cons_of_mem _ mem),
        Nat.ne_of_gt (larger h mem)⟩
    have split : ∀ h ∈ post, h ≠ f ∧ h ≠ f' := by
      intro h mem
      have behind := larger h mem
      exact ⟨fun same => by rw [same] at behind; omega, fun same => by rw [same] at behind; omega⟩
    unfold fatDirFindEntry
    rw [eq']
    refine ⟨f, found, ⟨f', ?_, by rw [entry'], by rw [entry'], by rw [entry']⟩, ?_,
      fun h mem ne' => ?_⟩
    · rw [firstNamed_append, firstNamed_eq_none.2 fun h mem => notNew h (inPre h mem).1,
        Option.none_or, if_pos renamed]
    · refine firstNamed_eq_none.2 fun h mem => ?_
      rcases List.mem_append.1 mem with front | rest
      · exact only h (inPre h front).1 (inPre h front).2
      · rcases List.mem_cons.1 rest with rfl | back
        · rw [name']
          exact other
        · exact only h (inPost h back).1 (inPost h back).2
    · rw [eq, firstNamed_replace_iff split ne, name']
      refine (apart h mem ne').imp (fun ⟨g, mem, lt, answers⟩ => ⟨g, ?_, answers⟩) id
      rw [eq] at mem
      rcases List.mem_append.1 mem with front | rest
      · exact front
      · rcases List.mem_cons.1 rest with rfl | back
        · exact absurd lt (Nat.lt_irrefl _)
        · exact absurd lt (Nat.lt_asymm (larger g back))

/-- The entry `.` of a new directory is renamed. -/
theorem rename_right_dot :
    RenameRight (freshSubdir 5 0 0) [dot] [120] ↔ RenameClean (freshSubdir 5 0 0) [dot] [120] :=
  rename_right_iff (freshSubdir 5 0 0) [dot] [120] (Fresh.shaped (.inr ⟨5, 0, 0, rfl⟩))

/-- A file `a` is created in an empty root directory and renamed to `b`: there is no `b`. -/
theorem renamed_file_lost :
    ¬ ∀ (dir : Dir) (oldLeaf newLeaf : CString), Reached dir → RenameRight dir oldLeaf newLeaf := by
  intro always
  let made := dirStep (freshRoot 1) (.create [97] 0 (some ⟨2, 10⟩) none)
  have reached : Reached made :=
    ⟨freshRoot 1, .inl ⟨1, rfl⟩, [.create [97] 0 (some ⟨2, 10⟩) none], rfl⟩
  have succeeds : fatRename made [97] [98] = ((fatRename made [97] [98]).1, true) := by
    decide +kernel
  obtain ⟨f, -, ⟨g, hit, -⟩, -⟩ := always made [97] [98] reached _ succeeds
  have lost : fatDirFindEntry (fatRename made [97] [98]).1 [98] = none := by decide +kernel
  exact absurd (hit.symm.trans lost) (by simp)

end NTux.Fat
