import NTux.Fs.Devfs
import NTux.Fs.UnionListing

/-!
# Counting a directory before listing it

A caller asks `vfs_list_dir` for the number of names first and then for that many entries.  The
call lists the directory by its backend and adds the mount points in it, and each part counts in
its own way: most backends count all entries (`Lister.visiting`), devfs and the VFS leave out the
names that are already among the entries stored (`devfsEmit`), and the union counts what fits
only.

So the count is one for all buffers, and the number of names, exactly if there was nothing to
leave out, and a union had nothing to list (`listing_count_iff`).
-/

namespace NTux.Fs

variable {σ δ : Type}

/-- What the two temporary buffers of `union_list_dir` hold. -/
abbrev TempBuffers := (Nat → VfsDirent) × (Nat → VfsDirent)

/-- The answer of a layer with the given entries to `union_list_dir`. -/
def layerAnswer (ents : List VfsDirent) : ListOutcome := ⟨0, some ents.length, ents.take unionTempEnts⟩

/-- The directory of a backend that is to be listed: that of a RAM filesystem, a FAT, an ext or
an ISO volume, one of devfs, or that of a union of two of the former, of which one that has no
such directory has no entries. -/
inductive Lister (δ : Type)
  | visiting (ents : List VfsDirent)
  | devfs (nodes : List (DevfsNode δ)) (path : CString)
  | union (ea eb : List VfsDirent)

/-- What the backend answers. -/
def Lister.answer : Lister δ → TempBuffers → Bool → Nat → ListOutcome
  | .visiting ents, _, out, maxEntries =>
      ⟨0, some ents.length, if out then ents.take maxEntries else []⟩
  | .devfs nodes path, _, out, maxEntries => devfsOpListDir nodes path out maxEntries
  | .union ea eb, buffers, out, maxEntries =>
      unionMerge buffers.1 buffers.2 (layerAnswer ea) (layerAnswer eb) out maxEntries

/-- What the nodes of devfs show in a directory. -/
def devfsChildren (nodes : List (DevfsNode δ)) (path : CString) : List (CString × Bool) :=
  nodes.filterMap fun node => devfsChild (if path = [slash] then [] else path) node.name

/-- The names in the directory, as often as the backend comes upon them. -/
def Lister.names : Lister δ → List CString
  | .visiting ents => ents.map VfsDirent.name
  | .devfs nodes path => (devfsChildren nodes path).map Prod.fst
  | .union ea eb => unionNames ea eb

/-- The mount points in the directory. -/
def mountChildren (path : CString) (mounts : List (Mount σ)) : List CString :=
  mounts.filterMap fun m => vfsExtractMountChild path m.mountPoint

/-- Nothing is to be left out: no name comes twice; and a union is empty. -/
def Lister.Plain (children : List CString) : Lister δ → Prop
  | .visiting ents => (ents.map VfsDirent.name ++ children).Nodup
  | .devfs nodes path => ((devfsChildren nodes path).map Prod.fst ++ children).Nodup
  | .union ea eb => ea.length ≤ unionTempEnts ∧ eb.length ≤ unionTempEnts ∧ unionNames ea eb = [] ∧
      children.Nodup

/-- Every call reports the number of the names, and stores the first of one sequence of distinct
ones, whatever the capacity is and what the temporary buffers held. -/
def CountsOnce (list : TempBuffers → Bool → Nat → ListOutcome) (names : List CString) : Prop :=
  ∃ seq : List VfsDirent, (seq.map VfsDirent.name).Nodup ∧
    (∀ n, n ∈ seq.map VfsDirent.name ↔ n ∈ names) ∧
    ∀ buffers out maxEntries, (list buffers out maxEntries).outCount = some seq.length ∧
      (list buffers out maxEntries).out = if out then seq.take maxEntries else []

theorem countsOnce_congr {list list' : TempBuffers → Bool → Nat → ListOutcome}
    {names : List CString} (same : ∀ buffers out maxEntries,
      list buffers out maxEntries = list' buffers out maxEntries) :
    CountsOnce list names ↔ CountsOnce list' names := by
  have eq : list = list' := by
    funext buffers out maxEntries
    exact same buffers out maxEntries
  rw [eq]

/-! ## Adding names -/

section Adding

variable {out : Bool} {maxEntries : Nat}

/-- The entry of a name. -/
def direntOf (child : CString × Bool) : VfsDirent := ⟨child.1, child.2, 0⟩

/-- The VFS adds a mount point as devfs adds a directory. -/
theorem merge_eq_emit (path : CString) (mounts : List (Mount σ)) (acc : List VfsDirent × Nat) :
    mounts.foldl (mergeMountChild path out maxEntries) acc =
      ((mountChildren path mounts).map (·, true)).foldl (devfsEmit out maxEntries) acc := by
  induction mounts generalizing acc with
  | nil => rfl
  | cons m mounts ih =>
      rw [List.foldl_cons, ih]
      cases shown : vfsExtractMountChild path m.mountPoint with
      | none =>
          have rest : mountChildren path (m :: mounts) = mountChildren path mounts :=
            List.filterMap_cons_none shown
          rw [rest, mergeMountChild, shown]
      | some child =>
          have rest : mountChildren path (m :: mounts) = child :: mountChildren path mounts :=
            List.filterMap_cons_some shown
          rw [rest, List.map_cons, List.foldl_cons, mergeMountChild, shown]
          refine congrArg (List.foldl _ · _) ?_
          unfold devfsEmit
          dsimp only
          split
          · rfl
          · split
            · rfl
            · rfl

/-- Without a buffer every name is counted. -/
theorem emit_uncapped (children : List (CString × Bool)) (acc : List VfsDirent × Nat) :
    children.foldl (devfsEmit false maxEntries) acc = (acc.1, acc.2 + children.length) := by
  induction children generalizing acc with
  | nil => rfl
  | cons child rest ih =>
      rw [List.foldl_cons, ih, devfsEmit, if_neg (by simp), if_neg (by simp), List.length_cons]
      exact congrArg (Prod.mk acc.1) (by dsimp only; omega)

/-- Of distinct names all are counted, and the first ones are stored. -/
theorem emit_distinct (out : Bool) (maxEntries : Nat) (children : List (CString × Bool))
    (seen : List VfsDirent)
    (distinct : (seen.map VfsDirent.name ++ children.map Prod.fst).Nodup) :
    children.foldl (devfsEmit out maxEntries)
        (if out then seen.take maxEntries else [], seen.length) =
      (if out then (seen ++ children.map direntOf).take maxEntries else [],
        (seen ++ children.map direntOf).length) := by
  induction children generalizing seen with
  | nil => rw [List.map_nil, List.append_nil, List.foldl_nil]
  | cons child rest ih =>
      have fresh : child.1 ∉ (seen.take maxEntries).map VfsDirent.name := by
        intro mem
        rw [List.map_cons, List.nodup_append] at distinct
        have old : child.1 ∈ seen.map VfsDirent.name := by
          rw [List.map_take] at mem
          exact List.mem_of_mem_take mem
        exact distinct.2.2 _ old _ List.mem_cons_self rfl
      have step : devfsEmit out maxEntries (if out then seen.take maxEntries else [], seen.length)
          child = (if out then (seen ++ [direntOf child]).take maxEntries else [],
            (seen ++ [direntOf child]).length) := by
        rw [List.length_append, List.length_singleton]
        cases out with
        | false => rfl
        | true =>
            rw [devfsEmit, if_neg (by simpa using fresh), if_pos rfl, if_pos rfl]
            by_cases room : seen.length < maxEntries
            · rw [if_pos ⟨rfl, room⟩, List.take_of_length_le (Nat.le_of_lt room),
                List.take_of_length_le (by rw [List.length_append, List.length_singleton]; exact room)]
              rfl
            · rw [if_neg (fun both => room both.2),
                List.take_append_of_le_length (Nat.le_of_not_lt room)]
      rw [List.foldl_cons, step, ih]
      · rw [List.append_assoc, List.map_cons]
        rfl
      · rw [List.map_append, List.append_assoc]
        exact distinct

/-- A list of the length of its set has no name twice. -/
theorem nodup_of_same {seq names : List CString} (distinct : seq.Nodup)
    (same : ∀ n, n ∈ seq ↔ n ∈ names) (length : names.length = seq.length) : names.Nodup := by
  have perm : seq.Perm names.dedup :=
    (List.perm_ext_iff_of_nodup distinct (List.nodup_dedup _)).2 fun n =>
      (same n).trans List.mem_dedup.symm
  have whole : names.dedup = names :=
    (List.dedup_sublist names).eq_of_length (by rw [length, perm.length_eq])
  exact whole ▸ List.nodup_dedup names

end Adding

/-! ## The union -/

section Union

variable {ea eb : List VfsDirent}

theorem layerAnswer_answers (ents : List VfsDirent) : Answers (layerAnswer ents) unionTempEnts ents := by
  refine ⟨rfl, ?_, ?_⟩
  · show (ents.take unionTempEnts).take ents.length = _
    rw [List.take_take]
    exact List.take_eq_take_iff.2 (by omega)
  · show (ents.take unionTempEnts).length ≤ _
    rw [List.length_take]
    exact Nat.min_le_left _ _

/-- The union counts what fits. -/
theorem union_count (buffers : TempBuffers) (out : Bool) (maxEntries : Nat) :
    (unionMerge buffers.1 buffers.2 (layerAnswer ea) (layerAnswer eb) out maxEntries).outCount =
      some (min maxEntries (unionEntries (tempEntries buffers.1 (layerAnswer ea))
        (tempEntries buffers.2 (layerAnswer eb))).length) := by
  unfold unionMerge unionEntries
  rw [if_neg (fun both => both.1 rfl)]
  dsimp only
  rw [List.length_append, List.length_append, List.length_take, List.length_take]
  exact congrArg some (by omega)

theorem unionEntries_eq_nil_iff (a b : List VfsDirent) :
    unionEntries a b = [] ↔ unionNames a b = [] := by
  rw [List.eq_nil_iff_forall_not_mem, List.eq_nil_iff_forall_not_mem]
  constructor
  · intro none n mem
    rw [unionNames, List.mem_dedup, List.mem_filter, List.map_append, List.mem_append,
      Bool.not_eq_true', and_comm, ← mem_unionEntries_names] at mem
    obtain ⟨e, memE, -⟩ := List.mem_map.1 mem
    exact none e memE
  · intro none e mem
    refine none e.name ?_
    rw [unionNames, List.mem_dedup, List.mem_filter, List.map_append, List.mem_append,
      Bool.not_eq_true', and_comm, ← mem_unionEntries_names]
    exact List.mem_map_of_mem mem

/-- Where it finds nothing, whatever the buffers held, the layers have no more entries than slots
and no names. -/
theorem union_nothing_iff : (∀ buffers : TempBuffers,
      unionEntries (tempEntries buffers.1 (layerAnswer ea)) (tempEntries buffers.2 (layerAnswer eb)) =
        []) ↔
      ea.length ≤ unionTempEnts ∧ eb.length ≤ unionTempEnts ∧ unionNames ea eb = [] := by
  constructor
  · intro nothing
    let e : VfsDirent := ⟨[0x78], false, 0⟩
    have names : ∀ n, ¬ (isDotName n = false ∧
        (n ∈ (tempEntries (fun _ => e) (layerAnswer ea)).map VfsDirent.name ∨
          n ∈ (tempEntries (fun _ => e) (layerAnswer eb)).map VfsDirent.name)) := by
      intro n here
      rw [← mem_unionEntries_names, nothing (fun _ => e, fun _ => e)] at here
      cases here
    -- the slot behind those that are filled holds the name of `e`
    have garbage : ∀ ents : List VfsDirent, unionTempEnts < ents.length →
        [0x78] ∈ (tempEntries (fun _ => e) (layerAnswer ents)).map VfsDirent.name := by
      intro ents more
      refine List.mem_map.2 ⟨e, List.mem_map.2 ⟨unionTempEnts, List.mem_range.2 more, ?_⟩, rfl⟩
      have behind : (layerAnswer ents).out[unionTempEnts]? = none := by
        refine List.getElem?_eq_none ?_
        show (ents.take unionTempEnts).length ≤ _
        rw [List.length_take]
        exact Nat.min_le_left _ _
      rw [behind, Option.getD_none]
    have fewA : ea.length ≤ unionTempEnts := Nat.le_of_not_lt fun more =>
      names [0x78] ⟨rfl, .inl (garbage ea more)⟩
    have fewB : eb.length ≤ unionTempEnts := Nat.le_of_not_lt fun more =>
      names [0x78] ⟨rfl, .inr (garbage eb more)⟩
    have here := nothing (fun _ => e, fun _ => e)
    rw [tempEntries_eq (layerAnswer_answers ea) fewA, tempEntries_eq (layerAnswer_answers eb) fewB,
      unionEntries_eq_nil_iff] at here
    exact ⟨fewA, fewB, here⟩
  · rintro ⟨fewA, fewB, none⟩ buffers
    rw [tempEntries_eq (layerAnswer_answers ea) fewA, tempEntries_eq (layerAnswer_answers eb) fewB,
      unionEntries_eq_nil_iff]
    exact none

end Union

/-! ## The count -/

/-- What `vfs_list_dir` makes of an answer: the mount points are added. -/
def withChildren (children : List CString) (out : Bool) (maxEntries : Nat) (r : ListOutcome) :
    ListOutcome :=
  let acc := (children.map (·, true)).foldl (devfsEmit out maxEntries) (r.out, r.outCount.getD 0)
  ⟨0, some acc.2, acc.1⟩

section Counting

variable {children : List CString}

theorem withChildren_uncapped (children : List CString) (maxEntries : Nat) (r : ListOutcome) :
    (withChildren children false maxEntries r).outCount =
      some (r.outCount.getD 0 + children.length) := by
  unfold withChildren
  rw [emit_uncapped, List.length_map]

/-- For a backend that counts everything. -/
theorem visiting_countsOnce (children : List CString) (ents : List VfsDirent) :
    CountsOnce (fun _ out maxEntries => withChildren children out maxEntries
        ⟨0, some ents.length, if out then ents.take maxEntries else []⟩)
      (ents.map VfsDirent.name ++ children) ↔ (ents.map VfsDirent.name ++ children).Nodup := by
  constructor
  · rintro ⟨seq, distinct, same, all⟩
    let e : VfsDirent := ⟨[], false, 0⟩
    have count := (all (fun _ => e, fun _ => e) false 0).1
    rw [withChildren_uncapped] at count
    refine nodup_of_same distinct same ?_
    rw [List.length_append, List.length_map, List.length_map]
    exact Option.some.inj count
  · intro distinct
    have names : (ents ++ (children.map (·, true)).map direntOf).map VfsDirent.name =
        ents.map VfsDirent.name ++ children := by
      rw [List.map_append, List.map_map, List.map_map]
      exact congrArg (_ ++ ·) (List.map_id' children)
    refine ⟨ents ++ (children.map (·, true)).map direntOf, names.symm ▸ distinct, fun n => by
      rw [names], fun _ out maxEntries => ?_⟩
    have all := emit_distinct out maxEntries (children.map (·, true)) ents
      (by rwa [List.map_map, show Prod.fst ∘ (fun n : CString => (n, true)) = id from rfl,
        List.map_id])
    unfold withChildren
    dsimp only
    rw [Option.getD_some, all]
    exact ⟨rfl, rfl⟩

/-- For devfs, which leaves out what comes again. -/
theorem devfs_countsOnce (children : List CString) (nodes : List (DevfsNode δ)) (path : CString) :
    CountsOnce (fun _ out maxEntries => withChildren children out maxEntries
        (devfsOpListDir nodes path out maxEntries))
      ((devfsChildren nodes path).map Prod.fst ++ children) ↔
      ((devfsChildren nodes path).map Prod.fst ++ children).Nodup := by
  have listed : ∀ out maxEntries, devfsOpListDir nodes path out maxEntries =
      ⟨0, some ((devfsChildren nodes path).foldl (devfsEmit out maxEntries) ([], 0)).2,
        ((devfsChildren nodes path).foldl (devfsEmit out maxEntries) ([], 0)).1⟩ := fun _ _ => rfl
  constructor
  · rintro ⟨seq, distinct, same, all⟩
    let e : VfsDirent := ⟨[], false, 0⟩
    have count := (all (fun _ => e, fun _ => e) false 0).1
    rw [withChildren_uncapped, listed, Option.getD_some, emit_uncapped] at count
    refine nodup_of_same distinct same ?_
    rw [List.length_append, List.length_map, List.length_map, ← Option.some.inj count]
    dsimp only
    omega
  · intro distinct
    have names : ((devfsChildren nodes path).map direntOf).map VfsDirent.name =
        (devfsChildren nodes path).map Prod.fst := by
      rw [List.map_map]
      rfl
    have whole : ∀ out maxEntries, devfsOpListDir nodes path out maxEntries =
        ⟨0, some ((devfsChildren nodes path).map direntOf).length,
          if out then ((devfsChildren nodes path).map direntOf).take maxEntries else []⟩ := by
      intro out maxEntries
      have all := emit_distinct out maxEntries (devfsChildren nodes path) []
        (List.nodup_append.1 distinct).1
      rw [List.take_nil, ite_self, List.length_nil, List.nil_append] at all
      rw [listed, all]
    have counts := (visiting_countsOnce children ((devfsChildren nodes path).map direntOf)).2
      (by rwa [names])
    rw [names] at counts
    simpa only [whole] using counts

/-- For a union, which counts what fits. -/
theorem union_countsOnce (children : List CString) (ea eb : List VfsDirent) :
    CountsOnce (fun buffers out maxEntries => withChildren children out maxEntries
        (unionMerge buffers.1 buffers.2 (layerAnswer ea) (layerAnswer eb) out maxEntries))
      (unionNames ea eb ++ children) ↔
      ea.length ≤ unionTempEnts ∧ eb.length ≤ unionTempEnts ∧ unionNames ea eb = [] ∧
        children.Nodup := by
  constructor
  · rintro ⟨seq, distinct, same, all⟩
    have counts : ∀ buffers : TempBuffers, ∀ maxEntries,
        min maxEntries (unionEntries (tempEntries buffers.1 (layerAnswer ea))
          (tempEntries buffers.2 (layerAnswer eb))).length + children.length = seq.length := by
      intro buffers maxEntries
      have count := (all buffers false maxEntries).1
      rw [withChildren_uncapped, union_count, Option.getD_some] at count
      exact Option.some.inj count
    have nothing : ∀ buffers : TempBuffers, unionEntries (tempEntries buffers.1 (layerAnswer ea))
        (tempEntries buffers.2 (layerAnswer eb)) = [] := by
      intro buffers
      have zero := counts buffers 0
      have one := counts buffers 1
      rw [Nat.zero_min] at zero
      exact List.eq_nil_of_length_eq_zero (by omega)
    obtain ⟨fewA, fewB, none⟩ := union_nothing_iff.1 nothing
    refine ⟨fewA, fewB, none, ?_⟩
    rw [none, List.nil_append] at same
    let e : VfsDirent := ⟨[], false, 0⟩
    have zero := counts (fun _ => e, fun _ => e) 0
    rw [Nat.zero_min, Nat.zero_add] at zero
    exact nodup_of_same distinct same (by rw [zero, List.length_map])
  · rintro ⟨fewA, fewB, none, distinct⟩
    have nothing := union_nothing_iff.2 ⟨fewA, fewB, none⟩
    have whole : ∀ (buffers : TempBuffers) out maxEntries,
        unionMerge buffers.1 buffers.2 (layerAnswer ea) (layerAnswer eb) out maxEntries =
          ⟨0, some 0, if out then ([] : List VfsDirent).take maxEntries else []⟩ := by
      intro buffers out maxEntries
      obtain ⟨upper, lower⟩ := List.append_eq_nil_iff.1 (nothing buffers)
      unfold unionMerge
      rw [if_neg (fun both => both.1 rfl)]
      dsimp only
      rw [upper, lower, List.take_nil, List.take_nil, List.append_nil]
      rfl
    have counts := (visiting_countsOnce children []).2 (by simpa using distinct)
    rw [none]
    simp only [whole]
    exact counts

end Counting

theorem Lister.answer_rc (lister : Lister δ) (buffers : TempBuffers) (out : Bool) (maxEntries : Nat) :
    (lister.answer buffers out maxEntries).rc = 0 := by
  cases lister with
  | visiting ents => rfl
  | devfs nodes path => rfl
  | union ea eb =>
      show (unionMerge _ _ _ _ _ _).rc = 0
      unfold unionMerge
      rw [if_neg (fun both => both.1 rfl)]

/-- `vfs_list_dir` adds the mount points to what the backend answers. -/
theorem vfsListDir_withChildren {who : Identity} {v : Vfs σ} {path rel : CString} {m : Mount σ}
    {f : σ → CString → Bool → Nat → ListOutcome} {out : Bool} {maxEntries : Nat}
    (mount : vfsFindMount v.mounts path = some (m, rel)) (ops : m.ops.listDir = some f)
    (ok : (f v.store rel out maxEntries).rc = 0) :
    (vfsListDir who v path out maxEntries).1 =
      withChildren (mountChildren path v.mounts) out maxEntries
        (f v.store rel out maxEntries) := by
  rw [vfsListDir_listed mount ops ok, merge_eq_emit]
  rfl

/-! ## The backends -/

section Backends

variable {fs : Ramfs} {path : CString} {node : Nat}

/-- What a node of the RAM filesystem lists. -/
def ramfsDirents (fs : Ramfs) (node : Nat) : List VfsDirent :=
  (fs.nodes node).entries.map fun c => ramfsDirent (fs.nodes c)

/-- `ramfs_op_list_dir` of a directory. -/
theorem ramfsOpListDir_visiting (found : (ramfsResolve fs path false).node = .ok node)
    (dir : (fs.nodes node).type = .dir) (buffers : TempBuffers) (out : Bool) (maxEntries : Nat) :
    ramfsOpListDir fs path out maxEntries =
      (.visiting (ramfsDirents fs node) : Lister δ).answer buffers out maxEntries := by
  have count : (ramfsDirents fs node).length = (fs.nodes node).childCount := by
    rw [ramfsDirents, List.length_map, RamfsNode.entries_length]
  show _ = (⟨0, some _, _⟩ : ListOutcome)
  unfold ramfsOpListDir
  rw [found, count, ramfsDirents, ← List.map_take]
  dsimp only
  rw [if_neg (not_not.2 dir)]
  cases out with
  | false => rfl
  | true => rfl

/-- The visitors of FAT and ISO. -/
theorem storeVisited_visiting (ents : List VfsDirent) (buffers : TempBuffers) (maxEntries : Nat) :
    (⟨0, some (ents.foldl (storeVisited maxEntries) ([], 0)).2,
      (ents.foldl (storeVisited maxEntries) ([], 0)).1⟩ : ListOutcome) =
      (.visiting ents : Lister δ).answer buffers true maxEntries := by
  rw [foldl_storeVisited]
  rfl

/-- `union_list_dir` of two layers that answer so. -/
theorem unionListDir_union {α β : Type} (u : VfsUnion α β) (s : α × β) {ea eb : List VfsDirent}
    (answersA : vfsCallListDir u.opsA s.1 path true unionTempEnts = layerAnswer ea)
    (answersB : vfsCallListDir u.opsB s.2 path true unionTempEnts = layerAnswer eb)
    (buffers : TempBuffers) (out : Bool) (maxEntries : Nat) :
    unionListDir u s (some buffers) path out maxEntries =
      (.union ea eb : Lister δ).answer buffers out maxEntries := by
  unfold unionListDir
  rw [answersA, answersB]
  rfl

end Backends

/-- **The count is one for all buffers exactly where no name comes twice, and never for a union
that has something to list.** -/
theorem listing_count_iff (who : Identity) {path rel : CString} {mounts : List (Mount σ)}
    {m : Mount σ} {f : σ → CString → Bool → Nat → ListOutcome} {v : TempBuffers → Vfs σ}
    {lister : Lister δ} (table : ∀ buffers, (v buffers).mounts = mounts)
    (mount : vfsFindMount mounts path = some (m, rel)) (ops : m.ops.listDir = some f)
    (answers : ∀ buffers out maxEntries,
      f (v buffers).store rel out maxEntries = lister.answer buffers out maxEntries) :
    CountsOnce (fun buffers out maxEntries => (vfsListDir who (v buffers) path out maxEntries).1)
        (lister.names ++ mountChildren path mounts) ↔
      lister.Plain (mountChildren path mounts) := by
  have listing : ∀ buffers out maxEntries, (vfsListDir who (v buffers) path out maxEntries).1 =
      withChildren (mountChildren path mounts) out maxEntries
        (lister.answer buffers out maxEntries) := by
    intro buffers out maxEntries
    have here : vfsFindMount (v buffers).mounts path = some (m, rel) := by rw [table, mount]
    rw [vfsListDir_withChildren here ops (by rw [answers, lister.answer_rc]), answers, table]
  rw [countsOnce_congr listing]
  cases lister with
  | visiting ents => exact visiting_countsOnce _ ents
  | devfs nodes rest => exact devfs_countsOnce _ nodes rest
  | union ea eb => exact union_countsOnce _ ea eb

/-- A root mount with the given listing. -/
def listingMount (list : TempBuffers → Bool → Nat → ListOutcome) : Mount TempBuffers :=
  ⟨[slash], .ramfs, ⟨⟨none, none, none, none,
    some fun st _ out maxEntries => list st out maxEntries, none, none, none⟩, none, none, none⟩⟩

/-- With `"/dev"` beside it. -/
def listingMounts (list : TempBuffers → Bool → Nat → ListOutcome) : List (Mount TempBuffers) :=
  mountTable [listingMount list,
    ⟨devPoint, .devfs, ⟨⟨none, none, none, none, none, none, none, none⟩, none, none, none⟩⟩]

/-- The file `a`. -/
def oneFile : Lister Unit := .visiting [⟨[0x61], false, 1⟩]

/-- `a` and `dev` are counted as two. -/
theorem listing_count_file :
    CountsOnce (fun buffers out maxEntries => (vfsListDir ⟨0, 0⟩
        ⟨listingMounts oneFile.answer, buffers, []⟩ [slash] out maxEntries).1)
      (oneFile.names ++ mountChildren [slash] (listingMounts oneFile.answer)) := by
  have table : ∀ buffers : TempBuffers, (⟨listingMounts oneFile.answer, buffers, []⟩ :
      Vfs TempBuffers).mounts = listingMounts oneFile.answer := fun _ => rfl
  have mount : vfsFindMount (listingMounts oneFile.answer) [slash] =
      some (listingMount oneFile.answer, [slash]) := rfl
  have plain : oneFile.Plain (mountChildren [slash] (listingMounts oneFile.answer)) := by
    show List.Nodup [[0x61], [0x64, 0x65, 0x76]]
    decide
  exact (listing_count_iff ⟨0, 0⟩ table mount rfl fun _ _ _ => rfl).2 plain

/-- A directory `dev` below the mount point is counted twice unless it is among the entries
stored. -/
theorem listing_count_shadowed : ¬ ∀ (lister : Lister Unit),
    CountsOnce (fun buffers out maxEntries => (vfsListDir ⟨0, 0⟩
        ⟨listingMounts lister.answer, buffers, []⟩ [slash] out maxEntries).1)
      (lister.names ++ mountChildren [slash] (listingMounts lister.answer)) := by
  intro always
  obtain ⟨seq, distinct, same, all⟩ := always (.visiting [⟨[0x64, 0x65, 0x76], true, 0⟩])
  let e : VfsDirent := ⟨[], false, 0⟩
  have none := (all (fun _ => e, fun _ => e) false 0).1
  have room := (all (fun _ => e, fun _ => e) true 8).1
  have two : (2 : Nat) = seq.length := Option.some.inj none
  have one : (1 : Nat) = seq.length := Option.some.inj room
  omega

end NTux.Fs
