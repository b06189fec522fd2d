import NTux.Ext.Allocator
import NTux.Ext.FileData

/-!
# Blocks taken and given back

`Grown fs d new d'` says that `d'` is `d` after the blocks `new` have been allocated and
written to, and `Released fs d old d'` that it is `d` after the blocks `old` have been
released.  Both keep the volume consistent and everything else as it is, and both
compose (`Grown.trans`, `Released.trans`).
-/

namespace NTux.Ext

open NTux.Lib NTux.Lib.Bytes

variable {fs : ExtFs} {d d' d'' : Volume} {x : Nat} {new new' old old' : List Nat}

/-- A block that may belong to a file. -/
def DataBlock (fs : ExtFs) (d : Volume) (x : Nat) : Prop :=
  fs.HasBlock x ∧ x ∉ metaBlocks fs d

theorem DataBlock.not_map (data : DataBlock fs d x) : x ∉ mapBlocks fs d := fun mem =>
  data.2 (mapBlocks_subset mem)

theorem DataBlock.ne_zero (ok : Consistent fs d) (data : DataBlock fs d x) : x ≠ 0 :=
  ne_zero_of_not_meta ok data.1 data.2

theorem dataBlock_of_free (ok : Consistent fs d) (has : fs.HasBlock x)
    (free : blockUsed fs d x = false) : DataBlock fs d x := ⟨has, not_meta_of_free ok free⟩

theorem SamePlaces.dataBlock (same : SamePlaces fs d d') (data : DataBlock fs d x) :
    DataBlock fs d' x := ⟨data.1, by rw [same.metaBlocks_eq]; exact data.2⟩

/-! ## Allocated blocks -/

/-- The blocks `new` have been allocated, and nothing but they has been written to. -/
structure Grown (fs : ExtFs) (d : Volume) (new : List Nat) (d' : Volume) : Prop where
  consistent : Consistent fs d'
  fresh : ∀ x ∈ new, fs.HasBlock x ∧ blockUsed fs d x = false
  nodup : new.Nodup
  used : ∀ y, fs.HasBlock y → (blockUsed fs d' y = true ↔ blockUsed fs d y = true ∨ y ∈ new)
  inodes : ∀ ino, 0 < ino → ino ≤ fs.inodesCount → inodeUsed fs d' ino = inodeUsed fs d ino
  frame : ∀ y, y ∉ mapBlocks fs d → y ∉ new → d' y = d y
  places : SamePlaces fs d d'

namespace Grown

theorem refl (ok : Consistent fs d) : Grown fs d [] d where
  consistent := ok
  fresh := by simp
  nodup := List.nodup_nil
  used := by simp
  inodes := fun _ _ _ => rfl
  frame := fun _ _ _ => rfl
  places := .refl fs d

/-- A new block holds data. -/
theorem dataBlock (ok : Consistent fs d) (grown : Grown fs d new d') (mem : x ∈ new) :
    DataBlock fs d x :=
  dataBlock_of_free ok (grown.fresh x mem).1 (grown.fresh x mem).2

theorem ne_zero (ok : Consistent fs d) (grown : Grown fs d new d') (mem : x ∈ new) : x ≠ 0 :=
  (grown.dataBlock ok mem).ne_zero ok

/-- The number of a new block fits a block pointer. -/
theorem lt_word (ok : Consistent fs d) (grown : Grown fs d new d') (mem : x ∈ new) :
    x < 4294967296 :=
  Nat.lt_trans (grown.fresh x mem).1.2 ok.blocksCount.2

theorem trans (grown : Grown fs d new d') (grown' : Grown fs d' new' d'') :
    Grown fs d (new ++ new') d'' where
  consistent := grown'.consistent
  fresh x mem := by
    rcases List.mem_append.1 mem with mem | mem
    · exact grown.fresh x mem
    · obtain ⟨has, free⟩ := grown'.fresh x mem
      refine ⟨has, ?_⟩
      by_contra used
      rw [(grown.used x has).2 (.inl (by simpa using used))] at free
      exact absurd free (by simp)
  nodup := by
    refine List.nodup_append.2 ⟨grown.nodup, grown'.nodup, fun x mem y mem' eq => ?_⟩
    subst eq
    obtain ⟨has, free⟩ := grown'.fresh x mem'
    rw [(grown.used x has).2 (.inr mem)] at free
    exact absurd free (by simp)
  used y has := by
    rw [grown'.used y has, grown.used y has, List.mem_append, or_assoc]
  inodes ino pos le := (grown'.inodes ino pos le).trans (grown.inodes ino pos le)
  frame y off notNew := by
    rw [List.mem_append, not_or] at notNew
    rw [grown'.frame y (by rwa [grown.places.mapBlocks_eq]) notNew.2, grown.frame y off notNew.1]
  places := grown.places.trans grown'.places

theorem alloc (allocated : Allocated fs d x d') : Grown fs d [x] d' where
  consistent := allocated.consistent
  fresh y mem := by
    obtain rfl := List.mem_singleton.1 mem
    exact ⟨allocated.has, allocated.wasFree⟩
  nodup := List.nodup_singleton x
  used y has := by
    rw [allocated.used y has, List.mem_singleton]
    by_cases same : y = x <;> simp [same]
  inodes := allocated.inodes
  frame y off notNew := allocated.frame y off (by simpa using notNew)
  places := allocated.places

/-- A new block may be written to. -/
theorem write (ok : Consistent fs d) (grown : Grown fs d new d') (mem : x ∈ new) (buf : Bytes) :
    Grown fs d new (extWriteBlock d' x buf) := by
  have data := grown.dataBlock ok mem
  have off : x ∉ mapBlocks fs d' := by
    rw [grown.places.mapBlocks_eq]
    exact data.not_map
  obtain ⟨consistent, used, inodes, places⟩ := write_frame grown.consistent off
  refine ⟨consistent, grown.fresh, grown.nodup, fun y has => ?_, fun ino pos le => ?_,
    fun y offY notNew => ?_, grown.places.trans places⟩
  · rw [used y has, grown.used y has]
  · rw [inodes ino pos le, grown.inodes ino pos le]
  · rw [extWriteBlock, Function.update_of_ne (fun (eq : y = x) => notNew (eq ▸ mem)),
      grown.frame y offY notNew]

/-- What was allocated before is not written to. -/
theorem keeps (ok : Consistent fs d) (grown : Grown fs d new d') (grown' : Grown fs d' new' d'')
    (mem : x ∈ new) : d'' x = d' x := by
  have data := grown.dataBlock ok mem
  refine grown'.frame x ?_ fun mem' => ?_
  · rw [grown.places.mapBlocks_eq]
    exact data.not_map
  · obtain ⟨has, free⟩ := grown'.fresh x mem'
    rw [(grown.used x has).2 (.inr mem)] at free
    exact absurd free (by simp)

end Grown

/-! ## Released blocks -/

/-- The blocks `old` have been released, and nothing has been written to. -/
structure Released (fs : ExtFs) (d : Volume) (old : List Nat) (d' : Volume) : Prop where
  consistent : Consistent fs d'
  used : ∀ y, fs.HasBlock y → (blockUsed fs d' y = true ↔ blockUsed fs d y = true ∧ y ∉ old)
  inodes : ∀ ino, 0 < ino → ino ≤ fs.inodesCount → inodeUsed fs d' ino = inodeUsed fs d ino
  frame : ∀ y, y ∉ mapBlocks fs d → d' y = d y
  places : SamePlaces fs d d'

namespace Released

theorem refl (ok : Consistent fs d) : Released fs d [] d where
  consistent := ok
  used := by simp
  inodes := fun _ _ _ => rfl
  frame := fun _ _ => rfl
  places := .refl fs d

theorem trans (released : Released fs d old d') (released' : Released fs d' old' d'') :
    Released fs d (old ++ old') d'' where
  consistent := released'.consistent
  used y has := by
    rw [released'.used y has, released.used y has, List.mem_append, not_or, and_assoc]
  inodes ino pos le := (released'.inodes ino pos le).trans (released.inodes ino pos le)
  frame y off := by
    rw [released'.frame y (by rwa [released.places.mapBlocks_eq]), released.frame y off]
  places := released.places.trans released'.places

theorem of_marked (marked : Marked fs d x false d') : Released fs d [x] d' where
  consistent := marked.consistent
  used y has := by
    rw [marked.used y has, List.mem_singleton]
    by_cases same : y = x <;> simp [same]
  inodes := marked.inodes
  frame := marked.frame
  places := marked.places

theorem dataBlock (released : Released fs d old d') (data : DataBlock fs d x) :
    DataBlock fs d' x := released.places.dataBlock data

/-- The contents of the blocks of files are kept. -/
theorem keeps (released : Released fs d old d') (data : DataBlock fs d x) : d' x = d x :=
  released.frame x data.not_map

end Released

/-- `ext2_free_block` either releases a data block or fails. -/
theorem extFreeBlock_cases (ok : Consistent fs d) (data : DataBlock fs d x) :
    (∃ d', extFreeBlock fs d x = some d' ∧ Released fs d [x] d') ∨
      extFreeBlock fs d x = none := by
  by_cases read : fs.DescRead (fs.groupOf x)
  · obtain ⟨d', eq, marked⟩ := extFreeBlock_ok ok data.1 read data.2
    exact .inl ⟨d', eq, .of_marked marked⟩
  · refine .inr ?_
    rw [extFreeBlock_eq ok data.1 (data.ne_zero ok), if_neg read]

end NTux.Ext
