import NTux.Ext.DirTiling
import NTux.Ext.InodeTable
import NTux.Lib.Keyed

/-!
# The entries of a directory

`dirLinks fs d dir` are the entries in use of all blocks of a directory.  Where the blocks
are tiled, `ext2_dir_find` looks up a name among them (`extDirFind_eq`),
`ext2_dir_add_entry` inserts one (`extDirAddEntry_ok`) and `ext2_dir_remove_entry` takes
one out (`extDirRemoveEntry_ok`).
-/

namespace NTux.Ext

open NTux.Lib NTux.Lib.Bytes NTux.Lib.Keyed

variable {fs : ExtFs} {d d' : Volume} {dir dir' : Bytes} {name : List UInt8} {ino : Nat}

/-- The records of a block from `off` on. -/
def recordsFrom (size : Nat) (buf : Bytes) : Nat → Nat → List DirEntry
  | 0, _ => []
  | fuel + 1, off =>
      let e := dirEntryAt buf off
      if size < off + 8 ∨ e.recLen < 8 then []
      else e :: recordsFrom size buf fuel (off + e.recLen)

/-- The entries in use of a block. -/
def blockLinks (fs : ExtFs) (buf : Bytes) : List (List UInt8 × Nat × UInt8) :=
  links (recordsFrom fs.blockSize buf fs.blockSize 0)

/-- The entries in use of a directory. -/
def dirLinks (fs : ExtFs) (d : Volume) (dir : Bytes) : List (List UInt8 × Nat × UInt8) :=
  (dirBlocks dir).flatMap fun b => blockLinks fs (d b)

/-- The block is tiled by its records. -/
def TiledBlock (fs : ExtFs) (buf : Bytes) : Prop := ∃ es, Tiled fs.blockSize buf 0 es

/-- The blocks of the directory are different data blocks, and tiled by their records. -/
structure DirTiled (fs : ExtFs) (d : Volume) (dir : Bytes) : Prop where
  blocks : ∀ b ∈ dirBlocks dir, DataBlock fs d b ∧ blockUsed fs d b = true
  nodup : (dirBlocks dir).Nodup
  tiled : ∀ b ∈ dirBlocks dir, TiledBlock fs (d b)

theorem recordsFrom_eq {size off fuel : Nat} {buf : Bytes} {es : List DirEntry}
    (tiled : Tiled size buf off es) (enough : es.length ≤ fuel) :
    recordsFrom size buf fuel off = es := by
  induction es generalizing off fuel with
  | nil =>
      cases fuel with
      | zero => rfl
      | succ fuel => rw [recordsFrom, if_pos (.inl (by rw [show off = size from tiled]; omega))]
  | cons e es ih =>
      obtain ⟨rfl, large, fits, rest⟩ := tiled
      have le := rest.le
      rw [List.length_cons] at enough
      obtain ⟨fuel, rfl⟩ : ∃ k, fuel = k + 1 := ⟨fuel - 1, by omega⟩
      unfold recordsFrom
      dsimp only
      rw [if_neg (by omega), ih rest (by omega)]

theorem Tiled.few {size : Nat} {buf : Bytes} {es : List DirEntry} (tiled : Tiled size buf 0 es) :
    es.length ≤ size := by
  have le := tiled.le
  omega

theorem blockLinks_eq {buf : Bytes} {es : List DirEntry} (tiled : Tiled fs.blockSize buf 0 es) :
    blockLinks fs buf = links es := by
  rw [blockLinks, recordsFrom_eq tiled tiled.few]

/-! ## Finding -/

/-- The walk finds what a search of the records finds. -/
theorem dirWalk_entry {size off fuel : Nat} {buf : Bytes} {es : List DirEntry}
    (next : Nat → Nat) (test : DirEntry → Bool) (exact' : ∀ o, o ≤ size → next o = o)
    (tiled : Tiled size buf off es)
    (enough : es.length ≤ fuel) (start : Option Nat) :
    (dirWalk size next test buf fuel off start).map (fun r => dirEntryAt buf r.1) =
      es.find? test := by
  rcases dirWalk_cases test exact' tiled enough start with
    ⟨none, all⟩ | ⟨pre, e, post, mid, prev, rfl, first, found, -, rfl, -, some⟩
  · rw [none, List.find?_eq_none.2 fun e mem => by simp [all e mem]]
    rfl
  · rw [some, List.find?_append, List.find?_eq_none.2 fun e mem => by simp [first e mem],
      List.find?_cons_of_pos found]
    rfl

theorem lookup_links (name : List UInt8) (es : List DirEntry) :
    (links es).lookup name = (es.find? (DirEntry.names name)).map fun e => (e.inode, e.fileType) := by
  induction es with
  | nil => rfl
  | cons e es ih =>
      cases live : e.live with
      | false =>
          rw [links_cons_of_dead live, ih, List.find?_cons_of_neg (by simp [DirEntry.names, live])]
      | true =>
          rw [links_cons_of_live live]
          by_cases same : e.name = name
          · rw [List.find?_cons_of_pos (by simp [DirEntry.names, live, same]), ← same]
            exact List.lookup_cons_self
          · rw [List.find?_cons_of_neg (by simp [DirEntry.names, same]), ← ih]
            exact lookup_cons_of_ne (x := e.link) (Ne.symm same) _

/-- **`ext2_dir_find` looks the name up among the entries in use.** -/
theorem extDirFind_eq (tiled : ∀ b ∈ dirBlocks dir, TiledBlock fs (d b)) :
    extDirFind fs d dir name = (dirLinks fs d dir).lookup name := by
  unfold extDirFind dirLinks
  generalize dirBlocks dir = blocks at tiled
  induction blocks with
  | nil => rfl
  | cons b blocks ih =>
      obtain ⟨es, first⟩ := tiled b (List.mem_cons_self ..)
      have walk := dirWalk_entry id (DirEntry.names name) (fun _ _ => rfl) first
        first.few none
      have here : (dirWalk fs.blockSize id (DirEntry.names name) (d b) fs.blockSize 0 none).map
          (fun r => ((dirEntryAt (d b) r.1).inode, (dirEntryAt (d b) r.1).fileType)) =
            (blockLinks fs (d b)).lookup name := by
        rw [blockLinks_eq first, lookup_links, ← walk, Option.map_map]
        rfl
      rw [List.findSome?_cons, List.flatMap_cons, List.lookup_append, ← ih fun b mem =>
        tiled b (List.mem_cons_of_mem _ mem), here]
      cases (blockLinks fs (d b)).lookup name <;> rfl

theorem wrap16_eq {size : Nat} (most : size < 65536) (o : Nat) (le : o ≤ size) : wrap16 o = o :=
  Nat.mod_eq_of_lt (by omega)

/-! ## A change of one block -/

theorem dirBlocks_congr (same : ∀ j, j < 12 → inodePtr dir' j = inodePtr dir j) :
    dirBlocks dir' = dirBlocks dir := by
  unfold dirBlocks livePtrs
  congr 1
  refine List.map_congr_left fun j mem => same j ?_
  have := (List.mem_range'_1.1 mem).2
  omega

/-- The blocks that are not written to keep their entries. -/
theorem flatMap_blockLinks_congr {blocks : List Nat} (same : ∀ b ∈ blocks, d' b = d b) :
    (blocks.flatMap fun b => blockLinks fs (d' b)) = blocks.flatMap fun b => blockLinks fs (d b) := by
  induction blocks with
  | nil => rfl
  | cons b blocks ih =>
      rw [List.flatMap_cons, List.flatMap_cons, same b (List.mem_cons_self ..),
        ih fun b mem => same b (List.mem_cons_of_mem _ mem)]

/-- A directory and its volume have been changed, and those of nothing else. -/
structure DirChanged (fs : ExtFs) (d : Volume) (ino : Nat) (dir : Bytes) (d' : Volume)
    (dir' : Bytes) : Prop where
  consistent : Consistent fs d'
  places : SamePlaces fs d d'
  inodes : ∀ i, fs.HasInode i → inodeUsed fs d' i = inodeUsed fs d i
  used : ∀ x, fs.HasBlock x → blockUsed fs d x = true → blockUsed fs d' x = true
  onDisk : extReadInode fs d' ino = some dir'
  tiled : DirTiled fs d' dir'
  data : ∀ x, DataBlock fs d x → blockUsed fs d x = true → x ∉ dirBlocks dir → d' x = d x

section InPlace

variable {b : Nat}

/-- Writing to one block of a directory. -/
theorem dirChanged_write {buf : Bytes} (ok : Consistent fs d) (has : fs.HasInode ino)
    (onDisk : extReadInode fs d ino = some dir) (tiled : DirTiled fs d dir)
    (mem : b ∈ dirBlocks dir) (block : TiledBlock fs buf) :
    DirChanged fs d ino dir (extWriteBlock d b buf) dir := by
  obtain ⟨data, used⟩ := tiled.blocks b mem
  obtain ⟨consistent, marks, inodes, places⟩ := write_frame ok data.not_map
  have others : ∀ x, x ≠ b → extWriteBlock d b buf x = d x := fun x ne =>
    Function.update_of_ne ne _ _
  refine ⟨consistent, places, fun i has => inodes i has.1 has.2, fun x hasX usedX => ?_, ?_,
    ⟨fun x memX => ?_, tiled.nodup, fun x memX => ?_⟩, fun x _ _ off => others x ?_⟩
  · rw [marks x hasX, usedX]
  · -- the block is not one of the inode table
    have table := inodeBlock_mem (d := d) ok.toGeometry has
    have ne : inodeBlock fs d ino ≠ b := fun eq =>
      data.2 (eq ▸ List.mem_append_right _ table)
    rw [extReadInode_eq consistent has, places.inodeBlock_eq ok.toGeometry has, others _ ne,
      ← extReadInode_eq ok has, onDisk]
  · obtain ⟨dataX, usedX⟩ := tiled.blocks x memX
    exact ⟨places.dataBlock dataX, by rw [marks x dataX.1, usedX]⟩
  · by_cases same : x = b
    · rw [same, extWriteBlock, Function.update_self]
      exact block
    · rw [others x same]
      exact tiled.tiled x memX
  · rintro rfl
    exact off mem

/-- The entries of the directory change where those of the block change. -/
theorem dirLinks_write (buf : Bytes) (tiled : DirTiled fs d dir) (mem : b ∈ dirBlocks dir) :
    ∃ l₁ l₂, dirLinks fs d dir = l₁ ++ (blockLinks fs (d b) ++ l₂) ∧
      dirLinks fs (extWriteBlock d b buf) dir = l₁ ++ (blockLinks fs buf ++ l₂) := by
  obtain ⟨before, after, eq⟩ := List.append_of_mem mem
  have nodup := tiled.nodup
  rw [eq, List.nodup_middle, List.nodup_cons, List.mem_append, not_or] at nodup
  have others : ∀ x, x ≠ b → extWriteBlock d b buf x = d x := fun x ne =>
    Function.update_of_ne ne _ _
  refine ⟨before.flatMap fun b => blockLinks fs (d b), after.flatMap fun b => blockLinks fs (d b),
    ?_, ?_⟩
  · rw [dirLinks, eq, List.flatMap_append, List.flatMap_cons]
  · rw [dirLinks, eq, List.flatMap_append, List.flatMap_cons,
      flatMap_blockLinks_congr fun x memX => others x fun same => nodup.1.1 (same ▸ memX),
      flatMap_blockLinks_congr fun x memX => others x fun same => nodup.1.2 (same ▸ memX),
      extWriteBlock, Function.update_self]

end InPlace

/-- The size of a block is known, and an offset there has 16 bits. -/
theorem Consistent.blockSize_lt (ok : Consistent fs d) : 1024 ≤ fs.blockSize ∧ fs.blockSize < 65536 := by
  rcases ok.blockSize with eq | eq | eq <;> omega

/-! ## Removing -/

/-- What a walk over the blocks of a directory finds, and where. -/
theorem findSome_walk {α : Type} (test : DirEntry → Bool) (f : Nat → Nat × Option Nat → α)
    (most : fs.blockSize < 65536) {blocks : List Nat} (tiled : ∀ b ∈ blocks, TiledBlock fs (d b)) :
    ((blocks.findSome? fun b =>
        (dirWalk fs.blockSize wrap16 test (d b) fs.blockSize 0 none).map (f b)) = none ∧
      ∀ b ∈ blocks, ∀ es, Tiled fs.blockSize (d b) 0 es → ∀ e ∈ es, test e = false) ∨
    ∃ b ∈ blocks, ∃ pre e post mid prev, Tiled fs.blockSize (d b) 0 (pre ++ e :: post) ∧
      Tiled mid (d b) 0 pre ∧ Tiled fs.blockSize (d b) mid (e :: post) ∧ test e = true ∧
      PrevAt (d b) 0 none pre prev ∧
      (blocks.findSome? fun b =>
        (dirWalk fs.blockSize wrap16 test (d b) fs.blockSize 0 none).map (f b)) =
          some (f b (mid, prev)) := by
  induction blocks with
  | nil => exact .inl ⟨rfl, by simp⟩
  | cons b blocks ih =>
      obtain ⟨es, first⟩ := tiled b (List.mem_cons_self ..)
      rcases dirWalk_cases test (wrap16_eq most) first first.few none with
        ⟨none, all⟩ | ⟨pre, e, post, mid, prev, rfl, -, found, before, -, at', some⟩
      · rw [List.findSome?_cons, none, Option.map_none]
        rcases ih fun b mem => tiled b (List.mem_cons_of_mem _ mem) with
          ⟨rest, dead⟩ | ⟨b', mem, more⟩
        · refine .inl ⟨rest, List.forall_mem_cons.2 ⟨fun es' tiled' => ?_, dead⟩⟩
          rw [← recordsFrom_eq tiled' tiled'.few, recordsFrom_eq first first.few]
          exact all
        · exact .inr ⟨b', List.mem_cons_of_mem _ mem, more⟩
      · obtain ⟨mid', before', after⟩ := Tiled.append_iff.1 first
        obtain rfl := before.end_unique before'
        refine .inr ⟨b, List.mem_cons_self .., pre, e, post, mid', prev, first, before', after, found,
          at', ?_⟩
        rw [List.findSome?_cons, some, Option.map_some]

/-- **`ext2_dir_remove_entry` takes an entry of the name out, if there is one.** -/
theorem extDirRemoveEntry_ok (name : List UInt8) (ok : Consistent fs d) (has : fs.HasInode ino)
    (onDisk : extReadInode fs d ino = some dir) (tiled : DirTiled fs d dir) :
    (extDirRemoveEntry fs d dir name = none ∧ name ∉ keys (dirLinks fs d dir)) ∨
      ∃ d' child fileType, extDirRemoveEntry fs d dir name = some (d', child, fileType) ∧
        DirChanged fs d ino dir d' dir ∧
        Inserted (name, child, fileType) (dirLinks fs d' dir) (dirLinks fs d dir) := by
  have most := ok.blockSize_lt.2
  unfold extDirRemoveEntry extDirFindSlot
  rcases findSome_walk (DirEntry.names name) (fun b r => (b, r.1, r.2)) most
    tiled.tiled with ⟨none, dead⟩ | ⟨b, mem, pre, e, post, mid, prev, whole, before, after, found,
      at', some⟩
  · refine .inl ⟨by rw [none]; rfl, ?_⟩
    unfold keys dirLinks
    rw [List.mem_map]
    rintro ⟨x, memX, rfl⟩
    obtain ⟨b, mem, memB⟩ := List.mem_flatMap.1 memX
    obtain ⟨es, es'⟩ := tiled.tiled b mem
    rw [blockLinks_eq es'] at memB
    obtain ⟨e, memE, rfl⟩ := List.mem_map.1 memB
    obtain ⟨memE, live⟩ := List.mem_filter.1 memE
    have no := dead b mem es es' e memE
    rw [DirEntry.names, live] at no
    exact absurd no (by simp [DirEntry.link])
  · right
    obtain ⟨es', tiled', links'⟩ := dropEntry_tiled before after most at'
    rw [DirEntry.names, Bool.and_eq_true, decide_eq_true_eq] at found
    obtain ⟨live, rfl⟩ := found
    obtain ⟨l₁, l₂, old, new⟩ := dirLinks_write (dropEntry (d b) mid prev) tiled mem
    refine ⟨_, _, _, by rw [some, Option.map_some], dirChanged_write ok has onDisk tiled mem
      ⟨es', tiled'⟩, ?_⟩
    rw [old, new, blockLinks_eq tiled', blockLinks_eq whole, links', links_append,
      links_cons_of_live live, ← after.1]
    exact Inserted.around ⟨links pre, links post, rfl, rfl⟩ l₁ l₂

/-! ## Adding -/

theorem livePtrs_add (p : Nat → Nat) (i m n : Nat) :
    livePtrs p i (m + n) = livePtrs p i m ++ livePtrs p (i + m) n := by
  unfold livePtrs live
  rw [← List.range'_append_1, List.map_append, List.filter_append]

/-- A pointer of the directory that was not set is set. -/
theorem dirBlocks_set {bi x : Nat} (lt : bi < 12) (zero : inodePtr dir bi = 0) (ne : x ≠ 0)
    (set : ∀ j, j < 12 → inodePtr dir' j = if j = bi then x else inodePtr dir j) :
    ∃ l₁ l₂, dirBlocks dir = l₁ ++ l₂ ∧ dirBlocks dir' = l₁ ++ x :: l₂ := by
  have same : ∀ i n, i + n ≤ 12 → (∀ j, i ≤ j → j < i + n → j ≠ bi) →
      livePtrs (inodePtr dir') i n = livePtrs (inodePtr dir) i n := by
    intro i n le off
    unfold livePtrs
    congr 1
    refine List.map_congr_left fun j mem => ?_
    obtain ⟨ge, less⟩ := List.mem_range'_1.1 mem
    rw [set j (by omega), if_neg (off j ge less)]
  obtain ⟨n, all⟩ := Nat.exists_eq_add_of_lt lt
  refine ⟨livePtrs (inodePtr dir) 0 bi, livePtrs (inodePtr dir) (bi + 1) n, ?_, ?_⟩
  · unfold dirBlocks
    rw [show 12 = bi + (n + 1) by omega, livePtrs_add, Nat.zero_add, livePtrs_succ, if_pos zero]
    rfl
  · have here := set bi lt
    rw [if_pos rfl] at here
    unfold dirBlocks
    rw [show 12 = bi + (n + 1) by omega, livePtrs_add, Nat.zero_add, livePtrs_succ, here, if_neg ne,
      same 0 bi (by omega) (by omega), same (bi + 1) n (by omega) (by omega)]
    rfl

theorem inodePtr_growDir {bi x : Nat} (lt : x < 2 ^ 32) (j : Nat) :
    inodePtr (growDir fs (wr32 dir (inBlock + 4 * bi) x)) j =
      if j = bi then x else inodePtr dir j := by
  unfold growDir
  rw [inodePtr_setSize]
  unfold inodePtr
  split
  next same => rw [same, rd32_wr32 lt]
  next ne => exact rd32_wr32_of_apart (by omega)

section Add

variable {child : Nat}

/-- An entry in a new block. -/
theorem addBlock_ok (fileType : UInt8) {bi : Nat} (ok : Consistent fs d) (has : fs.HasInode ino)
    (onDisk : extReadInode fs d ino = some dir) (tiled : DirTiled fs d dir) (lt : bi < 12)
    (zero : inodePtr dir bi = 0) (some' : name ≠ []) (short : name.length ≤ 255)
    (used : child ≠ 0) (lt' : child < 2 ^ 32) {x : Nat} {d₁ : Volume}
    (alloc : extAllocBlock fs d = some (x, d₁)) :
    ∃ d₃ dir₃, extWriteInode fs (extWriteBlock d₁ x (newDirBlock fs.blockSize child fileType name))
        ino (growDir fs (wr32 dir (inBlock + 4 * bi) x)) = some d₃ ∧
      DirChanged fs d ino dir d₃ dir₃ ∧
      Inserted (name, child, fileType) (dirLinks fs d dir) (dirLinks fs d₃ dir₃) ∧
      ∀ k, k < inodeRecordSize → dir₃ k = growDir fs (wr32 dir (inBlock + 4 * bi) x) k := by
  obtain ⟨least, most⟩ := ok.blockSize_lt
  have allocated := extAllocBlock_ok ok alloc
  have grown : Grown fs d [x] (extWriteBlock d₁ x (newDirBlock fs.blockSize child fileType name)) :=
    (Grown.alloc allocated).write ok (List.mem_singleton.2 rfl) _
  have ne := grown.ne_zero ok (List.mem_singleton.2 rfl)
  have data := grown.dataBlock ok (List.mem_singleton.2 rfl)
  have fresh := (grown.fresh x (List.mem_singleton.2 rfl)).2
  have here : extWriteBlock d₁ x (newDirBlock fs.blockSize child fileType name) x =
      newDirBlock fs.blockSize child fileType name := by
    rw [extWriteBlock, Function.update_self]
  generalize extWriteBlock d₁ x (newDirBlock fs.blockSize child fileType name) = d₂ at *
  have small : x < 2 ^ 32 := Nat.lt_trans data.1.2 ok.blocksCount.2
  -- the inode is written where it has been read
  obtain ⟨d₃, write⟩ : ∃ d₃, extWriteInode fs d₂ ino
      (growDir fs (wr32 dir (inBlock + 4 * bi) x)) = some d₃ := by
    rw [extReadInode_eq ok has] at onDisk
    split at onDisk
    next fits => exact ⟨_, by rw [extWriteInode_eq grown.consistent has, if_pos fits]⟩
    · exact absurd onDisk (by simp)
  have written := extWriteInode_ok grown.consistent has write
  obtain ⟨dir₃, read, same⟩ := written.read
  have ptr : ∀ j, j < 12 → inodePtr dir₃ j = if j = bi then x else inodePtr dir j := by
    intro j ltJ
    rw [← inodePtr_growDir small]
    exact rd32_congr fun i ltI => same _ (by unfold inBlock inodeRecordSize; omega)
  obtain ⟨l₁, l₂, old, new⟩ := dirBlocks_set lt zero ne ptr
  have kept : ∀ y, DataBlock fs d y → blockUsed fs d y = true → d₃ y = d y := by
    intro y dataY usedY
    rw [written.data y (grown.places.dataBlock dataY), grown.frame y dataY.not_map]
    intro mem
    rw [List.mem_singleton.1 mem, fresh] at usedY
    exact absurd usedY (by simp)
  have keptBlock : ∀ b ∈ l₁ ++ l₂, d₃ b = d b := by
    intro b mem
    obtain ⟨dataB, usedB⟩ := tiled.blocks b (old ▸ mem)
    exact kept b dataB usedB
  have content : d₃ x = newDirBlock fs.blockSize child fileType name := by
    rw [written.data x (grown.places.dataBlock data), here]
  have usedX : blockUsed fs d₃ x = true := by
    rw [written.used x data.1, grown.used x data.1]
    exact .inr (List.mem_singleton.2 rfl)
  have fits : 8 + name.length ≤ fs.blockSize := by omega
  have block := newDirBlock_tiled fileType fits most short used lt'
  have marks : ∀ y, fs.HasBlock y → blockUsed fs d y = true → blockUsed fs d₃ y = true := by
    intro y hasY usedY
    rw [written.used y hasY, grown.used y hasY]
    exact .inl usedY
  refine ⟨d₃, dir₃, write, ⟨written.consistent, grown.places.trans written.places, ?_, marks, read,
    ⟨fun b mem => ?_, ?_, fun b mem => ?_⟩, fun y dataY usedY _ => kept y dataY usedY⟩, ?_, same⟩
  · intro i hasI
    rw [written.inodes i hasI.1 hasI.2, grown.inodes i hasI.1 hasI.2]
  · have places := grown.places.trans written.places
    rw [new] at mem
    by_cases eq : b = x
    · rw [eq]
      exact ⟨places.dataBlock data, usedX⟩
    · obtain ⟨dataB, usedB⟩ := tiled.blocks b (by
        rw [old]
        exact (List.mem_cons.1 (List.perm_middle.mem_iff.1 mem)).resolve_left eq)
      exact ⟨places.dataBlock dataB, marks b dataB.1 usedB⟩
  · have nodup := tiled.nodup
    rw [new, List.nodup_middle, List.nodup_cons, ← old]
    refine ⟨fun mem => ?_, nodup⟩
    have usedX := (tiled.blocks x mem).2
    rw [fresh] at usedX
    exact absurd usedX (by simp)
  · rw [new] at mem
    rcases List.mem_cons.1 (List.perm_middle.mem_iff.1 mem) with rfl | mem
    · rw [content]
      exact ⟨_, block⟩
    · rw [keptBlock b mem]
      exact tiled.tiled b (by rw [old]; exact mem)
  · rw [dirLinks, dirLinks, old, new, List.flatMap_append, List.flatMap_append, List.flatMap_cons,
      content, blockLinks_eq block,
      flatMap_blockLinks_congr fun b mem => keptBlock b (List.mem_append_left _ mem),
      flatMap_blockLinks_congr fun b mem => keptBlock b (List.mem_append_right _ mem),
      links_cons_of_live (live_of_used used (List.length_pos_iff.2 some'))]
    exact ⟨_, _, rfl, rfl⟩

/-- **`ext2_dir_add_entry` inserts the entry, or changes nothing.** -/
theorem extDirAddEntry_ok (name : List UInt8) (fileType : UInt8) (ok : Consistent fs d)
    (has : fs.HasInode ino)
    (onDisk : extReadInode fs d ino = some dir) (tiled : DirTiled fs d dir)
    (used : child ≠ 0) (lt : child < 2 ^ 32) :
    extDirAddEntry fs d ino dir child fileType name = .error d ∨
      ∃ d' dir' dir₃, extDirAddEntry fs d ino dir child fileType name = .ok (d', dir') ∧
        DirChanged fs d ino dir d' dir₃ ∧
        Inserted (name, child, fileType) (dirLinks fs d dir) (dirLinks fs d' dir₃) ∧
        ∀ k, k < inodeRecordSize → dir₃ k = dir' k := by
  have most := ok.blockSize_lt.2
  unfold extDirAddEntry
  by_cases bad : name.length = 0 ∨ 255 < name.length
  · exact .inl (if_pos bad)
  rw [if_neg bad]
  rw [not_or] at bad
  have some' : name ≠ [] := fun nil => bad.1 (by rw [nil]; rfl)
  dsimp only
  rcases findSome_walk (DirEntry.hasRoom (extAlign4 (8 + name.length))) (fun b r => (b, r.1))
    most tiled.tiled with
      ⟨none, -⟩ | ⟨b, mem, pre, e, post, mid, prev, whole, before, after, found, -, some⟩
  · rw [none]
    dsimp only
    cases free : (List.range 12).find? fun bi => decide (inodePtr dir bi = 0) with
    | none => exact .inl rfl
    | some bi =>
        obtain ⟨zero, mem, -⟩ := List.find?_range_eq_some.1 free
        dsimp only
        cases alloc : extAllocBlock fs d with
        | none => exact .inl rfl
        | some r =>
            obtain ⟨x, d₁⟩ := r
            obtain ⟨d₃, dir₃, write, changed⟩ := addBlock_ok fileType ok has onDisk
              tiled (List.mem_range.1 mem) (by simpa using zero) some' (by omega) used lt alloc
            refine .inr ⟨d₃, growDir fs (wr32 dir (inBlock + 4 * bi) x), dir₃, ?_, changed⟩
            simp only [orFail, bind, Except.bind, write]
  · right
    rw [some]
    obtain ⟨es', l₁, l₂, tiled', old, new⟩ := placeEntry_tiled fileType before after
      most found some' (by omega) used lt
    obtain ⟨k₁, k₂, oldDir, newDir⟩ := dirLinks_write
      (placeEntry (extAlign4 (8 + name.length)) child fileType name (d b) mid) tiled mem
    refine ⟨_, dir, dir, rfl, dirChanged_write ok has onDisk tiled mem ⟨es', tiled'⟩, ?_,
      fun _ _ => rfl⟩
    rw [oldDir, newDir, blockLinks_eq tiled', blockLinks_eq whole]
    exact Inserted.around ⟨l₁, l₂, old, new⟩ k₁ k₂

end Add

end NTux.Ext
