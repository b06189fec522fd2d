import NTux.Ext.Directory

/-!
# The records of a block

`Tiled size buf off es` says that the records `es` tile the block from `off` to `size`,
each name fitting its record.  A walk finds the first of them that passes its test
(`dirWalk_cases`).  Storing an entry in a record with room and taking one out keep the
tiling, and change the entries in use by that one (`placeEntry_tiled`, `dropEntry_tiled`).
-/

namespace NTux.Ext

open NTux.Lib NTux.Lib.Bytes

variable {size off : Nat} {buf buf' : Bytes} {es pre post : List DirEntry} {e : DirEntry}

/-- The records tile the block from `off` on. -/
def Tiled (size : Nat) (buf : Bytes) : Nat → List DirEntry → Prop
  | off, [] => off = size
  | off, e :: es =>
      e = dirEntryAt buf off ∧ 8 ≤ e.recLen ∧ (e.inode ≠ 0 → 8 + e.nameLen ≤ e.recLen) ∧
        Tiled size buf (off + e.recLen) es

theorem tiled_cons : Tiled size buf off (e :: es) ↔
    e = dirEntryAt buf off ∧ 8 ≤ e.recLen ∧ (e.inode ≠ 0 → 8 + e.nameLen ≤ e.recLen) ∧
      Tiled size buf (off + e.recLen) es := Iff.rfl

namespace Tiled

theorem le (tiled : Tiled size buf off es) : off + 8 * es.length ≤ size := by
  induction es generalizing off with
  | nil => exact Nat.le_of_eq tiled
  | cons e es ih =>
      have rest := ih tiled.2.2.2
      have large := tiled.2.1
      rw [List.length_cons]
      omega

theorem append_iff : Tiled size buf off (pre ++ post) ↔
    ∃ mid, Tiled mid buf off pre ∧ Tiled size buf mid post := by
  induction pre generalizing off with
  | nil => exact ⟨fun tiled => ⟨off, rfl, tiled⟩, fun ⟨_, eq, tiled⟩ => eq ▸ tiled⟩
  | cons e pre ih =>
      rw [List.cons_append, tiled_cons, ih]
      simp only [tiled_cons]
      constructor
      · rintro ⟨at', large, fits, mid, left, right⟩
        exact ⟨mid, ⟨at', large, fits, left⟩, right⟩
      · rintro ⟨mid, ⟨at', large, fits, left⟩, right⟩
        exact ⟨at', large, fits, mid, left, right⟩

end Tiled

/-- A record is read from its bytes. -/
theorem dirEntryAt_congr {len : Nat} (same : ∀ i, off ≤ i → i < off + len → buf' i = buf i)
    (large : 8 ≤ len)
    (fits : (dirEntryAt buf off).inode ≠ 0 → 8 + (dirEntryAt buf off).nameLen ≤ len) :
    dirEntryAt buf' off = dirEntryAt buf off := by
  have inode : rd32 buf' off = rd32 buf off :=
    rd32_congr fun i lt => same _ (by omega) (by omega)
  have recLen : rd16 buf' (off + 4) = rd16 buf (off + 4) :=
    rd16_congr fun i lt => same _ (by omega) (by omega)
  have nameLen : buf' (off + 6) = buf (off + 6) := same _ (by omega) (by omega)
  have fileType : buf' (off + 7) = buf (off + 7) := same _ (by omega) (by omega)
  unfold dirEntryAt at fits ⊢
  dsimp only at fits
  rw [inode, recLen, nameLen, fileType]
  congr 1
  split
  · rfl
  next used =>
    have := fits used
    exact slice_congr fun i lt => same _ (by omega) (by omega)

theorem Tiled.congr (tiled : Tiled size buf off es)
    (same : ∀ i, off ≤ i → i < size → buf' i = buf i) : Tiled size buf' off es := by
  induction es generalizing off with
  | nil => exact tiled
  | cons e es ih =>
      obtain ⟨rfl, large, fits, rest⟩ := tiled
      have le := rest.le
      have entry : dirEntryAt buf' off = dirEntryAt buf off :=
        dirEntryAt_congr (fun i ge lt => same i ge (by omega)) large fits
      refine ⟨entry.symm, large, fits, ih rest fun i ge lt => same i (by omega) lt⟩

/-- The record before, where there is one. -/
def PrevAt (buf : Bytes) (off : Nat) (start : Option Nat) (pre : List DirEntry) (prev : Option Nat) :
    Prop :=
  (pre = [] ∧ prev = start) ∨
    ∃ front q p, pre = front ++ [q] ∧ Tiled p buf off front ∧ prev = some p

/-- **A walk finds the first record that passes the test.** -/
theorem dirWalk_cases {next : Nat → Nat} (test : DirEntry → Bool)
    (exact' : ∀ o, o ≤ size → next o = o) (tiled : Tiled size buf off es) {fuel : Nat}
    (enough : es.length ≤ fuel) (start : Option Nat) :
    (dirWalk size next test buf fuel off start = none ∧ ∀ e ∈ es, test e = false) ∨
      ∃ pre e post mid prev, es = pre ++ e :: post ∧ (∀ x ∈ pre, test x = false) ∧ test e = true ∧
        Tiled mid buf off pre ∧ e = dirEntryAt buf mid ∧ PrevAt buf off start pre prev ∧
        dirWalk size next test buf fuel off start = some (mid, prev) := by
  induction es generalizing off fuel start with
  | nil =>
      refine .inl ⟨?_, by simp⟩
      cases fuel with
      | zero => rfl
      | succ fuel =>
          rw [dirWalk, if_pos (.inl (by rw [show off = size from tiled]; omega))]
  | cons e es ih =>
      obtain ⟨rfl, large, fits, rest⟩ := tiled
      have le := rest.le
      obtain ⟨fuel, rfl⟩ : ∃ k, fuel = k + 1 := ⟨fuel - 1, by rw [List.length_cons] at enough; omega⟩
      unfold dirWalk
      dsimp only
      rw [if_neg (by omega)]
      by_cases passed : test (dirEntryAt buf off) = true
      · rw [if_pos passed]
        exact .inr ⟨[], _, es, off, start, rfl, by simp, passed, rfl, rfl, .inl ⟨rfl, rfl⟩, rfl⟩
      · rw [if_neg passed, exact' _ (by omega)]
        rcases ih rest (show es.length ≤ fuel by rw [List.length_cons] at enough; omega) (some off) with
          ⟨none, all⟩ | ⟨pre, e, post, mid, prev, rfl, first, found, before, entry, at', some⟩
        · exact .inl ⟨none, List.forall_mem_cons.2 ⟨by simpa using passed, all⟩⟩
        · refine .inr ⟨dirEntryAt buf off :: pre, e, post, mid, prev, rfl,
            List.forall_mem_cons.2 ⟨by simpa using passed, first⟩, found,
            ⟨rfl, large, fits, before⟩, entry, ?_, some⟩
          rcases at' with ⟨rfl, rfl⟩ | ⟨front, q, p, rfl, tiled, rfl⟩
          · exact .inr ⟨[], _, off, rfl, rfl, rfl⟩
          · exact .inr ⟨_ :: front, q, p, rfl, ⟨rfl, large, fits, tiled⟩, rfl⟩

/-! ## Storing an entry -/

section Place

variable {child : Nat} {fileType : UInt8} {name : List UInt8}

theorem putEntry_of_apart {i : Nat} (apart : i < off ∨ off + 8 + name.length ≤ i) :
    putEntry buf off child fileType name i = buf i := by
  unfold putEntry
  rw [splice_of_apart (by omega), Function.update_of_ne (by omega),
    Function.update_of_ne (by omega), wr32_of_apart (by omega)]

/-- The length of the record is kept. -/
theorem putEntry_recLen : rd16 (putEntry buf off child fileType name) (off + 4) =
    rd16 buf (off + 4) := by
  refine rd16_congr fun i lt => ?_
  unfold putEntry
  rw [splice_of_apart (by omega), Function.update_of_ne (by omega),
    Function.update_of_ne (by omega), wr32_of_apart (by omega)]

/-- The record that is read after an entry has been stored. -/
theorem dirEntryAt_putEntry (used : child ≠ 0) (lt : child < 2 ^ 32) (short : name.length ≤ 255) :
    dirEntryAt (putEntry buf off child fileType name) off =
      ⟨child, rd16 buf (off + 4), name.length, fileType, name⟩ := by
  have inode : rd32 (putEntry buf off child fileType name) off = child := by
    unfold putEntry
    rw [rd32_splice_of_apart (by omega)]
    refine (rd32_congr (q := wr32 buf off child) fun i lt => ?_).trans (rd32_wr32 lt)
    rw [Function.update_of_ne (by omega), Function.update_of_ne (by omega)]
  have nameLen : (putEntry buf off child fileType name (off + 6)).toNat = name.length := by
    unfold putEntry
    rw [splice_of_apart (by omega), Function.update_of_ne (by omega), Function.update_self,
      toNat_ofNat_byte, Nat.mod_eq_of_lt (by omega)]
  have type : putEntry buf off child fileType name (off + 7) = fileType := by
    unfold putEntry
    rw [splice_of_apart (by omega), Function.update_self]
  have bytes : slice (putEntry buf off child fileType name) (off + 8) name.length = name := by
    refine slice_eq_list fun i lt => ?_
    unfold putEntry
    rw [splice_of_mem lt]
  unfold dirEntryAt
  rw [inode, putEntry_recLen, nameLen, type, if_neg used, bytes]

end Place

/-! ## The entries in use -/

/-- What a record in use is found by, and what is found. -/
def DirEntry.link (e : DirEntry) : List UInt8 × Nat × UInt8 := (e.name, e.inode, e.fileType)

/-- The entries in use. -/
def links (es : List DirEntry) : List (List UInt8 × Nat × UInt8) :=
  (es.filter DirEntry.live).map DirEntry.link

theorem links_append : links (pre ++ post) = links pre ++ links post := by
  simp [links]

theorem links_cons_of_live (live : e.live = true) : links (e :: es) = e.link :: links es := by
  rw [links, List.filter_cons_of_pos live]
  rfl

theorem links_cons_of_dead (dead : e.live = false) : links (e :: es) = links es := by
  rw [links, List.filter_cons_of_neg (by simp [dead])]
  rfl

/-- The length of a record has been stored. -/
theorem dirEntryAt_wr16 {v : Nat} (lt : v < 65536) :
    dirEntryAt (wr16 buf (off + 4) v) off = { dirEntryAt buf off with recLen := v } := by
  have inode : rd32 (wr16 buf (off + 4) v) off = rd32 buf off :=
    rd32_wr16_of_apart (by omega)
  have bytes : ∀ i, 6 ≤ i → wr16 buf (off + 4) v (off + i) = buf (off + i) := fun i le =>
    wr16_of_apart (by omega)
  have name : ∀ n, slice (wr16 buf (off + 4) v) (off + 8) n = slice buf (off + 8) n := fun n =>
    slice_congr fun i _ => wr16_of_apart (by omega)
  unfold dirEntryAt
  rw [inode, rd16_wr16 lt, bytes 6 (by decide), bytes 7 (by decide), name]

theorem links_recLen {v : Nat} : links ({ e with recLen := v } :: es) = links (e :: es) := by
  unfold links
  rw [List.filter_cons, List.filter_cons]
  show List.map _ (if e.live then _ else _) = _
  split <;> rfl

/-- The tiling ends where the records end. -/
theorem Tiled.end_unique {size' : Nat} (tiled : Tiled size buf off es)
    (tiled' : Tiled size' buf off es) : size' = size := by
  induction es generalizing off with
  | nil => exact tiled'.symm.trans tiled
  | cons e es ih => exact ih tiled.2.2.2 tiled'.2.2.2

theorem extAlign4_ge (v : Nat) : v ≤ extAlign4 v := by
  unfold extAlign4
  omega

theorem live_of_used {inode recLen nameLen : Nat} {fileType : UInt8} {name : List UInt8}
    (used : inode ≠ 0) (pos : 0 < nameLen) :
    (DirEntry.mk inode recLen nameLen fileType name).live = true := by
  simp [DirEntry.live, used, pos]

section Change

variable {mid child : Nat} {name : List UInt8}

/-- **Storing an entry where there is room keeps the tiling and adds the entry.** -/
theorem placeEntry_tiled (fileType : UInt8) (before : Tiled mid buf off pre)
    (tiled : Tiled size buf mid (e :: post)) (most : size < 65536)
    (room : e.hasRoom (extAlign4 (8 + name.length)) = true)
    (some : name ≠ []) (short : name.length ≤ 255) (used : child ≠ 0) (lt : child < 2 ^ 32) :
    ∃ es' l₁ l₂, Tiled size (placeEntry (extAlign4 (8 + name.length)) child fileType name buf mid)
        off es' ∧
      links (pre ++ e :: post) = l₁ ++ l₂ ∧ links es' = l₁ ++ (name, child, fileType) :: l₂ := by
  obtain ⟨rfl, large, fits, after⟩ := tiled
  have need := extAlign4_ge (8 + name.length)
  have inside := after.le
  have start := before.le
  have pos := List.length_pos_iff.2 some
  unfold placeEntry
  dsimp only
  by_cases dead : (dirEntryAt buf mid).unused (extAlign4 (8 + name.length)) = true
  · rw [if_pos dead]
    simp only [DirEntry.unused, decide_eq_true_eq] at dead
    refine ⟨pre ++ ⟨child, (dirEntryAt buf mid).recLen, name.length, fileType, name⟩ :: post,
      links pre, links post, Tiled.append_iff.2 ⟨mid, ?_, ?_⟩, ?_, ?_⟩
    · exact before.congr fun i _ less => putEntry_of_apart (.inl less)
    · refine tiled_cons.2 ⟨(dirEntryAt_putEntry used lt short).symm, large, fun _ => ?_, ?_⟩
      · show 8 + name.length ≤ (dirEntryAt buf mid).recLen
        omega
      · exact after.congr fun i ge _ => putEntry_of_apart (.inr (by omega))
    · rw [links_append, links_cons_of_dead (by simp [DirEntry.live, dead.1])]
    · rw [links_append, links_cons_of_live (live_of_used used pos)]
      rfl
  · rw [if_neg dead]
    have split : (dirEntryAt buf mid).used + extAlign4 (8 + name.length) ≤
        (dirEntryAt buf mid).recLen := by
      simpa [DirEntry.hasRoom, dead] using room
    generalize eqE : dirEntryAt buf mid = e at *
    have own : 8 + e.nameLen ≤ e.used := extAlign4_ge _
    have apart : ∀ i, i < mid + 4 ∨ mid + 6 ≤ i → i < mid + e.used ∨ mid + e.recLen ≤ i →
        putEntry (wr16 (wr16 buf (mid + 4) e.used) (mid + e.used + 4) (e.recLen - e.used))
          (mid + e.used) child fileType name i = buf i := fun i first second => by
      rw [putEntry_of_apart (by omega), wr16_of_apart (by omega), wr16_of_apart (by omega)]
    refine ⟨pre ++ { e with recLen := e.used } ::
        ⟨child, e.recLen - e.used, name.length, fileType, name⟩ :: post,
      links pre ++ links [e], links post, Tiled.append_iff.2 ⟨mid, ?_, ?_⟩, ?_, ?_⟩
    · exact before.congr fun i _ less => apart i (by omega) (by omega)
    · refine tiled_cons.2 ⟨?_, by show 8 ≤ e.used; omega, fun _ => own, ?_⟩
      · -- the record is read as before, but for its length
        have short' : dirEntryAt (wr16 buf (mid + 4) e.used) mid =
            { dirEntryAt buf mid with recLen := e.used } := dirEntryAt_wr16 (by omega)
        rw [eqE] at short'
        rw [← short']
        refine (dirEntryAt_congr (fun i ge (less : i < mid + e.used) => ?_) (by omega) fun _ => ?_).symm
        · rw [putEntry_of_apart (by omega), wr16_of_apart (by omega)]
        · rw [short']
          exact own
      · refine tiled_cons.2 ⟨?_, by show 8 ≤ e.recLen - e.used; omega, fun _ => ?_, ?_⟩
        · rw [dirEntryAt_putEntry used lt short, rd16_wr16 (by omega)]
        · show 8 + name.length ≤ e.recLen - e.used
          omega
        · show Tiled size _ (mid + e.used + (e.recLen - e.used)) post
          rw [show mid + e.used + (e.recLen - e.used) = mid + e.recLen by omega]
          exact after.congr fun i ge _ => apart i (by omega) (by omega)
    · show links (pre ++ ([e] ++ post)) = _
      rw [links_append, links_append, List.append_assoc]
    · show links (pre ++ ({ e with recLen := e.used } :: ([_] ++ post))) = _
      rw [links_append, links_recLen, List.append_assoc]
      show links pre ++ links ([e] ++ (_ :: post)) = _
      rw [links_append, links_cons_of_live (live_of_used used pos)]
      rfl

/-- **Taking an entry out keeps the tiling and removes the entry.** -/
theorem dropEntry_tiled {prev : Option Nat} (before : Tiled mid buf off pre)
    (tiled : Tiled size buf mid (e :: post)) (most : size < 65536)
    (at' : PrevAt buf off none pre prev) :
    ∃ es', Tiled size (dropEntry buf mid prev) off es' ∧ links es' = links pre ++ links post := by
  obtain ⟨rfl, large, fits, after⟩ := tiled
  have inside := after.le
  rcases at' with ⟨rfl, rfl⟩ | ⟨front, q, p, rfl, first, rfl⟩
  · obtain rfl : off = mid := before
    have zero : rd32 (wr32 buf off 0) off = 0 := rd32_wr32 (by decide)
    have recLen : rd16 (wr32 buf off 0) (off + 4) = rd16 buf (off + 4) :=
      rd16_wr32_of_apart (by omega)
    refine ⟨dirEntryAt (wr32 buf off 0) off :: post, tiled_cons.2 ⟨rfl, ?_, ?_, ?_⟩, ?_⟩
    · show 8 ≤ rd16 (wr32 buf off 0) (off + 4)
      rw [recLen]
      exact large
    · exact fun live => absurd zero live
    · show Tiled size _ (off + rd16 (wr32 buf off 0) (off + 4)) post
      rw [recLen]
      exact after.congr fun i ge _ => wr32_of_apart (by omega)
    · rw [links_cons_of_dead (by simp [DirEntry.live, dirEntryAt, zero])]
      rfl
  · obtain ⟨p', first', rfl, largeQ, fitsQ, end'⟩ := Tiled.append_iff.1 before
    obtain rfl := first.end_unique first'
    obtain rfl : p' + (dirEntryAt buf p').recLen = mid := end'
    have start := first'.le
    refine ⟨front ++ { dirEntryAt buf p' with
        recLen := (dirEntryAt buf p').recLen + (dirEntryAt buf (p' + (dirEntryAt buf p').recLen)).recLen
      } :: post, Tiled.append_iff.2 ⟨p', ?_, ?_⟩, ?_⟩
    · exact first'.congr fun i _ less => wr16_of_apart (by omega)
    · refine tiled_cons.2 ⟨(dirEntryAt_wr16 (by omega)).symm, Nat.le_add_right_of_le largeQ,
        fun live => Nat.le_add_right_of_le (fitsQ live), ?_⟩
      rw [← Nat.add_assoc]
      exact after.congr fun i ge _ => wr16_of_apart (by omega)
    · rw [links_append, links_recLen, ← List.singleton_append, links_append, links_append,
        List.append_assoc]

/-- A new block has one entry. -/
theorem newDirBlock_tiled (fileType : UInt8) (fits : 8 + name.length ≤ size) (most : size < 65536)
    (short : name.length ≤ 255) (used : child ≠ 0) (lt : child < 2 ^ 32) :
    Tiled size (newDirBlock size child fileType name) 0
      [⟨child, size, name.length, fileType, name⟩] := by
  refine tiled_cons.2 ⟨?_, by show 8 ≤ size; omega, fun _ => fits, Nat.zero_add _⟩
  unfold newDirBlock
  rw [dirEntryAt_putEntry used lt short]
  show _ = DirEntry.mk child (rd16 (wr16 _ 4 size) 4) _ _ _
  rw [rd16_wr16 most]

end Change

end NTux.Ext
