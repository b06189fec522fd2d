import NTux.Fat.FileBytes

/-!
# Walks along corrupted chains

A chain that comes back to a cluster either links a cluster to itself, which every walk
reports, or goes round a cycle of two or more clusters.  The clusters of such a cycle are read
again until the guard has run out, and since `guard-- > 0` then leaves `UINT32_MAX` in it the
test for 0 behind the loop does not see it: the walk ends as at the end of a sound chain.
-/

namespace NTux.Fat.Disk

open NTux.Fs NTux.Lib NTux.Lib.Bytes NTux.Lib.ChainWalk

/-- The walk over the directory follows a chain, not the fixed root directory. -/
def FollowsChain (fs : FatFs) (dirCluster : Nat) : Prop := ¬ (fs.type ≠ .fat32 ∧ dirCluster = 0)

section Chains

variable {σ ρ : Type}

/-- A walk reaches a cluster that is linked to itself. -/
def MeetsSelfLink (fs : FatFs) (v : FatVolume) (w : Walker σ ρ) (c : Nat) (s : σ) : Prop :=
  ∃ cs l s₁ s₂, Run w c s cs l s₁ ∧ w.ends l = false ∧ w.visit l s₁ = .next s₂ ∧
    fatReadFatEntry fs v l = some l ∧ fatIsEoc fs l = false

/-- The chain comes back to a cluster before the walk has found its answer. -/
def Revisits (fs : FatFs) (v : FatVolume) (w : Walker σ ρ) (c : Nat) (s : σ) : Prop :=
  ComesBack w c s ∨ MeetsSelfLink fs v w c s

variable {fs : FatFs} {v : FatVolume}

/-! ## The guard -/

/-- What a mount leaves of the numbers of clusters. -/
theorem fatFsMount_clusters {v₀ : FatVolume} (mounted : fatFsMount v₀ = .ok fs) :
    fs.clusterCount < 2147483648 ∧ 0 < fs.sectorsPerCluster := by
  have count : ∀ fs : FatFs, fatFatEntryCount fs < 2147483648 := by
    intro fs
    unfold fatFatEntryCount u32
    cases fs.type <;> dsimp only <;> omega
  obtain ⟨geometry, -, -, perCluster, -⟩ := fatFsMount_checks mounted
  refine ⟨?_, Nat.pos_of_ne_zero perCluster⟩
  rw [geometry]
  refine Nat.lt_of_le_of_lt (Nat.min_le_right _ _) ?_
  exact Nat.lt_of_le_of_lt (Nat.sub_le _ _) (count _)

theorem guardOf_eq (few : fs.clusterCount < 2147483648) : guardOf fs = fs.clusterCount + 2 := by
  unfold guardOf u32
  omega

theorem fatLink_of_self {l : Nat} (self : fatReadFatEntry fs v l = some l)
    (notEnd : fatIsEoc fs l = false) : fatLink fs v l = .broken := by
  unfold fatLink
  rw [self]
  simp [notEnd]

/-- A walk that meets a link of a cluster to itself before any other return fails there. -/
theorem walk_of_selfLink {w : Walker σ ρ} {c : Nat} {s : σ} (few : fs.clusterCount < 2147483648)
    (inside : ∀ x s₁ s₂, w.ends x = false → w.visit x s₁ = .next s₂ →
      2 ≤ x ∧ x ≤ fs.clusterCount + 1)
    (links : w.link = fatLink fs v) (meets : MeetsSelfLink fs v w c s)
    (never : ¬ ComesBack w c s) : ∃ s', walk w (guardOf fs) c s = .done (w.fail s') := by
  obtain ⟨cs, l, s₁, s₂, run, goes, visited, self, notEnd⟩ := meets
  have le : cs.length ≤ (List.range' 2 fs.clusterCount).length :=
    run.length_le never fun x s₁ s₂ goes visited => by
      have place := inside x s₁ s₂ goes visited
      exact List.mem_range'_1.2 ⟨place.1, by omega⟩
  rw [List.length_range'] at le
  have split : guardOf fs = cs.length + (fs.clusterCount + 1 - cs.length + 1) := by
    rw [guardOf_eq few]
    omega
  refine ⟨s₂, ?_⟩
  rw [split, run.walk_eq, walk, goes, visited, links, fatLink_of_self self notEnd]
  rfl

/-! ## The sectors of a cluster -/

section Sectors

variable {failed : σ → ρ} {f : Nat → Bytes → σ → Visit σ ρ} {sectors : List Nat} {s s' : σ}

/-- A visit that goes on has read every sector. -/
theorem visitSectors_responds (next : visitSectors v failed f sectors s = .next s') :
    ∀ sector ∈ sectors, v.responds sector = true := by
  induction sectors generalizing s with
  | nil => exact fun sector mem => absurd mem List.not_mem_nil
  | cons sector rest ih =>
      unfold visitSectors at next
      cases read : fatReadSector v sector with
      | none => simp [read] at next
      | some buf =>
          simp only [read] at next
          cases visit : f sector buf s with
          | done r => simp [visit] at next
          | next s₁ =>
              simp only [visit] at next
              exact List.forall_mem_cons.2 ⟨(fatReadSector_eq_some read).1, ih next⟩

/-- What ends a visit of sectors that are read is the visit of one of them. -/
theorem visitSectors_done {r : ρ} (answers : ∀ sector ∈ sectors, v.responds sector = true)
    (done : visitSectors v failed f sectors s = .done r) :
    ∃ sector ∈ sectors, ∃ s', f sector (v.sectors sector) s' = .done r := by
  induction sectors generalizing s with
  | nil => cases done
  | cons sector rest ih =>
      obtain ⟨here, later⟩ := List.forall_mem_cons.1 answers
      unfold visitSectors at done
      rw [fatReadSector, if_pos here] at done
      dsimp only at done
      cases visit : f sector (v.sectors sector) s with
      | done r' =>
          simp only [visit] at done
          obtain rfl := Visit.done.inj done
          exact ⟨sector, List.mem_cons_self, s, visit⟩
      | next s₁ =>
          simp only [visit] at done
          obtain ⟨sec, mem, s', found⟩ := ih later done
          exact ⟨sec, List.mem_cons_of_mem _ mem, s', found⟩

end Sectors

section Clusters

variable {outside unread broken : σ → ρ} {f : Nat → Bytes → σ → Visit σ ρ} {c : Nat} {s s' : σ}

/-- A cluster whose visit goes on is one of the volume, and its sectors are read. -/
theorem clusterWalker_next
    (goes : (clusterWalker fs v outside unread broken f).ends c = false)
    (visited : (clusterWalker fs v outside unread broken f).visit c s = .next s') :
    (2 ≤ c ∧ c ≤ fs.clusterCount + 1) ∧
      ∀ sector ∈ clusterSectors fs c, v.responds sector = true := by
  have low : 2 ≤ c := clusterWalker_ends.1 goes
  have next : (if fs.clusterCount + 1 < c then Visit.done (outside s)
    else visitSectors v unread f (clusterSectors fs c) s) = .next s' := visited
  split at next
  · cases next
  next within => exact ⟨⟨low, Nat.le_of_not_lt within⟩, visitSectors_responds next⟩

/-- What ends a visit of such a cluster is the visit of a sector. -/
theorem clusterWalker_done {r : ρ} (within : c ≤ fs.clusterCount + 1)
    (answers : ∀ sector ∈ clusterSectors fs c, v.responds sector = true)
    (done : (clusterWalker fs v outside unread broken f).visit c s = .done r) :
    ∃ sector s', f sector (v.sectors sector) s' = .done r := by
  have visit : (if fs.clusterCount + 1 < c then Visit.done (outside s)
    else visitSectors v unread f (clusterSectors fs c) s) = .done r := done
  rw [if_neg (Nat.not_lt.2 within)] at visit
  obtain ⟨sector, -, s', found⟩ := visitSectors_done answers visit
  exact ⟨sector, s', found⟩

end Clusters

end Chains

/-! ## Directories -/

section Directories

variable {σ : Type} {fs : FatFs} {v : FatVolume} {atEnd : Int} {visit : Visitor σ}

/-- The code of a walk over slots is the one at the end, or one of the visitor. -/
theorem visitSlots_done {sector off : Nat} {slots : List Slot} {s : LfnAccum × σ} {r : Int × σ}
    (done : visitSlots atEnd visit sector off slots s = .done r) :
    r.1 = atEnd ∨ ∃ place e name u, (visit place e name u).2 = some r.1 := by
  induction slots generalizing off s with
  | nil => cases done
  | cons slot rest ih =>
      obtain ⟨a, u⟩ := s
      cases slot with
      | unused =>
          obtain rfl := Visit.done.inj done
          exact .inl rfl
      | deleted => exact ih done
      | lfn e => exact ih done
      | entry e =>
          unfold visitSlots at done
          split at done
          · exact ih done
          · split at done
            next u' rc answer =>
              obtain rfl := Visit.done.inj done
              exact .inr ⟨_, _, _, _, congrArg Prod.snd answer⟩
            · exact ih done

/-- A walk round a cycle of clusters never fails, but ends as at the end of the directory or
with a code of the visitor. -/
theorem walkDir_of_comesBack {dir : Nat} {u : σ} (follows : FollowsChain fs dir)
    (back : ComesBack (dirWalker fs v atEnd visit) (dirStart fs dir) (lfnReset, u)) :
    (walkDir fs v dir atEnd visit u).1 = atEnd ∨
      ∃ place e name u', (visit place e name u').2 = some (walkDir fs v dir atEnd visit u).1 := by
  have good : ∀ x s₁ s₂ s₃ r, (dirWalker fs v atEnd visit).ends x = false →
      (dirWalker fs v atEnd visit).visit x s₁ = .next s₂ →
      (dirWalker fs v atEnd visit).visit x s₃ = .done r →
      r.1 = atEnd ∨ ∃ place e name u, (visit place e name u).2 = some r.1 := by
    intro x s₁ s₂ s₃ r goes visited done
    obtain ⟨within, answers⟩ := clusterWalker_next goes visited
    obtain ⟨sector, s', found⟩ := clusterWalker_done within.2 answers done
    exact visitSlots_done found
  unfold walkDir
  rw [if_neg follows]
  rcases walk_of_comesBack back good (guardOf fs) with ⟨r, eq, ends⟩ | ⟨s', c', eq, -⟩
  · rw [eq]
    exact ends
  · -- the guard is not 0 but `UINT32_MAX`
    rw [eq]
    refine .inl ?_
    dsimp only
    rw [if_neg fun both => absurd both.2 (by decide)]

/-- Without such a cycle a walk that comes back fails. -/
theorem walkDir_of_selfLink {dir : Nat} {u : σ} (few : fs.clusterCount < 2147483648)
    (follows : FollowsChain fs dir)
    (meets : MeetsSelfLink fs v (dirWalker fs v atEnd visit) (dirStart fs dir) (lfnReset, u))
    (never : ¬ ComesBack (dirWalker fs v atEnd visit) (dirStart fs dir) (lfnReset, u)) :
    (walkDir fs v dir atEnd visit u).1 = -1 := by
  obtain ⟨s', eq⟩ := walk_of_selfLink (w := dirWalker fs v atEnd visit) few
    (fun x s₁ s₂ goes visited => (clusterWalker_next goes visited).1) rfl meets never
  unfold walkDir
  rw [if_neg follows, eq]
  rfl

end Directories

/-! ## Free slots -/

section FreeSlots

variable {fs : FatFs} {st : FatState} {count dir : Nat}

/-- What is found in a sector does not depend on the cluster before it. -/
theorem visitSectors_slotSector {v : FatVolume} {sectors : List Nat} {last l : Nat}
    {s : Nat} (next : visitSectors v (fun _ => none) (slotSector count) sectors last = .next s) :
    ∃ s', visitSectors v (fun _ => none) (slotSector count) sectors l = .next s' := by
  induction sectors generalizing last l with
  | nil => exact ⟨l, rfl⟩
  | cons sector rest ih =>
      unfold visitSectors at next ⊢
      cases read : fatReadSector v sector with
      | none => simp [read] at next
      | some buf =>
          simp only [read, slotSector] at next ⊢
          cases run : freeRun count 0 0 (sectorSlots buf) with
          | some i => simp [run] at next
          | none =>
              simp only [run] at next ⊢
              exact ih next

theorem slotWalker_next {v : FatVolume} {c s s' : Nat} (goes : (slotWalker fs v count).ends c = false)
    (visited : (slotWalker fs v count).visit c s = .next s') :
    (2 ≤ c ∧ c ≤ fs.clusterCount + 1) ∧
      ∃ s₁, visitSectors v (fun _ => none) (slotSector count) (clusterSectors fs c) s = .next s₁ := by
  have low : 2 ≤ c := Nat.not_lt.1 (of_decide_eq_false goes)
  unfold slotWalker at visited
  dsimp only at visited
  split at visited
  · cases visited
  next within =>
    split at visited
    · cases visited
    next s₁ eq => exact ⟨⟨low, Nat.le_of_not_lt within⟩, s₁, eq⟩

/-- Round a cycle without free slots the search runs out of guard, and appends a cluster. -/
theorem freeSlots_of_comesBack (asked : ¬ (count = 0 ∨ slotsPerSector < count))
    (follows : FollowsChain fs dir)
    (back : ComesBack (slotWalker fs st.vol count) (dirStart fs dir) (dirStart fs dir)) :
    ∃ last, fatDirFindFreeSlots fs st dir count = appendCluster fs st last := by
  have good : ∀ x s₁ s₂ s₃ r, (slotWalker fs st.vol count).ends x = false →
      (slotWalker fs st.vol count).visit x s₁ = .next s₂ →
      (slotWalker fs st.vol count).visit x s₃ = .done r → False := by
    intro x s₁ s₂ s₃ r goes visited done
    obtain ⟨within, s₄, eq⟩ := slotWalker_next goes visited
    obtain ⟨s₅, eq'⟩ := visitSectors_slotSector (l := s₃) eq
    unfold slotWalker at done
    dsimp only at done
    rw [if_neg (Nat.not_lt.2 within.2), eq'] at done
    cases done
  unfold fatDirFindFreeSlots
  rw [if_neg asked, if_neg follows]
  rcases walk_of_comesBack (P := fun _ => False) back good (guardOf fs) with
    ⟨r, -, none⟩ | ⟨last, c', eq, -⟩
  · exact absurd none id
  · refine ⟨last, ?_⟩
    rw [eq]
    dsimp only
    rw [if_neg fun both => absurd both.2 (by decide)]

theorem freeSlots_of_selfLink (few : fs.clusterCount < 2147483648)
    (asked : ¬ (count = 0 ∨ slotsPerSector < count)) (follows : FollowsChain fs dir)
    (meets : MeetsSelfLink fs st.vol (slotWalker fs st.vol count) (dirStart fs dir) (dirStart fs dir))
    (never : ¬ ComesBack (slotWalker fs st.vol count) (dirStart fs dir) (dirStart fs dir)) :
    fatDirFindFreeSlots fs st dir count = none := by
  obtain ⟨s', eq⟩ := walk_of_selfLink few
    (fun x s₁ s₂ goes visited => (slotWalker_next goes visited).1) rfl meets never
  unfold fatDirFindFreeSlots
  rw [if_neg asked, if_neg follows, eq]
  rfl

end FreeSlots

/-! ## Files -/

section Files

variable {fs : FatFs} {v : FatVolume} {entry : FatDirEntry} {outCap : Nat}

theorem fileWalker_next {c : Nat} {r r' : FileReading} (goes : (fileWalker fs v).ends c = false)
    (visited : (fileWalker fs v).visit c r = .next r') : Readable fs v c :=
  clusterWalker_next goes visited

/-- Round a cycle a file is read as far as the guard goes. -/
theorem walk_fileCycle {cs : List Nat}
    (closed : ∀ x, x ∈ cs → (fileWalker fs v).ends x = false ∧
      ∃ y, (fileWalker fs v).link x = .to y ∧ y ∈ cs)
    (readable : ∀ x ∈ cs, Readable fs v x) (g : Nat) {c : Nat} (mem : c ∈ cs) {r : FileReading}
    (some_ : 0 < r.remaining) :
    (r.remaining ≤ g * perCluster fs →
        ∃ out, walk (fileWalker fs v) g c r = .done (0, out)) ∧
      (g * perCluster fs < r.remaining →
        ∃ r' c', walk (fileWalker fs v) g c r = .left r' c' none) := by
  induction g generalizing c r with
  | zero =>
      refine ⟨fun le => by omega, fun _ => ⟨r, c, ?_⟩⟩
      rw [walk, (closed c mem).1]
      rfl
  | succ g ih =>
      obtain ⟨goes, y, link, memY⟩ := closed c mem
      rw [walk, goes, link, fileWalker_visit (readable c mem) some_, Nat.succ_mul]
      simp only [Bool.false_eq_true, if_false]
      rcases Nat.lt_or_ge (perCluster fs) r.remaining with more | last
      · rw [if_neg (Nat.not_le.2 more)]
        obtain ⟨done, left⟩ := ih memY
          (r := ⟨r.remaining - perCluster fs, r.out ++ clusterBytes fs v c⟩) (by dsimp only; omega)
        dsimp only at done left ⊢
        exact ⟨fun le => done (by omega), fun lt => left (by omega)⟩
      · rw [if_pos last]
        exact ⟨fun _ => ⟨_, rfl⟩, fun lt => by omega⟩

/-- A file whose chain goes round a cycle is read successfully exactly if the guard is enough
for its bytes. -/
theorem readFile_of_comesBack (few : fs.clusterCount < 2147483648) (some_ : 0 < entry.size.toNat)
    (back : ComesBack (fileWalker fs v) entry.cluster.toNat ⟨entry.size.toNat, []⟩) :
    (fatReadFileData fs v entry outCap).1 = 0 ↔ entry.size.toNat ≤ outCap ∧
      entry.size.toNat ≤ (fs.clusterCount + 2) * perCluster fs := by
  obtain ⟨cs, c', s', run, mem⟩ := back
  have cycle := walk_fileCycle (run.closed mem) (fun x inside => by
    obtain ⟨goes, s₁, s₂, visited⟩ := run.visited_of_mem inside
    exact fileWalker_next goes visited) (guardOf fs) (run.start_mem mem)
    (r := ⟨entry.size.toNat, []⟩) some_
  rw [guardOf_eq few] at cycle
  unfold fatReadFileData
  rw [guardOf_eq few]
  split
  next small => exact iff_of_false (by decide) fun both => Nat.not_lt.2 both.1 small
  next fits =>
    rw [if_neg (Nat.ne_of_gt some_)]
    rcases Nat.lt_or_ge ((fs.clusterCount + 2) * perCluster fs) entry.size.toNat with more | enough
    · obtain ⟨r', c', eq⟩ := cycle.2 more
      rw [eq]
      exact iff_of_false (show (-4 : Int) ≠ 0 by decide) fun both => Nat.not_lt.2 both.2 more
    · obtain ⟨out, eq⟩ := cycle.1 enough
      rw [eq]
      exact iff_of_true rfl ⟨Nat.le_of_not_lt fits, enough⟩

theorem readFile_of_selfLink (few : fs.clusterCount < 2147483648) (some_ : 0 < entry.size.toNat)
    (meets : MeetsSelfLink fs v (fileWalker fs v) entry.cluster.toNat ⟨entry.size.toNat, []⟩)
    (never : ¬ ComesBack (fileWalker fs v) entry.cluster.toNat ⟨entry.size.toNat, []⟩) :
    (fatReadFileData fs v entry outCap).1 ≠ 0 := by
  obtain ⟨s', eq⟩ := walk_of_selfLink (w := fileWalker fs v) few
    (fun x s₁ s₂ goes visited => (fileWalker_next goes visited).1) rfl meets never
  unfold fatReadFileData
  split
  · decide
  · rw [if_neg (Nat.ne_of_gt some_), eq]
    show (-3 : Int) ≠ 0
    decide

end Files

/-! ## Allocation -/

section Allocation

variable {fs : FatFs} {v : FatVolume}

/-- No cluster is free. -/
def NoneFree (fs : FatFs) (v : FatVolume) : Prop :=
  ∀ c, 2 ≤ c → c ≤ fatMaxValidCluster fs → fatReadFatEntry fs v c ≠ some 0

/-- On a drive that transfers every sector every entry is read. -/
theorem fatReadFatEntry_total (all : ∀ s, v.responds s = true) (fs : FatFs) (c : Nat) :
    ∃ value, fatReadFatEntry fs v c = some value := by
  have read : ∀ s, fatReadSector v s = some (v.sectors s) := fun s => if_pos (all s)
  unfold fatReadFatEntry
  rcases fs.type.cases with type | type | type
  · simp only [type, read, Option.bind_some, Option.map_some]
    split
    · exact ⟨_, rfl⟩
    · exact ⟨_, rfl⟩
  · simp only [type, read, Option.map_some]
    exact ⟨_, rfl⟩
  · simp only [type, read, Option.map_some]
    exact ⟨_, rfl⟩

theorem findFree_some (all : ∀ s, v.responds s = true) {order : List Nat} {c : Nat}
    (mem : c ∈ order) (free : fatReadFatEntry fs v c = some 0) : ∃ c', findFree fs v order = some c' := by
  induction order with
  | nil => exact absurd mem List.not_mem_nil
  | cons x rest ih =>
      unfold findFree
      obtain ⟨value, read⟩ := fatReadFatEntry_total all fs x
      rw [read]
      dsimp only
      split
      · exact ⟨x, rfl⟩
      next used =>
        rcases List.mem_cons.1 mem with rfl | later
        · rw [read] at free
          exact absurd (Option.some.inj free) used
        · exact ih later

/-- What the search finds is free, and one of the clusters. -/
theorem findFree_eq_some {order : List Nat} {c : Nat} (found : findFree fs v order = some c) :
    c ∈ order ∧ fatReadFatEntry fs v c = some 0 := by
  induction order with
  | nil => cases found
  | cons x rest ih =>
      unfold findFree at found
      split at found
      · cases found
      next value read =>
        split at found
        next free =>
          obtain rfl := Option.some.inj found
          exact ⟨List.mem_cons_self, by rw [read, free]⟩
        next => exact ⟨List.mem_cons_of_mem _ (ih found).1, (ih found).2⟩

theorem allocStart_bounds {maxCluster : Nat} (some_ : 2 ≤ maxCluster) (hint : Nat) :
    2 ≤ allocStart maxCluster hint ∧ allocStart maxCluster hint ≤ maxCluster := by
  unfold allocStart
  split <;> omega

/-- The two passes come by every cluster. -/
theorem mem_allocOrder {start maxCluster c : Nat} (low : 2 ≤ start) (high : start ≤ maxCluster) :
    c ∈ allocOrder start maxCluster ↔ 2 ≤ c ∧ c ≤ maxCluster := by
  unfold allocOrder
  rw [List.mem_append, List.mem_range'_1, List.mem_range'_1]
  omega

/-- A write that succeeds leaves the drive transferring the same sectors. -/
theorem fatWriteFatEntry_responds {v' : FatVolume} {c value : Nat}
    (done : fatWriteFatEntry fs v c value = some v') : v'.responds = v.responds :=
  (fatWriteCopies_low (n := fs.fatCount) done).1

theorem fatWriteFatEntry_total (fs : FatFs) (all : ∀ s, v.responds s = true) (c value : Nat) :
    ∃ v', fatWriteFatEntry fs v c value = some v' ∧ ∀ s, v'.responds s = true := by
  obtain ⟨v', done⟩ := fatWriteCopies_total (v := v) fs fs.fatCount c value all
  refine ⟨v', done, fun s => ?_⟩
  have written : fatWriteFatEntry fs v c value = some v' := done
  rw [fatWriteFatEntry_responds written]
  exact all s

theorem writeSectors_total (sectors : List Nat) (bytes : List UInt8)
    (all : ∀ s, v.responds s = true) :
    ∃ v', writeSectors v sectors bytes = some v' ∧ ∀ s, v'.responds s = true := by
  induction sectors generalizing v bytes with
  | nil => exact ⟨v, rfl, all⟩
  | cons sector rest ih =>
      unfold writeSectors
      rw [fatWriteSector, if_pos (all sector), Option.bind_some]
      exact ih _ all

/-- **An allocation fails only when no cluster is free**, wherever the search starts. -/
theorem fatAllocCluster_none_iff {st : FatState} (all : ∀ s, st.vol.responds s = true)
    (zero : Bool) : fatAllocCluster fs st zero = none ↔ NoneFree fs st.vol := by
  unfold fatAllocCluster
  dsimp only
  split
  next none => exact iff_of_true rfl fun c low high => absurd (Nat.le_trans low high) (by omega)
  next some_ =>
    have bounds := allocStart_bounds (Nat.le_of_not_lt some_) st.nextFree
    cases found : findFree fs st.vol
        (allocOrder (allocStart (fatMaxValidCluster fs) st.nextFree) (fatMaxValidCluster fs)) with
    | none =>
        refine iff_of_true rfl fun c low high free => ?_
        obtain ⟨c', some'⟩ := findFree_some all ((mem_allocOrder bounds.1 bounds.2).2 ⟨low, high⟩) free
        rw [found] at some'
        cases some'
    | some c =>
        obtain ⟨mem, free⟩ := findFree_eq_some found
        obtain ⟨low, high⟩ := (mem_allocOrder bounds.1 bounds.2).1 mem
        refine iff_of_false ?_ fun none => none c low high free
        obtain ⟨v', done, all'⟩ := fatWriteFatEntry_total fs all c (fatEocValue fs)
        rw [Option.bind_some, done, Option.bind_some]
        cases zero with
        | false => simp
        | true =>
            obtain ⟨v'', zeroed, -⟩ := writeSectors_total (clusterSectors fs c) [] all'
            simp [fatZeroCluster, zeroed]

theorem fatAllocCluster_responds {st st' : FatState} {zero : Bool} {c : Nat}
    (all : ∀ s, st.vol.responds s = true)
    (done : fatAllocCluster fs st zero = some (c, st')) : ∀ s, st'.vol.responds s = true := by
  unfold fatAllocCluster at done
  dsimp only at done
  split at done
  · cases done
  · obtain ⟨c', -, done⟩ := Option.bind_eq_some_iff.1 done
    obtain ⟨v', marked, all'⟩ := fatWriteFatEntry_total fs all c' (fatEocValue fs)
    rw [marked, Option.bind_some] at done
    obtain ⟨v'', zeroed, done⟩ := Option.map_eq_some_iff.1 done
    obtain ⟨-, rfl⟩ := Prod.mk.inj done
    cases zero with
    | false =>
        obtain rfl := Option.some.inj zeroed
        exact all'
    | true =>
        obtain ⟨v₃, zeroed', all''⟩ := writeSectors_total (clusterSectors fs c') [] all'
        rw [if_pos rfl, fatZeroCluster, zeroed'] at zeroed
        obtain rfl := Option.some.inj zeroed
        exact all''

theorem appendCluster_none_iff {st : FatState} (all : ∀ s, st.vol.responds s = true) (last : Nat) :
    appendCluster fs st last = none ↔ NoneFree fs st.vol := by
  rw [← fatAllocCluster_none_iff all true]
  unfold appendCluster
  cases alloc : fatAllocCluster fs st true with
  | none => simp
  | some result =>
      obtain ⟨new, st'⟩ := result
      obtain ⟨v₁, linked, all₁⟩ := fatWriteFatEntry_total fs
        (fatAllocCluster_responds all alloc) last new
      obtain ⟨v₂, ended, -⟩ := fatWriteFatEntry_total fs all₁ new (fatEocValue fs)
      simp [linked, ended]

end Allocation

/-! ## What is reported -/

/-- `fat_iterate_dir` returns an error where the chain comes back before the walk has ended. -/
def IterateReports {σ : Type} (fs : FatFs) (v : FatVolume) (dir : Nat)
    (visitor : FatDirEntry → CString → σ → σ × Int) (u : σ) : Prop :=
  FollowsChain fs dir →
    Revisits fs v (dirWalker fs v 0 (untilNonzero visitor)) (dirStart fs dir) (lfnReset, u) →
    (fatIterateDir fs v dir visitor u).1 < 0

/-- What `fat_dir_find_entry` does at an entry. -/
def findVisitor (name : CString) : Visitor (Option (FatDirEntry × Nat × Nat)) :=
  fun place e stored found =>
    if fatNameEquals stored name then (some (e, place), some 0) else (found, none)

/-- `fat_dir_find_entry` returns its error for a damaged chain, not that for an absent name. -/
def FindReports (fs : FatFs) (v : FatVolume) (dir : Nat) (name : CString) : Prop :=
  FollowsChain fs dir →
    Revisits fs v (dirWalker fs v (-2) (findVisitor name)) (dirStart fs dir) (lfnReset, none) →
    (fatDirFindEntry fs v dir name).1 = -1

/-- `fat_dir_find_free_slots` returns an error and appends no cluster. -/
def FreeSlotsReports (fs : FatFs) (st : FatState) (dir count : Nat) : Prop :=
  FollowsChain fs dir → ¬ (count = 0 ∨ slotsPerSector < count) →
    Revisits fs st.vol (slotWalker fs st.vol count) (dirStart fs dir) (dirStart fs dir) →
    fatDirFindFreeSlots fs st dir count = none

/-- `fat_read_file_data` returns an error. -/
def ReadReports (fs : FatFs) (v : FatVolume) (entry : FatDirEntry) (outCap : Nat) : Prop :=
  0 < entry.size.toNat →
    Revisits fs v (fileWalker fs v) entry.cluster.toNat ⟨entry.size.toNat, []⟩ →
    (fatReadFileData fs v entry outCap).1 ≠ 0

section Reports

variable {fs : FatFs} {v : FatVolume} {dir : Nat}

theorem untilNonzero_code {σ : Type} {visitor : FatDirEntry → CString → σ → σ × Int}
    {place : Nat × Nat} {e : FatDirEntry} {name : CString} {u : σ} {rc : Int}
    (code : (untilNonzero visitor place e name u).2 = some rc) : rc = (visitor e name u).2 := by
  unfold untilNonzero at code
  dsimp only at code
  split at code
  · exact (Option.some.inj code).symm
  · cases code

theorem iterateReports_iff {σ : Type} (few : fs.clusterCount < 2147483648)
    {visitor : FatDirEntry → CString → σ → σ × Int}
    (codes : ∀ e name u, 0 ≤ (visitor e name u).2) (u : σ) :
    IterateReports fs v dir visitor u ↔ ¬ (FollowsChain fs dir ∧
      ComesBack (dirWalker fs v 0 (untilNonzero visitor)) (dirStart fs dir) (lfnReset, u)) := by
  constructor
  · rintro reports ⟨follows, back⟩
    have error := reports follows (.inl back)
    unfold fatIterateDir at error
    rcases walkDir_of_comesBack follows back with ended | ⟨place, e, name, u', code⟩
    · rw [ended] at error
      exact absurd error (by decide)
    · rw [untilNonzero_code code] at error
      exact absurd error (Int.not_lt.2 (codes e name u'))
  · intro none follows met
    have never := fun back => none ⟨follows, back⟩
    have error := walkDir_of_selfLink few follows (met.resolve_left never) never
    unfold fatIterateDir
    rw [error]
    decide

theorem findReports_iff (few : fs.clusterCount < 2147483648) (name : CString) :
    FindReports fs v dir name ↔ ¬ (FollowsChain fs dir ∧
      ComesBack (dirWalker fs v (-2) (findVisitor name)) (dirStart fs dir) (lfnReset, none)) := by
  constructor
  · rintro reports ⟨follows, back⟩
    have error : (walkDir fs v dir (-2) (findVisitor name) none).1 = -1 :=
      reports follows (.inl back)
    rcases walkDir_of_comesBack follows back with ended | ⟨place, e, stored, u', code⟩
    · rw [ended] at error
      exact absurd error (by decide)
    · rw [error] at code
      unfold findVisitor at code
      split at code
      · exact absurd (Option.some.inj code) (by decide)
      · cases code
  · intro none follows met
    have never := fun back => none ⟨follows, back⟩
    exact walkDir_of_selfLink few follows (met.resolve_left never) never

theorem freeSlotsReports_of_never {st : FatState} {count : Nat}
    (few : fs.clusterCount < 2147483648) (never : ¬ (FollowsChain fs dir ∧
      ComesBack (slotWalker fs st.vol count) (dirStart fs dir) (dirStart fs dir))) :
    FreeSlotsReports fs st dir count := by
  intro follows asked met
  have notBack := fun back => never ⟨follows, back⟩
  exact freeSlots_of_selfLink few asked follows (met.resolve_left notBack) notBack

theorem freeSlotsReports_iff {st : FatState} {count : Nat} (few : fs.clusterCount < 2147483648)
    (all : ∀ s, st.vol.responds s = true) (asked : ¬ (count = 0 ∨ slotsPerSector < count)) :
    FreeSlotsReports fs st dir count ↔ ¬ (FollowsChain fs dir ∧
      ComesBack (slotWalker fs st.vol count) (dirStart fs dir) (dirStart fs dir)) ∨
        NoneFree fs st.vol := by
  constructor
  · intro reports
    by_cases met : FollowsChain fs dir ∧
        ComesBack (slotWalker fs st.vol count) (dirStart fs dir) (dirStart fs dir)
    · obtain ⟨last, eq⟩ := freeSlots_of_comesBack asked met.1 met.2
      refine .inr ((appendCluster_none_iff all last).1 ?_)
      rw [← eq]
      exact reports met.1 asked (.inl met.2)
    · exact .inl met
  · rintro (never | noneFree)
    · exact freeSlotsReports_of_never few never
    · intro follows _ met
      by_cases back : ComesBack (slotWalker fs st.vol count) (dirStart fs dir) (dirStart fs dir)
      · obtain ⟨last, eq⟩ := freeSlots_of_comesBack asked follows back
        rw [eq]
        exact (appendCluster_none_iff all last).2 noneFree
      · exact freeSlots_of_selfLink few asked follows (met.resolve_left back) back

theorem readReports_iff (few : fs.clusterCount < 2147483648) (entry : FatDirEntry) (outCap : Nat) :
    ReadReports fs v entry outCap ↔ ¬ (0 < entry.size.toNat ∧
      ComesBack (fileWalker fs v) entry.cluster.toNat ⟨entry.size.toNat, []⟩ ∧
        entry.size.toNat ≤ outCap ∧
          entry.size.toNat ≤ (fs.clusterCount + 2) * perCluster fs) := by
  constructor
  · rintro reports ⟨some_, back, enough⟩
    exact reports some_ (.inl back) ((readFile_of_comesBack few some_ back).2 enough)
  · intro none some_ met
    by_cases back : ComesBack (fileWalker fs v) entry.cluster.toNat ⟨entry.size.toNat, []⟩
    · exact fun success => none ⟨some_, back, (readFile_of_comesBack few some_ back).1 success⟩
    · exact readFile_of_selfLink few some_ (met.resolve_left back) back

end Reports

/-- **A corrupted chain is reported exactly if the walk meets no cycle of two or more
clusters.**  Round such a cycle `fat_iterate_dir` and `fat_dir_find_entry` end as at the end of
the directory, `fat_dir_find_free_slots` appends a cluster if one is free, and
`fat_read_file_data` succeeds if the guard is enough for the bytes of the file. -/
theorem corrupted_chains_reported_iff {v₀ : FatVolume} {fs : FatFs}
    (mounted : fatFsMount v₀ = .ok fs) (v : FatVolume) :
    (∀ {σ : Type} (dir : Nat) (visitor : FatDirEntry → CString → σ → σ × Int) (u : σ),
      (∀ e name u, 0 ≤ (visitor e name u).2) →
      (IterateReports fs v dir visitor u ↔ ¬ (FollowsChain fs dir ∧
        ComesBack (dirWalker fs v 0 (untilNonzero visitor)) (dirStart fs dir) (lfnReset, u)))) ∧
    (∀ dir name, FindReports fs v dir name ↔ ¬ (FollowsChain fs dir ∧
      ComesBack (dirWalker fs v (-2) (findVisitor name)) (dirStart fs dir) (lfnReset, none))) ∧
    (∀ dir count hint, ¬ (count = 0 ∨ slotsPerSector < count) →
      (¬ (FollowsChain fs dir ∧
        ComesBack (slotWalker fs v count) (dirStart fs dir) (dirStart fs dir)) →
          FreeSlotsReports fs ⟨v, hint⟩ dir count) ∧
      ((∀ s, v.responds s = true) →
        (FreeSlotsReports fs ⟨v, hint⟩ dir count ↔ ¬ (FollowsChain fs dir ∧
          ComesBack (slotWalker fs v count) (dirStart fs dir) (dirStart fs dir)) ∨
            NoneFree fs v))) ∧
    ∀ entry outCap, ReadReports fs v entry outCap ↔ ¬ (0 < entry.size.toNat ∧
      ComesBack (fileWalker fs v) entry.cluster.toNat ⟨entry.size.toNat, []⟩ ∧
        entry.size.toNat ≤ outCap ∧
          entry.size.toNat ≤ (fs.clusterCount + 2) * perCluster fs) := by
  have few := (fatFsMount_clusters mounted).1
  refine ⟨fun dir visitor u codes => iterateReports_iff few codes u,
    fun dir name => findReports_iff few name,
    fun dir count hint asked => ⟨fun never => freeSlotsReports_of_never few never,
      fun all => freeSlotsReports_iff few all asked⟩,
    readReports_iff few⟩

/-! ## A cycle of two clusters -/

/-- A FAT12 floppy whose clusters 2 and 3 lead to each other. -/
def cyclicFloppy : FatVolume :=
  bootVolume [(3, 3), (4, 0x20), (12, 2), (13, 1), (14, 1), (16, 2), (17, 224), (19, 64), (20, 11),
    (22, 9), (510, 0x55), (511, 0xAA)]

/-- A file of 1500 bytes on it. -/
def cyclicFile : FatDirEntry := ⟨List.replicate 11 65, 0x20, 2, 1500⟩

/-- What remains of the file is more than a cluster. -/
theorem cyclicFloppy_visit {c : Nat} (low : 2 ≤ c) (high : c ≤ 3) {r : FileReading}
    (some_ : 512 < r.remaining) :
    ∃ out, (fileWalker (fatGeometry (cyclicFloppy.sectors 0)) cyclicFloppy).visit c r =
      .next ⟨r.remaining - 512, out⟩ := by
  have readable : Readable (fatGeometry (cyclicFloppy.sectors 0)) cyclicFloppy c :=
    ⟨⟨low, Nat.le_trans high (by decide)⟩, fun sector _ => rfl⟩
  have cluster : perCluster (fatGeometry (cyclicFloppy.sectors 0)) = 512 := by decide
  have visit := fileWalker_visit readable (Nat.zero_lt_of_lt some_)
  rw [cluster, if_neg (Nat.not_le.2 some_)] at visit
  exact ⟨_, visit⟩

theorem cyclicFloppy_comesBack :
    ComesBack (fileWalker (fatGeometry (cyclicFloppy.sectors 0)) cyclicFloppy) 2 ⟨1500, []⟩ := by
  obtain ⟨out, first⟩ := cyclicFloppy_visit (c := 2) (by decide) (by decide) (r := ⟨1500, []⟩)
    (by decide)
  obtain ⟨out', second⟩ := cyclicFloppy_visit (c := 3) (by decide) (by decide) (r := ⟨988, out⟩)
    (by dsimp only; decide)
  exact ⟨[2, 3], 2, _, .step rfl first rfl (.step rfl second rfl (.refl 2 _)),
    List.mem_cons_self⟩

/-- The file is read without an error, although its chain never ends. -/
theorem cycle_read_succeeds : ¬ ∀ (v₀ : FatVolume) (fs : FatFs), fatFsMount v₀ = .ok fs →
    ∀ (v : FatVolume) (entry : FatDirEntry) (outCap : Nat), ReadReports fs v entry outCap := by
  intro all
  have mounted : fatFsMount cyclicFloppy = .ok (fatGeometry (cyclicFloppy.sectors 0)) := rfl
  have reports := all cyclicFloppy _ mounted cyclicFloppy cyclicFile 1500
  have few := (fatFsMount_clusters mounted).1
  exact (readReports_iff few cyclicFile 1500).1 reports
    ⟨by decide, cyclicFloppy_comesBack, by decide, by decide⟩

/-- With a buffer that is too small the read fails, and so does the search for a name in the
fixed root directory on this chain. -/
theorem cyclicFloppy_reported :
    ReadReports (fatGeometry (cyclicFloppy.sectors 0)) cyclicFloppy cyclicFile 100 ∧
      FindReports (fatGeometry (cyclicFloppy.sectors 0)) cyclicFloppy 0 [65] := by
  have mounted : fatFsMount cyclicFloppy = .ok (fatGeometry (cyclicFloppy.sectors 0)) := rfl
  have reported := corrupted_chains_reported_iff mounted cyclicFloppy
  refine ⟨(reported.2.2.2 cyclicFile 100).2 fun cycle => ?_, (reported.2.1 0 [65]).2 fun cycle => ?_⟩
  · exact absurd cycle.2.2.1 (by decide)
  · exact cycle.1 ⟨by decide, rfl⟩

end NTux.Fat.Disk
