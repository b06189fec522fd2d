import NTux.Fat.FileRange
import NTux.Fat.TableWrites

/-!
# Where removing and overwriting write

Removing or overwriting frees the chain of the entry first.  Behind that only the table is
written, the clusters that have just been allocated, and the sector of the entry, which is one
of its directory (`fatDirFindEntry_place`).  The first cluster is used as it stands in the
directory, so that the call stays there exactly if the entry of this cluster lies in the table
(`write_confinement_iff`).
-/

namespace NTux.Fat.Disk

open NTux.Fs NTux.Lib NTux.Lib.Bytes NTux.Lib.ChainWalk NTux.Lib.Logged

/-- The chain of a directory comes by the cluster. -/
inductive ChainFrom (fs : FatFs) (v : FatVolume) (first : Nat) : Nat → Prop
  | start : ChainFrom fs v first first
  | step {c next : Nat} (before : ChainFrom fs v first c) (link : fatLink fs v c = .to next) :
      ChainFrom fs v first next

/-- A sector of a directory. -/
def InDirectory (fs : FatFs) (v : FatVolume) (dirCluster sector : Nat) : Prop :=
  if fs.type ≠ .fat32 ∧ dirCluster = 0 then sector ∈ rootSectors fs
  else ∃ c, ChainFrom fs v (dirStart fs dirCluster) c ∧ 2 ≤ c ∧ c ≤ fs.clusterCount + 1 ∧
    sector ∈ clusterSectors fs c

/-- A call that removes or overwrites. -/
inductive WriteCall
  | remove (path : CString)
  | overwrite (path : CString) (array : Bool) (data : List UInt8) (create : Writing Unit)

/-- The path of the call. -/
def WriteCall.path : WriteCall → CString
  | .remove path => path
  | .overwrite path _ _ _ => path

/-- The call. -/
def WriteCall.run (fs : FatFs) : WriteCall → Writing Unit
  | .remove path => fatOpRemove fs path
  | .overwrite path array data create => fatOpWriteFile fs path array data create

/-- The directory and the entry that a path leads to. -/
def entryOfPath (fs : FatFs) (v : FatVolume) (path : CString) :
    Option (Nat × FatDirEntry × Nat × Nat) :=
  (fatParentOf fs v path).bind fun (dir, leaf) =>
    (fatEntryOf fs v dir leaf).map fun found => (dir, found)

/-- What is overwritten is there. -/
def WriteCall.Overwrites (fs : FatFs) (v : FatVolume) : WriteCall → Prop
  | .remove _ => True
  | .overwrite path _ _ _ => (entryOfPath fs v path).isSome

/-- The first cluster of the chain that the call frees. -/
def WriteCall.freed (fs : FatFs) (v : FatVolume) (call : WriteCall) : Option Nat :=
  (entryOfPath fs v call.path).bind fun (_, e, _) =>
    let first := e.cluster.toNat
    let kept : Bool := match call with
      | .remove _ => e.attr &&& attrDir ≠ 0 && !fatDirIsEmpty fs v first
      | .overwrite .. => e.attr &&& attrDir ≠ 0
    if first < 2 ∨ kept then none else some first

/-- What the call stores is in the table, in the directory of the entry, or in a cluster that
the call has allocated, and what is stored for freeing the chain is in the table. -/
structure WriteCall.Confined (fs : FatFs) (st : FatState) (call : WriteCall) : Prop where
  stores : ∀ sector, FatEvent.stored sector ∈ (call.run fs st).log →
    InTables fs sector ∨
      (∃ found, entryOfPath fs st.vol call.path = some found ∧
        InDirectory fs st.vol found.1 sector) ∨
      ∃ c, FatEvent.allocated c ∈ (call.run fs st).log ∧ sector ∈ clusterSectors fs c
  frees : ∀ first, call.freed fs st.vol = some first →
    ∀ sector, FatEvent.stored sector ∈ (freeChain fs first st).log → InTables fs sector

/-- The call ends, changes the sectors it logs only, and begins with freeing the chain. -/
structure WriteCall.Accounted (fs : FatFs) (st : FatState) (call : WriteCall) : Prop where
  ends : (call.run fs st).result ≠ .error .endless
  logs : ∀ sector, FatEvent.stored sector ∉ (call.run fs st).log →
    (call.run fs st).state.vol.sectors sector = st.vol.sectors sector
  frees : ∀ first, call.freed fs st.vol = some first →
    (freeChain fs first st).log <+: (call.run fs st).log

/-! ## The bytes of a file -/

section Bytes

variable {fs : FatFs} {st : FatState} {c n : Nat} {cs all : List Nat}

theorem readSector_proper (sector : Nat) : Proper (readSector sector) :=
  Proper.query fun _ => orFailed_ne _

theorem writeSector_proper (sector : Nat) (buf : Bytes) : Proper (writeSector sector buf) := by
  constructor
  · intro st
    unfold writeSector
    split <;> exact nofun
  · intro st other out
    unfold writeSector at out ⊢
    split
    · rfl
    next v done =>
      rw [done] at out
      exact fatWriteSector_others done fun same => out (same ▸ List.mem_singleton_self _)

theorem writeSector_only (sector : Nat) (buf : Bytes) :
    Within (· = .stored sector) (writeSector sector buf) := by
  intro st event mem
  unfold writeSector at mem
  split at mem
  · exact absurd mem List.not_mem_nil
  · exact List.mem_singleton.1 mem

theorem storeSectors_proper (sectors : List Nat) (bytes : List UInt8) :
    Proper (storeSectors sectors bytes) := by
  induction sectors generalizing bytes with
  | nil => exact Proper.pure ()
  | cons sector rest ih => exact (writeSector_proper sector _).bind fun _ => ih _

theorem storeSectors_only (sectors : List Nat) (bytes : List UInt8) :
    Within (fun event => ∃ sector ∈ sectors, event = .stored sector)
      (storeSectors sectors bytes) := by
  induction sectors generalizing bytes with
  | nil => exact within_pure ()
  | cons sector rest ih =>
      refine Within.bind (fun st event mem => ?_) fun _ st event mem => ?_
      · exact ⟨sector, List.mem_cons_self, writeSector_only sector _ st event mem⟩
      · obtain ⟨other, later, same⟩ := ih _ st event mem
        exact ⟨other, List.mem_cons_of_mem _ later, same⟩

theorem storeClusters_proper (fs : FatFs) (cs : List Nat) (data : List UInt8) :
    Proper (storeClusters fs cs data) := by
  induction cs generalizing data with
  | nil => exact Proper.pure ()
  | cons c rest ih => exact (storeSectors_proper _ _).bind fun _ => ih _

/-- A store to a cluster of the list. -/
def StoreIn (fs : FatFs) (cs : List Nat) (event : FatEvent) : Prop :=
  ∃ c ∈ cs, ∃ sector ∈ clusterSectors fs c, event = .stored sector

theorem storeClusters_only (fs : FatFs) (cs : List Nat) (data : List UInt8) :
    Within (StoreIn fs cs) (storeClusters fs cs data) := by
  induction cs generalizing data with
  | nil => exact within_pure ()
  | cons c rest ih =>
      refine Within.bind (fun st event mem => ?_) fun _ st event mem => ?_
      · exact ⟨c, List.mem_cons_self, storeSectors_only _ _ st event mem⟩
      · obtain ⟨other, later, same⟩ := ih _ st event mem
        exact ⟨other, List.mem_cons_of_mem _ later, same⟩

theorem writeEntryAt_proper (place : Nat × Nat) (raw : Bytes) :
    Proper (writeEntryAt place raw) :=
  (readSector_proper _).bind fun _ => writeSector_proper _ _

theorem writeEntryAt_only (place : Nat × Nat) (raw : Bytes) :
    Within (· = .stored place.1) (writeEntryAt place raw) :=
  (within_query _).bind fun _ => writeSector_only _ _

/-! ## Allocating -/

theorem allocCluster_proper (fs : FatFs) : Proper (allocCluster fs) := by
  unfold allocCluster
  refine Proper.ite (fun _ => Proper.failed) fun _ => ?_
  refine (Proper.query fun _ => orFailed_ne _).bind fun c => ?_
  exact (writeFatEntry_proper fs c _).bind fun _ => ⟨fun _ => nofun, fun _ _ _ => rfl⟩

/-- A cluster is found among the valid ones. -/
theorem findFree_range {v : FatVolume} {nextFree : Nat} (some_ : 2 ≤ fatMaxValidCluster fs)
    (found : findFree fs v (allocOrder (allocStart (fatMaxValidCluster fs) nextFree)
      (fatMaxValidCluster fs)) = some c) : 2 ≤ c ∧ c ≤ fatMaxValidCluster fs := by
  have bounds := allocStart_bounds some_ nextFree
  exact (mem_allocOrder bounds.1 bounds.2).1 (findFree_eq_some found).1

theorem allocCluster_eq (some_ : 2 ≤ fatMaxValidCluster fs) :
    allocCluster fs = (query fun st => orFailed (findFree fs st.vol
      (allocOrder (allocStart (fatMaxValidCluster fs) st.nextFree) (fatMaxValidCluster fs))))
        >>= fun c => writeFatEntry fs c (fatEocValue fs) >>= fun _ => handOut fs c := by
  unfold allocCluster
  dsimp only
  rw [if_neg (by omega)]

theorem query_yields_range (some_ : 2 ≤ fatMaxValidCluster fs) :
    Yields (fun c => 2 ≤ c ∧ c ≤ fatMaxValidCluster fs)
      (query fun st => orFailed (findFree fs st.vol
        (allocOrder (allocStart (fatMaxValidCluster fs) st.nextFree)
          (fatMaxValidCluster fs))) : Writing Nat) := by
  intro st c ok
  change orFailed _ = _ at ok
  cases found : findFree fs st.vol (allocOrder (allocStart (fatMaxValidCluster fs) st.nextFree)
      (fatMaxValidCluster fs)) with
  | none =>
      rw [found] at ok
      cases ok
  | some d =>
      rw [found] at ok
      obtain rfl := Except.ok.inj ok
      exact findFree_range some_ found

theorem allocCluster_tables (regular : Regular fs) : TablesOnly fs (allocCluster fs) := by
  by_cases some_ : 2 ≤ fatMaxValidCluster fs
  · rw [allocCluster_eq some_]
    refine Within.bind_yields (within_query _) (query_yields_range some_) fun c range => ?_
    have inTable := Nat.lt_of_le_of_lt range.2 (maxValidCluster_lt some_)
    refine (writeFatEntry_tables regular inTable _).bind fun _ st event mem => ?_
    obtain rfl := List.mem_singleton.1 mem
    trivial
  · unfold allocCluster
    rw [if_pos (by omega)]
    exact within_fail _

/-- What is allocated is a valid cluster, and is logged. -/
theorem allocCluster_ok (ok : (allocCluster fs st).result = .ok c) :
    c ≤ fatMaxValidCluster fs ∧ FatEvent.allocated c ∈ (allocCluster fs st).log := by
  by_cases some_ : 2 ≤ fatMaxValidCluster fs
  · rw [allocCluster_eq some_] at ok ⊢
    cases found : findFree fs st.vol (allocOrder
        (allocStart (fatMaxValidCluster fs) st.nextFree) (fatMaxValidCluster fs)) with
    | none =>
        rw [query_bind_error (s := st) (congrArg orFailed found)] at ok
        cases ok
    | some d =>
        rw [query_bind_ok (s := st) (congrArg orFailed found)] at ok ⊢
        cases wrote : (writeFatEntry fs d (fatEocValue fs) st).result with
        | error e =>
            rw [result_bind_error wrote] at ok
            cases ok
        | ok _ =>
            rw [result_bind_ok wrote] at ok
            obtain rfl := Except.ok.inj ok
            rw [log_bind_ok wrote]
            exact ⟨(findFree_range some_ found).2,
              List.mem_append_right _ (List.mem_singleton_self _)⟩
  · unfold allocCluster at ok
    rw [if_pos (by omega)] at ok
    cases ok

/-! ## The payload of a file -/

theorem yields_undoing {α : Type} {Q : α → Prop} {x : Writing α} {undo : Writing Unit}
    (yields : Yields Q x) : Yields Q (undoing x undo) := by
  intro st a ok
  unfold undoing at ok
  rw [result_andThen] at ok
  cases result : (x st).result with
  | ok b =>
      rw [result] at ok
      obtain rfl := Except.ok.inj ok
      exact yields st b result
  | error e =>
      rw [result] at ok
      cases e with
      | endless => cases ok
      | failed =>
          dsimp only at ok
          cases undone : (ignored undo (x st).state).result with
          | ok _ => rw [result_bind_ok undone] at ok; cases ok
          | error e => rw [result_bind_error undone] at ok; cases ok

/-- A call that is undone where it fails has done the same where it succeeds. -/
theorem undoing_ok {α : Type} {x : Writing α} {undo : Writing Unit} {a : α}
    (ok : (undoing x undo st).result = .ok a) : (x st).result = .ok a :=
  yields_undoing (Q := fun b => (x st).result = .ok b) (x := fun _ => x st)
    (fun _ _ same => same) st a ok

/-- The clusters that the loop comes to are valid, and those it has added are logged. -/
theorem linkLoop_ok (ok : (linkLoop fs n cs st).result = .ok all) :
    ∀ c ∈ all, c ∈ cs ∨
      (c ≤ fatMaxValidCluster fs ∧ FatEvent.allocated c ∈ (linkLoop fs n cs st).log) := by
  induction n generalizing cs st with
  | zero =>
      obtain rfl := Except.ok.inj ok
      exact fun c mem => .inl mem
  | succ n ih =>
      unfold linkLoop at ok ⊢
      cases alloc : (undoing (allocCluster fs) (freeChain fs (cs.headD 0)) st).result with
      | error e =>
          rw [result_bind_error alloc] at ok
          cases ok
      | ok d =>
          rw [result_bind_ok alloc] at ok
          rw [log_bind_ok alloc]
          obtain ⟨valid, logged⟩ := allocCluster_ok (undoing_ok alloc)
          cases linked : (linkTo fs cs d
              (undoing (allocCluster fs) (freeChain fs (cs.headD 0)) st).state).result with
          | error e =>
              rw [result_bind_error linked] at ok
              cases ok
          | ok _ =>
              rw [result_bind_ok linked] at ok
              rw [log_bind_ok linked]
              intro c mem
              rcases ih ok c mem with old | ⟨validC, loggedC⟩
              · rcases List.mem_append.1 old with old | new
                · exact .inl old
                · obtain rfl := List.mem_singleton.1 new
                  exact .inr ⟨valid, List.mem_append_left _ (mem_log_andThen _ logged)⟩
              · exact .inr ⟨validC, List.mem_append_right _ (List.mem_append_right _ loggedC)⟩

theorem freeChain_tables (regular : Regular fs) (high : c ≤ fatMaxValidCluster fs) :
    TablesOnly fs (freeChain fs c) := freeLoop_tables regular high

/-- The clusters of a chain are valid. -/
theorem headD_valid (valid : ∀ c ∈ cs, c ≤ fatMaxValidCluster fs) :
    cs.headD 0 ≤ fatMaxValidCluster fs ∧ cs.getLastD 0 ≤ fatMaxValidCluster fs := by
  cases cs with
  | nil => exact ⟨Nat.zero_le _, Nat.zero_le _⟩
  | cons a rest =>
      refine ⟨valid a List.mem_cons_self, ?_⟩
      rw [List.getLastD_cons, List.getLastD_eq_getLast?]
      cases last : rest.getLast? with
      | none => exact valid a List.mem_cons_self
      | some b => exact valid b (List.mem_cons_of_mem _ (List.mem_of_getLast? last))

theorem tablesOnly_stored {α : Type} {x : Writing α} (only : TablesOnly fs x) :
    Within (fun event => ∀ sector, event = .stored sector → InTables fs sector) x := by
  rintro st _ mem sector rfl
  exact only st _ mem

theorem linkTo_tables (regular : Regular fs) (valid : ∀ c ∈ cs, c ≤ fatMaxValidCluster fs)
    (value : Nat) : TablesOnly fs (linkTo fs cs value) := by
  unfold linkTo
  dsimp only
  split
  next low =>
    obtain ⟨head, last⟩ := headD_valid valid
    have inTable := Nat.lt_of_le_of_lt last (maxValidCluster_lt (Nat.le_trans low last))
    exact within_undoing (writeFatEntry_tables regular inTable value)
      (freeChain_tables regular head)
  · exact within_pure _

theorem linkLoop_tables (regular : Regular fs) (valid : ∀ c ∈ cs, c ≤ fatMaxValidCluster fs) :
    TablesOnly fs (linkLoop fs n cs) := by
  induction n generalizing cs with
  | zero => exact within_pure _
  | succ n ih =>
      unfold linkLoop
      have yields : Yields (· ≤ fatMaxValidCluster fs)
          (undoing (allocCluster fs) (freeChain fs (cs.headD 0))) :=
        yields_undoing fun st c ok => (allocCluster_ok ok).1
      refine Within.bind_yields (within_undoing (allocCluster_tables regular)
        (freeChain_tables regular (headD_valid valid).1)) yields fun c le => ?_
      refine (linkTo_tables regular valid c).bind fun _ => ih ?_
      exact List.forall_mem_append.2 ⟨valid, List.forall_mem_singleton.2 le⟩

theorem linkTo_proper (regular : Regular fs) (cs : List Nat) (value : Nat) :
    Proper (linkTo fs cs value) := by
  unfold linkTo
  exact Proper.ite (fun _ => (writeFatEntry_proper fs _ _).undoing (freeChain_proper regular _))
    fun _ => Proper.pure ()

theorem linkLoop_proper (regular : Regular fs) (n : Nat) (cs : List Nat) :
    Proper (linkLoop fs n cs) := by
  induction n generalizing cs with
  | zero => exact Proper.pure _
  | succ n ih =>
      unfold linkLoop
      refine ((allocCluster_proper fs).undoing (freeChain_proper regular _)).bind fun c => ?_
      exact (linkTo_proper regular cs c).bind fun _ => ih _

theorem writeFilePayload_proper (regular : Regular fs) (array : Bool) (data : List UInt8) :
    Proper (writeFilePayload fs array data) := by
  unfold writeFilePayload
  refine Proper.ite (fun _ => Proper.pure 0) fun _ => ?_
  refine Proper.ite (fun _ => Proper.failed) fun _ => ?_
  refine (linkLoop_proper regular _ _).bind fun cs => ?_
  refine (linkTo_proper regular cs _).bind fun _ => ?_
  refine ((storeClusters_proper fs cs data).undoing (freeChain_proper regular _)).bind fun _ => ?_
  exact Proper.pure _

/-- What the payload stores is in the table or in a cluster it has allocated. -/
theorem writeFilePayload_stores {sector : Nat} {array : Bool} {data : List UInt8}
    (regular : Regular fs)
    (mem : FatEvent.stored sector ∈ (writeFilePayload fs array data st).log) :
    InTables fs sector ∨
      ∃ c, FatEvent.allocated c ∈ (writeFilePayload fs array data st).log ∧
        sector ∈ clusterSectors fs c := by
  unfold writeFilePayload at mem ⊢
  split
  next none =>
    rw [if_pos none] at mem
    exact absurd mem List.not_mem_nil
  next some_ =>
    rw [if_neg some_] at mem
    split
    next unable =>
      rw [if_pos unable] at mem
      exact absurd mem List.not_mem_nil
    next able =>
      rw [if_neg able] at mem
      have linking : TablesOnly fs (linkLoop fs (clustersNeeded fs data.length) []) :=
        linkLoop_tables regular nofun
      cases linked : (linkLoop fs (clustersNeeded fs data.length) [] st).result with
      | error e =>
          rw [log_bind_error linked] at mem
          exact .inl (linking st _ mem)
      | ok cs =>
          rw [log_bind_ok linked] at mem ⊢
          have ok := linkLoop_ok linked
          have valid : ∀ c ∈ cs, c ≤ fatMaxValidCluster fs := fun c here =>
            ((ok c here).resolve_left List.not_mem_nil).1
          rcases List.mem_append.1 mem with mem | mem
          · exact .inl (linking st _ mem)
          · -- behind the allocation the table and the clusters allocated are written
            have later : Within (fun event => StoreIn fs cs event ∨
                ∀ s, event = .stored s → InTables fs s)
                (linkTo fs cs (fatEocValue fs) >>= fun _ =>
                  undoing (storeClusters fs cs data) (freeChain fs (cs.headD 0)) >>= fun _ =>
                    pure (cs.headD 0)) := by
              refine Within.bind (fun st event mem => .inr
                (tablesOnly_stored (linkTo_tables regular valid _) st event mem)) fun _ => ?_
              refine Within.bind (within_undoing
                (fun st event mem => .inl (storeClusters_only fs cs data st event mem))
                (fun st event mem => .inr (tablesOnly_stored
                  (freeChain_tables regular (headD_valid valid).1) st event mem))) fun _ => ?_
              exact within_pure _
            rcases later _ _ mem with ⟨c, here, s, inCluster, same⟩ | inTables
            · obtain rfl := FatEvent.stored.inj same
              exact .inr ⟨c, List.mem_append_left _
                ((ok c here).resolve_left List.not_mem_nil).2, inCluster⟩
            · exact .inl (inTables _ rfl)

end Bytes

/-! ## Where an entry is found -/

section Found

variable {fs : FatFs} {v : FatVolume} {σ ρ : Type} {dirCluster : Nat} {name : CString}

theorem visitSectors_comes {S : σ → Prop} {R : ρ → Prop} {failed : σ → ρ}
    {f : Nat → Bytes → σ → Visit σ ρ} {sectors : List Nat} {s : σ} (start : S s)
    (fails : ∀ s, S s → R (failed s))
    (visits : ∀ sector ∈ sectors, ∀ buf s, S s → Comes S R (f sector buf s)) :
    Comes S R (visitSectors v failed f sectors s) := by
  induction sectors generalizing s with
  | nil => exact start
  | cons sector rest ih =>
      obtain ⟨first, later⟩ := List.forall_mem_cons.1 visits
      unfold visitSectors
      split
      · exact fails s start
      next buf read =>
        have here := first buf s start
        split
        next r visited => exact visited ▸ here
        next s₁ visited =>
          rw [visited] at here
          exact ih here later

/-- What has been found is in one of the sectors. -/
def FoundIn (sectors : Nat → Prop) (r : Int × Option (FatDirEntry × Nat × Nat)) : Prop :=
  ∀ found, r.2 = some found → sectors found.2.1

theorem visitSlots_comes {sector off : Nat} {slots : List Slot}
    {s : LfnAccum × Option (FatDirEntry × Nat × Nat)} (start : s.2 = none) :
    Comes (fun s => s.2 = none) (FoundIn (· = sector))
      (visitSlots (-2) (fun place e stored found =>
        if fatNameEquals stored name then (some (e, place), some 0) else (found, none))
        sector off slots s) := by
  induction slots generalizing off s with
  | nil => exact start
  | cons slot rest ih =>
      obtain ⟨a, u⟩ := s
      obtain rfl : u = none := start
      cases slot with
      | unused => exact nofun
      | deleted => exact ih rfl
      | lfn e => exact ih rfl
      | entry e =>
          unfold visitSlots
          split
          · exact ih rfl
          · by_cases same : fatNameEquals (fatEntryToName e a).1 name = true
            · simp only [same, if_true]
              intro found eq
              obtain rfl := Option.some.inj eq
              rfl
            · simp only [same]
              exact ih rfl

/-- **An entry that is found lies in its directory.** -/
theorem fatDirFindEntry_place :
    FoundIn (InDirectory fs v dirCluster) (fatDirFindEntry fs v dirCluster name) := by
  unfold fatDirFindEntry walkDir
  -- what a visit of a sector of the directory comes to
  have slots : ∀ sector (buf : Bytes) (s : LfnAccum × Option (FatDirEntry × Nat × Nat)),
      InDirectory fs v dirCluster sector → s.2 = none →
        Comes (fun s => s.2 = none) (FoundIn (InDirectory fs v dirCluster))
        (dirSector (-2) (fun place e stored found =>
          if fatNameEquals stored name then (some (e, place), some 0) else (found, none))
          sector buf s) := fun sector buf s inside start =>
    (visitSlots_comes start).mono fun r here found eq => by
      have same : found.2.1 = sector := here found eq
      rwa [same]
  have unread : ∀ s : LfnAccum × Option (FatDirEntry × Nat × Nat), s.2 = none →
      FoundIn (InDirectory fs v dirCluster) ((-1 : Int), s.2) := fun s start found eq => by
    rw [start] at eq
    cases eq
  split
  next fixed =>
    have here := visitSectors_comes (v := v) (S := fun s => s.2 = none)
      (s := (lfnReset, (none : Option (FatDirEntry × Nat × Nat)))) rfl unread
      fun sector mem buf s start => slots sector buf s
        (by unfold InDirectory; rwa [if_pos fixed]) start
    split
    next r visited =>
      rw [visited] at here
      exact here
    next s visited =>
      rw [visited] at here
      exact fun found eq => absurd (here.symm.trans eq) nofun
  next chain =>
    have here := walk_comes (w := dirWalker fs v (-2) fun place e stored found =>
        if fatNameEquals stored name then (some (e, place), some 0) else (found, none))
      (P := ChainFrom fs v (dirStart fs dirCluster)) (S := fun s => s.2 = none)
      (R := FoundIn (InDirectory fs v dirCluster)) (g := guardOf fs) (s := (lfnReset, none))
      .start rfl (fun c s place goes start => by
        show Comes _ _ (if fs.clusterCount + 1 < c then _ else _)
        have low := clusterWalker_ends.1 goes
        split
        · exact unread s start
        next high =>
          refine visitSectors_comes start unread fun sector mem buf s start => ?_
          refine slots sector buf s ?_ start
          unfold InDirectory
          rw [if_neg chain]
          exact ⟨c, place, low, by omega, mem⟩)
      (fun c next place link => place.step link) unread
    split
    next r visited =>
      rw [visited] at here
      exact here
    next s cluster guard visited =>
      rw [visited] at here
      split
      · exact unread s here
      · exact fun found eq => absurd (here.symm.trans eq) nofun

end Found

/-! ## The operations -/

section Calls

variable {fs : FatFs} {v v₀ : FatVolume} {st : FatState} {dir sector : Nat} {e : FatDirEntry}
  {place : Nat × Nat} {path leaf : CString}

theorem fatEntryOf_inDirectory (found : fatEntryOf fs v dir leaf = some (e, place)) :
    InDirectory fs v dir place.1 := by
  unfold fatEntryOf at found
  dsimp only at found
  split at found
  · exact fatDirFindEntry_place _ found
  · cases found

theorem freeEntry_proper (regular : Regular fs) (e : FatDirEntry) : Proper (freeEntry fs e) :=
  Proper.ite (fun _ => freeChain_proper regular _) fun _ => Proper.pure ()

/-- A path without a last name leads to no entry. -/
theorem fatSplitParentLeaf_none (bad : path.head? ≠ some slash ∨ path = [slash]) :
    fatSplitParentLeaf path = none := by
  rcases bad with bad | rfl
  · exact if_pos bad
  · rfl

theorem fatOpRemove_proper (regular : Regular fs) (path : CString) :
    Proper (fatOpRemove fs path) := by
  unfold fatOpRemove
  refine Proper.ite (fun _ => Proper.failed) fun _ => ?_
  refine (Proper.query fun _ => orFailed_ne _).bind fun (dir, leaf) => ?_
  refine (Proper.query fun _ => orFailed_ne _).bind fun (e, place) => ?_
  refine (Proper.ask _).bind fun occupied => ?_
  refine Proper.ite (fun _ => Proper.failed) fun _ => ?_
  refine (freeEntry_proper regular e).bind fun _ => ?_
  exact (readSector_proper _).bind fun sec => writeSector_proper _ _

/-- What both operations do to an entry that is there. -/
theorem fatOpRemove_eq (good : ¬ (path.head? ≠ some slash ∨ path = [slash]))
    (parent : fatParentOf fs st.vol path = some (dir, leaf))
    (found : fatEntryOf fs st.vol dir leaf = some (e, place)) :
    fatOpRemove fs path st =
      (if (e.attr &&& attrDir ≠ 0 ∧ 2 ≤ e.cluster.toNat ∧
          fatDirIsEmpty fs st.vol e.cluster.toNat = false : Bool) then fail .failed
      else freeEntry fs e >>= fun _ => readSector place.1 >>= fun sec =>
        writeSector place.1 (Function.update sec place.2 0xE5)) st := by
  unfold fatOpRemove
  rw [if_neg good, query_bind_ok (s := st) (congrArg orFailed parent)]
  dsimp only
  rw [query_bind_ok (s := st) (congrArg orFailed found)]
  dsimp only
  rw [query_bind]

theorem fatOpWriteFile_eq (array : Bool) (data : List UInt8) (create : Writing Unit)
    (parent : fatParentOf fs st.vol path = some (dir, leaf))
    (found : fatEntryOf fs st.vol dir leaf = some (e, place)) :
    fatOpWriteFile fs path array data create st =
      (if e.attr &&& attrDir ≠ 0 then fail .failed
      else ignored (freeEntry fs e) >>= fun _ => writeFilePayload fs array data >>= fun first =>
        writeEntryAt place (withCluster (fun i => st.vol.sectors place.1 (place.2 + i)) first
          data.length)) st := by
  unfold fatOpWriteFile
  rw [query_bind_ok (s := st) (congrArg orFailed parent)]
  dsimp only
  rw [query_bind, found]
  rfl

/-- Whether the call stays where it may write is a matter of the cluster it frees first. -/
structure WriteCall.Settled (fs : FatFs) (st : FatState) (call : WriteCall) : Prop where
  confined_iff : call.Confined fs st ↔
    ∀ first, call.freed fs st.vol = some first → EntryInTables fs st.vol first
  frees : ∀ first, call.freed fs st.vol = some first →
    (freeChain fs first st).log <+: (call.run fs st).log

/-- A call that finds nothing to be freed and stores nothing. -/
theorem settled_of_silent {call : WriteCall} (log : (call.run fs st).log = [])
    (kept : call.freed fs st.vol = none) : call.Settled fs st := by
  have never : ∀ first, call.freed fs st.vol ≠ some first := fun first eq => by
    rw [kept] at eq
    cases eq
  refine ⟨iff_of_true ⟨fun sector mem => ?_, fun first eq => absurd eq (never first)⟩
    fun first eq => absurd eq (never first), fun first eq => absurd eq (never first)⟩
  rw [log] at mem
  exact absurd mem List.not_mem_nil

/-- A call that frees the chain of its entry, and behind that stays where it may write. -/
theorem settled_of_parts {call : WriteCall} {rest : List FatEvent} (regular : Regular fs)
    (entry : entryOfPath fs st.vol call.path = some (dir, e, place))
    (log : (call.run fs st).log = (freeEntry fs e st).log ++ rest)
    (freed : call.freed fs st.vol = if 2 ≤ e.cluster.toNat then some e.cluster.toNat else none)
    (later : ∀ sector, FatEvent.stored sector ∈ rest → InTables fs sector ∨
      InDirectory fs st.vol dir sector ∨
        ∃ c, FatEvent.allocated c ∈ rest ∧ sector ∈ clusterSectors fs c) :
    call.Settled fs st := by
  have frees : ∀ first, call.freed fs st.vol = some first →
      2 ≤ first ∧ freeEntry fs e = freeChain fs first := by
    intro first eq
    rw [freed] at eq
    split at eq
    next low =>
      obtain rfl := Option.some.inj eq
      exact ⟨low, if_pos low⟩
    · cases eq
  constructor
  · constructor
    · intro confined first eq
      exact (freeChain_tables_iff regular (frees first eq).1).1 (confined.frees first eq)
    · intro inTables
      have inside : ∀ first, call.freed fs st.vol = some first →
          ∀ sector, FatEvent.stored sector ∈ (freeChain fs first st).log → InTables fs sector :=
        fun first eq => (freeChain_tables_iff regular (frees first eq).1).2 (inTables first eq)
      refine ⟨fun sector mem => ?_, inside⟩
      rw [log] at mem ⊢
      rcases List.mem_append.1 mem with mem | mem
      · refine .inl ?_
        by_cases low : 2 ≤ e.cluster.toNat
        · rw [freeEntry, if_pos low] at mem
          exact inside _ (freed.trans (if_pos low)) sector mem
        · rw [freeEntry, if_neg low] at mem
          exact absurd mem List.not_mem_nil
      · rcases later sector mem with here | here | ⟨c, allocated, here⟩
        · exact .inl here
        · exact .inr (.inl ⟨_, entry, here⟩)
        · exact .inr (.inr ⟨c, List.mem_append_right _ allocated, here⟩)
  · intro first eq
    rw [log, (frees first eq).2]
    exact List.prefix_append _ _

theorem log_ignored {α : Type} (x : Writing α) (st : FatState) :
    (ignored x st).log = (x st).log := by
  unfold ignored
  rw [log_andThen]
  rcases (x st).result with (_ | _) | _
  · exact List.append_nil _
  · exact List.append_nil _
  · exact List.append_nil _

theorem entryOfPath_eq (parent : fatParentOf fs v path = some (dir, leaf)) :
    entryOfPath fs v path = (fatEntryOf fs v dir leaf).map fun found => (dir, found) := by
  unfold entryOfPath
  rw [parent]
  rfl

/-- What becomes of a path. -/
theorem entryOfPath_cases (fs : FatFs) (v : FatVolume) (path : CString) :
    (fatParentOf fs v path = none ∧ entryOfPath fs v path = none) ∨
      ∃ dir leaf, fatParentOf fs v path = some (dir, leaf) ∧
        ((fatEntryOf fs v dir leaf = none ∧ entryOfPath fs v path = none) ∨
          ∃ e place, fatEntryOf fs v dir leaf = some (e, place) ∧
            entryOfPath fs v path = some (dir, e, place)) := by
  cases parent : fatParentOf fs v path with
  | none =>
      refine .inl ⟨rfl, ?_⟩
      unfold entryOfPath
      rw [parent]
      rfl
  | some found =>
      obtain ⟨dir, leaf⟩ := found
      refine .inr ⟨dir, leaf, rfl, ?_⟩
      rw [entryOfPath_eq parent]
      cases entry : fatEntryOf fs v dir leaf with
      | none => exact .inl ⟨rfl, rfl⟩
      | some found => exact .inr ⟨found.1, found.2, rfl, rfl⟩

theorem entryOfPath_some (entry : entryOfPath fs v path = some (dir, e, place)) :
    ∃ leaf, fatParentOf fs v path = some (dir, leaf) ∧
      fatEntryOf fs v dir leaf = some (e, place) := by
  rcases entryOfPath_cases fs v path with ⟨-, none⟩ | ⟨dir', leaf, parent, ⟨-, none⟩ | found⟩
  · rw [none] at entry
    cases entry
  · rw [none] at entry
    cases entry
  obtain ⟨e', place', found, same⟩ := found
  rw [same] at entry
  obtain ⟨rfl, rfl, rfl⟩ := entry
  exact ⟨leaf, parent, found⟩

/-- Where no entry is found nothing is freed. -/
theorem freed_of_missing {call : WriteCall} (missing : entryOfPath fs v call.path = none) :
    call.freed fs v = none := by
  unfold WriteCall.freed
  rw [missing]
  rfl

theorem freed_remove (entry : entryOfPath fs v path = some (dir, e, place)) :
    (WriteCall.remove path).freed fs v =
      if e.cluster.toNat < 2 ∨ (e.attr &&& attrDir ≠ 0 &&
        !fatDirIsEmpty fs v e.cluster.toNat : Bool) then none else some e.cluster.toNat := by
  unfold WriteCall.freed
  rw [show (WriteCall.remove path).path = path from rfl, entry]
  rfl

theorem freed_overwrite {array : Bool} {data : List UInt8} {create : Writing Unit}
    (entry : entryOfPath fs v path = some (dir, e, place)) :
    (WriteCall.overwrite path array data create).freed fs v =
      if e.cluster.toNat < 2 ∨ (e.attr &&& attrDir ≠ 0 : Bool) then none
      else some e.cluster.toNat := by
  unfold WriteCall.freed
  rw [show (WriteCall.overwrite path array data create).path = path from rfl, entry]
  rfl

/-- A removal of what is not there stores nothing. -/
theorem fatOpRemove_missing (none : entryOfPath fs st.vol path = none) :
    (fatOpRemove fs path st).log = [] := by
  unfold fatOpRemove
  split
  · rfl
  rcases entryOfPath_cases fs st.vol path with ⟨parent, -⟩ | ⟨dir, leaf, parent, found⟩
  · rw [query_bind_error (s := st) (congrArg orFailed parent)]
  rcases found with ⟨missing, -⟩ | ⟨e, place, -, entry⟩
  · rw [query_bind_ok (s := st) (congrArg orFailed parent)]
    dsimp only
    rw [query_bind_error (s := st) (congrArg orFailed missing)]
  · rw [none] at entry
    cases entry

theorem remove_settled (regular : Regular fs) (st : FatState) (path : CString) :
    (WriteCall.remove path).Settled fs st := by
  rcases entry : entryOfPath fs st.vol path with _ | ⟨dir, e, place⟩
  · have kept : (WriteCall.remove path).freed fs st.vol = none := freed_of_missing entry
    exact settled_of_silent (fatOpRemove_missing entry) kept
  obtain ⟨leaf, parent, found⟩ := entryOfPath_some entry
  have bad : ¬ (path.head? ≠ some slash ∨ path = [slash]) := by
    intro bad
    rw [fatParentOf, fatSplitParentLeaf_none bad] at parent
    cases parent
  have run := fatOpRemove_eq bad parent found
  by_cases occupied : e.attr &&& attrDir ≠ 0 ∧ 2 ≤ e.cluster.toNat ∧
      fatDirIsEmpty fs st.vol e.cluster.toNat = false
  · refine settled_of_silent ?_ ?_
    · show (fatOpRemove fs path st).log = []
      rw [run, if_pos (decide_eq_true occupied)]
      rfl
    · rw [freed_remove entry, if_pos]
      exact .inr (by simp [occupied.1, occupied.2.2])
  rw [if_neg (by simpa using occupied)] at run
  obtain ⟨rest, log, parts⟩ := log_bind_cases (freeEntry fs e) (fun _ => readSector place.1 >>=
    fun sec => writeSector place.1 (Function.update sec place.2 0xE5)) st
  refine settled_of_parts regular entry ((congrArg LoggedRun.log run).trans log) ?_ ?_
  · rw [freed_remove entry]
    by_cases low : 2 ≤ e.cluster.toNat
    · rw [if_pos low, if_neg]
      rintro (few | nonempty)
      · omega
      · simp only [Bool.and_eq_true, decide_eq_true_eq, Bool.not_eq_true'] at nonempty
        exact occupied ⟨nonempty.1, low, nonempty.2⟩
    · rw [if_neg low, if_pos (.inl (by omega))]
  · intro sector mem
    rcases parts with rfl | ⟨_, s', -, rfl⟩
    · exact absurd mem List.not_mem_nil
    · have only : Within (· = FatEvent.stored place.1) (readSector place.1 >>= fun sec =>
          writeSector place.1 (Function.update sec place.2 0xE5)) :=
        (within_query _).bind fun _ => writeSector_only _ _
      obtain rfl := FatEvent.stored.inj (only s' _ mem)
      exact .inr (.inl (fatEntryOf_inDirectory found))

/-- Behind the freeing an overwriting call stores in the table, in what it has allocated, and
the entry. -/
theorem overwrite_later (regular : Regular fs) (array : Bool) (data : List UInt8)
    (raw : Nat → Bytes)
    (mem : FatEvent.stored sector ∈ ((writeFilePayload fs array data >>= fun first =>
      writeEntryAt place (raw first)) st).log) :
    InTables fs sector ∨ sector = place.1 ∨
      ∃ c, FatEvent.allocated c ∈ ((writeFilePayload fs array data >>= fun first =>
        writeEntryAt place (raw first)) st).log ∧ sector ∈ clusterSectors fs c := by
  obtain ⟨rest, log, parts⟩ := log_bind_cases (writeFilePayload fs array data)
    (fun first => writeEntryAt place (raw first)) st
  rw [log] at mem ⊢
  rcases List.mem_append.1 mem with mem | mem
  · rcases writeFilePayload_stores regular mem with here | ⟨c, allocated, here⟩
    · exact .inl here
    · exact .inr (.inr ⟨c, List.mem_append_left _ allocated, here⟩)
  · rcases parts with rfl | ⟨first, s', -, rfl⟩
    · exact absurd mem List.not_mem_nil
    · exact .inr (.inl (FatEvent.stored.inj (writeEntryAt_only place _ s' _ mem)))

theorem overwrite_settled (regular : Regular fs) (array : Bool) (data : List UInt8)
    (create : Writing Unit) (entry : entryOfPath fs st.vol path = some (dir, e, place)) :
    (WriteCall.overwrite path array data create).Settled fs st := by
  obtain ⟨leaf, parent, found⟩ := entryOfPath_some entry
  have run := fatOpWriteFile_eq array data create parent found
  by_cases isDir : e.attr &&& attrDir ≠ 0
  · refine settled_of_silent ?_ ?_
    · show (fatOpWriteFile fs path array data create st).log = []
      rw [run, if_pos isDir]
      rfl
    · rw [freed_overwrite entry, if_pos (.inr (decide_eq_true isDir))]
  rw [if_neg isDir] at run
  obtain ⟨rest, log, parts⟩ := log_bind_cases (ignored (freeEntry fs e))
    (fun _ => writeFilePayload fs array data >>= fun first =>
      writeEntryAt place (withCluster (fun i => st.vol.sectors place.1 (place.2 + i)) first
        data.length)) st
  rw [log_ignored] at log
  refine settled_of_parts regular entry ((congrArg LoggedRun.log run).trans log) ?_ ?_
  · rw [freed_overwrite entry]
    by_cases low : 2 ≤ e.cluster.toNat
    · rw [if_pos low, if_neg]
      rintro (few | dir)
      · omega
      · exact isDir (of_decide_eq_true dir)
    · rw [if_neg low, if_pos (.inl (by omega))]
  · intro sector mem
    rcases parts with rfl | ⟨_, s', -, rfl⟩
    · exact absurd mem List.not_mem_nil
    · rcases overwrite_later regular array data _ mem with here | rfl | allocated
      · exact .inl here
      · exact .inr (.inl (fatEntryOf_inDirectory found))
      · exact .inr (.inr allocated)

theorem overwrite_ends (regular : Regular fs) (array : Bool) (data : List UInt8)
    (create : Writing Unit) (entry : entryOfPath fs st.vol path = some (dir, e, place)) :
    ∃ x : Writing Unit, Proper x ∧ fatOpWriteFile fs path array data create st = x st := by
  obtain ⟨leaf, parent, found⟩ := entryOfPath_some entry
  refine ⟨_, ?_, fatOpWriteFile_eq array data create parent found⟩
  refine Proper.ite (fun _ => Proper.failed) fun _ => ?_
  refine (freeEntry_proper regular e).ignored.bind fun _ => ?_
  exact (writeFilePayload_proper regular array data).bind fun _ => writeEntryAt_proper _ _

end Calls

/-- **A call that removes or overwrites ends, and stays where it may write exactly if the entry
of the first cluster that it frees lies in the table**, in every copy it comes to. -/
theorem write_confinement_iff {v₀ : FatVolume} {fs : FatFs} (mounted : fatFsMount v₀ = .ok fs)
    (consistent : Consistent fs) (st : FatState) (call : WriteCall)
    (overwrites : call.Overwrites fs st.vol) :
    call.Accounted fs st ∧ (call.Confined fs st ↔
      ∀ first, call.freed fs st.vol = some first → EntryInTables fs st.vol first) := by
  have regular := regular_of_consistent mounted consistent
  cases call with
  | remove path =>
      obtain ⟨iff, frees⟩ := remove_settled regular st path
      have proper := fatOpRemove_proper regular path
      exact ⟨⟨proper.ends st, proper.logs st, frees⟩, iff⟩
  | overwrite path array data create =>
      obtain ⟨⟨dir, e, place⟩, entry⟩ := Option.isSome_iff_exists.1 overwrites
      obtain ⟨iff, frees⟩ := overwrite_settled regular array data create entry
      obtain ⟨x, proper, run⟩ := overwrite_ends regular array data create entry
      have same : (WriteCall.overwrite path array data create).run fs st = x st := run
      refine ⟨⟨?_, ?_, frees⟩, iff⟩
      · rw [same]
        exact proper.ends st
      · rw [same]
        exact proper.logs st

/-- The only file of a floppy is overwritten. -/
theorem write_confinement_oneFile :
    (WriteCall.overwrite [slash, 65] true [1, 2] (pure ())).Confined
      (fatGeometry (oneFileFloppy.sectors 0)) ⟨oneFileFloppy, 2⟩ := by
  have law := write_confinement_iff oneFileFloppy_mounted
    (consistent_of_dataStart oneFileFloppy_mounted (by decide)) ⟨oneFileFloppy, 2⟩
    (.overwrite [slash, 65] true [1, 2] (pure ())) (by rfl)
  refine law.2.2 fun first freed fi lt _ sector mem => ?_
  have two : 2 = first := Option.some.inj freed
  subst two
  exact entrySectors_inTables (fatFsMount_sound oneFileFloppy_mounted) (by decide) (by decide)
    lt mem

/-- The floppy with a first cluster of 65535 in the entry of its file. -/
def strayFloppy : FatVolume where
  sectors sector i :=
    if sector = 19 ∧ (i = 26 ∨ i = 27) then 0xFF else oneFileFloppy.sectors sector i
  responds _ := true

/-- Removing the file stores a zero in sector 192, which is a sector of the data. -/
theorem stray_cluster_freed :
    ¬ ∀ (v₀ : FatVolume) (fs : FatFs), fatFsMount v₀ = .ok fs → Consistent fs →
      ∀ (st : FatState) (call : WriteCall), call.Overwrites fs st.vol →
        call.Accounted fs st ∧ call.Confined fs st := by
  intro all
  have mounted : fatFsMount strayFloppy = .ok (fatGeometry (strayFloppy.sectors 0)) := rfl
  have consistent := consistent_of_dataStart mounted (by decide)
  have confined := (all _ _ mounted consistent ⟨strayFloppy, 2⟩ (.remove [slash, 65]) trivial).2
  have inTables := (remove_settled (regular_of_consistent mounted consistent) ⟨strayFloppy, 2⟩
    [slash, 65]).1.1 confined 65535 (by rfl)
  have inside := inTables 0 (by decide) (fun _ _ _ _ => rfl) 192 (by decide)
  exact absurd inside.2 (by decide)

end NTux.Fat.Disk
