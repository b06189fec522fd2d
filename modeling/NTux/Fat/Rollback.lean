import Mathlib.Data.Finset.Card
import Mathlib.Order.Interval.Finset.Nat
import NTux.Fat.Payload

/-!
# Rolling an allocation back

When an allocation fails, the clusters allocated so far are a chain from the first one
(`Allocated`), and `fat_free_chain` clears it link by link.  It finds each cluster by the entry
of the one before.  An entry of a FAT32 table keeps 28 bits, and the largest eight values mark
the end of a chain; a cluster with such a number, or a larger one, is never found again, and
stays allocated (`fatFreeLoop_leaves`).
-/

namespace NTux.Fat.Disk

open NTux.Fs NTux.Lib NTux.Lib.Bytes

/-- An entry can lead to the cluster. -/
def Fits (fs : FatFs) (c : Nat) : Prop := fs.type.masked c = c ∧ fatIsEoc fs c = false

/-- The cluster that is allocated first. -/
def firstFound (fs : FatFs) (st : FatState) : Option Nat :=
  findFree fs st.vol (allocOrder (allocStart (fatMaxValidCluster fs) st.nextFree)
    (fatMaxValidCluster fs))

/-- Entries can lead to all free clusters but the one allocated first. -/
def LinksFit (fs : FatFs) (st : FatState) : Prop :=
  ∀ c, 2 ≤ c → c ≤ fatMaxValidCluster fs → fatReadFatEntry fs st.vol c = some 0 →
    firstFound fs st ≠ some c → Fits fs c

/-- One of the allocations fails. -/
def AllocationFails (fs : FatFs) (st : FatState) (needed : Nat) : Prop :=
  ∃ allocated st', linkClusters fs needed st [] = some (.failed allocated st')

/-- Every entry is as it was. -/
def Restored (fs : FatFs) (v v' : FatVolume) : Prop :=
  ∀ d < fatFatEntryCount fs, fatReadFatEntry fs v' d = fatReadFatEntry fs v d

/-- Each of the clusters leads to the next one, and the last to the end. -/
def LinkedTo (table : Nat → Nat) (eoc : Nat) : List Nat → Prop
  | [] => True
  | [c] => table c = eoc
  | c :: d :: rest => table c = d ∧ LinkedTo table eoc (d :: rest)

variable {fs : FatFs} {v : FatVolume} {st st' : FatState} {c d : Nat} {cs : List Nat}

/-! ## Values -/

theorem masked_zero (t : FatType) : t.masked 0 = 0 := by cases t <;> rfl

theorem masked_eoc (fs : FatFs) : fs.type.masked (fatEocValue fs) = fatEocValue fs := by
  unfold FatType.masked fatEocValue
  cases fs.type <;> rfl

theorem isEoc_eoc (fs : FatFs) : fatIsEoc fs (fatEocValue fs) = true := by
  unfold fatIsEoc fatEocValue
  cases fs.type <;> rfl

theorem eoc_ne_zero (fs : FatFs) : fatEocValue fs ≠ 0 := by
  unfold fatEocValue
  cases fs.type <;> decide

/-! ## Linked clusters -/

section Linked

variable {table table' : Nat → Nat} {eoc : Nat}

theorem LinkedTo.congr (linked : LinkedTo table eoc cs) (same : ∀ c ∈ cs, table' c = table c) :
    LinkedTo table' eoc cs := by
  induction cs with
  | nil => trivial
  | cons c rest ih =>
      cases rest with
      | nil => exact (same c List.mem_cons_self).trans linked
      | cons d rest =>
          exact ⟨(same c List.mem_cons_self).trans linked.1,
            ih linked.2 fun x mem => same x (List.mem_cons_of_mem _ mem)⟩

/-- Another cluster is linked behind the last one. -/
theorem LinkedTo.snoc {p : Nat} (linked : LinkedTo table eoc (cs ++ [p]))
    (nodup : (cs ++ [p]).Nodup) (new : c ∉ cs ++ [p])
    (kept : ∀ x, x ≠ c → x ≠ p → table' x = table x) (link : table' p = c)
    (last : table' c = eoc) : LinkedTo table' eoc (cs ++ [p] ++ [c]) := by
  induction cs with
  | nil => exact ⟨link, last⟩
  | cons a rest ih =>
      obtain ⟨notIn, nodup⟩ := List.nodup_cons.1 nodup
      rw [List.cons_append, List.mem_cons, not_or] at new
      obtain ⟨ne, new⟩ := new
      have other : a ≠ p := fun same => notIn (same ▸ List.mem_append_right _ List.mem_cons_self)
      have here : table' a = table a := kept a (Ne.symm ne) other
      cases rest with
      | nil => exact ⟨here.trans linked.1, link, last⟩
      | cons b rest => exact ⟨here.trans linked.1, ih linked.2 nodup new⟩

/-- No cluster of a chain has a free entry. -/
theorem LinkedTo.ne_zero (linked : LinkedTo table eoc cs) (inside : ∀ c ∈ cs, 2 ≤ c)
    (eocNe : eoc ≠ 0) (mem : c ∈ cs) : table c ≠ 0 := by
  induction cs with
  | nil => cases mem
  | cons a rest ih =>
      obtain ⟨-, later⟩ := List.forall_mem_cons.1 inside
      cases rest with
      | nil =>
          obtain rfl := List.mem_singleton.1 mem
          exact fun zero => eocNe (linked.symm.trans zero)
      | cons b rest =>
          rcases List.mem_cons.1 mem with rfl | mem
          · rw [linked.1]
            have := later b List.mem_cons_self
            omega
          · exact ih linked.2 later mem

end Linked

/-! ## Freeing a chain -/

theorem fatFreeLoop_step (steady : Steady fs v) (low : 2 ≤ c) (inTable : c < fatFatEntryCount fs) :
    ∃ v₁, Steady fs v₁ ∧
      (∀ d < fatFatEntryCount fs, tableOf fs v₁ d = if d = c then 0 else tableOf fs v d) ∧
      ∀ fuel, fatFreeLoop fs (fuel + 1) v c =
        if fatIsEoc fs (tableOf fs v c) then some v₁
        else if tableOf fs v c < 2 ∨ fatMaxValidCluster fs < tableOf fs v c then some v₁
        else fatFreeLoop fs fuel v₁ (tableOf fs v c) := by
  obtain ⟨v₁, written, steady₁, table⟩ := steady.write inTable 0
  rw [masked_zero] at table
  refine ⟨v₁, steady₁, table, fun fuel => ?_⟩
  rw [fatFreeLoop, if_neg (Nat.not_lt.2 low), steady.read, Option.bind_some, written,
    Option.bind_some]

/-- **A chain whose links fit is cleared from its first cluster to its last.** -/
theorem fatFreeLoop_of_linked {first : Nat} {rest : List Nat} {fuel : Nat} (steady : Steady fs v)
    (linked : LinkedTo (tableOf fs v) (fatEocValue fs) (first :: rest))
    (nodup : (first :: rest).Nodup)
    (inside : ∀ c ∈ first :: rest, 2 ≤ c ∧ c ≤ fatMaxValidCluster fs)
    (fit : ∀ c ∈ rest, Fits fs c) (enough : (first :: rest).length < fuel) :
    ∃ v', fatFreeLoop fs fuel v first = some v' ∧ Steady fs v' ∧
      ∀ d < fatFatEntryCount fs,
        tableOf fs v' d = if d ∈ first :: rest then 0 else tableOf fs v d := by
  induction rest generalizing first v fuel with
  | nil =>
      obtain ⟨low, high⟩ := inside first List.mem_cons_self
      have inTable := Nat.lt_of_le_of_lt high (maxValidCluster_lt (Nat.le_trans low high))
      obtain ⟨v₁, steady₁, table, step⟩ := fatFreeLoop_step steady low inTable
      obtain ⟨fuel, rfl⟩ := Nat.exists_eq_add_of_le' (Nat.le_of_lt enough)
      have value : tableOf fs v first = fatEocValue fs := linked
      refine ⟨v₁, ?_, steady₁, fun d dIn => ?_⟩
      · rw [List.length_singleton, step, value, if_pos (isEoc_eoc fs)]
      · rw [table d dIn]
        simp only [List.mem_singleton]
  | cons next rest ih =>
      obtain ⟨⟨low, high⟩, later⟩ := List.forall_mem_cons.1 inside
      obtain ⟨fitsNext, fitLater⟩ := List.forall_mem_cons.1 fit
      obtain ⟨notIn, nodupLater⟩ := List.nodup_cons.1 nodup
      have inTable := Nat.lt_of_le_of_lt high (maxValidCluster_lt (Nat.le_trans low high))
      obtain ⟨v₁, steady₁, table, step⟩ := fatFreeLoop_step steady low inTable
      obtain ⟨fuel, rfl⟩ : ∃ f, fuel = f + 1 := ⟨fuel - 1, by omega⟩
      obtain ⟨nextLow, nextHigh⟩ := later next List.mem_cons_self
      have within : ∀ c ∈ next :: rest, c < fatFatEntryCount fs := fun c mem =>
        Nat.lt_of_le_of_lt (later c mem).2 (maxValidCluster_lt (Nat.le_trans low high))
      -- the links behind the first one are still there
      have linkedLater : LinkedTo (tableOf fs v₁) (fatEocValue fs) (next :: rest) := by
        refine linked.2.congr fun c mem => ?_
        rw [table c (within c mem), if_neg fun same : c = first => notIn (same ▸ mem)]
      obtain ⟨v', freed, steady', after⟩ := ih steady₁ linkedLater nodupLater later fitLater
        (Nat.lt_of_succ_lt_succ enough)
      refine ⟨v', ?_, steady', fun d dIn => ?_⟩
      · rw [step, linked.1, fitsNext.2, if_neg Bool.false_ne_true, if_neg (by omega)]
        exact freed
      · rw [after d dIn, table d dIn]
        simp only [List.mem_cons (a := d) (b := first)]
        by_cases here : d = first
        · rw [if_pos here, ite_self, if_pos (Or.inl here)]
        · rw [if_neg here]
          simp only [here, false_or]

/-- The clusters in use. -/
def inUse (fs : FatFs) (v : FatVolume) : Finset Nat :=
  (Finset.Icc 2 (fatMaxValidCluster fs)).filter fun c => tableOf fs v c ≠ 0

/-- Clearing a used entry leaves fewer of them. -/
theorem inUse_lt {v₁ : FatVolume} (low : 2 ≤ c) (high : c ≤ fatMaxValidCluster fs)
    (used : tableOf fs v c ≠ 0)
    (table : ∀ d < fatFatEntryCount fs, tableOf fs v₁ d = if d = c then 0 else tableOf fs v d) :
    (inUse fs v₁).card < (inUse fs v).card := by
  have inTable := maxValidCluster_lt (Nat.le_trans low high)
  refine Finset.card_lt_card (Finset.ssubset_iff_subset_ne.2 ⟨fun x mem => ?_, fun same => ?_⟩)
  · obtain ⟨range, ne⟩ := Finset.mem_filter.1 mem
    rw [table x (Nat.lt_of_le_of_lt (Finset.mem_Icc.1 range).2 inTable)] at ne
    refine Finset.mem_filter.2 ⟨range, fun zero => ne ?_⟩
    rw [zero, ite_self]
  · have mem : c ∈ inUse fs v := Finset.mem_filter.2 ⟨Finset.mem_Icc.2 ⟨low, high⟩, used⟩
    rw [← same] at mem
    refine (Finset.mem_filter.1 mem).2 ?_
    rw [table c (Nat.lt_of_le_of_lt high inTable), if_pos rfl]

/-- **A cluster that no entry can lead to is not freed**, unless the chain starts with it. -/
theorem fatFreeLoop_leaves {fuel x : Nat} (steady : Steady fs v) (low : 2 ≤ c)
    (high : c ≤ fatMaxValidCluster fs) (enough : (inUse fs v).card < fuel)
    (inTable : x < fatFatEntryCount fs) (ne : x ≠ c) (unfit : ¬ Fits fs x) :
    ∃ v', fatFreeLoop fs fuel v c = some v' ∧ tableOf fs v' x = tableOf fs v x := by
  induction fuel generalizing v c with
  | zero => omega
  | succ fuel ih =>
      have cIn := Nat.lt_of_le_of_lt high (maxValidCluster_lt (Nat.le_trans low high))
      obtain ⟨v₁, steady₁, table, step⟩ := fatFreeLoop_step steady low cIn
      have same : tableOf fs v₁ x = tableOf fs v x := by rw [table x inTable, if_neg ne]
      rw [step]
      split
      · exact ⟨v₁, rfl, same⟩
      next notEnd =>
        split
        · exact ⟨v₁, rfl, same⟩
        next inside =>
          have used : tableOf fs v c ≠ 0 := by omega
          have fewer := inUse_lt low high used table
          -- the value read fits, so that it is not `x`
          have other : x ≠ tableOf fs v c := by
            rintro rfl
            exact unfit ⟨masked_of_read (steady.read c), Bool.eq_false_iff.2 notEnd⟩
          obtain ⟨v', freed, after⟩ := ih steady₁ (by omega) (by omega) (by omega) other
          exact ⟨v', freed, after.trans same⟩

/-! ## Allocating -/

/-- What an allocation does. -/
theorem fatAllocCluster_spec (steady : Steady fs st.vol)
    (done : fatAllocCluster fs st false = some (c, st')) :
    firstFound fs st = some c ∧ (2 ≤ c ∧ c ≤ fatMaxValidCluster fs) ∧ tableOf fs st.vol c = 0 ∧
      Steady fs st'.vol ∧ ∀ d < fatFatEntryCount fs,
        tableOf fs st'.vol d = if d = c then fatEocValue fs else tableOf fs st.vol d := by
  unfold fatAllocCluster at done
  dsimp only at done
  split at done
  · cases done
  next some_ =>
    obtain ⟨c', found, done⟩ := Option.bind_eq_some_iff.1 done
    obtain ⟨v', marked, done⟩ := Option.bind_eq_some_iff.1 done
    rw [if_neg Bool.false_ne_true, Option.map_some] at done
    obtain ⟨rfl, rfl⟩ := Prod.mk.inj (Option.some.inj done)
    obtain ⟨mem, free⟩ := findFree_eq_some found
    have bounds := allocStart_bounds (Nat.le_of_not_lt some_) st.nextFree
    obtain ⟨low, high⟩ := (mem_allocOrder bounds.1 bounds.2).1 mem
    have inTable := Nat.lt_of_le_of_lt high (maxValidCluster_lt (Nat.le_trans low high))
    obtain ⟨v'', written, steady', table⟩ := steady.write inTable (fatEocValue fs)
    rw [marked] at written
    obtain rfl := Option.some.inj written
    rw [masked_eoc] at table
    exact ⟨found, ⟨low, high⟩, by rw [tableOf, free, Option.getD_some], steady', table⟩

/-- What holds of the clusters allocated, if one more allocation and link preserve it, holds
where an allocation fails. -/
theorem linkClusters_failed {P : FatState → List Nat → Prop} {n : Nat} {allocated : List Nat}
    (step : ∀ st cs c st₁ st₂, P st cs → fatAllocCluster fs st false = some (c, st₁) →
      (if 2 ≤ cs.getLastD 0 then
        ∃ v, fatWriteFatEntry fs st₁.vol (cs.getLastD 0) c = some v ∧ st₂ = ⟨v, st₁.nextFree⟩
      else st₂ = st₁) → P st₂ (cs ++ [c]))
    (start : P st cs) (fails : linkClusters fs n st cs = some (.failed allocated st')) :
    P st' allocated ∧ fatAllocCluster fs st' false = none := by
  induction n generalizing st cs with
  | zero => cases fails
  | succ n ih =>
      unfold linkClusters at fails
      split at fails
      next none =>
        obtain ⟨rfl, rfl⟩ := Linking.failed.inj (Option.some.inj fails)
        exact ⟨start, none⟩
      next c st₁ alloc =>
        dsimp only at fails
        split at fails
        next linked =>
          obtain ⟨v, written, fails⟩ := Option.bind_eq_some_iff.1 fails
          exact ih (step st cs c st₁ ⟨v, st₁.nextFree⟩ start alloc
            (by rw [if_pos linked]; exact ⟨v, written, rfl⟩)) fails
        next first =>
          exact ih (step st cs c st₁ st₁ start alloc (by rw [if_neg first])) fails

/-- The first cluster is not linked to. -/
theorem linkClusters_start {n : Nat} (alloc : fatAllocCluster fs st false = some (c, st')) :
    linkClusters fs (n + 1) st [] = linkClusters fs n st' [c] := by
  rw [linkClusters, alloc]
  rfl

theorem linkClusters_next (cs : List Nat) {n prev : Nat} (low : 2 ≤ prev)
    (alloc : fatAllocCluster fs st false = some (c, st'))
    (written : fatWriteFatEntry fs st'.vol prev c = some v) :
    linkClusters fs (n + 1) st (cs ++ [prev]) =
      linkClusters fs n ⟨v, st'.nextFree⟩ (cs ++ [prev] ++ [c]) := by
  have last : (cs ++ [prev]).getLastD 0 = prev := List.getLastD_concat ..
  rw [linkClusters, alloc]
  dsimp only
  rw [last, if_pos low, written, Option.bind_some]

/-! ## With links that fit -/

/-- The clusters allocated so far, from the state before. -/
structure Allocated (fs : FatFs) (st₀ st : FatState) (cs : List Nat) : Prop where
  steady : Steady fs st.vol
  inside : ∀ c ∈ cs, 2 ≤ c ∧ c ≤ fatMaxValidCluster fs
  free : ∀ c ∈ cs, tableOf fs st₀.vol c = 0
  nodup : cs.Nodup
  fit : ∀ c ∈ cs.tail, Fits fs c
  first : ∀ c ∈ cs.head?, firstFound fs st₀ = some c
  empty : cs = [] → st = st₀
  others : ∀ d < fatFatEntryCount fs, d ∉ cs → tableOf fs st.vol d = tableOf fs st₀.vol d
  linked : LinkedTo (tableOf fs st.vol) (fatEocValue fs) cs

theorem Allocated.step {st₀ st₁ st₂ : FatState} (steady₀ : Steady fs st₀.vol)
    (fit : LinksFit fs st₀) (inv : Allocated fs st₀ st cs)
    (alloc : fatAllocCluster fs st false = some (c, st₁))
    (link : if 2 ≤ cs.getLastD 0 then
        ∃ v, fatWriteFatEntry fs st₁.vol (cs.getLastD 0) c = some v ∧ st₂ = ⟨v, st₁.nextFree⟩
      else st₂ = st₁) : Allocated fs st₀ st₂ (cs ++ [c]) := by
  obtain ⟨found, ⟨low, high⟩, zero, steady₁, table₁⟩ := fatAllocCluster_spec inv.steady alloc
  have inTable := Nat.lt_of_le_of_lt high (maxValidCluster_lt (Nat.le_trans low high))
  have new : c ∉ cs := fun mem =>
    inv.linked.ne_zero (fun c mem => (inv.inside c mem).1) (eoc_ne_zero fs) mem zero
  have free : tableOf fs st₀.vol c = 0 := (inv.others c inTable new).symm.trans zero
  have inside : ∀ x ∈ cs ++ [c], 2 ≤ x ∧ x ≤ fatMaxValidCluster fs :=
    List.forall_mem_append.2 ⟨inv.inside, List.forall_mem_singleton.2 ⟨low, high⟩⟩
  have allFree : ∀ x ∈ cs ++ [c], tableOf fs st₀.vol x = 0 :=
    List.forall_mem_append.2 ⟨inv.free, List.forall_mem_singleton.2 free⟩
  have nodup : (cs ++ [c]).Nodup :=
    List.nodup_append.2 ⟨inv.nodup, List.nodup_singleton c, fun a mem b mem' same =>
      new (List.mem_singleton.1 mem' ▸ same ▸ mem)⟩
  rcases List.eq_nil_or_concat cs with rfl | ⟨before, prev, rfl⟩
  · -- the first cluster
    rw [if_neg (by decide)] at link
    obtain rfl := link
    obtain rfl := inv.empty rfl
    refine ⟨steady₁, inside, allFree, nodup, fun x mem => absurd mem List.not_mem_nil, ?_,
      fun none => ?_, ?_, ?_⟩
    · rintro x same
      obtain rfl := Option.some.inj same
      exact found
    · cases none
    · intro d dIn out
      rw [table₁ d dIn, if_neg fun same : d = c => out (same ▸ List.mem_singleton_self _)]
    · show tableOf fs st₂.vol c = fatEocValue fs
      rw [table₁ c inTable, if_pos rfl]
  · -- a cluster behind `prev`
    rw [List.concat_eq_append] at *
    have last : (before ++ [prev]).getLastD 0 = prev := List.getLastD_concat ..
    obtain ⟨prevLow, prevHigh⟩ := inv.inside prev (List.mem_append_right _ List.mem_cons_self)
    rw [last, if_pos prevLow] at link
    obtain ⟨v, written, rfl⟩ := link
    have prevIn := Nat.lt_of_le_of_lt prevHigh (maxValidCluster_lt (Nat.le_trans low high))
    obtain ⟨v', written', steady', table'⟩ := steady₁.write prevIn c
    rw [written] at written'
    obtain rfl := Option.some.inj written'
    have notFirst : firstFound fs st₀ ≠ some c := by
      obtain ⟨head, isHead⟩ : ∃ head, (before ++ [prev]).head? = some head := by
        cases before with
        | nil => exact ⟨prev, rfl⟩
        | cons a rest => exact ⟨a, rfl⟩
      rw [inv.first head isHead]
      rintro same
      obtain rfl := Option.some.inj same
      exact new (List.mem_of_mem_head? isHead)
    have fits : Fits fs c := fit c low high (by rw [steady₀.read, free]) notFirst
    have ne : c ≠ prev := fun same => new (same ▸ List.mem_append_right _ List.mem_cons_self)
    rw [fits.1] at table'
    have kept : ∀ x < fatFatEntryCount fs, x ≠ c → x ≠ prev →
        tableOf fs v x = tableOf fs st.vol x := by
      intro x xIn ne₁ ne₂
      rw [table' x xIn, if_neg ne₂, table₁ x xIn, if_neg ne₁]
    refine ⟨steady', inside, allFree, nodup, ?_, ?_, fun none => ?_, ?_, ?_⟩
    · have tail : (before ++ [prev] ++ [c]).tail = (before ++ [prev]).tail ++ [c] := by
        cases before <;> rfl
      rw [tail]
      exact List.forall_mem_append.2 ⟨inv.fit, List.forall_mem_singleton.2 fits⟩
    · have head : (before ++ [prev] ++ [c]).head? = (before ++ [prev]).head? := by
        cases before <;> rfl
      rw [head]
      exact inv.first
    · simp at none
    · intro d dIn out
      rw [List.mem_append, not_or, List.mem_singleton] at out
      have away : d ≠ prev := fun same =>
        out.1 (same ▸ List.mem_append_right _ List.mem_cons_self)
      rw [kept d dIn out.2 away, inv.others d dIn out.1]
    · -- outside the table nothing is linked, so that the table may be taken as it was there
      let table : Nat → Nat := fun x =>
        if x < fatFatEntryCount fs then tableOf fs v x else tableOf fs st.vol x
      have within : ∀ x ∈ before ++ [prev] ++ [c], x < fatFatEntryCount fs := fun x mem =>
        Nat.lt_of_le_of_lt (inside x mem).2 (maxValidCluster_lt (Nat.le_trans low high))
      have chain : LinkedTo table (fatEocValue fs) (before ++ [prev] ++ [c]) := by
        refine inv.linked.snoc inv.nodup new (fun x ne₁ ne₂ => ?_) ?_ ?_
        · show (if x < fatFatEntryCount fs then _ else _) = _
          split
          next xIn => exact kept x xIn ne₁ ne₂
          next => rfl
        · show (if prev < fatFatEntryCount fs then _ else _) = _
          rw [if_pos prevIn, table' prev prevIn, if_pos rfl]
        · show (if c < fatFatEntryCount fs then _ else _) = _
          rw [if_pos inTable, table' c inTable, if_neg ne, table₁ c inTable, if_pos rfl]
      refine chain.congr fun x mem => ?_
      show _ = (if x < fatFatEntryCount fs then _ else _)
      rw [if_pos (within x mem)]

/-- **Where the links fit, a rollback restores every entry.** -/
theorem rollBack_restores {st₀ : FatState} (steady₀ : Steady fs st₀.vol)
    (inv : Allocated fs st₀ st cs) :
    ∃ st', rollBack fs st (cs.headD 0) = .failed st' ∧ Restored fs st₀.vol st'.vol := by
  cases cs with
  | nil =>
      obtain rfl := inv.empty rfl
      exact ⟨st, rfl, fun d _ => rfl⟩
  | cons first rest =>
      have length : (first :: rest).length ≤ fatMaxValidCluster fs + 1 := by
        have sub : first :: rest ⊆ List.range' 2 (fatMaxValidCluster fs - 1) := fun x mem =>
          List.mem_range'_1.2 ⟨(inv.inside x mem).1, by have := inv.inside x mem; omega⟩
        have le := (List.subperm_of_subset inv.nodup sub).length_le
        rw [List.length_range'] at le
        omega
      obtain ⟨v', freed, steady', table⟩ := fatFreeLoop_of_linked inv.steady inv.linked inv.nodup inv.inside
        inv.fit (Nat.lt_succ_of_le length)
      have here : 2 ≤ first := (inv.inside first List.mem_cons_self).1
      refine ⟨⟨v', st.nextFree⟩, ?_, fun d dIn => ?_⟩
      · unfold rollBack fatFreeChain
        rw [List.headD_cons, if_pos here, freed]
      · rw [steady'.read, steady₀.read, table d dIn]
        split
        next mem => rw [inv.free d mem]
        next out => rw [inv.others d dIn out]

/-! ## With a cluster that no entry can lead to -/

/-- Where an allocation fails, the clusters allocated start with the one found first. -/
theorem linkClusters_first {st₀ : FatState} {n : Nat} {allocated : List Nat}
    (steady₀ : Steady fs st₀.vol)
    (fails : linkClusters fs n st₀ [] = some (.failed allocated st')) :
    (Steady fs st'.vol ∧ (allocated = [] → st' = st₀) ∧
      ∀ c ∈ allocated.head?, firstFound fs st₀ = some c ∧ 2 ≤ c ∧ c ≤ fatMaxValidCluster fs) ∧
    NoneFree fs st'.vol := by
  have inv := linkClusters_failed (P := fun st cs => Steady fs st.vol ∧ (cs = [] → st = st₀) ∧
      ∀ c ∈ cs.head?, firstFound fs st₀ = some c ∧ 2 ≤ c ∧ c ≤ fatMaxValidCluster fs) ?_
    ⟨steady₀, fun _ => rfl, fun c mem => by cases mem⟩ fails
  · exact ⟨inv.1, (fatAllocCluster_none_iff inv.1.1.responds false).1 inv.2⟩
  · rintro st cs c st₁ st₂ ⟨steady, empty, first⟩ alloc link
    obtain ⟨found, range, -, steady₁, -⟩ := fatAllocCluster_spec steady alloc
    refine ⟨?_, fun none => by simp at none, ?_⟩
    · split at link
      next linked =>
        obtain ⟨v, written, rfl⟩ := link
        refine ⟨steady.stores, fun s => ?_⟩
        show v.responds s = true
        rw [fatWriteFatEntry_responds written]
        exact steady₁.responds s
      next =>
        obtain rfl := link
        exact steady₁
    · cases cs with
      | nil =>
          obtain rfl := empty rfl
          rintro x same
          obtain rfl := Option.some.inj same
          exact ⟨found, range⟩
      | cons a rest => exact first

/-- **A free cluster that no entry can lead to stays allocated.** -/
theorem rollBack_leaves {st₀ : FatState} {n x : Nat} {allocated : List Nat}
    (steady₀ : Steady fs st₀.vol)
    (fails : linkClusters fs n st₀ [] = some (.failed allocated st')) (low : 2 ≤ x)
    (high : x ≤ fatMaxValidCluster fs) (free : fatReadFatEntry fs st₀.vol x = some 0)
    (other : firstFound fs st₀ ≠ some x) (unfit : ¬ Fits fs x) :
    ∃ st'', rollBack fs st' (allocated.headD 0) = .failed st'' ∧
      ¬ Restored fs st₀.vol st''.vol := by
  obtain ⟨⟨steady, empty, first⟩, noneFree⟩ := linkClusters_first steady₀ fails
  cases allocated with
  | nil =>
      obtain rfl := empty rfl
      exact absurd free (noneFree x low high)
  | cons a rest =>
      obtain ⟨found, aLow, aHigh⟩ := first a rfl
      have inTable := Nat.lt_of_le_of_lt high (maxValidCluster_lt (Nat.le_trans low high))
      have ne : x ≠ a := fun same => other (same ▸ found)
      have few : (inUse fs st'.vol).card < fatMaxValidCluster fs + 2 := by
        have le := Finset.card_filter_le (Finset.Icc 2 (fatMaxValidCluster fs))
          fun c => tableOf fs st'.vol c ≠ 0
        rw [Nat.card_Icc] at le
        exact Nat.lt_of_le_of_lt le (by omega)
      obtain ⟨v', freed, same⟩ := fatFreeLoop_leaves steady aLow aHigh few inTable ne unfit
      refine ⟨⟨v', st'.nextFree⟩, ?_, fun restored => ?_⟩
      · unfold rollBack fatFreeChain
        rw [List.headD_cons, if_pos aLow, freed]
      · have zero : tableOf fs v' x = 0 := by
          rw [tableOf, restored x inTable, free, Option.getD_some]
        refine noneFree x low high ?_
        rw [steady.read, ← same, zero]

/-! ## The law -/

/-- The rollback restores every entry exactly if the links fit. -/
theorem rollBack_restored_iff {st₀ : FatState} {n : Nat} {allocated : List Nat}
    (steady₀ : Steady fs st₀.vol)
    (fails : linkClusters fs n st₀ [] = some (.failed allocated st')) :
    ∃ st'', rollBack fs st' (allocated.headD 0) = .failed st'' ∧
      (Restored fs st₀.vol st''.vol ↔ LinksFit fs st₀) := by
  by_cases fit : LinksFit fs st₀
  · have start : Allocated fs st₀ st₀ [] :=
      ⟨steady₀, by simp, by simp, List.nodup_nil, by simp, by simp, fun _ => rfl,
        fun _ _ _ => rfl, trivial⟩
    have inv := (linkClusters_failed (P := Allocated fs st₀)
      (fun st cs c st₁ st₂ inv alloc link => inv.step steady₀ fit alloc link) start fails).1
    obtain ⟨st'', failed, restored⟩ := rollBack_restores steady₀ inv
    exact ⟨st'', failed, iff_of_true restored fit⟩
  · have unfit := fit
    unfold LinksFit at unfit
    push Not at unfit
    obtain ⟨x, low, high, free, other, unfit⟩ := unfit
    obtain ⟨st'', failed, left⟩ := rollBack_leaves steady₀ fails low high free other unfit
    exact ⟨st'', failed, iff_of_false left fit⟩

/-- Nothing is needed for no bytes. -/
theorem length_pos_of_fails {len : Nat} {allocated : List Nat} (perPos : 0 < perCluster fs)
    (fails : linkClusters fs (clustersNeeded fs len) st [] = some (.failed allocated st')) :
    len ≠ 0 := by
  rintro rfl
  have none : clustersNeeded fs 0 = 0 := by
    have small : (0 + perCluster fs - 1) % 2 ^ 64 < perCluster fs :=
      Nat.lt_of_le_of_lt (Nat.mod_le _ _) (by omega)
    unfold clustersNeeded
    rw [Nat.div_eq_of_lt small]
    rfl
  rw [none] at fails
  cases fails

theorem fatWriteChain_of_fails {len : Nat} {allocated : List Nat}
    {reader : Nat → Nat → Option (List UInt8)} {chunks : List Nat → List (List Nat)}
    (fails : linkClusters fs (clustersNeeded fs len) st [] = some (.failed allocated st')) :
    fatWriteChain fs st true len reader chunks = rollBack fs st' (allocated.headD 0) := by
  unfold fatWriteChain
  rw [fails]
  rfl

theorem fatWriteFilePayload_of_fails {data : List UInt8} {allocated : List Nat} {buffered : Bool}
    (perPos : 0 < perCluster fs)
    (fails : linkClusters fs (clustersNeeded fs data.length) st [] =
      some (.failed allocated st')) :
    fatWriteFilePayload fs st true buffered data = rollBack fs st' (allocated.headD 0) := by
  unfold fatWriteFilePayload
  rw [if_neg (length_pos_of_fails perPos fails)]
  exact fatWriteChain_of_fails fails

theorem fatWriteFilePayloadReader_of_fails {len : Nat} {allocated : List Nat} {buffered : Bool}
    {reader : Nat → Nat → Option (List UInt8)} (perPos : 0 < perCluster fs)
    (fails : linkClusters fs (clustersNeeded fs len) st [] = some (.failed allocated st')) :
    fatWriteFilePayloadReader fs st true buffered len (some reader) =
      rollBack fs st' (allocated.headD 0) := by
  unfold fatWriteFilePayloadReader
  rw [if_neg (length_pos_of_fails perPos fails)]
  exact fatWriteChain_of_fails fails

/-- **A failed allocation is rolled back exactly if entries can lead to all free clusters but
the one allocated first**, and an allocation fails only when no cluster is free. -/
theorem fat_rollback_iff {v₀ : FatVolume} (mounted : fatFsMount v₀ = .ok fs) (st : FatState)
    (below : ∀ c < fatFatEntryCount fs, Below fs (fs.fatCount - 1) c)
    (responds : ∀ s, st.vol.responds s = true) :
    (∀ zero, fatAllocCluster fs st zero = none ↔ NoneFree fs st.vol) ∧
    (∀ buffered data, AllocationFails fs st (clustersNeeded fs data.length) →
      ∃ st', fatWriteFilePayload fs st true buffered data = .failed st' ∧
        (Restored fs st.vol st'.vol ↔ LinksFit fs st)) ∧
    ∀ buffered len reader, AllocationFails fs st (clustersNeeded fs len) →
      ∃ st', fatWriteFilePayloadReader fs st true buffered len (some reader) = .failed st' ∧
        (Restored fs st.vol st'.vol ↔ LinksFit fs st) := by
  have sound := fatFsMount_sound mounted
  have steady : Steady fs st.vol :=
    ⟨fun c inTable => storesEntry_of_below sound inTable (below c inTable), responds⟩
  have perPos : 0 < perCluster fs := Nat.mul_pos (fatFsMount_clusters mounted).2 (by decide)
  refine ⟨fun zero => fatAllocCluster_none_iff responds zero, ?_, ?_⟩
  · rintro buffered data ⟨allocated, st', fails⟩
    obtain ⟨st'', failed, iff⟩ := rollBack_restored_iff steady fails
    exact ⟨st'', (fatWriteFilePayload_of_fails perPos fails).trans failed, iff⟩
  · rintro buffered len reader ⟨allocated, st', fails⟩
    obtain ⟨st'', failed, iff⟩ := rollBack_restored_iff steady fails
    exact ⟨st'', (fatWriteFilePayloadReader_of_fails perPos fails).trans failed, iff⟩

/-! ## A cluster whose number ends a chain -/

/-- A FAT32 volume whose largest cluster has the number that marks the end of a chain, and in
which only this cluster and the one before it are free. -/
def endMarkVolume : FatVolume where
  sectors sector i :=
    if sector = 0 then
      ([(12, 2), (13, 1), (14, 1), (16, 1), (32, 0xF9), (33, 0xFF), (34, 0x1F), (35, 0x10), (36, 1),
        (38, 0x20), (44, 2), (510, 0x55), (511, 0xAA)].lookup i).getD 0
    else if sector = 2097152 ∧ 476 ≤ i ∧ i < 484 then 0
    else 0xFF
  responds _ := true

/-- Its geometry. -/
def endMarkFs : FatFs := fatGeometry (endMarkVolume.sectors 0)

theorem endMark_mounted : fatFsMount endMarkVolume = .ok endMarkFs := by rfl

theorem endMark_max : fatMaxValidCluster endMarkFs = 268435448 := by decide
theorem endMark_count : fatFatEntryCount endMarkFs = 268435584 := by decide

theorem endMark_pos (c : Nat) : endMarkFs.entryPos 0 c = 512 + c * 4 := by
  have first : endMarkFs.firstFatSector = 1 := by decide
  have type : endMarkFs.type = .fat32 := by decide
  unfold FatFs.entryPos
  rw [first, type, Nat.zero_mul]
  rfl

theorem endMark_first : firstFound endMarkFs ⟨endMarkVolume, 268435447⟩ = some 268435447 := by rfl

theorem endMark_free {c : Nat} (inTable : c < fatFatEntryCount endMarkFs) :
    tableOf endMarkFs endMarkVolume c = 0 ↔ c = 268435447 ∨ c = 268435448 := by
  have sound := fatFsMount_sound endMark_mounted
  have type : endMarkFs.type = .fat32 := by decide
  have read : fatReadFatEntry endMarkFs endMarkVolume c =
      some (rd32 endMarkVolume.flat (512 + c * 4) % 268435456) := by
    rw [fatReadFatEntry_eq sound inTable, if_pos ⟨rfl, rfl⟩, endMark_pos, type]
    rfl
  rw [tableOf, read, Option.getD_some]
  constructor
  · intro zero
    by_contra used
    have low : (endMarkVolume.flat (512 + c * 4)).toNat = 255 := by
      have place : ¬ ((512 + c * 4) / ataSectorSize = 2097152 ∧
          476 ≤ (512 + c * 4) % ataSectorSize ∧ (512 + c * 4) % ataSectorSize < 484) := by
        unfold ataSectorSize
        omega
      have behind : (512 + c * 4) / ataSectorSize ≠ 0 := by
        unfold ataSectorSize
        omega
      show (if (512 + c * 4) / ataSectorSize = 0 then _ else if _ then (0 : UInt8) else 0xFF).toNat
        = 255
      rw [if_neg behind, if_neg place]
      rfl
    unfold rd32 at zero
    omega
  · rintro (rfl | rfl)
    · decide
    · decide

theorem endMark_below {c : Nat} (inTable : c < fatFatEntryCount endMarkFs) :
    Below endMarkFs (endMarkFs.fatCount - 1) c := by
  have copies : endMarkFs.fatCount - 1 = 0 := by decide
  have width : endMarkFs.type.width = 4 := by decide
  rw [endMark_count] at inTable
  unfold Below ataSectorSize
  rw [copies, endMark_pos, width]
  omega

theorem endMark_steady : Steady endMarkFs endMarkVolume :=
  ⟨fun _ inTable => storesEntry_of_below (fatFsMount_sound endMark_mounted) inTable
    (endMark_below inTable), fun _ => rfl⟩

/-- The third allocation fails. -/
theorem endMark_fails (len : Nat) (needed : clustersNeeded endMarkFs len = 3) :
    AllocationFails endMarkFs ⟨endMarkVolume, 268435447⟩ (clustersNeeded endMarkFs len) := by
  rw [needed]
  have within : ∀ {d}, d ≤ 268435448 → d < fatFatEntryCount endMarkFs := fun le => by
    rw [endMark_count]
    omega
  have usable : ∀ {v : FatVolume} {h d}, Steady endMarkFs v → 2 ≤ d → d ≤ 268435448 →
      tableOf endMarkFs v d = 0 →
        ∃ c st, fatAllocCluster endMarkFs ⟨v, h⟩ false = some (c, st) := by
    intro v h d steady low high free
    cases alloc : fatAllocCluster endMarkFs ⟨v, h⟩ false with
    | some result => exact ⟨result.1, result.2, rfl⟩
    | none =>
        refine absurd (steady.read d) ?_
        rw [free]
        exact (fatAllocCluster_none_iff steady.responds false).1 alloc d low
          (by rw [endMark_max]; exact high)
  obtain ⟨c₁, st₁, first⟩ := usable (h := 268435447) endMark_steady (d := 268435447) (by decide)
    (by decide) ((endMark_free (within (by decide))).2 (.inl rfl))
  obtain ⟨found, -, -, steady₁, table₁⟩ := fatAllocCluster_spec endMark_steady first
  obtain rfl : 268435447 = c₁ := Option.some.inj (endMark_first.symm.trans found)
  have freeStill : tableOf endMarkFs st₁.vol 268435448 = 0 := by
    rw [table₁ _ (within (by decide)), if_neg (by decide)]
    exact (endMark_free (within (by decide))).2 (.inr rfl)
  obtain ⟨c₂, st₂, second⟩ := usable (h := st₁.nextFree) steady₁ (by decide) (by decide)
    freeStill
  obtain ⟨-, ⟨-, high⟩, free, steady₂, table₂⟩ := fatAllocCluster_spec steady₁ second
  rw [endMark_max] at high
  have last : c₂ = 268435448 := by
    rw [table₁ c₂ (within high)] at free
    split at free
    · exact absurd free (eoc_ne_zero _)
    next ne => exact ((endMark_free (within high)).1 free).resolve_left ne
  subst last
  obtain ⟨v₃, linked, steady₃, table₃⟩ := steady₂.write (c := 268435447) (within (by decide)) 268435448
  refine ⟨[268435447, 268435448], ⟨v₃, st₂.nextFree⟩, ?_⟩
  have third : fatAllocCluster endMarkFs ⟨v₃, st₂.nextFree⟩ false = none := by
    refine (fatAllocCluster_none_iff steady₃.responds false).2 fun d low high free => ?_
    rw [endMark_max] at high
    have zero : tableOf endMarkFs v₃ d = 0 := by rw [tableOf, free, Option.getD_some]
    rw [table₃ d (within high)] at zero
    split at zero
    · have value : endMarkFs.type.masked 268435448 = 268435448 := by decide
      rw [value] at zero
      cases zero
    next ne =>
      rw [table₂ d (within high)] at zero
      split at zero
      · exact eoc_ne_zero _ zero
      next ne' =>
        rw [table₁ d (within high), if_neg ne] at zero
        exact ((endMark_free (within high)).1 zero).elim ne ne'
  have two : linkClusters endMarkFs 2 st₁ [268435447] = _ :=
    linkClusters_next [] (by decide) second linked
  rw [linkClusters_start first, two, linkClusters, third]
  rfl

theorem endMark_last_free : fatReadFatEntry endMarkFs endMarkVolume 268435448 = some 0 := by
  rw [endMark_steady.read, (endMark_free (by rw [endMark_count]; decide)).2 (.inr rfl)]

/-- No entry can lead to the last cluster. -/
theorem endMark_unfit : ¬ Fits endMarkFs 268435448 := fun fits =>
  absurd fits.2 (by decide)

/-- After the failure the last cluster is still marked as used. -/
theorem endMark_kept : ∃ st', fatWriteFilePayloadReader endMarkFs ⟨endMarkVolume, 268435447⟩ true
    true 1025 (some fun _ _ => some []) = .failed st' ∧ ¬ Restored endMarkFs endMarkVolume st'.vol := by
  have law := fat_rollback_iff endMark_mounted ⟨endMarkVolume, 268435447⟩
    (fun _ inTable => endMark_below inTable) (fun _ => rfl)
  obtain ⟨st', failed, iff⟩ := law.2.2 true 1025 (fun _ _ => some [])
    (endMark_fails 1025 (by decide))
  refine ⟨st', failed, fun restored => endMark_unfit (iff.1 restored 268435448 (by decide) ?_ ?_ ?_)⟩
  · rw [endMark_max]
  · exact endMark_last_free
  · rw [endMark_first]
    decide

/-- A failed write of a file does not give every cluster back. -/
theorem failed_write_keeps_cluster : ¬ ∀ (v₀ : FatVolume) (fs : FatFs), fatFsMount v₀ = .ok fs →
    ∀ (st : FatState), (∀ s, st.vol.responds s = true) → ∀ buffered len reader,
      AllocationFails fs st (clustersNeeded fs len) →
        ∃ st', fatWriteFilePayloadReader fs st true buffered len (some reader) = .failed st' ∧
          Restored fs st.vol st'.vol := by
  intro all
  have fails := endMark_fails 1025 (by decide)
  obtain ⟨st', failed, restored⟩ := all endMarkVolume endMarkFs endMark_mounted
    ⟨endMarkVolume, 268435447⟩ (fun _ => rfl) true 1025 (fun _ _ => some []) fails
  obtain ⟨allocated, st₁, run⟩ := fails
  obtain ⟨st'', rolled, left⟩ := rollBack_leaves (x := 268435448) endMark_steady run (by decide)
    (by rw [endMark_max]) endMark_last_free (by rw [endMark_first]; decide) endMark_unfit
  have same : rollBack endMarkFs st₁ (allocated.headD 0) = .failed st' :=
    (fatWriteFilePayloadReader_of_fails (by decide) run).symm.trans failed
  rw [rolled] at same
  obtain rfl := Payload.failed.inj same
  exact left restored

end NTux.Fat.Disk
