import Mathlib.Order.Interval.Set.Disjoint
import Mathlib.Data.List.Perm.Basic
import Mathlib.Algebra.Group.Nat.Defs
import Mathlib.Order.CompletePartialOrder

/-!
# Address regions

A region is a half-open interval of addresses.  A memory layout is a list of
regions that are pairwise `Apart`.  Its rules replace some regions by others that
take up no other addresses (`pairwise_replace`: a region by parts of it, adjacent
regions by their union) or add a region that is apart from whatever covers the rest
(`pairwise_fresh`).  The order of the list is immaterial (`pairwise_perm`).

The same can be said by counting in how many regions an address lies (`occupancy`,
`pairwise_of_occupancy`).
-/

namespace NTux.Lib

/-- The addresses from `start` up to, not including, `stop`. -/
structure Region where
  start : ℕ
  stop : ℕ
  deriving DecidableEq

namespace Region

variable {r s t : Region} {rs ps qs : List Region}

/-- The addresses of a region. -/
def cells (r : Region) : Set ℕ := Set.Ico r.start r.stop

@[simp] theorem mem_cells {x : ℕ} : x ∈ r.cells ↔ r.start ≤ x ∧ x < r.stop := Iff.rfl

/-- The regions share no address. -/
def Apart (r s : Region) : Prop := Disjoint r.cells s.cells

theorem Apart.symm (apart : r.Apart s) : s.Apart r := Disjoint.symm apart

theorem apart_iff : r.Apart s ↔ min r.stop s.stop ≤ max r.start s.start :=
  Set.Ico_disjoint_Ico

theorem Apart.not_mem (apart : r.Apart s) {x : ℕ} (mem : x ∈ r.cells) : x ∉ s.cells :=
  Set.disjoint_left.1 apart mem

theorem Apart.mono (apart : r.Apart s) (sub : t.cells ⊆ r.cells) : t.Apart s :=
  Set.disjoint_of_subset_left sub apart

/-- Every address of the region lies in one of `ps`. -/
def Covered (r : Region) (ps : List Region) : Prop := ∀ x ∈ r.cells, ∃ p ∈ ps, x ∈ p.cells

theorem Covered.weaken (covered : r.Covered ps) (sub : ps ⊆ qs) : r.Covered qs := by
  intro x mem
  obtain ⟨p, memP, memX⟩ := covered x mem
  exact ⟨p, sub memP, memX⟩

theorem covered_of_mem (mem : r ∈ ps) : r.Covered ps := fun _ memX => ⟨r, mem, memX⟩

/-- Part of one of the regions. -/
theorem covered_of_le (mem : s ∈ ps) (start : s.start ≤ r.start) (stop : r.stop ≤ s.stop) :
    r.Covered ps :=
  fun _ ⟨lower, upper⟩ => ⟨s, mem, start.trans lower, upper.trans_le stop⟩

/-- Part of two adjacent regions. -/
theorem covered_of_adjacent (memS : s ∈ ps) (memT : t ∈ ps) (start : s.start ≤ r.start)
    (meet : t.start ≤ s.stop) (stop : r.stop ≤ t.stop) : r.Covered ps := by
  rintro x ⟨lower, upper⟩
  rcases lt_or_ge x s.stop with first | second
  · exact ⟨s, memS, start.trans lower, first⟩
  · exact ⟨t, memT, meet.trans second, upper.trans_le stop⟩

/-- A region made up of covered ones is covered. -/
theorem Covered.join (sub : r.Covered qs) (covered : ∀ q ∈ qs, q.Covered ps) : r.Covered ps := by
  intro x mem
  obtain ⟨q, memQ, memX⟩ := sub x mem
  exact covered q memQ x memX

/-- What is apart from everything that covers a region is apart from the region. -/
theorem Covered.apart (covered : r.Covered ps) (apart : ∀ p ∈ ps, p.Apart s) : r.Apart s := by
  refine Set.disjoint_left.2 fun x mem => ?_
  obtain ⟨p, memP, memX⟩ := covered x mem
  exact (apart p memP).not_mem memX

/-! ## Layouts -/

theorem pairwise_perm (perm : rs.Perm qs) :
    rs.Pairwise Apart ↔ qs.Pairwise Apart :=
  perm.pairwise_iff Apart.symm

theorem apart_of_pairwise (pairwise : (r :: rs).Pairwise Apart) (mem : s ∈ rs) : r.Apart s :=
  List.rel_of_pairwise_cons pairwise mem

/-- Regions that are apart and take up no other addresses may stand in the place of
some others. -/
theorem pairwise_replace (pairwise : (ps ++ rs).Pairwise Apart) (apart : qs.Pairwise Apart)
    (covered : ∀ q ∈ qs, q.Covered ps) : (qs ++ rs).Pairwise Apart := by
  obtain ⟨-, rest, cross⟩ := List.pairwise_append.1 pairwise
  refine List.pairwise_append.2 ⟨apart, rest, fun q memQ s memS => ?_⟩
  exact (covered q memQ).apart fun p memP => cross p memP s memS

/-- A region apart from what covers the others may join them. -/
theorem pairwise_fresh (pairwise : rs.Pairwise Apart) (covered : ∀ s ∈ rs, s.Covered ps)
    (fresh : ∀ p ∈ ps, p.Apart r) : (r :: rs).Pairwise Apart :=
  List.pairwise_cons.2 ⟨fun s memS => ((covered s memS).apart fresh).symm, pairwise⟩

/-! ## Occupancy -/

/-- Whether an address lies in a region. -/
def has (r : Region) (x : ℕ) : Bool := r.start ≤ x && x < r.stop

theorem has_eq_true {x : ℕ} : r.has x = true ↔ r.start ≤ x ∧ x < r.stop := by
  rw [has, Bool.and_eq_true, decide_eq_true_eq, decide_eq_true_eq]

/-- The number of regions that an address lies in. -/
def occupancy (rs : List Region) (x : ℕ) : ℕ := rs.countP (·.has x)

@[simp] theorem occupancy_cons (r : Region) (rs : List Region) (x : ℕ) :
    occupancy (r :: rs) x = occupancy rs x + if r.has x then 1 else 0 :=
  List.countP_cons

theorem occupancy_pos {x : ℕ} (mem : r ∈ rs) (has : r.has x = true) : 0 < occupancy rs x :=
  List.countP_pos_iff.2 ⟨r, mem, has⟩

theorem occupancy_eq_zero {x : ℕ} :
    occupancy rs x = 0 ↔ ∀ r ∈ rs, ¬ (r.start ≤ x ∧ x < r.stop) := by
  rw [occupancy, List.countP_eq_zero]
  simp only [has_eq_true]

/-- Where no address lies in two of them, regions are apart. -/
theorem pairwise_of_occupancy (once : ∀ x, occupancy rs x ≤ 1) : rs.Pairwise Apart := by
  induction rs with
  | nil => exact .nil
  | cons r rs ih =>
      refine List.pairwise_cons.2 ⟨fun s mem => ?_, ih fun x => ?_⟩
      · refine Set.disjoint_left.2 fun x inR inS => ?_
        have both := once x
        rw [occupancy_cons, if_pos (has_eq_true.2 inR)] at both
        have := occupancy_pos mem (has_eq_true.2 inS)
        omega
      · have all := once x
        rw [occupancy_cons] at all
        omega

/-- A region cut in two. -/
theorem has_split {lo m hi x : ℕ} (lower : lo ≤ m) (upper : m ≤ hi) :
    (if has ⟨lo, hi⟩ x then 1 else 0) =
      (if has ⟨lo, m⟩ x then 1 else 0) + if has ⟨m, hi⟩ x then 1 else 0 := by
  unfold has
  simp only [Bool.and_eq_true, decide_eq_true_eq]
  split <;> split <;> split <;> omega

end Region

end NTux.Lib
