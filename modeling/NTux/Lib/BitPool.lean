import Mathlib.Algebra.BigOperators.Group.Finset.Basic
import Mathlib.Algebra.Order.BigOperators.Group.Finset
import Mathlib.Data.Nat.Count

/-!
# Counted bitmaps

A pool of items in groups: a bitmap for each group, a counter for each group, and a
counter for the whole pool.  `Counted p size n` says that the counters of the first
`n` groups, of `size g` items each, tell the number of clear bits.

`take` and `give` set and clear a bit and move the counters along; they keep the pool
counted (`Counted.take`, `Counted.give`).  A counter is zero exactly when no bit of its
group is clear (`Counted.free_eq_zero_iff`).
-/

namespace NTux.Lib

/-- Bitmaps and counters. -/
structure BitPool where
  used : Nat → Nat → Bool
  free : Nat → Nat
  total : Nat

namespace BitPool

/-- The number of clear bits among the first `n` of a group. -/
def clear (used : Nat → Bool) (n : Nat) : Nat := Nat.count (fun b => used b = false) n

section Count

variable {used used' : Nat → Bool} {n b : Nat}

theorem clear_congr (same : ∀ b, b < n → used' b = used b) : clear used' n = clear used n := by
  induction n with
  | zero => rfl
  | succ n ih =>
      have step : clear used' n = clear used n := ih fun b lt => same b (by omega)
      unfold clear at step ⊢
      rw [Nat.count_succ, Nat.count_succ, step, same n (by omega)]

/-- Setting a clear bit takes one from the count. -/
theorem clear_set (lt : b < n) (was : used b = false) (now : used' b = true)
    (others : ∀ c, c ≠ b → used' c = used c) : clear used n = clear used' n + 1 := by
  induction n with
  | zero => exact absurd lt (Nat.not_lt_zero b)
  | succ n ih =>
      unfold clear at ih ⊢
      rw [Nat.count_succ, Nat.count_succ]
      rcases Nat.lt_succ_iff_lt_or_eq.1 lt with before | rfl
      · rw [ih before, others n (by omega)]
        omega
      · have same : Nat.count (fun c => used' c = false) b = Nat.count (fun c => used c = false) b :=
          clear_congr fun c lt => others c (by omega)
        rw [same, was, now]
        simp

theorem clear_pos_iff : 0 < clear used n ↔ ∃ b, b < n ∧ used b = false := by
  induction n with
  | zero => simp [clear]
  | succ n ih =>
      unfold clear at ih ⊢
      rw [Nat.count_succ]
      constructor
      · intro pos
        by_cases last : used n = false
        · exact ⟨n, by omega, last⟩
        · rw [if_neg last, Nat.add_zero] at pos
          obtain ⟨b, lt, free⟩ := ih.1 pos
          exact ⟨b, by omega, free⟩
      · rintro ⟨b, lt, free⟩
        rcases Nat.lt_succ_iff_lt_or_eq.1 lt with before | rfl
        · have pos := ih.2 ⟨b, before, free⟩
          omega
        · rw [if_pos free]
          omega

theorem clear_le : clear used n ≤ n := Nat.count_le _

/-- Where the first bits are set and the others are not. -/
theorem clear_of_prefix {k : Nat} (bits : ∀ b, used b = decide (b < k)) (le : k ≤ n) :
    clear used n = n - k := by
  induction n with
  | zero => rw [Nat.le_zero.1 le, clear, Nat.count_zero]
  | succ n ih =>
      unfold clear at ih ⊢
      rw [Nat.count_succ, bits n]
      rcases Nat.lt_or_ge n k with lt | ge
      · have all : Nat.count (fun b => used b = false) n = 0 := by
          refine Nat.count_of_forall_not fun b less => ?_
          rw [bits b, decide_eq_true (by omega)]
          decide
        rw [all, decide_eq_true lt]
        simp only [Bool.true_eq_false, if_false]
        omega
      · rw [ih ge, decide_eq_false (by omega)]
        simp only [if_true]
        omega

end Count

/-- The counters of the pool are right. -/
structure Counted (p : BitPool) (size : Nat → Nat) (n : Nat) : Prop where
  group : ∀ g, g < n → p.free g = clear (p.used g) (size g)
  total : p.total = ∑ g ∈ Finset.range n, clear (p.used g) (size g)

/-- Mark an item as used. -/
def take (p : BitPool) (g b : Nat) : BitPool where
  used := Function.update p.used g (Function.update (p.used g) b true)
  free := Function.update p.free g (p.free g - 1)
  total := p.total - 1

/-- Mark an item as free. -/
def give (p : BitPool) (g b : Nat) : BitPool where
  used := Function.update p.used g (Function.update (p.used g) b false)
  free := Function.update p.free g (p.free g + 1)
  total := p.total + 1

/-- Two pools agree on the items there are. -/
structure Agree (p q : BitPool) (size : Nat → Nat) (n : Nat) : Prop where
  used : ∀ g, g < n → ∀ b, b < size g → p.used g b = q.used g b
  free : ∀ g, g < n → p.free g = q.free g
  total : p.total = q.total

section Laws

variable {p q : BitPool} {size : Nat → Nat} {n g b : Nat}

theorem Counted.congr (counted : Counted p size n) (agree : Agree q p size n) :
    Counted q size n := by
  have same : ∀ g, g < n → clear (q.used g) (size g) = clear (p.used g) (size g) :=
    fun g lt => clear_congr (agree.used g lt)
  constructor
  · intro g lt
    rw [agree.free g lt, same g lt, counted.group g lt]
  · rw [agree.total, counted.total]
    exact Finset.sum_congr rfl fun g mem => (same g (Finset.mem_range.1 mem)).symm

theorem Counted.free_eq_zero_iff (counted : Counted p size n) (lt : g < n) :
    p.free g = 0 ↔ ∀ b, b < size g → p.used g b = true := by
  rw [counted.group g lt]
  have pos : 0 < clear (p.used g) (size g) ↔ ∃ b, b < size g ∧ p.used g b = false := clear_pos_iff
  constructor
  · intro zero b lt
    by_contra free
    have some := pos.2 ⟨b, lt, by simpa using free⟩
    omega
  · intro all
    by_contra some
    obtain ⟨b, lt, free⟩ := pos.1 (by omega)
    rw [all b lt] at free
    exact absurd free (by simp)

theorem Counted.total_le (counted : Counted p size n) :
    p.total ≤ ∑ g ∈ Finset.range n, size g := by
  rw [counted.total]
  exact Finset.sum_le_sum fun g _ => clear_le

/-- A sum over the groups changes as one of them does. -/
theorem sum_update (f f' : Nat → Nat) (lt : g < n) (others : ∀ h, h ≠ g → f' h = f h) :
    f g + ∑ h ∈ Finset.range n, f' h = f' g + ∑ h ∈ Finset.range n, f h := by
  have mem := Finset.mem_range.2 lt
  have rest : ∑ h ∈ (Finset.range n).erase g, f' h = ∑ h ∈ (Finset.range n).erase g, f h :=
    Finset.sum_congr rfl fun h memH => others h (Finset.ne_of_mem_erase memH)
  rw [← Finset.add_sum_erase _ f mem, ← Finset.add_sum_erase _ f' mem, rest]
  omega

/-- Changing one bit of one group. -/
theorem clear_update {v : Bool} (h : Nat) :
    clear (Function.update p.used g (Function.update (p.used g) b v) h) (size h) =
      if h = g then clear (Function.update (p.used g) b v) (size g)
      else clear (p.used h) (size h) := by
  rcases eq_or_ne h g with rfl | ne
  · rw [Function.update_self, if_pos rfl]
  · rw [Function.update_of_ne ne, if_neg ne]

theorem Counted.take (counted : Counted p size n) (ltG : g < n) (ltB : b < size g)
    (free : p.used g b = false) : Counted (p.take g b) size n := by
  have fewer : clear (p.used g) (size g) =
      clear (Function.update (p.used g) b true) (size g) + 1 :=
    clear_set ltB free (Function.update_self ..) fun c ne => Function.update_of_ne ne _ _
  have pos := counted.group g ltG
  constructor
  · intro h ltH
    show Function.update p.free g (p.free g - 1) h = _
    rw [BitPool.take, clear_update]
    rcases eq_or_ne h g with rfl | ne
    · rw [Function.update_self, if_pos rfl]
      omega
    · rw [Function.update_of_ne ne, if_neg ne, counted.group h ltH]
  · have sum := sum_update (fun h => clear (p.used h) (size h))
      (fun h => clear ((p.take g b).used h) (size h)) ltG fun h ne => by
        rw [BitPool.take, clear_update, if_neg ne]
    simp only [BitPool.take, Function.update_self] at sum ⊢
    have total := counted.total
    omega

theorem Counted.give (counted : Counted p size n) (ltG : g < n) (ltB : b < size g)
    (used : p.used g b = true) : Counted (p.give g b) size n := by
  have more : clear (Function.update (p.used g) b false) (size g) =
      clear (p.used g) (size g) + 1 := by
    refine clear_set ltB (Function.update_self ..) used fun c ne => ?_
    rw [Function.update_of_ne ne]
  have pos := counted.group g ltG
  constructor
  · intro h ltH
    show Function.update p.free g (p.free g + 1) h = _
    rw [BitPool.give, clear_update]
    rcases eq_or_ne h g with rfl | ne
    · rw [Function.update_self, if_pos rfl]
      omega
    · rw [Function.update_of_ne ne, if_neg ne, counted.group h ltH]
  · have sum := sum_update (fun h => clear (p.used h) (size h))
      (fun h => clear ((p.give g b).used h) (size h)) ltG fun h ne => by
        rw [BitPool.give, clear_update, if_neg ne]
    simp only [BitPool.give, Function.update_self] at sum ⊢
    have total := counted.total
    omega

end Laws

end BitPool

end NTux.Lib
