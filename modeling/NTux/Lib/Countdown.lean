import NTux.Lib.Runs
import Mathlib.Data.List.Basic

/-!
# Progress along a run

A goal that lies at most `k` counted steps ahead: every step either reaches it or keeps
the distance, and a counted one lowers it.  Then the goal is met in every run that
counts more than `k` steps, and before the count passes `k + 1` (`run_countdown`).

`Within l t k` is the distance of an element in a queue: adding at the end and removing
other elements keep it; taking the head lowers it.
-/

namespace NTux.Lib

universe u v

section Runs

variable {σ : Type u} {α : Type v} {step : σ → α → σ}

/-- How many steps of the run of `as` from `s` are counted. -/
def countSteps (step : σ → α → σ) (counted : σ → α → Bool) : σ → List α → Nat
  | _, [] => 0
  | s, a :: as => (counted s a).toNat + countSteps step counted (step s a) as

variable {counted : σ → α → Bool}

@[simp] theorem countSteps_nil (s : σ) : countSteps step counted s [] = 0 := rfl

@[simp] theorem countSteps_cons (s : σ) (a : α) (as : List α) :
    countSteps step counted s (a :: as) =
      (counted s a).toNat + countSteps step counted (step s a) as := rfl

/-- A condition on the actions alone. -/
theorem AllSteps.of_mem {C : σ → α → Prop} {as : List α} (all : ∀ s, ∀ a ∈ as, C s a)
    {s : σ} : AllSteps step C s as := by
  induction as generalizing s with
  | nil => trivial
  | cons a as ih =>
      exact ⟨all s a List.mem_cons_self, ih fun s b mem => all s b (List.mem_cons_of_mem a mem)⟩

variable {Inv G : σ → Prop} {C : σ → α → Prop} {D : σ → Nat → Prop}

/-- A goal `G` at most `k` counted steps ahead is reached by every run that counts more,
while it counts at most `k + 1`. -/
theorem run_countdown (keep : ∀ s a, Inv s → Inv (step s a))
    (next : ∀ s a k, Inv s → C s a → D s k →
      G (step s a) ∨
        ∃ j, (counted s a).toNat + j ≤ k ∧ D (step s a) j)
    {s : σ} {as : List α} {k : Nat} (inv : Inv s) (start : D s k)
    (cond : AllSteps step C s as) (enough : k < countSteps step counted s as) :
    ∃ bs cs, as = bs ++ cs ∧ bs ≠ [] ∧ countSteps step counted s bs ≤ k + 1 ∧
      G (run step s bs) := by
  induction as generalizing s k with
  | nil => exact absurd enough (Nat.not_lt_zero k)
  | cons a as ih =>
      obtain ⟨condA, condRest⟩ := cond
      have one : (counted s a).toNat ≤ 1 := Bool.toNat_le _
      rw [countSteps_cons] at enough
      rcases next s a k inv condA start with goal | ⟨j, lower, nearer⟩
      · refine ⟨[a], as, rfl, List.cons_ne_nil _ _, ?_, goal⟩
        rw [countSteps_cons, countSteps_nil]
        omega
      · obtain ⟨bs, cs, split, -, few, goal⟩ :=
          ih (keep s a inv) nearer condRest (by omega)
        refine ⟨a :: bs, cs, by rw [split, List.cons_append], List.cons_ne_nil _ _, ?_, goal⟩
        rw [countSteps_cons]
        omega

end Runs

section Queues

variable {α : Type u} {l : List α} {t u : α} {k : Nat}

/-- `t` is in the queue, behind at most `k` others. -/
def Within (l : List α) (t : α) (k : Nat) : Prop :=
  ∃ before after, l = before ++ t :: after ∧ before.length ≤ k

theorem Within.mem (within : Within l t k) : t ∈ l := by
  obtain ⟨before, after, rfl, -⟩ := within
  exact List.mem_append_right _ List.mem_cons_self

theorem Within.append (within : Within l t k) (new : List α) : Within (l ++ new) t k := by
  obtain ⟨before, after, rfl, few⟩ := within
  exact ⟨before, after ++ new, by rw [List.append_assoc, List.cons_append], few⟩

theorem Within.erase [DecidableEq α] (within : Within l t k) (other : u ≠ t) :
    Within (l.erase u) t k := by
  obtain ⟨before, after, rfl, few⟩ := within
  by_cases mem : u ∈ before
  · refine ⟨before.erase u, after, List.erase_append_left _ mem, ?_⟩
    exact Nat.le_trans List.length_erase_le few
  · refine ⟨before, after.erase u, ?_, few⟩
    rw [List.erase_append_right _ mem, List.erase_cons_tail (by simpa using other.symm)]

/-- Where the head is not the element itself, there is one less before it. -/
theorem Within.tail (within : Within (u :: l) t k) (other : u ≠ t) :
    ∃ j, 1 + j ≤ k ∧ Within l t j := by
  obtain ⟨before, after, split, few⟩ := within
  cases before with
  | nil => exact absurd (List.cons.inj split).1 other
  | cons v before =>
      rw [List.length_cons] at few
      exact ⟨before.length, by omega, before, after, (List.cons.inj split).2, Nat.le_refl _⟩

end Queues

end NTux.Lib
