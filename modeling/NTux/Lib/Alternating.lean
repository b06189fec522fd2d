import Mathlib.Logic.Function.Iterate
import Mathlib.Order.Monotone.Defs
import Mathlib.Order.Nat

/-!
# Alternating iterations

The iterates of an antitone function lie below and above a fixed point in turn.  When the
function is slow, that is when sixty-four steps of its argument are one of its value, two
iterations divide the distance to the fixed point by `64 * 64`, and a distance of up to
sixty-three is closed at once.
-/

namespace NTux.Lib.Alternating

variable {f : Nat → Nat} {s x d : Nat}

/-- The function falls by one in sixty-four steps at most. -/
def Slow (f : Nat → Nat) : Prop := ∀ a b, a ≤ b → f a ≤ f b + (b - a + 63) / 64

theorem le_next_twice (anti : Antitone f) (le : x ≤ f x) : f (f x) ≤ f (f (f x)) :=
  anti (anti le)

/-- The even iterates stay below their own value. -/
theorem le_next_even (anti : Antitone f) (le : x ≤ f x) (k : Nat) :
    f^[2 * k] x ≤ f (f^[2 * k] x) := by
  induction k with
  | zero => exact le
  | succ k ih =>
      rw [show 2 * (k + 1) = (2 * k + 1) + 1 by omega, Function.iterate_succ_apply',
        Function.iterate_succ_apply']
      exact le_next_twice anti ih

theorem twice_le (anti : Antitone f) (fixed : f s = s) (le : x ≤ s) : f (f x) ≤ s := by
  have above : s ≤ f x := fixed ▸ anti le
  exact fixed ▸ anti above

theorem twice_gap (slow : Slow f) (anti : Antitone f) (fixed : f s = s) (le : x ≤ s)
    (gap : s - x ≤ d) : s - f (f x) ≤ ((d + 63) / 64 + 63) / 64 := by
  have above : s ≤ f x := fixed ▸ anti le
  have up := slow x s le
  have down := slow s (f x) above
  rw [fixed] at up down
  have first : f x - s ≤ (d + 63) / 64 := by omega
  omega

/-- The two steps together fall by one at most, so one of them ends in the fixed point. -/
theorem twice_eq (slow : Slow f) (anti : Antitone f) (fixed : f s = s) (le : x ≤ s)
    (gap : s - x ≤ 63) : f (f x) = s := by
  have above : s ≤ f x := fixed ▸ anti le
  have below := twice_le anti fixed le
  have up := slow x s le
  have both := slow x (f x) (by omega)
  rw [fixed] at up
  by_cases same : f x = s
  · rw [same, fixed]
  · omega

/-- Eight iterations from a distance of up to `2 ^ 26`. -/
theorem iterate_eight_eq (slow : Slow f) (anti : Antitone f) (fixed : f s = s) (le : x ≤ s)
    (gap : s - x ≤ 67108864) : f^[8] x = s := by
  have one := twice_gap slow anti fixed le gap
  have oneLe := twice_le anti fixed le
  have two := twice_gap slow anti fixed oneLe one
  have twoLe := twice_le anti fixed oneLe
  have three := twice_eq slow anti fixed twoLe (by omega)
  show f (f (f (f (f (f (f (f x))))))) = s
  rw [three, fixed, fixed]

end NTux.Lib.Alternating
