import Mathlib.Data.Nat.ModEq
import NTux.Lib.RingBuffer

/-!
# Rings with counters that wrap

Two parties count what they have put into a ring and taken out of it in counters of a
fixed width, and find the slot of an element as the counter modulo the size of the ring.
Where the size divides the range of the counters the wrap does not show (`counter_slot`),
nor while less than the range lies between them (`counter_sub`, `counter_eq_iff`).
-/

namespace NTux.Lib

variable {range cap lo hi : ℕ}

/-- The slot of an element, found from a counter that has wrapped. -/
theorem counter_slot (divides : cap ∣ range) (j : ℕ) : j % range % cap = j % cap :=
  Nat.mod_mod_of_dvd j divides

theorem counter_succ (j : ℕ) : (j % range + 1) % range = (j + 1) % range :=
  Nat.mod_add_mod j range 1

/-- The difference of two counters is that of what they count. -/
theorem counter_sub (le : lo ≤ hi) (near : hi - lo < range) :
    (hi % range + range - lo % range) % range = hi - lo := by
  have pos : 0 < range := Nat.zero_lt_of_lt near
  have below : lo % range < range := Nat.mod_lt lo pos
  have split : hi = hi - lo + lo := (Nat.sub_add_cancel le).symm
  have apart : hi % range + range - lo % range + lo ≡ hi + range [MOD range] := by
    have same : hi % range + range - lo % range + lo % range = hi % range + range := by omega
    have wrapped := (Nat.mod_modEq lo range).symm.add_left (hi % range + range - lo % range)
    rw [same] at wrapped
    exact wrapped.trans ((Nat.mod_modEq hi range).add_right range)
  have equal : hi % range + range - lo % range ≡ hi - lo [MOD range] := by
    refine Nat.ModEq.add_right_cancel' lo (apart.trans ?_)
    rw [← split]
    exact Nat.add_modEq_right
  rw [equal, Nat.mod_eq_of_lt near]

theorem counter_eq_iff (le : lo ≤ hi) (near : hi - lo < range) :
    lo % range = hi % range ↔ lo = hi := by
  refine ⟨fun same => ?_, fun same => by rw [same]⟩
  have none : hi - lo = 0 := by
    rw [← counter_sub le near, same, Nat.add_sub_cancel_left, Nat.mod_self]
  omega

/-- Where there is room, the slot of the next element is none of those in use. -/
theorem slot_ne {j : ℕ} (room : hi < lo + cap) (from_ : lo ≤ j) (below : j < hi) :
    j % cap ≠ hi % cap := by
  have apart : (j + 0) % cap ≠ (j + (hi - j)) % cap :=
    RingBuffer.place_ne (by omega) (by omega)
  rwa [Nat.add_zero, Nat.add_sub_cancel' below.le] at apart

end NTux.Lib
