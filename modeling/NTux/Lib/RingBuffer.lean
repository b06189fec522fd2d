import Mathlib.Logic.Function.Basic
import Mathlib.Data.List.Basic
import Mathlib.Data.Nat.ModEq

/-!
# Ring buffers

A queue in an array that is used round and round: `head` is where the next element is taken,
`tail` where the next one goes, and `count` says how many there are.

`Holds cap q l` says that the three agree, and that the slots from `head` on hold the
elements of `l`.  `Holds.push` and `Holds.pop` follow the operations on `l`.
-/

namespace NTux.Lib

universe u

/-- The slots of a ring and its three numbers. -/
@[ext]
structure RingBuffer (α : Type u) where
  slots : ℕ → α
  head : ℕ
  tail : ℕ
  count : ℕ

namespace RingBuffer

variable {α : Type u} {cap : ℕ} {q : RingBuffer α} {l : List α} {x : α}

/-- Put an element behind the last one. -/
def push (cap : ℕ) (q : RingBuffer α) (x : α) : RingBuffer α where
  slots := Function.update q.slots q.tail x
  head := q.head
  tail := (q.tail + 1) % cap
  count := q.count + 1

/-- Take the first element away. -/
def pop (cap : ℕ) (q : RingBuffer α) : RingBuffer α :=
  { q with head := (q.head + 1) % cap, count := q.count - 1 }

/-- The ring has the elements of `l` in it. -/
structure Holds (cap : ℕ) (q : RingBuffer α) (l : List α) : Prop where
  count : q.count = l.length
  fits : l.length ≤ cap
  head : q.head < cap
  tail : q.tail = (q.head + l.length) % cap
  slots : ∀ i x, l[i]? = some x → q.slots ((q.head + i) % cap) = x

/-- A ring without elements. -/
theorem holds_nil (pos : 0 < cap) (slots : ℕ → α) : Holds cap ⟨slots, 0, 0, 0⟩ [] where
  count := rfl
  fits := Nat.zero_le cap
  head := pos
  tail := (Nat.zero_mod cap).symm
  slots := fun i x eq => by
    rw [List.getElem?_nil] at eq
    cases eq

/-- Different places are in different slots. -/
theorem place_ne {h i n : ℕ} (lt : i < n) (room : n < cap) : (h + i) % cap ≠ (h + n) % cap := by
  intro same
  have cancelled : i % cap = n % cap := Nat.ModEq.add_left_cancel' h same
  rw [Nat.mod_eq_of_lt (lt.trans room), Nat.mod_eq_of_lt room] at cancelled
  exact lt.ne cancelled

theorem Holds.push (holds : Holds cap q l) (room : l.length < cap) :
    Holds cap (q.push cap x) (l ++ [x]) where
  count := by
    rw [List.length_append]
    exact congrArg (· + 1) holds.count
  fits := by
    rw [List.length_append]
    exact room
  head := holds.head
  tail := by
    show (q.tail + 1) % cap = (q.head + (l ++ [x]).length) % cap
    rw [holds.tail, Nat.mod_add_mod, List.length_append, Nat.add_assoc]
    rfl
  slots := fun i y eq => by
    show Function.update q.slots q.tail x ((q.head + i) % cap) = y
    rcases Nat.lt_trichotomy i l.length with early | rfl | late
    · rw [List.getElem?_append_left early] at eq
      rw [Function.update_of_ne (holds.tail ▸ place_ne early room)]
      exact holds.slots i y eq
    · rw [List.getElem?_concat_length] at eq
      rw [← holds.tail, Function.update_self]
      exact Option.some.inj eq
    · rw [List.getElem?_eq_none (by rw [List.length_append]; exact late)] at eq
      cases eq

/-- The first element is in the slot at `head`. -/
theorem Holds.first (holds : Holds cap q (x :: l)) : q.slots q.head = x := by
  have here := holds.slots 0 x rfl
  rwa [Nat.add_zero, Nat.mod_eq_of_lt holds.head] at here

theorem Holds.pop (holds : Holds cap q (x :: l)) : Holds cap (q.pop cap) l where
  count := by
    show q.count - 1 = l.length
    rw [holds.count]
    rfl
  fits := Nat.le_of_succ_le holds.fits
  head := Nat.mod_lt _ (Nat.zero_lt_of_lt holds.head)
  tail := by
    show q.tail = ((q.head + 1) % cap + l.length) % cap
    rw [holds.tail, Nat.mod_add_mod, List.length_cons, Nat.add_assoc, Nat.add_comm 1]
  slots := fun i y eq => by
    show q.slots (((q.head + 1) % cap + i) % cap) = y
    rw [Nat.mod_add_mod, Nat.add_assoc, Nat.add_comm 1]
    exact holds.slots (i + 1) y eq

end RingBuffer

end NTux.Lib
