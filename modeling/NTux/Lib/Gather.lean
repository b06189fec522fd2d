import Mathlib.Data.List.Basic
import Mathlib.Tactic.Ring

/-!
# Gathering pieces

`gather f i n` asks for the pieces `f i`, …, `f (i + n - 1)` and joins them; it fails where
one of them does.  A transfer of several blocks is such a computation.

* `gather_add` — in two parts.
* `gather_mul` — as pieces of pieces.
* `gather_length`, `getElem?_gather` — pieces of one length.
-/

namespace NTux.Lib

universe u

variable {α : Type u} {f g : Nat → Option (List α)} {i j m n : Nat}

/-- The pieces from `i` on, joined. -/
def gather (f : Nat → Option (List α)) : Nat → Nat → Option (List α)
  | _, 0 => some []
  | i, n + 1 => (f i).bind fun a => (gather f (i + 1) n).map (a ++ ·)

@[simp] theorem gather_zero : gather f i 0 = some [] := rfl

theorem gather_succ : gather f i (n + 1) =
    (f i).bind fun a => (gather f (i + 1) n).map (a ++ ·) := rfl

@[simp] theorem gather_one : gather f i 1 = f i := by
  cases eq : f i <;> simp [gather_succ, eq]

theorem gather_congr (same : ∀ k < n, f (i + k) = g (j + k)) : gather f i n = gather g j n := by
  induction n generalizing i j with
  | zero => rfl
  | succ n ih =>
      have first : f i = g j := by simpa using same 0 (by omega)
      have rest : gather f (i + 1) n = gather g (j + 1) n := by
        apply ih
        intro k lt
        have := same (k + 1) (by omega)
        rwa [Nat.add_assoc, Nat.add_assoc, Nat.add_comm 1 k]
      rw [gather_succ, gather_succ, first, rest]

theorem gather_add : gather f i (m + n) =
    (gather f i m).bind fun a => (gather f (i + m) n).map (a ++ ·) := by
  induction m generalizing i with
  | zero => simp
  | succ m ih =>
      rw [Nat.succ_add, gather_succ, gather_succ, ih]
      cases f i with
      | none => rfl
      | some a =>
          rw [show i + (m + 1) = i + 1 + m from by omega]
          cases gather f (i + 1) m with
          | none => rfl
          | some b =>
              cases gather f (i + 1 + m) n with
              | none => rfl
              | some c => simp

/-- Where the whole is found, so are its two parts. -/
theorem gather_split {d : List α} (eq : gather f i (m + n) = some d) :
    ∃ a b, gather f i m = some a ∧ gather f (i + m) n = some b ∧ d = a ++ b := by
  rw [gather_add] at eq
  cases first : gather f i m with
  | none =>
      rw [first] at eq
      cases eq
  | some a =>
      cases second : gather f (i + m) n with
      | none =>
          rw [first, second] at eq
          cases eq
      | some b =>
          rw [first, second] at eq
          exact ⟨a, b, rfl, rfl, (Option.some.inj eq).symm⟩

/-- `n` pieces of `m` pieces each are `m * n` pieces. -/
theorem gather_mul : gather (fun k => gather f (i + m * k) m) j n =
    gather f (i + m * j) (m * n) := by
  induction n generalizing j with
  | zero => rfl
  | succ n ih =>
      rw [gather_succ, ih, show m * (n + 1) = m + m * n from by ring, gather_add,
        show i + m * (j + 1) = i + m * j + m from by ring]

theorem gather_isSome (all : ∀ k < n, (f (i + k)).isSome = true) :
    (gather f i n).isSome = true := by
  induction n generalizing i with
  | zero => rfl
  | succ n ih =>
      have first := all 0 (by omega)
      have rest : (gather f (i + 1) n).isSome = true := by
        apply ih
        intro k lt
        have := all (k + 1) (by omega)
        rwa [show i + 1 + k = i + (k + 1) from by omega]
      obtain ⟨a, eq⟩ := Option.isSome_iff_exists.mp first
      obtain ⟨b, eq'⟩ := Option.isSome_iff_exists.mp rest
      have head : f i = some a := eq
      simp [gather_succ, head, eq']

section Length

variable {size : Nat} (pieces : ∀ k a, f k = some a → a.length = size)
include pieces

theorem gather_length {d : List α} (eq : gather f i n = some d) : d.length = size * n := by
  induction n generalizing i d with
  | zero =>
      obtain rfl := Option.some.inj eq
      simp
  | succ n ih =>
      rw [show n + 1 = 1 + n from by omega] at eq ⊢
      obtain ⟨a, b, first, rest, rfl⟩ := gather_split eq
      rw [gather_one] at first
      rw [List.length_append, pieces i a first, ih rest]
      ring

/-- The elements of a piece. -/
theorem getElem?_gather {d : List α} (eq : gather f i n = some d) {k o : Nat} (lt : k < n)
    (within : o < size) : ∃ a, f (i + k) = some a ∧ d[size * k + o]? = a[o]? := by
  rw [show n = k + (1 + (n - k - 1)) from by omega] at eq
  obtain ⟨before, rest, first, second, rfl⟩ := gather_split eq
  obtain ⟨a, behind, piece, -, rfl⟩ := gather_split second
  rw [gather_one] at piece
  refine ⟨a, piece, ?_⟩
  have here := gather_length pieces first
  have len := pieces _ a piece
  rw [List.getElem?_append_right (by omega), List.getElem?_append_left (by omega)]
  congr 1
  omega

end Length

end NTux.Lib
