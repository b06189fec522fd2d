import NTux.Lib.LinkedList
import Mathlib.Data.List.Basic

/-!
# Intrusive queues

A queue whose links and membership flags are stored in the elements: `head` and
`tail` pointers, a successor and a predecessor for each element, and a flag that
says whether the element is on the queue.  Adding an element that is on the queue
and removing one that is not do nothing.

`Holds q l` says that the three records of membership agree: the links form a doubly
linked list over `l`, and exactly the elements of `l` are flagged.  `Holds.add`,
`Holds.remove` and `Holds.pop` follow the operations on `l`.
-/

namespace NTux.Lib

universe u

/-- A queue with its links and flags in its elements. -/
structure IntrusiveQueue (α : Type u) where
  head : Option α
  tail : Option α
  next : α → Option α
  prev : α → Option α
  queued : α → Bool

namespace IntrusiveQueue

variable {α : Type u}

/-- No element is on the queue. -/
def empty : IntrusiveQueue α := ⟨none, none, fun _ => none, fun _ => none, fun _ => false⟩

section Operations

variable [DecidableEq α] (q : IntrusiveQueue α) (t : α)

/-- Append an element. -/
def add : IntrusiveQueue α :=
  if q.queued t then q
  else
    { head := retarget q.tail q.head (some t)
      tail := some t
      next := redirect (Function.update q.next t none) q.tail (some t)
      prev := Function.update q.prev t q.tail
      queued := Function.update q.queued t true }

/-- Take an element out, wherever it stands. -/
def remove : IntrusiveQueue α :=
  if q.queued t then
    let next := redirect q.next (q.prev t) (q.next t)
    { head := retarget (q.prev t) q.head (q.next t)
      tail := retarget (next t) q.tail (q.prev t)
      next := Function.update next t none
      prev := Function.update (redirect q.prev (next t) (q.prev t)) t none
      queued := Function.update q.queued t false }
  else q

/-- Take the first element. -/
def pop : Option (α × IntrusiveQueue α) :=
  match q.head with
  | none => none
  | some t => some (t,
      { head := q.next t
        tail := retarget (q.next t) q.tail none
        next := Function.update q.next t none
        prev := Function.update (redirect q.prev (q.next t) none) t none
        queued := Function.update q.queued t false })

/-- Clear the links and the flag of an element, as memory just allocated is. -/
def reset : IntrusiveQueue α :=
  { q with
    next := Function.update q.next t none
    prev := Function.update q.prev t none
    queued := Function.update q.queued t false }

end Operations

section Flags

variable [DecidableEq α] (q : IntrusiveQueue α) (t u : α)

/-- What an operation does to the flags it does to any queue, well formed or not. -/
theorem add_queued : (q.add t).queued u = (decide (u = t) || q.queued u) := by
  unfold add
  rcases eq_or_ne u t with rfl | ne
  · split
    next queued => simp [queued]
    next => simp
  · split
    · simp [ne]
    · simp [ne]

theorem remove_queued : (q.remove t).queued u = (decide (u ≠ t) && q.queued u) := by
  unfold remove
  rcases eq_or_ne u t with rfl | ne
  · split
    next => simp
    next unqueued => simpa using unqueued
  · split
    · simp [ne]
    · simp [ne]

theorem reset_queued : (q.reset t).queued u = (decide (u ≠ t) && q.queued u) := by
  unfold reset
  rcases eq_or_ne u t with rfl | ne
  · simp
  · simp [ne]

end Flags

/-- The queue holds the elements `l`, in order. -/
structure Holds (q : IntrusiveQueue α) (l : List α) : Prop where
  links : Dll q.next q.prev q.head q.tail l
  flags : ∀ t, q.queued t = true ↔ t ∈ l

namespace Holds

variable {q : IntrusiveQueue α} {l : List α} {t : α}

theorem nodup (holds : q.Holds l) : l.Nodup := holds.links.nodup

theorem empty : (IntrusiveQueue.empty : IntrusiveQueue α).Holds [] :=
  ⟨Dll.empty, fun _ => by simp [IntrusiveQueue.empty]⟩

variable [DecidableEq α]

/-- Adding a new element appends it. -/
theorem add (holds : q.Holds l) (new : t ∉ l) : (q.add t).Holds (l ++ [t]) := by
  have unflagged : ¬ q.queued t = true := fun flag => new ((holds.flags t).1 flag)
  rw [IntrusiveQueue.add, if_neg unflagged]
  refine ⟨holds.links.pushBack new, fun c => ?_⟩
  rcases eq_or_ne c t with rfl | ne
  · simp
  · simp [holds.flags, ne]

/-- Removing an element takes it out of the list. -/
theorem remove (holds : q.Holds l) : (q.remove t).Holds (l.erase t) := by
  by_cases mem : t ∈ l
  · obtain ⟨l₁, l₂, rfl⟩ := List.append_of_mem mem
    have distinct := holds.nodup
    have off : t ∉ l₁ := fun mem₁ =>
      (List.nodup_append.1 distinct).2.2 t mem₁ t List.mem_cons_self rfl
    obtain ⟨-, before⟩ := holds.links.links
    have kept : redirect q.next (q.prev t) (q.next t) t = q.next t := by
      rw [before]
      cases last : l₁.getLast? with
      | none => rfl
      | some b =>
          refine Function.update_of_ne ?_ _ _
          rintro rfl
          exact off (List.mem_of_getLast? last)
    have erased : (l₁ ++ t :: l₂).erase t = l₁ ++ l₂ := by
      rw [List.erase_append_right _ off, List.erase_cons_head]
    rw [IntrusiveQueue.remove, if_pos ((holds.flags t).2 mem), erased]
    simp only [kept]
    refine ⟨holds.links.unlink none none, fun c => ?_⟩
    rcases eq_or_ne c t with rfl | ne
    · have off₂ : c ∉ l₂ := (List.nodup_cons.1 (List.nodup_append.1 distinct).2.1).1
      simp [off, off₂]
    · simp [holds.flags, ne]
  · have unflagged : ¬ q.queued t = true := fun flag => mem ((holds.flags t).1 flag)
    rw [IntrusiveQueue.remove, if_neg unflagged, List.erase_of_not_mem mem]
    exact holds

theorem pop_nil (holds : q.Holds []) : q.pop = none := by
  have head : q.head = none := holds.links.forward.head_eq
  rw [IntrusiveQueue.pop, head]

/-- Popping takes the first element. -/
theorem pop (holds : q.Holds (t :: l)) : ∃ q', q.pop = some (t, q') ∧ q'.Holds l := by
  have head : q.head = some t := holds.links.forward.head_eq
  refine ⟨_, by rw [IntrusiveQueue.pop, head], holds.links.popFront none none, fun c => ?_⟩
  have off : t ∉ l := (List.nodup_cons.1 holds.nodup).1
  rcases eq_or_ne c t with rfl | ne
  · simp [off]
  · simp [holds.flags, ne]

theorem reset (holds : q.Holds l) (off : t ∉ l) : (q.reset t).Holds l := by
  have ne : ∀ c ∈ l, c ≠ t := by
    rintro c mem rfl
    exact off mem
  refine ⟨holds.links.congr (fun c mem => Function.update_of_ne (ne c mem) _ _)
    fun c mem => Function.update_of_ne (ne c mem) _ _, fun c => ?_⟩
  rcases eq_or_ne c t with rfl | neC
  · simp [IntrusiveQueue.reset, off]
  · simp [IntrusiveQueue.reset, Function.update_of_ne neC, holds.flags]

end Holds

end IntrusiveQueue

end NTux.Lib
