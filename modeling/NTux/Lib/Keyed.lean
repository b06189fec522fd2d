import Mathlib.Data.List.Basic
import Mathlib.Data.List.Nodup
import Mathlib.Tactic.Common

/-!
# Lists of keys and values

What `List.lookup` finds after a pair has been inserted somewhere in a list, or taken out
of it: nothing changes but for the key of the pair, where the keys are distinct.
-/

namespace NTux.Lib.Keyed

variable {κ ν : Type} [BEq κ] [LawfulBEq κ] {x : κ × ν} {l l' : List (κ × ν)} {k : κ}

/-- The keys of a list. -/
def keys (l : List (κ × ν)) : List κ := l.map Prod.fst

/-- `l'` is `l` with `x` somewhere in it. -/
def Inserted (x : κ × ν) (l l' : List (κ × ν)) : Prop := ∃ l₁ l₂, l = l₁ ++ l₂ ∧ l' = l₁ ++ x :: l₂

omit [BEq κ] [LawfulBEq κ] in
theorem Inserted.around (inserted : Inserted x l l') (a b : List (κ × ν)) :
    Inserted x (a ++ (l ++ b)) (a ++ (l' ++ b)) := by
  obtain ⟨l₁, l₂, rfl, rfl⟩ := inserted
  exact ⟨a ++ l₁, l₂ ++ b, by simp, by simp⟩

theorem lookup_cons_of_ne (ne : k ≠ x.1) (l : List (κ × ν)) : (x :: l).lookup k = l.lookup k := by
  rw [List.lookup_cons, beq_false_of_ne ne]

theorem lookup_eq_none_iff : l.lookup k = none ↔ k ∉ keys l := by
  induction l with
  | nil => simp [keys]
  | cons y l ih =>
      by_cases same : k = y.1
      · simp [keys, same]
      · rw [lookup_cons_of_ne same, ih]
        simp [keys, same]

theorem lookup_append_cons_of_ne (ne : k ≠ x.1) (l₁ l₂ : List (κ × ν)) :
    (l₁ ++ x :: l₂).lookup k = (l₁ ++ l₂).lookup k := by
  induction l₁ with
  | nil => exact lookup_cons_of_ne ne l₂
  | cons y l₁ ih =>
      rw [List.cons_append, List.cons_append, List.lookup_cons, List.lookup_cons, ih]

theorem lookup_append_cons_self {l₁ l₂ : List (κ × ν)} (notMem : x.1 ∉ keys l₁) :
    (l₁ ++ x :: l₂).lookup x.1 = some x.2 := by
  induction l₁ with
  | nil => exact List.lookup_cons_self
  | cons y l₁ ih =>
      simp only [keys, List.map_cons, List.mem_cons, not_or] at notMem
      rw [List.cons_append, lookup_cons_of_ne notMem.1, ih notMem.2]

/-- What is not inserted is found as before. -/
theorem Inserted.lookup_of_ne (inserted : Inserted x l l') (ne : k ≠ x.1) :
    l'.lookup k = l.lookup k := by
  obtain ⟨l₁, l₂, rfl, rfl⟩ := inserted
  exact lookup_append_cons_of_ne ne l₁ l₂

omit [BEq κ] [LawfulBEq κ] in
theorem Inserted.nodup_iff (inserted : Inserted x l l') :
    (keys l').Nodup ↔ x.1 ∉ keys l ∧ (keys l).Nodup := by
  obtain ⟨l₁, l₂, rfl, rfl⟩ := inserted
  unfold keys
  rw [List.map_append, List.map_cons, List.nodup_middle, List.nodup_cons, List.map_append]

/-- What is inserted is found, if its key is new. -/
theorem Inserted.lookup_self (inserted : Inserted x l l') (new : x.1 ∉ keys l) :
    l'.lookup x.1 = some x.2 := by
  obtain ⟨l₁, l₂, rfl, rfl⟩ := inserted
  refine lookup_append_cons_self fun mem => new ?_
  unfold keys at mem ⊢
  rw [List.map_append]
  exact List.mem_append_left _ mem

end NTux.Lib.Keyed
