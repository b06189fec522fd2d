import Mathlib.Data.List.Basic
import Mathlib.Tactic.Common

/-!
# Text with separators

`cut` splits a text at the first separator, `pieces` at every separator, an empty rest
counting for nothing.  Both undo a concatenation of parts without the separator, and for
both it is known what they make of the beginning of a text (`cut_append`,
`pieces_take_terminated`).
-/

namespace NTux.Lib.Fields

variable {α : Type} [DecidableEq α] {c : α} {a b s t : List α}

/-! ## The first separator -/

/-- The text before and behind the first `c`. -/
def cut (c : α) : List α → Option (List α × List α)
  | [] => none
  | x :: s => if x = c then some ([], s) else (cut c s).map fun r => (x :: r.1, r.2)

theorem cut_cons_of_ne {x : α} (ne : x ≠ c) :
    cut c (x :: s) = (cut c s).map fun r => (x :: r.1, r.2) := by
  rw [cut, if_neg ne]

theorem cut_append_cons (notMem : c ∉ a) : cut c (a ++ c :: b) = some (a, b) := by
  induction a with
  | nil => simp [cut]
  | cons x a ih =>
      rw [List.mem_cons, not_or] at notMem
      rw [List.cons_append, cut_cons_of_ne (Ne.symm notMem.1), ih notMem.2]
      rfl

theorem cut_of_notMem (notMem : c ∉ s) : cut c s = none := by
  induction s with
  | nil => rfl
  | cons x s ih =>
      rw [List.mem_cons, not_or] at notMem
      rw [cut_cons_of_ne (Ne.symm notMem.1), ih notMem.2]
      rfl

theorem eq_of_cut (eq : cut c s = some (a, b)) : s = a ++ c :: b ∧ c ∉ a := by
  induction s generalizing a with
  | nil => exact absurd eq (by simp [cut])
  | cons x s ih =>
      unfold cut at eq
      split at eq
      next same =>
        obtain ⟨rfl, rfl⟩ := Prod.mk.inj (Option.some.inj eq)
        exact ⟨by rw [same]; rfl, by simp⟩
      next ne =>
        obtain ⟨⟨a', b'⟩, cut, pair⟩ := Option.map_eq_some_iff.1 eq
        obtain ⟨rfl, rfl⟩ := Prod.mk.inj pair
        obtain ⟨text, notMem⟩ := ih cut
        exact ⟨by rw [text]; rfl, by simp [notMem, Ne.symm ne]⟩

/-- What is behind the separator may be longer. -/
theorem cut_append (eq : cut c s = some (a, b)) (t : List α) :
    cut c (s ++ t) = some (a, b ++ t) := by
  obtain ⟨rfl, notMem⟩ := eq_of_cut eq
  rw [List.append_assoc, List.cons_append, cut_append_cons notMem]

/-! ## Every separator -/

/-- The parts of the text between the separators.  Nothing behind the last separator is no
part. -/
def pieces (c : α) : List α → List (List α)
  | [] => []
  | x :: s =>
      if x = c then [] :: pieces c s
      else match pieces c s with
        | [] => [[x]]
        | p :: ps => (x :: p) :: ps

theorem pieces_cons_of_ne {x : α} {ps : List (List α)} {p : List α} (ne : x ≠ c)
    (eq : pieces c s = p :: ps) : pieces c (x :: s) = (x :: p) :: ps := by
  rw [pieces, if_neg ne, eq]

theorem pieces_append_cons (notMem : c ∉ a) : pieces c (a ++ c :: b) = a :: pieces c b := by
  induction a with
  | nil => simp [pieces]
  | cons x a ih =>
      rw [List.mem_cons, not_or] at notMem
      exact pieces_cons_of_ne (Ne.symm notMem.1) (ih notMem.2)

theorem pieces_of_notMem (notMem : c ∉ s) (some : s ≠ []) : pieces c s = [s] := by
  induction s with
  | nil => exact absurd rfl some
  | cons x s ih =>
      rw [List.mem_cons, not_or] at notMem
      cases s with
      | nil =>
          rw [pieces, if_neg (Ne.symm notMem.1)]
          rfl
      | cons y s => exact pieces_cons_of_ne (Ne.symm notMem.1) (ih notMem.2 (by simp))

theorem notMem_of_mem_pieces {p : List α} (mem : p ∈ pieces c s) : c ∉ p := by
  induction s generalizing p with
  | nil => exact absurd mem (by simp [pieces])
  | cons x s ih =>
      unfold pieces at mem
      split at mem
      · rcases List.mem_cons.1 mem with rfl | mem
        · simp
        · exact ih mem
      next ne =>
        cases eq : pieces c s with
        | nil =>
            rw [eq] at mem
            obtain rfl := List.mem_singleton.1 mem
            simpa using Ne.symm ne
        | cons q qs =>
            rw [eq] at mem ih
            rcases List.mem_cons.1 mem with rfl | mem
            · rw [List.mem_cons, not_or]
              exact ⟨Ne.symm ne, ih (List.mem_cons_self ..)⟩
            · exact ih (List.mem_cons_of_mem _ mem)

/-- Parts joined by the separator are found again. -/
theorem pieces_intersperse (parts : List (List α)) (clean : ∀ p ∈ parts, c ∉ p ∧ p ≠ []) :
    pieces c (parts.intersperse [c]).flatten = parts := by
  induction parts with
  | nil => rfl
  | cons p parts ih =>
      obtain ⟨notMem, some⟩ := clean p (List.mem_cons_self ..)
      cases parts with
      | nil => simpa using pieces_of_notMem notMem some
      | cons q qs =>
          have rest := ih fun p mem => clean p (List.mem_cons_of_mem _ mem)
          rw [List.intersperse_cons_cons, List.flatten_cons, List.flatten_cons, List.singleton_append,
            pieces_append_cons notMem, rest]

/-! ## The beginning of a text -/

omit [DecidableEq α] in
/-- What is cut off twice is cut off once. -/
theorem take_append_take (n : Nat) (a b : List α) : (a.take n ++ b).take n = (a ++ b).take n := by
  rcases Nat.le_total a.length n with short | long
  · rw [List.take_of_length_le short]
  · rw [List.take_append_of_le_length (by rw [List.length_take]; omega), List.take_take,
      Nat.min_self, List.take_append_of_le_length long]

/-- The parts, each with a separator behind it. -/
def terminated (c : α) (parts : List (List α)) : List α := parts.flatMap fun p => p ++ [c]

/-- The parts that are left of the first `n` characters, the last of which may not be
whole. -/
def kept (n : Nat) : List (List α) → List (List α)
  | [] => []
  | p :: ps =>
      if p.length ≤ n then p :: kept (n - p.length - 1) ps
      else if n = 0 then [] else [p.take n]

omit [DecidableEq α] in
theorem terminated_cons (p : List α) (ps : List (List α)) :
    terminated c (p :: ps) = p ++ c :: terminated c ps := by
  simp [terminated]

omit [DecidableEq α] in
theorem kept_zero {parts : List (List α)} (some : ∀ p ∈ parts, p ≠ []) : kept 0 parts = [] := by
  cases parts with
  | nil => rfl
  | cons p ps =>
      have pos := List.length_pos_iff.2 (some p (List.mem_cons_self ..))
      rw [kept, if_neg (by omega), if_pos rfl]

/-- **The pieces of the beginning of a text are the beginnings of its parts.** -/
theorem pieces_take_terminated (n : Nat) (parts : List (List α))
    (clean : ∀ p ∈ parts, c ∉ p ∧ p ≠ []) :
    pieces c ((terminated c parts).take n) = kept n parts := by
  induction parts generalizing n with
  | nil => simp [terminated, kept, pieces]
  | cons p ps ih =>
      obtain ⟨notMem, some⟩ := clean p (List.mem_cons_self ..)
      have rest := ih (n - p.length - 1) fun q mem => clean q (List.mem_cons_of_mem _ mem)
      rw [terminated_cons, kept]
      split
      next le =>
        rcases Nat.eq_or_lt_of_le le with whole | more
        · rw [List.take_left' whole, pieces_of_notMem notMem some, ← whole, Nat.sub_self,
            Nat.zero_sub, kept_zero fun q mem => (clean q (List.mem_cons_of_mem _ mem)).2]
        · obtain ⟨k, rfl⟩ := Nat.exists_eq_add_of_lt more
          rw [show p.length + k + 1 = p.length + (k + 1) from rfl, List.take_length_add_append,
            List.take_succ_cons, pieces_append_cons notMem]
          rw [show p.length + k + 1 - p.length - 1 = k by omega] at rest
          rw [show p.length + (k + 1) - p.length - 1 = k by omega, rest]
      next gt =>
        rw [List.take_append_of_le_length (by omega)]
        split
        next zero => rw [zero, List.take_zero, pieces]
        next pos =>
          refine pieces_of_notMem (fun mem => notMem (List.mem_of_mem_take mem)) ?_
          rw [ne_eq, List.take_eq_nil_iff, not_or]
          exact ⟨pos, some⟩

omit [DecidableEq α] in
theorem kept_length (n : Nat) (parts : List (List α)) : (kept n parts).length ≤ parts.length := by
  induction parts generalizing n with
  | nil => exact Nat.le_refl _
  | cons p ps ih =>
      unfold kept
      split
      · exact Nat.succ_le_succ (ih _)
      · split <;> simp

omit [DecidableEq α] in
/-- **Records are read from the beginning of a text exactly when no more than the last
separator is missing**, where no record is read from the beginning of its line. -/
theorem filterMap_kept_eq_iff {β γ : Type} {line : β → List α} {parse : List α → Option γ}
    {f : β → γ} (n : Nat) (bs : List β) (notNil : ∀ b ∈ bs, line b ≠ [])
    (whole : ∀ b ∈ bs, parse (line b) = some (f b))
    (part : ∀ b ∈ bs, ∀ k, k < (line b).length → parse ((line b).take k) ≠ some (f b)) :
    (kept n (bs.map line)).filterMap parse = bs.map f ↔
      (terminated c (bs.map line)).length ≤ n + 1 := by
  induction bs generalizing n with
  | nil => simp [kept, terminated]
  | cons b bs ih =>
      have first : b ∈ b :: bs := List.mem_cons_self ..
      have rest := ih (n - (line b).length - 1)
        (fun b mem => notNil b (List.mem_cons_of_mem _ mem))
        (fun b mem => whole b (List.mem_cons_of_mem _ mem))
        (fun b mem => part b (List.mem_cons_of_mem _ mem))
      rw [List.map_cons, List.map_cons, terminated_cons, List.length_append, List.length_cons, kept]
      split
      next le =>
        rw [List.filterMap_cons_some (whole b first), List.cons.injEq, and_iff_right rfl, rest]
        rcases Nat.eq_or_lt_of_le le with all | more
        · -- nothing is left, and the next line has two characters at least
          rw [← all, Nat.sub_self, Nat.zero_sub]
          cases bs with
          | nil => simp [terminated]
          | cons b' bs =>
              have pos := List.length_pos_iff.2
                (notNil b' (List.mem_cons_of_mem _ (List.mem_cons_self ..)))
              rw [List.map_cons, terminated_cons, List.length_append, List.length_cons]
              omega
        · omega
      next gt =>
        refine iff_of_false ?_ (by omega)
        split
        · simp
        · intro eq
          cases read : parse ((line b).take n) with
          | none => exact absurd eq (by simp [read])
          | some v =>
              rw [List.filterMap_cons_some read] at eq
              rw [(List.cons.inj eq).1] at read
              exact part b first n (by omega) read

end NTux.Lib.Fields
