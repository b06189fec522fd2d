import Mathlib.Logic.Basic
import Mathlib.Data.List.Basic

/-!
# Runs of a transition system

A system is a total step function `step : σ → α → σ` over actions `α`; whatever
the environment decides (an allocation that fails, a page that is handed out, a
timer that fires) is part of the action.  A run is a list of actions.

* `run` — the state at the end of a run.
* `AllSteps P` — every step of the run satisfies `P` at the state it starts from.
* `Reaches` — some run of the system leads from one state to another.

The rules below package the induction over a run once: an invariant kept by the
steps that meet a condition holds at the end of every run all of whose steps
meet it (`run_invariant`), a step property that follows from the invariant holds
at every step (`AllSteps.of_invariant`), and where the step property and the
condition agree on the invariant, so do their versions over whole runs
(`allSteps_iff_of_invariant`).
-/

namespace NTux.Lib

universe u v

variable {σ : Type u} {α : Type v} {step : σ → α → σ}

/-- The state reached from `s` by the actions `as`, in order. -/
def run (step : σ → α → σ) (s : σ) (as : List α) : σ := as.foldl step s

@[simp] theorem run_nil (s : σ) : run step s [] = s := rfl

@[simp] theorem run_cons (s : σ) (a : α) (as : List α) :
    run step s (a :: as) = run step (step s a) as := rfl

theorem run_append (s : σ) (as bs : List α) :
    run step s (as ++ bs) = run step (run step s as) bs := by
  simp [run]

/-- Every step of the run of `as` from `s` satisfies `P`. -/
def AllSteps (step : σ → α → σ) (P : σ → α → Prop) : σ → List α → Prop
  | _, [] => True
  | s, a :: as => P s a ∧ AllSteps step P (step s a) as

@[simp] theorem allSteps_nil (P : σ → α → Prop) (s : σ) : AllSteps step P s [] := trivial

@[simp] theorem allSteps_cons (P : σ → α → Prop) (s : σ) (a : α) (as : List α) :
    AllSteps step P s (a :: as) ↔ P s a ∧ AllSteps step P (step s a) as := Iff.rfl

theorem allSteps_append (P : σ → α → Prop) (s : σ) (as bs : List α) :
    AllSteps step P s (as ++ bs) ↔
      AllSteps step P s as ∧ AllSteps step P (run step s as) bs := by
  induction as generalizing s with
  | nil => simp
  | cons a as ih => simp [ih, and_assoc]

/-- Whether a run meets a decidable condition can be computed. -/
instance AllSteps.instDecidable {P : σ → α → Prop} [∀ s a, Decidable (P s a)] :
    ∀ (s : σ) (as : List α), Decidable (AllSteps step P s as)
  | _, [] => isTrue trivial
  | s, a :: as =>
      @instDecidableAnd (P s a) (AllSteps step P (step s a) as) inferInstance
        (AllSteps.instDecidable (step s a) as)

/-- `t` is reachable from `s`. -/
def Reaches (step : σ → α → σ) (s t : σ) : Prop := ∃ as, run step s as = t

/-! ## The rules for invariants -/

section Invariant

variable {Inv : σ → Prop} {Cond Good : σ → α → Prop}

/-- An invariant kept by every step that meets `Cond` holds at the end of every
run whose steps all meet `Cond`. -/
theorem run_invariant (keep : ∀ s a, Inv s → Cond s a → Inv (step s a))
    {s : σ} {as : List α} (start : Inv s) (cond : AllSteps step Cond s as) :
    Inv (run step s as) := by
  induction as generalizing s with
  | nil => exact start
  | cons a as ih => exact ih (keep s a start cond.1) cond.2

/-- One more action. -/
theorem Reaches.next {s t : σ} (reach : Reaches step s t) (a : α) : Reaches step s (step t a) := by
  obtain ⟨as, rfl⟩ := reach
  exact ⟨as ++ [a], by simp [run_append]⟩

/-- An unconditional invariant holds in every reachable state. -/
theorem Reaches.invariant (keep : ∀ s a, Inv s → Inv (step s a))
    {s t : σ} (start : Inv s) (reach : Reaches step s t) : Inv t := by
  obtain ⟨as, rfl⟩ := reach
  induction as generalizing s with
  | nil => exact start
  | cons a as ih => exact ih (keep s a start)

/-- A step property that holds whenever the invariant and the condition do holds
at every step of a run whose steps all meet the condition. -/
theorem AllSteps.of_invariant (keep : ∀ s a, Inv s → Cond s a → Inv (step s a))
    (good : ∀ s a, Inv s → Cond s a → Good s a)
    {s : σ} {as : List α} (start : Inv s) (cond : AllSteps step Cond s as) :
    AllSteps step Good s as := by
  induction as generalizing s with
  | nil => trivial
  | cons a as ih =>
      exact ⟨good s a start cond.1, ih (keep s a start cond.1) cond.2⟩

/-- A step property that follows from an unconditional invariant holds at every step of
every run. -/
theorem AllSteps.of_kept (keep : ∀ s a, Inv s → Inv (step s a)) (good : ∀ s a, Inv s → Good s a)
    {s : σ} (start : Inv s) (as : List α) : AllSteps step Good s as := by
  induction as generalizing s with
  | nil => trivial
  | cons a as ih => exact ⟨good s a start, ih (keep s a start)⟩

/-- Where the invariant makes a step good exactly when it meets the condition,
a run is good at every step exactly when it meets the condition at every step. -/
theorem allSteps_iff_of_invariant
    (keep : ∀ s a, Inv s → Cond s a → Inv (step s a))
    (exact' : ∀ s a, Inv s → (Good s a ↔ Cond s a))
    {s : σ} {as : List α} (start : Inv s) :
    AllSteps step Good s as ↔ AllSteps step Cond s as := by
  induction as generalizing s with
  | nil => simp
  | cons a as ih =>
      constructor
      · rintro ⟨good, rest⟩
        have cond := (exact' s a start).1 good
        exact ⟨cond, (ih (keep s a start cond)).1 rest⟩
      · rintro ⟨cond, rest⟩
        exact ⟨(exact' s a start).2 cond, (ih (keep s a start cond)).2 rest⟩

end Invariant

end NTux.Lib
