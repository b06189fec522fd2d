import Mathlib.Data.List.Basic

/-!
# Computations that fail with their state

A computation on a state that may fail, and then leaves the state as far as it has come, and
that keeps a log of what it does.  `Within P x` says that every entry of the log satisfies `P`
whatever state `x` starts from, and `Avoids e x` that `x` never fails with `e`; the rules below
take both through the steps of `x`.
-/

namespace NTux.Lib

/-- How a computation ends: its result or an error, the state, and the log. -/
structure LoggedRun (σ τ ε α : Type) where
  result : Except ε α
  state : σ
  log : List τ

/-- A computation. -/
def Logged (σ τ ε α : Type) := σ → LoggedRun σ τ ε α

namespace Logged

variable {σ τ ε α β : Type}

/-- `y` goes on where the run has ended. -/
def continued (r : LoggedRun σ τ ε α) (y : Except ε α → Logged σ τ ε β) : LoggedRun σ τ ε β :=
  let next := y r.result r.state
  ⟨next.result, next.state, r.log ++ next.log⟩

/-- Goes on with `y` whether `x` fails or not. -/
def andThen (x : Logged σ τ ε α) (y : Except ε α → Logged σ τ ε β) : Logged σ τ ε β :=
  fun s => continued (x s) y

/-- Fails. -/
def fail (e : ε) : Logged σ τ ε α := fun s => ⟨.error e, s, []⟩

instance : Monad (Logged σ τ ε) where
  pure a := fun s => ⟨.ok a, s, []⟩
  bind x f := andThen x fun
    | .ok a => f a
    | .error e => fail e

/-- What can be told from the state alone. -/
def query (f : σ → Except ε α) : Logged σ τ ε α := fun s => ⟨f s, s, []⟩

/-- Every entry of the log satisfies `P`. -/
def Within (P : τ → Prop) (x : Logged σ τ ε α) : Prop := ∀ s, ∀ t ∈ (x s).log, P t

/-- `x` does not fail with `e`. -/
def Avoids (e : ε) (x : Logged σ τ ε α) : Prop := ∀ s, (x s).result ≠ .error e

variable {P : τ → Prop} {e : ε} {x : Logged σ τ ε α} {s : σ} {t : τ}

/-! ## Logs -/

theorem log_andThen (x : Logged σ τ ε α) (y : Except ε α → Logged σ τ ε β) (s : σ) :
    (andThen x y s).log = (x s).log ++ (y (x s).result (x s).state).log := rfl

theorem result_andThen (x : Logged σ τ ε α) (y : Except ε α → Logged σ τ ε β) (s : σ) :
    (andThen x y s).result = (y (x s).result (x s).state).result := rfl

theorem bind_run (x : Logged σ τ ε α) (f : α → Logged σ τ ε β) (s : σ) :
    (x >>= f) s = continued (x s) fun
      | .ok a => f a
      | .error e => fail e := rfl

theorem log_bind_ok {f : α → Logged σ τ ε β} {a : α} (ok : (x s).result = .ok a) :
    ((x >>= f) s).log = (x s).log ++ (f a (x s).state).log := by
  rw [bind_run]
  unfold continued
  rw [ok]

theorem log_bind_error {f : α → Logged σ τ ε β} (error : (x s).result = .error e) :
    ((x >>= f) s).log = (x s).log := by
  rw [bind_run]
  unfold continued
  rw [error]
  exact List.append_nil _

theorem result_bind_ok {f : α → Logged σ τ ε β} {a : α} (ok : (x s).result = .ok a) :
    ((x >>= f) s).result = (f a (x s).state).result := by
  rw [bind_run]
  unfold continued
  rw [ok]

theorem result_bind_error {f : α → Logged σ τ ε β} (error : (x s).result = .error e) :
    ((x >>= f) s).result = .error e := by
  rw [bind_run]
  unfold continued
  rw [error]
  rfl

theorem state_bind_ok {f : α → Logged σ τ ε β} {a : α} (ok : (x s).result = .ok a) :
    ((x >>= f) s).state = (f a (x s).state).state := by
  rw [bind_run]
  unfold continued
  rw [ok]

theorem query_bind_ok {f : σ → Except ε α} {y : α → Logged σ τ ε β} {a : α} (ok : f s = .ok a) :
    (query f >>= y) s = y a s := by
  rw [bind_run]
  unfold continued query
  dsimp only
  rw [ok]
  rfl

theorem query_bind_error {f : σ → Except ε α} {y : α → Logged σ τ ε β} (error : f s = .error e) :
    (query f >>= y) s = ⟨.error e, s, []⟩ := by
  rw [bind_run]
  unfold continued query
  dsimp only
  rw [error]
  rfl

theorem query_bind (f : σ → α) (y : α → Logged σ τ ε β) (s : σ) :
    (query (fun s => .ok (f s)) >>= y) s = y (f s) s :=
  query_bind_ok (f := fun s => .ok (f s)) rfl

/-- What the first of two steps logs stays in the log. -/
theorem mem_log_bind (f : α → Logged σ τ ε β) (mem : t ∈ (x s).log) : t ∈ ((x >>= f) s).log :=
  List.mem_append_left _ mem

/-- The log of two steps: the second one's is missing where the first fails. -/
theorem log_bind_cases (x : Logged σ τ ε α) (f : α → Logged σ τ ε β) (s : σ) :
    ∃ rest, ((x >>= f) s).log = (x s).log ++ rest ∧
      (rest = [] ∨ ∃ a s', (x s).result = .ok a ∧ rest = (f a s').log) := by
  cases result : (x s).result with
  | ok a => exact ⟨_, log_bind_ok result, .inr ⟨a, _, rfl, rfl⟩⟩
  | error e => exact ⟨[], (log_bind_error result).trans (List.append_nil _).symm, .inl rfl⟩

theorem mem_log_andThen (y : Except ε α → Logged σ τ ε β) (mem : t ∈ (x s).log) :
    t ∈ (andThen x y s).log :=
  List.mem_append_left _ mem

@[simp] theorem within_pure (a : α) : Within P (pure a : Logged σ τ ε α) :=
  fun _ _ mem => absurd mem List.not_mem_nil

@[simp] theorem within_fail (e : ε) : Within P (fail e : Logged σ τ ε α) :=
  fun _ _ mem => absurd mem List.not_mem_nil

@[simp] theorem within_query (f : σ → Except ε α) : Within P (query f : Logged σ τ ε α) :=
  fun _ _ mem => absurd mem List.not_mem_nil

theorem Within.andThen {y : Except ε α → Logged σ τ ε β} (first : Within P x)
    (second : ∀ r, Within P (y r)) : Within P (andThen x y) := by
  intro s t mem
  rcases List.mem_append.1 mem with mem | mem
  · exact first s t mem
  · exact second _ _ t mem

theorem Within.bind {f : α → Logged σ τ ε β} (first : Within P x)
    (second : ∀ a, Within P (f a)) : Within P (x >>= f) :=
  first.andThen fun r => by
    cases r with
    | ok a => exact second a
    | error e => exact within_fail e

/-- Whatever `x` results in satisfies `Q`. -/
def Yields (Q : α → Prop) (x : Logged σ τ ε α) : Prop := ∀ s a, (x s).result = .ok a → Q a

theorem Within.bind_yields {Q : α → Prop} {f : α → Logged σ τ ε β} (first : Within P x)
    (yields : Yields Q x) (second : ∀ a, Q a → Within P (f a)) : Within P (x >>= f) := by
  intro s t mem
  cases result : (x s).result with
  | ok a =>
      rw [log_bind_ok result] at mem
      rcases List.mem_append.1 mem with mem | mem
      · exact first s t mem
      · exact second a (yields s a result) _ t mem
  | error e =>
      rw [log_bind_error result] at mem
      exact first s t mem

/-! ## Errors -/

@[simp] theorem avoids_pure (a : α) : Avoids e (pure a : Logged σ τ ε α) :=
  fun _ same => by cases same

theorem Avoids.andThen {y : Except ε α → Logged σ τ ε β} (first : Avoids e x)
    (second : ∀ r, r ≠ .error e → Avoids e (y r)) : Avoids e (andThen x y) :=
  fun s => second _ (first s) _

end Logged

end NTux.Lib
