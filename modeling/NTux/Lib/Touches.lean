import Mathlib.Data.List.Basic

/-!
# Computations that log what they touch

A computation that may stop early and keeps a log of what it has touched.  `Within P x` says
that everything `x` touches satisfies `P`; the rules below take it through the steps of `x`.
-/

namespace NTux.Lib

/-- What a computation touches, and its result; `none` where it stops early. -/
structure Touching (τ α : Type) where
  touched : List τ
  result : Option α

namespace Touching

variable {τ α β : Type}

instance : Monad (Touching τ) where
  pure a := ⟨[], some a⟩
  bind x f :=
    match x.result with
    | none => ⟨x.touched, none⟩
    | some a => ⟨x.touched ++ (f a).touched, (f a).result⟩

/-- Touches everything in `ts`. -/
def touchAll (ts : List τ) : Touching τ Unit := ⟨ts, some ()⟩

/-- Touches `t`. -/
def touch (t : τ) : Touching τ Unit := touchAll [t]

/-- Touches `t` where `c` holds. -/
def touchIf (c : Prop) [Decidable c] (t : τ) : Touching τ Unit := touchAll (if c then [t] else [])

/-- Goes on only where `c` holds. -/
def check (c : Prop) [Decidable c] : Touching τ Unit := ⟨[], if c then some () else none⟩

/-- Everything that `x` touches satisfies `P`. -/
def Within (P : τ → Prop) (x : Touching τ α) : Prop := ∀ t ∈ x.touched, P t

variable {P : τ → Prop}

@[simp] theorem within_pure (a : α) : Within P (pure a : Touching τ α) :=
  fun _ mem => absurd mem List.not_mem_nil

@[simp] theorem within_touchAll {ts : List τ} : Within P (touchAll ts) ↔ ∀ t ∈ ts, P t := Iff.rfl

@[simp] theorem within_touch {t : τ} : Within P (touch t) ↔ P t := by
  simp [touch]

@[simp] theorem within_touchIf {c : Prop} [Decidable c] {t : τ} :
    Within P (touchIf c t) ↔ (c → P t) := by
  unfold touchIf
  split <;> simp_all

@[simp] theorem within_check {c : Prop} [Decidable c] : Within P (check c : Touching τ Unit) :=
  fun _ mem => absurd mem List.not_mem_nil

/-- What a computation touches is what its first part touches, and what its second part
touches if it comes to that. -/
theorem within_bind {x : Touching τ α} {f : α → Touching τ β} :
    Within P (x >>= f) ↔ Within P x ∧ ∀ a, x.result = some a → Within P (f a) := by
  obtain ⟨ts, result⟩ := x
  cases result with
  | none =>
      constructor
      · intro within
        exact ⟨within, fun a eq => absurd eq (Option.some_ne_none a).symm⟩
      · intro both
        exact both.1
  | some a =>
      constructor
      · intro within
        refine ⟨fun t mem => within t (List.mem_append_left _ mem), fun b eq => ?_⟩
        obtain rfl := Option.some.inj eq
        exact fun t mem => within t (List.mem_append_right _ mem)
      · rintro ⟨first, rest⟩ t mem
        rcases List.mem_append.1 mem with mem | mem
        · exact first t mem
        · exact rest a rfl t mem

@[simp] theorem within_touchAll_bind {ts : List τ} {f : Unit → Touching τ β} :
    Within P (touchAll ts >>= f) ↔ (∀ t ∈ ts, P t) ∧ Within P (f ()) := by
  rw [within_bind, within_touchAll]
  exact and_congr_right fun _ => ⟨fun rest => rest () rfl, fun rest _ _ => rest⟩

@[simp] theorem within_touch_bind {t : τ} {f : Unit → Touching τ β} :
    Within P (touch t >>= f) ↔ P t ∧ Within P (f ()) := by
  simp [touch]

@[simp] theorem within_touchIf_bind {c : Prop} [Decidable c] {t : τ} {f : Unit → Touching τ β} :
    Within P (touchIf c t >>= f) ↔ (c → P t) ∧ Within P (f ()) := by
  unfold touchIf
  rw [within_touchAll_bind]
  split <;> simp_all

@[simp] theorem within_check_bind {c : Prop} [Decidable c] {f : Unit → Touching τ β} :
    Within P (check c >>= f) ↔ (c → Within P (f ())) := by
  rw [within_bind]
  constructor
  · rintro ⟨_, rest⟩ holds
    exact rest () (if_pos holds)
  · intro rest
    refine ⟨within_check, fun a eq => rest ?_⟩
    by_contra fails
    exact absurd ((if_neg fails).symm.trans eq) (Option.some_ne_none a).symm

@[simp] theorem within_ite {c : Prop} [Decidable c] {x y : Touching τ α} :
    Within P (if c then x else y) ↔ (c → Within P x) ∧ (¬c → Within P y) := by
  split <;> simp_all

end Touching

end NTux.Lib
