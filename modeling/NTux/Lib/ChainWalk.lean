import Mathlib.Data.List.Nodup
import Mathlib.Data.List.Perm.Subperm

/-!
# Guarded walks along a chain

A walk visits the nodes of a linked chain one after another and carries a state along.  It
stops when a visit is done, at the end of the chain, at a node that ends every chain, or when
its guard, which bounds the number of visits, has run out.

`Run` is the part of a walk in which every visit goes on; the nodes visited are its list.  A
run that comes back to one of its nodes never leaves them (`walk_of_comesBack`), and one that
does not has no more nodes than there are (`Run.length_le`), so that a guard of this size does
not run out (`Run.walk_eq`).
-/

namespace NTux.Lib.ChainWalk

/-- What a visit comes to: the walk goes on with a state, or it is done. -/
inductive Visit (σ ρ : Type)
  | next (s : σ)
  | done (r : ρ)

/-- Where a node leads: to a node, to the end of the chain, or nowhere. -/
inductive Link
  | to (node : Nat)
  | stop
  | broken

/-- How a walk ends.  A walk that is not done has left its loop at a node, with what remains of
the guard; `none` if the guard has run out. -/
inductive Outcome (σ ρ : Type)
  | done (r : ρ)
  | left (s : σ) (node : Nat) (guard : Option Nat)

/-- What a walk does at a node, and its result where a link is broken. -/
structure Walker (σ ρ : Type) where
  ends : Nat → Bool
  visit : Nat → σ → Visit σ ρ
  link : Nat → Link
  fail : σ → ρ

variable {σ ρ : Type}

/-- The walk. -/
def walk (w : Walker σ ρ) : Nat → Nat → σ → Outcome σ ρ
  | 0, c, s => .left s c (if w.ends c then some 0 else none)
  | g + 1, c, s =>
      if w.ends c then .left s c (some (g + 1))
      else match w.visit c s with
        | .done r => .done r
        | .next s =>
            match w.link c with
            | .to n => walk w g n s
            | .stop => .left s c (some g)
            | .broken => .done (w.fail s)

/-- The nodes `cs` are visited, one after another, and then `c'` is reached. -/
inductive Run (w : Walker σ ρ) : Nat → σ → List Nat → Nat → σ → Prop
  | refl (c : Nat) (s : σ) : Run w c s [] c s
  | step {c n c' : Nat} {s s₁ s' : σ} {cs : List Nat} (goes : w.ends c = false)
      (visited : w.visit c s = .next s₁) (linked : w.link c = .to n)
      (rest : Run w n s₁ cs c' s') : Run w c s (c :: cs) c' s'

/-- A run comes back to a node it has visited. -/
def ComesBack (w : Walker σ ρ) (c : Nat) (s : σ) : Prop :=
  ∃ cs c' s', Run w c s cs c' s' ∧ c' ∈ cs

variable {w : Walker σ ρ} {c c' : Nat} {s s' : σ} {cs : List Nat}

/-- The walk goes on from where a run has come to. -/
theorem Run.walk_eq (run : Run w c s cs c' s') (g : Nat) :
    walk w (cs.length + g) c s = walk w g c' s' := by
  induction run with
  | refl c s => rw [List.length_nil, Nat.zero_add]
  | step goes visited linked rest ih =>
      rw [List.length_cons, Nat.add_right_comm, walk, goes, visited, linked]
      exact ih

theorem Run.visited_of_mem (run : Run w c s cs c' s') {x : Nat} (mem : x ∈ cs) :
    w.ends x = false ∧ ∃ s₁ s₂, w.visit x s₁ = .next s₂ := by
  induction run with
  | refl => cases mem
  | step goes visited linked rest ih =>
      rcases List.mem_cons.1 mem with rfl | mem
      · exact ⟨goes, _, _, visited⟩
      · exact ih mem

/-- A node of a run leads to another one, or to where the run has come to. -/
theorem Run.link_of_mem (run : Run w c s cs c' s') {x : Nat} (mem : x ∈ cs) :
    ∃ y, w.link x = .to y ∧ (y ∈ cs ∨ y = c') := by
  induction run with
  | refl => cases mem
  | step goes visited linked rest ih =>
      rcases List.mem_cons.1 mem with rfl | mem
      · refine ⟨_, linked, ?_⟩
        cases rest with
        | refl => exact .inr rfl
        | step => exact .inl (List.mem_cons_of_mem _ List.mem_cons_self)
      · obtain ⟨y, link, place⟩ := ih mem
        exact ⟨y, link, place.imp_left (List.mem_cons_of_mem _)⟩

/-- The run up to one of its nodes. -/
theorem Run.upTo (run : Run w c s cs c' s') {x : Nat} (mem : x ∈ cs) :
    ∃ before s₁, Run w c s before x s₁ := by
  induction run with
  | refl => cases mem
  | step goes visited linked rest ih =>
      rcases List.mem_cons.1 mem with rfl | mem
      · exact ⟨[], _, .refl _ _⟩
      · obtain ⟨before, s₁, first⟩ := ih mem
        exact ⟨_, s₁, .step goes visited linked first⟩

/-- A run that does not come back visits every node once. -/
theorem Run.nodup (run : Run w c s cs c' s') (never : ¬ ComesBack w c s) : cs.Nodup := by
  induction run with
  | refl => exact List.nodup_nil
  | step goes visited linked rest ih =>
      refine List.nodup_cons.2 ⟨fun mem => ?_, ih fun back => never ?_⟩
      · obtain ⟨before, s₁, first⟩ := rest.upTo mem
        exact never ⟨_, _, s₁, .step goes visited linked first, List.mem_cons_self⟩
      · obtain ⟨cs, c', s', later, mem⟩ := back
        exact ⟨_, c', s', .step goes visited linked later, List.mem_cons_of_mem _ mem⟩

/-- It has no more nodes than there are. -/
theorem Run.length_le (run : Run w c s cs c' s') (never : ¬ ComesBack w c s) {nodes : List Nat}
    (inside : ∀ x s₁ s₂, w.ends x = false → w.visit x s₁ = .next s₂ → x ∈ nodes) :
    cs.length ≤ nodes.length := by
  have subset : cs ⊆ nodes := fun x mem => by
    obtain ⟨goes, s₁, s₂, visited⟩ := run.visited_of_mem mem
    exact inside x s₁ s₂ goes visited
  exact (List.subperm_of_subset (run.nodup never) subset).length_le

/-- A walk among nodes that lead to each other is done at one of them, or runs out of guard. -/
theorem walk_closed {S : Nat → Prop} {P : ρ → Prop}
    (closed : ∀ x, S x → w.ends x = false ∧ ∃ y, w.link x = .to y ∧ S y)
    (good : ∀ x s r, S x → w.visit x s = .done r → P r) (g : Nat) (start : S c) (s : σ) :
    (∃ r, walk w g c s = .done r ∧ P r) ∨ ∃ s' c', walk w g c s = .left s' c' none ∧ S c' := by
  induction g generalizing c s with
  | zero =>
      refine .inr ⟨s, c, ?_, start⟩
      rw [walk, (closed c start).1]
      rfl
  | succ g ih =>
      obtain ⟨goes, y, link, inside⟩ := closed c start
      rw [walk, goes, link]
      cases visited : w.visit c s with
      | done r => exact .inl ⟨r, rfl, good c s r start visited⟩
      | next s₁ => exact ih inside s₁

/-- The nodes of a run that comes back lead to each other. -/
theorem Run.closed (run : Run w c s cs c' s') (back : c' ∈ cs) :
    ∀ x, x ∈ cs → w.ends x = false ∧ ∃ y, w.link x = .to y ∧ y ∈ cs := by
  intro x mem
  obtain ⟨y, link, place⟩ := run.link_of_mem mem
  refine ⟨(run.visited_of_mem mem).1, y, link, ?_⟩
  rcases place with mem | rfl
  · exact mem
  · exact back

theorem Run.start_mem (run : Run w c s cs c' s') (back : c' ∈ cs) : c ∈ cs := by
  cases run with
  | refl => cases back
  | step => exact List.mem_cons_self

/-- A walk that comes back is done at a node it has visited, or runs out of guard. -/
theorem walk_of_comesBack {P : ρ → Prop} (back : ComesBack w c s)
    (good : ∀ x s₁ s₂ s₃ r, w.ends x = false → w.visit x s₁ = .next s₂ →
      w.visit x s₃ = .done r → P r) (g : Nat) :
    (∃ r, walk w g c s = .done r ∧ P r) ∨
      ∃ s' c', walk w g c s = .left s' c' none ∧ w.ends c' = false := by
  obtain ⟨cs, c', s', run, mem⟩ := back
  refine (walk_closed (S := (· ∈ cs)) (P := P) (run.closed mem) (fun x s₃ r inside done => ?_) g
    (run.start_mem mem) s).imp_right ?_
  · obtain ⟨goes, s₁, s₂, visited⟩ := run.visited_of_mem inside
    exact good x s₁ s₂ s₃ r goes visited done
  · rintro ⟨s₁, c₁, left, inside⟩
    exact ⟨s₁, c₁, left, (run.visited_of_mem inside).1⟩

/-- What a visit leaves satisfies `S`, and what it is done with `R`. -/
def Comes (S : σ → Prop) (R : ρ → Prop) : Visit σ ρ → Prop
  | .next s => S s
  | .done r => R r

theorem Comes.mono {S : σ → Prop} {R R' : ρ → Prop} {visit : Visit σ ρ} (comes : Comes S R visit)
    (weaker : ∀ r, R r → R' r) : Comes S R' visit := by
  cases visit with
  | next s => exact comes
  | done r => exact weaker r comes

/-- What holds at the start and is kept by every visit holds where the walk ends. -/
theorem walk_comes {P : Nat → Prop} {S : σ → Prop} {R : ρ → Prop} {g : Nat}
    (place : P c) (start : S s)
    (visits : ∀ c s, P c → w.ends c = false → S s → Comes S R (w.visit c s))
    (links : ∀ c next, P c → w.link c = .to next → P next) (fails : ∀ s, S s → R (w.fail s)) :
    match walk w g c s with
    | .done r => R r
    | .left s _ _ => S s := by
  induction g generalizing c s with
  | zero => exact start
  | succ g ih =>
      unfold walk
      cases ends : w.ends c with
      | true => exact start
      | false =>
          have here := visits c s place ends start
          rw [if_neg Bool.false_ne_true]
          cases visited : w.visit c s with
          | done r =>
              rw [visited] at here
              exact here
          | next s₁ =>
              rw [visited] at here
              dsimp only
              rcases link : w.link c with next | _ | _
              · exact ih (links c next place link) here
              · exact here
              · exact fails s₁ here

end NTux.Lib.ChainWalk
