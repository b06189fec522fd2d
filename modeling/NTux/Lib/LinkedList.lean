import Mathlib.Logic.Function.Basic
import Mathlib.Data.List.Nodup

/-!
# Linked lists in a pointer structure

A pointer structure is a function `next : α → Option α` from a node to its
successor, `none` being the null pointer.  `Seg next p l q` says that following
`next` from the pointer `p` visits exactly the nodes `l`, in order, and arrives
at the pointer `q`; `Chain next p l` is the case `q = none`.

A doubly linked list (`Dll`) is a chain of successors read from the head
together with a chain of predecessors read from the tail, over the reversed
list of nodes.  `Dll.pushBack`, `Dll.popFront` and `Dll.unlink` are the pointer
surgeries of a queue with links in its nodes.
-/

namespace NTux.Lib

universe u

variable {α : Type u}

/-- The nodes `l` lead from the pointer `p` to the pointer `q`. -/
def Seg (next : α → Option α) : Option α → List α → Option α → Prop
  | p, [], q => p = q
  | p, a :: l, q => p = some a ∧ Seg next (next a) l q

/-- The nodes `l` lead from the pointer `p` to the end of the list. -/
def Chain (next : α → Option α) (p : Option α) (l : List α) : Prop := Seg next p l none

variable {next prev : α → Option α} {p q : Option α} {l l₁ l₂ : List α} {a t : α}

namespace Seg

@[simp] theorem nil_iff : Seg next p [] q ↔ p = q := Iff.rfl

@[simp] theorem cons_iff :
    Seg next p (a :: l) q ↔ p = some a ∧ Seg next (next a) l q := Iff.rfl

theorem append_iff :
    Seg next p (l₁ ++ l₂) q ↔ ∃ m, Seg next p l₁ m ∧ Seg next m l₂ q := by
  induction l₁ generalizing p with
  | nil => simp
  | cons a l₁ ih => simp [ih, and_assoc]

/-- A segment only depends on the links of its own nodes. -/
theorem congr {next' : α → Option α} (seg : Seg next p l q)
    (same : ∀ a ∈ l, next' a = next a) : Seg next' p l q := by
  induction l generalizing p with
  | nil => exact seg
  | cons a l ih =>
      refine ⟨seg.1, ?_⟩
      rw [same a (by simp)]
      exact ih seg.2 fun b mem => same b (by simp [mem])

end Seg

namespace Chain

theorem congr {next' : α → Option α} (chain : Chain next p l)
    (same : ∀ a ∈ l, next' a = next a) : Chain next' p l :=
  Seg.congr chain same

theorem nil_of_none (chain : Chain next none l) : l = [] := by
  cases l with
  | nil => rfl
  | cons a l => exact absurd chain.1 (by simp)

theorem cons_of_some (chain : Chain next (some a) l) :
    ∃ rest, l = a :: rest ∧ Chain next (next a) rest := by
  cases l with
  | nil => exact absurd chain (by simp [Chain])
  | cons b rest =>
      obtain ⟨same, rest_chain⟩ := chain
      obtain rfl := Option.some.inj same
      exact ⟨rest, rfl, rest_chain⟩

theorem head_eq (chain : Chain next p l) : p = l.head? := by
  cases l with
  | nil => exact chain
  | cons a l => exact chain.1

/-- The nodes of a chain are determined by where it starts. -/
theorem unique (chain₁ : Chain next p l₁) (chain₂ : Chain next p l₂) : l₁ = l₂ := by
  induction l₁ generalizing p l₂ with
  | nil =>
      obtain rfl : p = none := chain₁
      exact (nil_of_none chain₂).symm
  | cons a l₁ ih =>
      obtain ⟨rfl, chain₁⟩ := chain₁
      obtain ⟨rest, rfl, tail₂⟩ := cons_of_some chain₂
      rw [ih chain₁ tail₂]

/-- The part of a chain after one of its nodes is the chain of that node. -/
theorem tail_of_append (chain : Chain next p (l₁ ++ a :: l₂)) : Chain next (next a) l₂ := by
  obtain ⟨m, -, rest⟩ := Seg.append_iff.1 chain
  exact rest.2

/-- **A chain that ends visits no node twice.**  Two visits of one node would be
followed by the same nodes, of which there are fewer after the second visit. -/
theorem nodup (chain : Chain next p l) : l.Nodup := by
  induction l generalizing p with
  | nil => exact List.nodup_nil
  | cons a l ih =>
      refine List.nodup_cons.2 ⟨fun mem => ?_, ih chain.2⟩
      obtain ⟨l₁, l₂, rfl⟩ := List.append_of_mem mem
      have whole : Chain next p ((a :: l₁) ++ a :: l₂) := by simpa using chain
      have again : Chain next (next a) l₂ := whole.tail_of_append
      have same := unique chain.2 again
      have := congrArg List.length same
      simp at this
      omega

end Chain

/-! ## Pointer surgery -/

/-- A list's end pointer after its last link was redirected to `target`: it is the
pointer itself that changes when there is no node before. -/
def retarget (before ptr target : Option α) : Option α :=
  match before with
  | some _ => ptr
  | none => target

@[simp] theorem retarget_none (ptr target : Option α) : retarget none ptr target = target := rfl

@[simp] theorem retarget_some (b : α) (ptr target : Option α) :
    retarget (some b) ptr target = ptr := rfl

section Surgery

variable [DecidableEq α]

/-- Store `target` in the link of the node `before` points to, if it points to one. -/
def redirect (next : α → Option α) (before target : Option α) : α → Option α :=
  match before with
  | some b => Function.update next b target
  | none => next

@[simp] theorem redirect_none (target : Option α) : redirect next none target = next := rfl

@[simp] theorem redirect_some (b : α) (target : Option α) :
    redirect next (some b) target = Function.update next b target := rfl

/-- Replacing the rest of a chain: the last node before it, or the pointer to the
list when there is none, is redirected to `target`, from where `rest` leads to the
end.  That node must not be on the new rest, whose links are those of `next`. -/
theorem Chain.splice {target : Option α} {rest : List α} (chain : Chain next p (l₁ ++ l₂))
    (tail : Chain next target rest) (off : ∀ b ∈ l₁.getLast?, b ∉ rest) :
    Chain (redirect next l₁.getLast? target) (retarget l₁.getLast? p target) (l₁ ++ rest) := by
  have distinct := chain.nodup
  rcases List.eq_nil_or_concat l₁ with rfl | ⟨init, b, rfl⟩
  · exact tail
  · simp only [List.concat_eq_append] at chain distinct off ⊢
    simp only [List.getLast?_append, List.getLast?_singleton, Option.some_or, redirect_some,
      retarget_some] at off ⊢
    have apart : b ∉ init := by
      simp only [List.append_assoc, List.singleton_append, List.nodup_append,
        List.nodup_cons, List.mem_cons] at distinct
      exact fun mem => distinct.2.2 b mem b (Or.inl rfl) rfl
    obtain ⟨m, first, -⟩ := Seg.append_iff.1 chain
    obtain ⟨m', start, last⟩ := Seg.append_iff.1 first
    obtain rfl : m' = some b := last.1
    refine Seg.append_iff.2 ⟨target, Seg.append_iff.2 ⟨some b, ?_, rfl, by simp⟩, ?_⟩
    · refine start.congr fun c mem => Function.update_of_ne ?_ _ _
      rintro rfl
      exact apart mem
    · refine Seg.congr tail fun c mem => Function.update_of_ne ?_ _ _
      rintro rfl
      exact off c rfl mem

/-- Taking the node `t` out of a chain: it is redirected past it. -/
theorem Chain.bypass (chain : Chain next p (l₁ ++ t :: l₂)) :
    Chain (redirect next l₁.getLast? (next t)) (retarget l₁.getLast? p (next t)) (l₁ ++ l₂) := by
  refine chain.splice chain.tail_of_append fun b last mem => ?_
  exact (List.nodup_append.1 chain.nodup).2.2 b (List.mem_of_getLast? last) b
    (List.mem_cons_of_mem _ mem) rfl

/-- Putting a node `t` between two nodes of a chain, or at one of its ends: its link
is what the redirected one was. -/
theorem Chain.insert (chain : Chain next p (l₁ ++ l₂)) (new : t ∉ l₁)
    (link : Chain next (next t) l₂) :
    Chain (redirect next l₁.getLast? (some t)) (retarget l₁.getLast? p (some t))
      (l₁ ++ t :: l₂) := by
  refine chain.splice ⟨rfl, link⟩ fun b last mem => ?_
  have memB := List.mem_of_getLast? last
  rcases List.mem_cons.1 mem with rfl | mem
  · exact new memB
  · exact (List.nodup_append.1 chain.nodup).2.2 b memB b mem rfl

/-- Putting a node `t` at the end of a chain whose last link was null. -/
theorem Chain.extend (chain : Chain next p l) (new : t ∉ l) (null : next t = none) :
    Chain (redirect next l.getLast? (some t)) (retarget l.getLast? p (some t)) (l ++ [t]) := by
  have whole : Chain next p (l ++ []) := by simpa using chain
  exact whole.insert new (by rw [null]; rfl)

end Surgery

/-! ## Doubly linked lists -/

/-- The nodes `l` form a doubly linked list with the given end pointers. -/
structure Dll (next prev : α → Option α) (head tail : Option α) (l : List α) : Prop where
  /-- Read forwards from the head. -/
  forward : Chain next head l
  /-- Read backwards from the tail. -/
  backward : Chain prev tail l.reverse

namespace Dll

variable {head tail : Option α}

theorem nodup (dll : Dll next prev head tail l) : l.Nodup := dll.forward.nodup

theorem congr {next' prev' : α → Option α} (dll : Dll next prev head tail l)
    (sameNext : ∀ a ∈ l, next' a = next a) (samePrev : ∀ a ∈ l, prev' a = prev a) :
    Dll next' prev' head tail l :=
  ⟨dll.forward.congr sameNext,
    dll.backward.congr fun a mem => samePrev a (List.mem_reverse.1 mem)⟩

theorem empty : Dll next prev none none [] := ⟨rfl, rfl⟩

theorem tail_eq (dll : Dll next prev head tail l) : tail = l.getLast? := by
  rw [← List.head?_reverse]
  exact dll.backward.head_eq

/-- The successor and the predecessor stored in a node of the list. -/
theorem links (dll : Dll next prev head tail (l₁ ++ t :: l₂)) :
    next t = l₂.head? ∧ prev t = l₁.getLast? := by
  have bwd : Chain prev tail (l₂.reverse ++ t :: l₁.reverse) := by
    simpa using dll.backward
  rw [← List.head?_reverse]
  exact ⟨dll.forward.tail_of_append.head_eq, bwd.tail_of_append.head_eq⟩

variable [DecidableEq α]

/-- Appending a new node `t` after the tail. -/
theorem pushBack (dll : Dll next prev head tail l) (new : t ∉ l) :
    Dll (redirect (Function.update next t none) tail (some t)) (Function.update prev t tail)
      (retarget tail head (some t)) (some t) (l ++ [t]) := by
  have away : ∀ c ∈ l, c ≠ t := fun c mem same => new (same ▸ mem)
  constructor
  · have fwd : Chain (Function.update next t none) head l :=
      dll.forward.congr fun c mem => Function.update_of_ne (away c mem) _ _
    rw [dll.tail_eq]
    exact fwd.extend new (by simp)
  · rw [List.reverse_append]
    refine ⟨rfl, ?_⟩
    rw [Function.update_self]
    exact dll.backward.congr fun c mem =>
      Function.update_of_ne (away c (List.mem_reverse.1 mem)) _ _

/-- Taking the node `t` out of the list, wherever it stands; its own links are
not read again, so any value may be stored in them. -/
theorem unlink (dll : Dll next prev head tail (l₁ ++ t :: l₂)) (x y : Option α) :
    Dll (Function.update (redirect next (prev t) (next t)) t x)
      (Function.update (redirect prev (next t) (prev t)) t y)
      (retarget (prev t) head (next t)) (retarget (next t) tail (prev t)) (l₁ ++ l₂) := by
  have distinct := dll.nodup
  have away : ∀ c ∈ l₁ ++ l₂, c ≠ t := by
    simp only [List.nodup_append, List.nodup_cons] at distinct
    rintro c mem rfl
    rcases List.mem_append.1 mem with mem | mem
    · exact distinct.2.2 c mem c (by simp) rfl
    · exact distinct.2.1.1 mem
  obtain ⟨nextEq, prevEq⟩ := dll.links
  have fwd := dll.forward.bypass
  have bwd := (show Chain prev tail (l₂.reverse ++ t :: l₁.reverse) by
    simpa using dll.backward).bypass
  rw [List.getLast?_reverse, ← nextEq, ← List.reverse_append] at bwd
  rw [← prevEq] at fwd
  refine ⟨?_, ?_⟩
  · exact fwd.congr fun c mem => Function.update_of_ne (away c mem) _ _
  · exact bwd.congr fun c mem =>
      Function.update_of_ne (away c (List.mem_reverse.1 mem)) _ _

/-- Taking the first node out of the list. -/
theorem popFront (dll : Dll next prev head tail (t :: l)) (x y : Option α) :
    Dll (Function.update next t x) (Function.update (redirect prev (next t) none) t y)
      (next t) (retarget (next t) tail none) l := by
  have whole : Dll next prev head tail ([] ++ t :: l) := dll
  have null : prev t = none := whole.links.2
  have step := whole.unlink x y
  rwa [null] at step

end Dll

end NTux.Lib
