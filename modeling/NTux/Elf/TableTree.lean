import NTux.Elf.PageTables

/-!
# The tables of a launch as a tree

The frames that a launch takes form a tree: the root, the tables below it and the data pages
as its leaves, four levels down (`TableTree`).  A node is named by the indices that lead to
it, the last one first.  A table has an entry for each of its children and zeroes elsewhere,
apart from the entries of the root that are not the launch's own.

`ensureEntry` follows an edge or adds one (`ensureEntry_spec`), and no step changes anything
but frames that the launch has taken (`Grows`).
-/

namespace NTux.Elf

open NTux.Lib

variable {own : Nat → Prop} {root : Nat} {node : List Nat → Option Nat} {m m' : PageMem}

/-- What an entry is that leads to a child, or to nothing. -/
def Entry.toward : Option Nat → Entry
  | some f => .fresh f
  | none => .zero

/-- The frames of a launch form a tree.  The entries of the root in `own` are the
launch's. -/
structure TableTree (own : Nat → Prop) (root : Nat) (node : List Nat → Option Nat)
    (m : PageMem) : Prop where
  top : node [] = some root
  apart : ∀ p q f, node p = some f → node q = some f → p = q
  up : ∀ i p, node p = none → node (i :: p) = none
  depth : ∀ p f, node p = some f → p.length ≤ 4
  entry : ∀ p t i, p.length < 4 → node p = some t → (p = [] → own i) →
    m.tables t i = .toward (node (i :: p))
  accounted : ∀ f, f ∈ m.taken ↔ f ∈ m.freed ∨ ∃ p, node p = some f
  fresh : (m.taken ++ m.answers.filterMap id).Nodup
  freedOnce : m.freed.Nodup
  gone : ∀ f ∈ m.freed, ∀ p, node p ≠ some f

theorem TableTree.mem_taken (tree : TableTree own root node m) {p : List Nat} {f : Nat}
    (eq : node p = some f) : f ∈ m.taken := (tree.accounted f).2 (.inr ⟨p, eq⟩)

/-- More frames are taken, and nothing else changes: neither another frame nor an entry of
the root that is not the launch's own. -/
structure Grows (own : Nat → Prop) (root : Nat) (m m' : PageMem) : Prop where
  taken : ∀ f ∈ m.taken, f ∈ m'.taken
  freed : m'.freed = m.freed
  others : ∀ f, f ∉ m'.taken → m'.tables f = m.tables f
  upper : ∀ i, ¬ own i → m'.tables root i = m.tables root i

theorem Grows.refl (m : PageMem) : Grows own root m m :=
  ⟨fun _ mem => mem, rfl, fun _ _ => rfl, fun _ _ => rfl⟩

theorem Grows.trans {m'' : PageMem} (first : Grows own root m m')
    (second : Grows own root m' m'') : Grows own root m m'' :=
  ⟨fun f mem => second.taken f (first.taken f mem), second.freed.trans first.freed,
    fun f off => (second.others f off).trans
      (first.others f fun mem => off (second.taken f mem)),
    fun i other => (second.upper i other).trans (first.upper i other)⟩

/-! ## The allocator -/

/-- What `pmm_alloc_page` returns is the next answer. -/
theorem alloc_cases (m : PageMem) :
    (m.alloc.1 = none ∧ m.alloc.2.tables = m.tables ∧ m.alloc.2.taken = m.taken ∧
        m.alloc.2.freed = m.freed ∧
        (m.alloc.2.answers.filterMap id) = m.answers.filterMap id) ∨
      ∃ f l, m.answers = some f :: l ∧
        m.alloc = (some f, { m with answers := l, taken := f :: m.taken }) := by
  obtain ⟨tables, answers, taken, freed⟩ := m
  cases answers with
  | nil => exact .inl ⟨rfl, rfl, rfl, rfl, rfl⟩
  | cons a l =>
      cases a with
      | none => exact .inl ⟨rfl, rfl, rfl, rfl, rfl⟩
      | some f => exact .inr ⟨f, l, rfl, rfl⟩

/-- An answer that is none changes no table. -/
theorem TableTree.refused (tree : TableTree own root node m) (none : m.alloc.1 = none) :
    TableTree own root node m.alloc.2 ∧ Grows own root m m.alloc.2 := by
  rcases alloc_cases m with ⟨-, tables, taken, freed, answers⟩ | ⟨f, l, -, eq⟩
  · refine ⟨⟨tree.top, tree.apart, tree.up, tree.depth, ?_, ?_, ?_, ?_, ?_⟩, ?_, freed, ?_, ?_⟩
    · rw [tables]
      exact tree.entry
    · rw [taken, freed]
      exact tree.accounted
    · rw [taken, answers]
      exact tree.fresh
    · rw [freed]
      exact tree.freedOnce
    · rw [freed]
      exact tree.gone
    · rw [taken]
      exact fun _ mem => mem
    · rw [tables]
      exact fun _ _ => rfl
    · rw [tables]
      exact fun _ _ => rfl
  · rw [eq] at none
    cases none

/-! ## One more node -/

/-- A frame that is handed out becomes a child of a node that has none there. -/
theorem TableTree.add (tree : TableTree own root node m) {p : List Nat} {t i f : Nat}
    {l : List (Option Nat)} (answers : m.answers = some f :: l) (short : p.length < 4)
    (parent : node p = some t) (mine : p = [] → own i) (free : node (i :: p) = none) :
    TableTree own root (Function.update node (i :: p) (some f))
        ((PageMem.fill { m with answers := l, taken := f :: m.taken } f
          fun _ => .zero).set t i (.fresh f)) ∧
      Grows own root m
        ((PageMem.fill { m with answers := l, taken := f :: m.taken } f
          fun _ => .zero).set t i (.fresh f)) := by
  have fresh := tree.fresh
  rw [answers] at fresh
  have perm : (m.taken ++ f :: l.filterMap id).Perm (f :: (m.taken ++ l.filterMap id)) :=
    List.perm_middle
  have nodup := perm.nodup_iff.1 fresh
  have new : f ∉ m.taken := fun mem =>
    (List.nodup_cons.1 nodup).1 (List.mem_append_left _ mem)
  -- the frame is no node yet
  have noNode : ∀ q, node q ≠ some f := fun q eq => new (tree.mem_taken eq)
  have neParent : t ≠ f := fun same => noNode p (same ▸ parent)
  have ne : ∀ q g, node q = some g → q ≠ i :: p := by
    rintro q g eq rfl
    rw [free] at eq
    cases eq
  have cases' : ∀ q g, Function.update node (i :: p) (some f) q = some g →
      (q = i :: p ∧ g = f) ∨ (q ≠ i :: p ∧ node q = some g) := by
    intro q g eq
    rcases eq_or_ne q (i :: p) with rfl | other
    · rw [Function.update_self] at eq
      exact .inl ⟨rfl, (Option.some.inj eq).symm⟩
    · rw [Function.update_of_ne other] at eq
      exact .inr ⟨other, eq⟩
  constructor
  · refine ⟨?_, fun q r g eqQ eqR => ?_, fun j q none => ?_, fun q g eq => ?_,
      fun q u j shortQ eq mineQ => ?_, fun g => ?_, nodup, tree.freedOnce, fun g mem q eq => ?_⟩
    · rw [Function.update_of_ne (List.cons_ne_nil i p).symm]
      exact tree.top
    · rcases cases' q g eqQ with ⟨rfl, rfl⟩ | ⟨-, oldQ⟩
      · rcases cases' r g eqR with ⟨rfl, -⟩ | ⟨-, oldR⟩
        · rfl
        · exact absurd oldR (noNode r)
      · rcases cases' r g eqR with ⟨rfl, rfl⟩ | ⟨-, oldR⟩
        · exact absurd oldQ (noNode q)
        · exact tree.apart q r g oldQ oldR
    · rcases eq_or_ne q (i :: p) with rfl | other
      · rw [Function.update_self] at none
        cases none
      · rw [Function.update_of_ne other] at none
        have below : j :: q ≠ i :: p := fun same => by
          rw [(List.cons.inj same).2, parent] at none
          cases none
        rw [Function.update_of_ne below]
        exact tree.up j q none
    · rcases cases' q g eq with ⟨rfl, -⟩ | ⟨-, old⟩
      · exact short
      · exact tree.depth q g old
    · show Function.update (Function.update m.tables f fun _ => Entry.zero) t
        (Function.update (Function.update m.tables f (fun _ => Entry.zero) t) i (.fresh f)) u j = _
      rw [Function.update_of_ne neParent]
      rcases cases' q u eq with ⟨rfl, rfl⟩ | ⟨-, old⟩
      · -- the new table is empty
        have noChild : node (j :: i :: p) = none := tree.up j (i :: p) free
        rw [Function.update_of_ne neParent.symm, Function.update_self,
          Function.update_of_ne (by simp), noChild]
        rfl
      · have neF : u ≠ f := fun same => noNode q (same ▸ old)
        rcases eq_or_ne u t with rfl | other
        · obtain rfl := tree.apart q p u old parent
          rw [Function.update_self]
          rcases eq_or_ne j i with rfl | otherJ
          · rw [Function.update_self, Function.update_self]
            rfl
          · rw [Function.update_of_ne otherJ,
              Function.update_of_ne (fun same => otherJ (List.cons.inj same).1)]
            exact tree.entry q u j shortQ old mineQ
        · have otherPath : j :: q ≠ i :: p := fun same => by
            obtain rfl := (List.cons.inj same).2
            exact other (Option.some.inj (old.symm.trans parent))
          rw [Function.update_of_ne other, Function.update_of_ne neF,
            Function.update_of_ne otherPath]
          exact tree.entry q u j shortQ old mineQ
    · show g ∈ f :: m.taken ↔ g ∈ m.freed ∨ _
      rw [List.mem_cons, tree.accounted]
      constructor
      · rintro (rfl | freed | ⟨q, eq⟩)
        · exact .inr ⟨i :: p, Function.update_self ..⟩
        · exact .inl freed
        · exact .inr ⟨q, (Function.update_of_ne (ne q g eq) _ _).trans eq⟩
      · rintro (freed | ⟨q, eq⟩)
        · exact .inr (.inl freed)
        · rcases cases' q g eq with ⟨-, rfl⟩ | ⟨-, old⟩
          · exact .inl rfl
          · exact .inr (.inr ⟨q, old⟩)
    · rcases cases' q g eq with ⟨-, rfl⟩ | ⟨-, old⟩
      · exact new ((tree.accounted g).2 (.inl mem))
      · exact tree.gone g mem q old
  · refine ⟨fun g mem => List.mem_cons_of_mem _ mem, rfl, fun g off => ?_, fun j other => ?_⟩
    · have offF : g ≠ f := fun same => off (same ▸ List.mem_cons_self ..)
      have offT : g ≠ t := fun same =>
        off (List.mem_cons_of_mem _ (same ▸ tree.mem_taken parent))
      exact (Function.update_of_ne offT _ _).trans (Function.update_of_ne offF _ _)
    · show Function.update (Function.update m.tables f fun _ => Entry.zero) t
        (Function.update (Function.update m.tables f (fun _ => Entry.zero) t) i (.fresh f))
          root j = _
      have neRoot : root ≠ f := fun same => noNode [] (same ▸ tree.top)
      rcases eq_or_ne root t with rfl | away
      · obtain rfl := tree.apart p [] root parent tree.top
        have otherJ : j ≠ i := fun same => other (same ▸ mine rfl)
        rw [Function.update_self, Function.update_of_ne otherJ, Function.update_of_ne neRoot]
      · rw [Function.update_of_ne away, Function.update_of_ne neRoot]

/-- What a leaf holds does not matter. -/
theorem TableTree.fillLeaf (tree : TableTree own root node m) {q : List Nat} {f : Nat}
    (leaf : node q = some f) (deep : q.length = 4) (page : Nat → Entry) :
    TableTree own root node (m.fill f page) ∧ Grows own root m (m.fill f page) := by
  have other : ∀ p t, p.length < 4 → node p = some t → t ≠ f := by
    rintro p t short eq rfl
    rw [tree.apart p q t eq leaf, deep] at short
    exact absurd short (by decide)
  refine ⟨⟨tree.top, tree.apart, tree.up, tree.depth, fun p t i short eq mine => ?_,
    tree.accounted, tree.fresh, tree.freedOnce, tree.gone⟩,
    ⟨fun _ mem => mem, rfl, fun g off => ?_, fun i _ => ?_⟩⟩
  · show Function.update m.tables f page t i = _
    rw [Function.update_of_ne (other p t short eq)]
    exact tree.entry p t i short eq mine
  · have ne : g ≠ f := by
      rintro rfl
      exact off (tree.mem_taken leaf)
    exact Function.update_of_ne ne _ _
  · show Function.update m.tables f page root i = _
    rw [Function.update_of_ne (other [] root (by decide) tree.top)]

/-! ## Following edges -/

/-- The next answers are frames, `n` of them. -/
def allSome : Nat → List (Option Nat) → Bool
  | 0, _ => true
  | n + 1, some _ :: l => allSome n l
  | _ + 1, _ => false

theorem allSome_add (n k : Nat) (l : List (Option Nat)) :
    allSome (n + k) l = (allSome n l && allSome k (l.drop n)) := by
  induction n generalizing l with
  | zero => rw [Nat.zero_add, allSome, Bool.true_and, List.drop_zero]
  | succ n ih =>
      rw [Nat.add_right_comm]
      cases l with
      | nil => rfl
      | cons a l =>
          cases a with
          | none => rfl
          | some f => exact ih l

/-- Whether a node has to be added. -/
def missing (node : List Nat → Option Nat) (q : List Nat) : Nat :=
  if (node q).isSome then 0 else 1

/-- A tree has got nodes at most at `qs`, at all of them if `ok`, for `cost` frames. -/
structure Extends (own : Nat → Prop) (root : Nat) (node : List Nat → Option Nat) (m : PageMem)
    (qs : List (List Nat)) (cost : Nat) (ok : Bool) (node' : List Nat → Option Nat)
    (m' : PageMem) : Prop where
  tree : TableTree own root node' m'
  grows : Grows own root m m'
  keeps : ∀ q f, node q = some f → node' q = some f
  only : ∀ q, q ∉ qs → node' q = node q
  reached : ok = true → ∀ q ∈ qs, node' q ≠ none
  paid : ok = allSome cost m.answers
  rest : ok = true → m'.answers = m.answers.drop cost

section Extends

variable {node' node'' : List Nat → Option Nat} {m'' : PageMem} {qs qs' : List (List Nat)}
  {cost cost' : Nat} {ok : Bool}

theorem Extends.trans (first : Extends own root node m qs cost true node' m')
    (second : Extends own root node' m' qs' cost' ok node'' m'') :
    Extends own root node m (qs ++ qs') (cost + cost') ok node'' m'' := by
  refine ⟨second.tree, first.grows.trans second.grows,
    fun q f eq => second.keeps q f (first.keeps q f eq), fun q off => ?_, fun yes q mem => ?_,
    ?_, fun yes => ?_⟩
  · rw [List.mem_append, not_or] at off
    rw [second.only q off.2, first.only q off.1]
  · rcases List.mem_append.1 mem with early | late
    · obtain ⟨f, eq⟩ := Option.ne_none_iff_exists'.1 (first.reached rfl q early)
      rw [second.keeps q f eq]
      exact Option.some_ne_none f
    · exact second.reached yes q late
  · rw [allSome_add, ← first.paid, Bool.true_and, ← first.rest rfl]
    exact second.paid
  · rw [second.rest yes, first.rest rfl, List.drop_drop]

/-- Once an answer is none, the rest is not reached. -/
theorem Extends.stop (first : Extends own root node m qs cost false node' m')
    (qs' : List (List Nat)) (cost' : Nat) :
    Extends own root node m (qs ++ qs') (cost + cost') false node' m' := by
  refine ⟨first.tree, first.grows, first.keeps, fun q off => first.only q fun mem =>
    off (List.mem_append_left _ mem), fun no => absurd no Bool.false_ne_true, ?_,
    fun no => absurd no Bool.false_ne_true⟩
  rw [allSome_add, ← first.paid]
  rfl

end Extends

/-- A level of `map_user_page_pml4`: the child is there, or it is added for a frame. -/
theorem ensureEntry_spec (tree : TableTree own root node m) {p : List Nat} {t i : Nat}
    (short : p.length < 4) (parent : node p = some t) (mine : p = [] → own i) :
    ∃ node', Extends own root node m [i :: p] (missing node (i :: p)) (ensureEntry m t i).1.isSome
        node' (ensureEntry m t i).2 ∧
      ∀ e, (ensureEntry m t i).1 = some e → ∃ f, e = .fresh f ∧ node' (i :: p) = some f := by
  have entry := tree.entry p t i short parent mine
  unfold ensureEntry missing
  dsimp only
  cases child : node (i :: p) with
  | some f =>
      rw [child] at entry
      have same : m.set t i (Entry.fresh f).marked = m := by
        unfold PageMem.set
        rw [Entry.fresh_marked, ← show m.tables t i = .fresh f from entry,
          Function.update_eq_self, Function.update_eq_self]
      rw [show m.tables t i = .fresh f from entry,
        if_pos (show (Entry.fresh f).present = true from rfl), same]
      refine ⟨node, ⟨tree, .refl m, fun _ _ eq => eq, fun _ _ => rfl, fun _ q mem => ?_, rfl,
        fun _ => rfl⟩, fun e eq => ⟨f, (Option.some.inj eq).symm, child⟩⟩
      rw [List.mem_singleton.1 mem, child]
      exact Option.some_ne_none f
  | none =>
      rw [child] at entry
      rw [show m.tables t i = .zero from entry,
        if_neg (show ¬ Entry.zero.present = true by decide)]
      rcases alloc_cases m with ⟨refused, -⟩ | ⟨f, l, answers, eq⟩
      · obtain ⟨tree', grows⟩ := tree.refused refused
        have unpaid : allSome 1 m.answers = false := by
          obtain ⟨tables, answers, taken, freed⟩ := m
          cases answers with
          | nil => rfl
          | cons a l =>
              cases a with
              | none => rfl
              | some f => cases refused
        cases called : m.alloc with
        | mk r m' =>
            rw [called] at refused tree' grows
            obtain rfl : r = none := refused
            exact ⟨node, ⟨tree', grows, fun _ _ eq => eq, fun _ _ => rfl,
              fun no => absurd no Bool.false_ne_true, unpaid.symm,
              fun no => absurd no Bool.false_ne_true⟩, fun e eq => absurd eq (by simp)⟩
      · rw [eq]
        obtain ⟨tree', grows⟩ := tree.add answers short parent mine child
        refine ⟨_, ⟨tree', grows, fun q g eqQ => ?_, fun q off => ?_, fun _ q mem => ?_, ?_,
          fun _ => ?_⟩, fun e eqE => ⟨f, (Option.some.inj eqE).symm, Function.update_self ..⟩⟩
        · have ne : q ≠ i :: p := by
            rintro rfl
            rw [child] at eqQ
            cases eqQ
          rw [Function.update_of_ne ne, eqQ]
        · exact Function.update_of_ne (fun same => off (List.mem_singleton.2 same)) _ _
        · rw [List.mem_singleton.1 mem, Function.update_self]
          exact Option.some_ne_none f
        · rw [answers]
          rfl
        · rw [answers]
          rfl

end NTux.Elf
