import Mathlib.Algebra.BigOperators.Group.Finset.Piecewise
import NTux.Elf.TableTree

/-!
# Mapping grows the tree

`map_user_page_pml4` adds to the tree of a launch what a page lacks of the path to it
(`mapUserPagePml4_spec`), and `map_user_range_pml4` what the pages of the range lack, for as
many frames (`mapUserPages_spec`).  A page that is mapped leads to a leaf (`userPageFrame_spec`).
-/

namespace NTux.Elf

open NTux.Lib NTux.Mm

variable {own : Nat → Prop} {root : Nat} {node : List Nat → Option Nat} {m m' : PageMem}

/-- The node on the way to a page at a depth. -/
def tablePath (page : Nat) : Nat → List Nat
  | 0 => []
  | d + 1 => tableIndex (3 - d) page :: tablePath page d

theorem tablePath_length (page d : Nat) : (tablePath page d).length = d := by
  induction d with
  | zero => rfl
  | succ d ih => exact congrArg (· + 1) ih

/-- The nodes that a page needs. -/
def pageNodes (page : Nat) : List (List Nat) :=
  [tablePath page 1, tablePath page 2, tablePath page 3, tablePath page 4]

/-- The frames that a page takes. -/
def pageCost (node : List Nat → Option Nat) (page : Nat) : Nat :=
  missing node (tablePath page 1) + (missing node (tablePath page 2) +
    (missing node (tablePath page 3) + missing node (tablePath page 4)))

/-- Another node costs what it did. -/
theorem Extends.missing_eq {qs : List (List Nat)} {cost : Nat} {ok : Bool}
    {node' : List Nat → Option Nat} (ext : Extends own root node m qs cost ok node' m')
    {q : List Nat} (off : q ∉ qs) : missing node' q = missing node q := by
  unfold missing
  rw [ext.only q off]

theorem tablePath_notMem {page d : Nat} {qs : List (List Nat)} (short : ∀ q ∈ qs, q.length < d) :
    tablePath page d ∉ qs := fun mem => by
  have lt := short _ mem
  rw [tablePath_length] at lt
  exact lt_irrefl _ lt

/-- A level of the walk that follows others. -/
theorem Extends.level (page d : Nat) {qs : List (List Nat)} {cost f : Nat}
    {node₁ : List Nat → Option Nat} {m₁ : PageMem}
    (ext : Extends own root node m qs cost true node₁ m₁)
    (parent : node₁ (tablePath page d) = some f) (deep : 0 < d) (short : d < 4)
    (before : ∀ q ∈ qs, q.length < d + 1) :
    ∃ node₂, Extends own root node m (qs ++ [tablePath page (d + 1)])
        (cost + missing node (tablePath page (d + 1)))
        (ensureEntry m₁ f (tableIndex (3 - d) page)).1.isSome node₂
        (ensureEntry m₁ f (tableIndex (3 - d) page)).2 ∧
      ∀ e, (ensureEntry m₁ f (tableIndex (3 - d) page)).1 = some e →
        ∃ g, e = .fresh g ∧ node₂ (tablePath page (d + 1)) = some g := by
  have lengthD := tablePath_length page d
  obtain ⟨node₂, ext₂, next⟩ := ensureEntry_spec (i := tableIndex (3 - d) page) ext.tree
    (by rw [lengthD]; exact short) parent (fun empty => by
      rw [empty] at lengthD
      exact absurd lengthD deep.ne)
  have joined := ext.trans ext₂
  have same : missing node₁ (tableIndex (3 - d) page :: tablePath page d) =
      missing node (tablePath page (d + 1)) :=
    ext.missing_eq (tablePath_notMem before : tablePath page (d + 1) ∉ qs)
  rw [same] at joined
  exact ⟨node₂, joined, next⟩

/-- One page. -/
theorem mapUserPagePml4_spec (tree : TableTree own root node m) {page : Nat}
    (mine : own (tableIndex 3 page)) :
    ∃ node', Extends own root node m (pageNodes page) (pageCost node page)
      (mapUserPagePml4 m root page).1 node' (mapUserPagePml4 m root page).2 := by
  obtain ⟨node₁, ext₁, next₁⟩ := ensureEntry_spec (p := []) (i := tableIndex 3 page) tree
    (by decide) tree.top (fun _ => mine)
  unfold mapUserPagePml4 pageNodes pageCost
  cases r₁ : ensureEntry m root (tableIndex 3 page) with
  | mk e₁ m₁ =>
    rw [r₁] at ext₁ next₁
    cases e₁ with
    | none => exact ⟨node₁, ext₁.stop _ _⟩
    | some e₁ =>
      obtain ⟨f₁, rfl, at₁⟩ := next₁ e₁ rfl
      obtain ⟨node₂, ext₂, next₂⟩ := Extends.level page 1 ext₁ at₁ (by decide)
        (by decide) (by simp)
      dsimp only
      cases r₂ : ensureEntry m₁ (Entry.fresh f₁).frame (tableIndex 2 page) with
      | mk e₂ m₂ =>
        rw [show ensureEntry m₁ f₁ (tableIndex (3 - 1) page) = (e₂, m₂) from r₂] at ext₂ next₂
        cases e₂ with
        | none =>
          refine ⟨node₂, ?_⟩
          have all := ext₂.stop [tablePath page 3, tablePath page 4]
            (missing node (tablePath page 3) + missing node (tablePath page 4))
          rwa [Nat.add_assoc] at all
        | some e₂ =>
          obtain ⟨f₂, rfl, at₂⟩ := next₂ e₂ rfl
          obtain ⟨node₃, ext₃, next₃⟩ := Extends.level page 2 ext₂ at₂
            (by decide) (by decide) (by simp [tablePath])
          dsimp only
          rw [if_neg (show ¬ (Entry.fresh f₂).huge = true from Bool.false_ne_true)]
          cases r₃ : ensureEntry m₂ (Entry.fresh f₂).frame (tableIndex 1 page) with
          | mk e₃ m₃ =>
            rw [show ensureEntry m₂ f₂ (tableIndex (3 - 2) page) = (e₃, m₃) from r₃] at ext₃ next₃
            cases e₃ with
            | none =>
              refine ⟨node₃, ?_⟩
              have all := ext₃.stop [tablePath page 4] (missing node (tablePath page 4))
              rwa [Nat.add_assoc, Nat.add_assoc] at all
            | some e₃ =>
              obtain ⟨f₃, rfl, at₃⟩ := next₃ e₃ rfl
              obtain ⟨node₄, ext₄, -⟩ := Extends.level page 3 ext₃ at₃
                (by decide) (by decide) (by simp [tablePath])
              dsimp only
              rw [if_neg (show ¬ (Entry.fresh f₃).huge = true from Bool.false_ne_true)]
              cases r₄ : ensureEntry m₃ (Entry.fresh f₃).frame (tableIndex 0 page) with
              | mk e₄ m₄ =>
                rw [show ensureEntry m₃ f₃ (tableIndex (3 - 3) page) = (e₄, m₄) from r₄] at ext₄
                rw [Nat.add_assoc, Nat.add_assoc] at ext₄
                cases e₄ with
                | none => exact ⟨node₄, ext₄⟩
                | some e₄ => exact ⟨node₄, ext₄⟩

/-! ## Ranges -/

/-- How many of the nodes have to be added. -/
def lacking (node : List Nat → Option Nat) (qs : List (List Nat)) : Nat :=
  (qs.toFinset.filter fun q => node q = none).card

theorem pageCost_eq (node : List Nat → Option Nat) (page : Nat) :
    pageCost node page = lacking node (pageNodes page) := by
  have once : (pageNodes page).Nodup := by
    -- the four nodes are at different depths
    have byLength : ((pageNodes page).map List.length).Nodup := by
      unfold pageNodes
      simp only [List.map_cons, List.map_nil, tablePath_length]
      decide
    exact byLength.of_map _
  have each : ∀ q, missing node q = if node q = none then 1 else 0 := by
    intro q
    unfold missing
    cases node q with
    | none => rfl
    | some f => rfl
  unfold lacking
  rw [Finset.card_filter, List.sum_toFinset _ once, ← funext each]
  rfl

theorem lacking_le_append (node : List Nat → Option Nat) (qs qs' : List (List Nat)) :
    lacking node qs ≤ lacking node (qs ++ qs') := by
  unfold lacking
  rw [List.toFinset_append]
  exact Finset.card_le_card (Finset.filter_subset_filter _ Finset.subset_union_left)

/-- What a tree has got is not lacking any more. -/
theorem Extends.lacking_append {qs : List (List Nat)} {cost : Nat}
    {node' : List Nat → Option Nat} (ext : Extends own root node m qs cost true node' m')
    (qs' : List (List Nat)) :
    lacking node (qs ++ qs') = lacking node qs + lacking node' qs' := by
  have left : ∀ q, node' q = none ↔ node q = none ∧ q ∉ qs := by
    intro q
    by_cases mem : q ∈ qs
    · exact ⟨fun none => absurd none (ext.reached rfl q mem), fun both => absurd mem both.2⟩
    · rw [ext.only q mem]
      exact ⟨fun none => ⟨none, mem⟩, And.left⟩
  unfold lacking
  rw [← Finset.card_union_of_disjoint]
  · congr 1
    ext q
    simp only [List.toFinset_append, Finset.mem_filter, Finset.mem_union, List.mem_toFinset, left]
    tauto
  · refine Finset.disjoint_left.2 fun q first second => ?_
    rw [Finset.mem_filter, List.mem_toFinset] at first second
    exact ((left q).1 second.2).2 first.1

/-- The nodes that the pages of a range need. -/
def rangeNodes (page n : Nat) : List (List Nat) :=
  (List.range' page n).flatMap pageNodes

theorem rangeNodes_succ (page n : Nat) :
    rangeNodes page (n + 1) = pageNodes page ++ rangeNodes (page + 1) n := by
  unfold rangeNodes
  rw [List.range'_succ, List.flatMap_cons]

theorem lacking_rangeNodes_le (node : List Nat → Option Nat) (page n : Nat) :
    lacking node (rangeNodes page n) ≤ 4 * n := by
  have length : (rangeNodes page n).length = 4 * n := by
    induction n generalizing page with
    | zero => rfl
    | succ n ih =>
        rw [rangeNodes_succ, List.length_append, ih, show (pageNodes page).length = 4 from rfl]
        omega
  rw [← length]
  exact (Finset.card_filter_le _ _).trans (List.toFinset_card_le _)

/-- The loop takes a frame for each node that the range lacks. -/
theorem mapUserPages_spec (page n : Nat) (tree : TableTree own root node m)
    (mine : ∀ q, page ≤ q → q < page + n → own (tableIndex 3 q)) :
    ∃ node', Extends own root node m (rangeNodes page n) (lacking node (rangeNodes page n))
      (mapUserPages m root page n).1 node' (mapUserPages m root page n).2 := by
  induction n generalizing page m node with
  | zero =>
      exact ⟨node, tree, .refl m, fun _ _ eq => eq, fun _ _ => rfl, by simp [rangeNodes], rfl,
        fun _ => rfl⟩
  | succ n ih =>
      obtain ⟨node₁, ext₁⟩ := mapUserPagePml4_spec tree (mine page le_rfl (by omega))
      rw [pageCost_eq] at ext₁
      unfold mapUserPages
      rw [rangeNodes_succ]
      cases mapped : mapUserPagePml4 m root page with
      | mk ok m₁ =>
          rw [mapped] at ext₁
          cases ok with
          | false =>
              have le := lacking_le_append node (pageNodes page) (rangeNodes (page + 1) n)
              rw [← Nat.add_sub_cancel' le]
              exact ⟨node₁, ext₁.stop _ _⟩
          | true =>
              obtain ⟨node₂, ext₂⟩ := ih (page + 1) ext₁.tree
                fun q lower upper => mine q (by omega) (by omega)
              rw [ext₁.lacking_append]
              exact ⟨node₂, ext₁.trans ext₂⟩

/-! ## Walking -/

/-- The entry that a walk to a page reads at a depth. -/
theorem TableTree.onPath (tree : TableTree own root node m) {page t : Nat} (d : Nat)
    (short : d < 4) (mine : d = 0 → own (tableIndex (3 - d) page))
    (eq : node (tablePath page d) = some t) :
    m.tables t (tableIndex (3 - d) page) = .toward (node (tablePath page (d + 1))) := by
  refine tree.entry (tablePath page d) t _ ?_ eq fun empty => mine ?_
  · rw [tablePath_length]
    exact short
  · rw [← tablePath_length page d, empty]
    rfl

/-- A walk that has met nothing meets nothing further down. -/
theorem TableTree.offPath (tree : TableTree own root node m) {page : Nat} (d : Nat)
    (none : node (tablePath page d) = none) : node (tablePath page (d + 1)) = .none :=
  tree.up _ _ none

/-- The walk of the processor ends at the leaf of the page, if there is one. -/
theorem userPageFrame_spec (tree : TableTree own root node m) {page : Nat}
    (mine : own (tableIndex 3 page)) : userPageFrame m root page = node (tablePath page 4) := by
  unfold userPageFrame
  dsimp only
  rw [tree.onPath 0 (by decide) (fun _ => mine) tree.top]
  cases at₁ : node (tablePath page 1) with
  | none =>
      rw [tree.offPath 3 (tree.offPath 2 (tree.offPath 1 at₁))]
      rfl
  | some t₁ =>
      have entry₂ : m.tables (Entry.toward (some t₁)).frame (tableIndex 2 page) =
          .toward (node (tablePath page 2)) :=
        tree.onPath 1 (by decide) (fun zero => by cases zero) at₁
      rw [if_neg (show ¬ (!(Entry.toward (some t₁)).present) = true from Bool.false_ne_true),
        entry₂]
      cases at₂ : node (tablePath page 2) with
      | none =>
          rw [tree.offPath 3 (tree.offPath 2 at₂)]
          rfl
      | some t₂ =>
          have entry₃ : m.tables (Entry.toward (some t₂)).frame (tableIndex 1 page) =
              .toward (node (tablePath page 3)) :=
            tree.onPath 2 (by decide) (fun zero => by cases zero) at₂
          rw [if_neg (show ¬ (!(Entry.toward (some t₂)).present) = true from Bool.false_ne_true),
            entry₃]
          cases at₃ : node (tablePath page 3) with
          | none =>
              rw [tree.offPath 3 at₃]
              rfl
          | some t₃ =>
              have entry₄ : m.tables (Entry.toward (some t₃)).frame (tableIndex 0 page) =
                  .toward (node (tablePath page 4)) :=
                tree.onPath 3 (by decide) (fun zero => by cases zero) at₃
              rw [if_neg (show ¬ (!(Entry.toward (some t₃)).present) = true from
                Bool.false_ne_true), entry₄]
              cases node (tablePath page 4) with
              | none => rfl
              | some f => rfl

/-- Stores to pages keep the tree. -/
theorem copyPages_spec (tree : TableTree own root node m) (content : Nat → Nat → Entry)
    {pages : List Nat} (mine : ∀ page ∈ pages, own (tableIndex 3 page)) :
    TableTree own root node (copyPages m root content pages) ∧
      Grows own root m (copyPages m root content pages) := by
  induction pages generalizing m with
  | nil => exact ⟨tree, .refl m⟩
  | cons page l ih =>
      have rest : ∀ q ∈ l, own (tableIndex 3 q) := fun q mem => mine q (List.mem_cons_of_mem _ mem)
      unfold copyPages
      split
      next f walked =>
        rw [userPageFrame_spec tree (mine page (List.mem_cons_self ..))] at walked
        obtain ⟨tree₁, grows₁⟩ := tree.fillLeaf walked (tablePath_length page 4) (content f)
        obtain ⟨tree₂, grows₂⟩ := ih tree₁ rest
        exact ⟨tree₂, grows₁.trans grows₂⟩
      next => exact ih tree rest

end NTux.Elf
