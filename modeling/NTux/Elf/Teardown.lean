import NTux.Elf.MapTree

/-!
# Teardown shrinks the tree

`module_loader_free_user_space` takes the tree of a launch apart.  The loop over the pages
frees the leaves of the range (`freeUserPages_spec`).  A sweep of a table without leaves below
it frees every table there is, the last level first (`sweepTable_clears`), and the root comes
last (`moduleLoaderFreeUserSpace_spec`).  No step frees anything but a childless node, so
every frame is freed once.
-/

namespace NTux.Elf

open NTux.Lib NTux.Mm

variable {own : Nat → Prop} {root : Nat} {node node' : List Nat → Option Nat} {m m' : PageMem}

/-! ## One node less -/

/-- A childless node is freed, and its entry cleared. -/
theorem TableTree.remove (tree : TableTree own root node m) {p : List Nat} {t i f : Nat}
    (parent : node p = some t) (child : node (i :: p) = some f)
    (childless : ∀ j, node (j :: i :: p) = none) :
    TableTree own root (Function.update node (i :: p) none) ((m.free f).set t i .zero) := by
  have old : ∀ q g, Function.update node (i :: p) none q = some g →
      q ≠ i :: p ∧ node q = some g := by
    intro q g eq
    rcases eq_or_ne q (i :: p) with rfl | other
    · rw [Function.update_self] at eq
      cases eq
    · rw [Function.update_of_ne other] at eq
      exact ⟨other, eq⟩
  refine ⟨?_, fun q r g eqQ eqR => ?_, fun j q empty => ?_, fun q g eq => ?_,
    fun q u j short eq mine => ?_, fun g => ?_, tree.fresh, ?_, fun g mem q eq => ?_⟩
  · rw [Function.update_of_ne (List.cons_ne_nil i p).symm]
    exact tree.top
  · exact tree.apart q r g (old q g eqQ).2 (old r g eqR).2
  · rcases eq_or_ne (j :: q) (i :: p) with same | other
    · rw [same, Function.update_self]
    · rw [Function.update_of_ne other]
      rcases eq_or_ne q (i :: p) with rfl | away
      · exact childless j
      · rw [Function.update_of_ne away] at empty
        exact tree.up j q empty
  · exact tree.depth q g (old q g eq).2
  · replace eq := (old q u eq).2
    show Function.update m.tables t (Function.update (m.tables t) i .zero) u j = _
    rcases eq_or_ne u t with rfl | away
    · obtain rfl := tree.apart q p u eq parent
      rw [Function.update_self]
      rcases eq_or_ne j i with rfl | other
      · rw [Function.update_self, Function.update_self]
        rfl
      · rw [Function.update_of_ne other,
          Function.update_of_ne fun same => other (List.cons.inj same).1]
        exact tree.entry q u j short eq mine
    · have other : j :: q ≠ i :: p := by
        intro same
        obtain rfl := (List.cons.inj same).2
        exact away (Option.some.inj (eq.symm.trans parent))
      rw [Function.update_of_ne away, Function.update_of_ne other]
      exact tree.entry q u j short eq mine
  · show g ∈ m.taken ↔ g ∈ f :: m.freed ∨ _
    rw [tree.accounted, List.mem_cons]
    constructor
    · rintro (freed | ⟨q, eq⟩)
      · exact .inl (.inr freed)
      · rcases eq_or_ne q (i :: p) with rfl | other
        · exact .inl (.inl (Option.some.inj (eq.symm.trans child)))
        · exact .inr ⟨q, (Function.update_of_ne other _ _).trans eq⟩
    · rintro ((rfl | freed) | ⟨q, eq⟩)
      · exact .inr ⟨i :: p, child⟩
      · exact .inl freed
      · exact .inr ⟨q, (old q g eq).2⟩
  · show (f :: m.freed).Nodup
    exact List.nodup_cons.2 ⟨fun mem => tree.gone f mem _ child, tree.freedOnce⟩
  · obtain ⟨other, eq⟩ := old q g eq
    rcases List.mem_cons.1 (mem : g ∈ f :: m.freed) with rfl | freed
    · exact other (tree.apart q (i :: p) g eq child)
    · exact tree.gone g freed q eq

/-! ## Data pages -/

/-- The leaf of a page is freed, if it has one. -/
def dropLeaf (node : List Nat → Option Nat) (m : PageMem) (page : Nat) : PageMem :=
  match node (tablePath page 3), node (tablePath page 4) with
  | some pt, some f => (m.free f).set pt (tableIndex 0 page) .zero
  | _, _ => m

/-- The loop frees the leaf of the next page. -/
theorem freeUserPages_succ (tree : TableTree own root node m) {page : Nat} (n : Nat)
    (mine : own (tableIndex 3 page)) :
    freeUserPages m root page (n + 1) = freeUserPages (dropLeaf node m page) root (page + 1) n := by
  unfold dropLeaf
  conv_lhs => unfold freeUserPages
  dsimp only
  rw [tree.onPath 0 (by decide) (fun _ => mine) tree.top]
  cases at₁ : node (tablePath page 1) with
  | none =>
      rw [tree.offPath 2 (tree.offPath 1 at₁)]
      rfl
  | some t₁ =>
      have entry₂ : m.tables (Entry.toward (some t₁)).frame (tableIndex 2 page) =
          .toward (node (tablePath page 2)) :=
        tree.onPath 1 (by decide) (fun zero => by cases zero) at₁
      rw [if_pos (show (Entry.toward (some t₁)).present = true from rfl), entry₂]
      cases at₂ : node (tablePath page 2) with
      | none =>
          rw [tree.offPath 2 at₂]
          rfl
      | some t₂ =>
          have entry₃ : m.tables (Entry.toward (some t₂)).frame (tableIndex 1 page) =
              .toward (node (tablePath page 3)) :=
            tree.onPath 2 (by decide) (fun zero => by cases zero) at₂
          rw [if_pos ⟨rfl, rfl⟩, entry₃]
          cases at₃ : node (tablePath page 3) with
          | none => rfl
          | some t₃ =>
              have entry₄ : m.tables (Entry.toward (some t₃)).frame (tableIndex 0 page) =
                  .toward (node (tablePath page 4)) :=
                tree.onPath 3 (by decide) (fun zero => by cases zero) at₃
              rw [if_pos ⟨rfl, rfl⟩, entry₄]
              cases node (tablePath page 4) with
              | none => rfl
              | some f => rfl

/-- A tree has lost nodes, and nothing else is freed. -/
structure Shrinks (own : Nat → Prop) (root : Nat) (node : List Nat → Option Nat) (m : PageMem)
    (node' : List Nat → Option Nat) (m' : PageMem) : Prop where
  tree : TableTree own root node' m'
  taken : m'.taken = m.taken
  gone : ∀ q, node q = none → node' q = none

theorem Shrinks.refl (tree : TableTree own root node m) : Shrinks own root node m node m :=
  ⟨tree, rfl, fun _ none => none⟩

theorem Shrinks.trans {node'' : List Nat → Option Nat} {m'' : PageMem}
    (first : Shrinks own root node m node' m') (second : Shrinks own root node' m' node'' m'') :
    Shrinks own root node m node'' m'' :=
  ⟨second.tree, second.taken.trans first.taken, fun q none => second.gone q (first.gone q none)⟩

/-- A childless node is gone, and no other one. -/
theorem Shrinks.remove (tree : TableTree own root node m) {p : List Nat} {t i f : Nat}
    (parent : node p = some t) (child : node (i :: p) = some f)
    (childless : ∀ j, node (j :: i :: p) = none) :
    Shrinks own root node m (Function.update node (i :: p) none) ((m.free f).set t i .zero) :=
  ⟨tree.remove parent child childless, rfl, fun q none => by
    rcases eq_or_ne q (i :: p) with rfl | other
    · exact Function.update_self ..
    · rw [Function.update_of_ne other, none]⟩

/-- The loop over the pages: the leaves of the range are freed, and no table. -/
theorem freeUserPages_spec (page n : Nat) (tree : TableTree own root node m)
    (mine : ∀ q, page ≤ q → q < page + n → own (tableIndex 3 q)) :
    ∃ node', Shrinks own root node m node' (freeUserPages m root page n) ∧
      ∀ q, page ≤ q → q < page + n → node' (tablePath q 4) = none := by
  induction n generalizing page m node with
  | zero => exact ⟨node, .refl tree, fun q lower upper => absurd upper (Nat.not_lt.2 lower)⟩
  | succ n ih =>
      rw [freeUserPages_succ tree n (mine page le_rfl (by omega))]
      have dropped : ∃ node₁, Shrinks own root node m node₁ (dropLeaf node m page) ∧
          node₁ (tablePath page 4) = none := by
        unfold dropLeaf
        cases leaf : node (tablePath page 4) with
        | none =>
            refine ⟨node, ?_, leaf⟩
            cases node (tablePath page 3) with
            | none => exact .refl tree
            | some pt => exact .refl tree
        | some f =>
            cases parent : node (tablePath page 3) with
            | none =>
                rw [show node (tablePath page 4) = none from tree.up _ _ parent] at leaf
                cases leaf
            | some pt =>
                refine ⟨_, .remove tree parent leaf fun j => ?_, Function.update_self ..⟩
                -- a leaf has no child
                cases below : node (j :: tablePath page 4) with
                | none => exact below
                | some g =>
                    have deep := tree.depth _ g below
                    rw [List.length_cons, tablePath_length] at deep
                    exact absurd deep (by decide)
      obtain ⟨node₁, shrinks₁, none₁⟩ := dropped
      obtain ⟨node₂, shrinks₂, none₂⟩ := ih (page + 1) shrinks₁.tree
        fun q lower upper => mine q (by omega) (by omega)
      refine ⟨node₂, shrinks₁.trans shrinks₂, fun q lower upper => ?_⟩
      rcases Nat.eq_or_lt_of_le lower with rfl | above
      · exact shrinks₂.gone _ none₁
      · exact none₂ q above (by omega)

/-! ## Tables -/

/-- There are only tables, and no index beyond the end of one. -/
structure Leafless (node : List Nat → Option Nat) : Prop where
  leaves : ∀ q, q.length = 4 → node q = none
  narrow : ∀ i q, 512 ≤ i → node (i :: q) = none

theorem Shrinks.leafless (shrinks : Shrinks own root node m node' m') (tables : Leafless node) :
    Leafless node' :=
  ⟨fun q deep => shrinks.gone q (tables.leaves q deep),
    fun i q wide => shrinks.gone _ (tables.narrow i q wide)⟩

/-- A table without children has no entry in use. -/
theorem tableHasPresent_false (tree : TableTree own root node m) {q : List Nat} {t : Nat}
    (eq : node q = some t) (deep : 0 < q.length) (short : q.length < 4)
    (childless : ∀ i, node (i :: q) = none) : tableHasPresent m t = false := by
  refine List.any_eq_false.2 fun i _ present => ?_
  rw [tree.entry q t i short eq (fun empty => by simp [empty] at deep), childless i] at present
  exact Bool.false_ne_true present

/-- What a sweep of the tables at a depth does: nothing is left below the table. -/
structure Cleared (own : Nat → Prop) (root : Nat) (node : List Nat → Option Nat) (m : PageMem)
    (q : List Nat) (is : List Nat) (m' : PageMem) (node' : List Nat → Option Nat) : Prop where
  shrinks : Shrinks own root node m node' m'
  others : ∀ r, ¬ q <:+ r → node' r = node r
  stays : node' q = node q
  childless : ∀ i ∈ is, node' (i :: q) = none

/-- A sweep of the tables at a depth finds them empty in the end. -/
def Clears (own : Nat → Prop) (root d : Nat) (sweep : PageMem → Nat → Bool × PageMem) : Prop :=
  ∀ node m q f, TableTree own root node m → Leafless node → node q = some f → q.length = d →
    (sweep m f).1 = true ∧
      ∃ node', Cleared own root node m q (List.range 512) (sweep m f).2 node'

theorem sweepPt_clears : Clears own root 3 sweepPt := by
  intro node m q pt tree tables eq deep
  have childless : ∀ i, node (i :: q) = none := fun i =>
    tables.leaves _ (by rw [List.length_cons, deep])
  refine ⟨?_, node, .refl tree, fun _ _ => rfl, rfl, fun i _ => childless i⟩
  unfold sweepPt
  rw [tableHasPresent_false tree eq (by omega) (by omega) childless]
  rfl

/-- A child whose own children are gone goes too. -/
theorem Cleared.remove {q : List Nat} {i t f : Nat}
    (cleared : Cleared own root node m (i :: q) (List.range 512) m' node')
    (tables : Leafless node) (parent : node q = some t) (child : node (i :: q) = some f) :
    Cleared own root node m q [i] ((m'.free f).set t i .zero)
      (Function.update node' (i :: q) none) := by
  have longer : ¬ (i :: q) <:+ q := fun suffix => by
    have le := suffix.length_le
    rw [List.length_cons] at le
    omega
  have parent' : node' q = some t := (cleared.others q longer).trans parent
  have childless : ∀ j, node' (j :: i :: q) = none := fun j => by
    rcases Nat.lt_or_ge j 512 with inside | wide
    · exact cleared.childless j (List.mem_range.2 inside)
    · exact (cleared.shrinks.leafless tables).narrow j _ wide
  refine ⟨cleared.shrinks.trans
    (.remove cleared.shrinks.tree parent' (cleared.stays.trans child) childless), fun r off => ?_,
    ?_, fun j mem => ?_⟩
  · have ne : r ≠ i :: q := fun same => off (same ▸ List.suffix_cons i q)
    rw [Function.update_of_ne ne]
    exact cleared.others r fun suffix => off ((List.suffix_cons i q).trans suffix)
  · rw [Function.update_of_ne (List.cons_ne_self i q).symm, parent', parent]
  · rw [List.mem_singleton.1 mem]
    exact Function.update_self ..

/-- One child after the other. -/
theorem Cleared.cons {q : List Nat} {i : Nat} {l : List Nat} {m'' : PageMem}
    {node'' : List Nat → Option Nat} (first : Cleared own root node m q [i] m' node')
    (rest : Cleared own root node' m' q l m'' node'') :
    Cleared own root node m q (i :: l) m'' node'' := by
  refine ⟨first.shrinks.trans rest.shrinks,
    fun r off => (rest.others r off).trans (first.others r off), rest.stays.trans first.stays,
    fun j mem => ?_⟩
  rcases List.mem_cons.1 mem with rfl | later
  · exact rest.shrinks.gone _ (first.childless j (List.mem_singleton_self j))
  · exact rest.childless j later

/-- The loop over the entries of a table frees every table below it. -/
theorem sweepTable_spec {d : Nat} {below : PageMem → Nat → Bool × PageMem}
    (clears : Clears own root (d + 1) below) (deep : 0 < d) (short : d < 4) (l : List Nat)
    (tree : TableTree own root node m) (tables : Leafless node) {q : List Nat} {t : Nat}
    (eq : node q = some t) (length : q.length = d) :
    (sweepTable below t l m).1 = true ∧
      ∃ node', Cleared own root node m q l (sweepTable below t l m).2 node' := by
  induction l generalizing m node with
  | nil => exact ⟨rfl, node, .refl tree, fun _ _ => rfl, rfl, fun i none => by cases none⟩
  | cons i l ih =>
      have entry : m.tables t i = .toward (node (i :: q)) :=
        tree.entry q t i (length ▸ short) eq fun empty => by simp [empty] at length; omega
      unfold sweepTable
      dsimp only
      rw [entry]
      cases child : node (i :: q) with
      | none =>
          obtain ⟨done, node', cleared⟩ := ih tree tables eq
          have first : Cleared own root node m q [i] m node :=
            ⟨.refl tree, fun _ _ => rfl, rfl, fun j mem => by rw [List.mem_singleton.1 mem, child]⟩
          exact ⟨done, node', first.cons cleared⟩
      | some f =>
          obtain ⟨empty, node₁, cleared₁⟩ := clears node m (i :: q) f tree tables child
            (by rw [List.length_cons, length])
          have first := cleared₁.remove tables eq child
          obtain ⟨done, node', cleared⟩ := ih first.shrinks.tree (first.shrinks.leafless tables)
            (first.stays.trans eq)
          rw [if_neg (show ¬ (!(Entry.toward (some f)).present) = true from Bool.false_ne_true),
            if_neg (show ¬ (Entry.toward (some f)).huge = true from Bool.false_ne_true)]
          cases swept : below m (Entry.toward (some f)).frame with
          | mk r m₁ =>
              rw [show below m f = (r, m₁) from swept] at empty first cleared done
              obtain rfl : r = true := empty
              exact ⟨done, node', first.cons cleared⟩

/-- A sweep of a table whose children are swept. -/
theorem sweepTable_clears {d : Nat} {below sweep : PageMem → Nat → Bool × PageMem}
    (same : ∀ m t, sweep m t =
      ((sweepTable below t (List.range 512) m).1 &&
        !tableHasPresent (sweepTable below t (List.range 512) m).2 t,
        (sweepTable below t (List.range 512) m).2))
    (clears : Clears own root (d + 1) below) (deep : 0 < d) (short : d < 4) :
    Clears own root d sweep := by
  intro node m q t tree tables eq length
  obtain ⟨done, node', cleared⟩ :=
    sweepTable_spec clears deep short (List.range 512) tree tables eq length
  rw [same]
  generalize sweepTable below t (List.range 512) m = r at done cleared ⊢
  obtain ⟨empty, m'⟩ := r
  obtain rfl : empty = true := done
  refine ⟨?_, node', cleared⟩
  have none : tableHasPresent m' t = false :=
    tableHasPresent_false cleared.shrinks.tree (cleared.stays.trans eq) (length ▸ deep)
      (length ▸ short) fun i => by
        rcases Nat.lt_or_ge i 512 with inside | wide
        · exact cleared.childless i (List.mem_range.2 inside)
        · exact (cleared.shrinks.leafless tables).narrow i q wide
  dsimp only
  rw [none]
  rfl

theorem sweepPd_clears : Clears own root 2 sweepPd := by
  refine sweepTable_clears (fun m t => ?_) sweepPt_clears (by decide) (by decide)
  unfold sweepPd
  generalize sweepTable sweepPt t (List.range 512) m = r
  obtain ⟨empty, m'⟩ := r
  rfl

theorem sweepPdpt_clears : Clears own root 1 sweepPdpt := by
  refine sweepTable_clears (fun m t => ?_) sweepPd_clears (by decide) (by decide)
  unfold sweepPdpt
  generalize sweepTable sweepPd t (List.range 512) m = r
  obtain ⟨empty, m'⟩ := r
  rfl

/-! ## The address space -/

theorem sweepRootEntry_eq (root : Nat) (m : PageMem) (i : Nat) :
    sweepRootEntry root m i =
      if !(m.tables root i).present then m
      else if (sweepPdpt m (m.tables root i).frame).1 then
        ((sweepPdpt m (m.tables root i).frame).2.free (m.tables root i).frame).set root i .zero
      else (sweepPdpt m (m.tables root i).frame).2 := by
  unfold sweepRootEntry
  extract_lets e
  generalize sweepPdpt m e.frame = r
  obtain ⟨empty, m'⟩ := r
  cases empty with
  | false => rfl
  | true => rfl

/-- The walk over the root, where it meets the first entry only. -/
theorem sweepRoot_spec (tree : TableTree own root node m) (tables : Leafless node)
    (mine : own 0) :
    ∃ node', Shrinks own root node m node' (sweepRoot root [0] m) ∧ node' [0] = none := by
  have entry : m.tables root 0 = .toward (node [0]) :=
    tree.entry [] root 0 (by decide) tree.top fun _ => mine
  show ∃ node', Shrinks own root node m node' (sweepRootEntry root m 0) ∧ _
  rw [sweepRootEntry_eq, entry]
  cases child : node [0] with
  | none =>
      rw [if_pos (show (!(Entry.toward none).present) = true from rfl)]
      exact ⟨node, .refl tree, child⟩
  | some f =>
      obtain ⟨done, node', cleared⟩ := sweepPdpt_clears node m [0] f tree tables child rfl
      have last := cleared.remove tables tree.top child
      rw [if_neg (show ¬ (!(Entry.toward (some f)).present) = true from Bool.false_ne_true),
        show (Entry.toward (some f)).frame = f from rfl, if_pos done]
      exact ⟨_, last.shrinks, last.childless 0 (List.mem_singleton_self 0)⟩

/-- A tree that has all its pages in the range, below the first entry of the root, is taken
apart, and every frame that was taken is freed once. -/
theorem moduleLoaderFreeUserSpace_spec (tree : TableTree own root node m) (mine : own 0)
    {start stop : Nat} (nonzero : root ≠ 0) (range : start < stop)
    (low : stop ≤ 512 ^ 3 * pageSize) (narrow : ∀ i q, 512 ≤ i → node (i :: q) = none)
    (only : ∀ q, q.length = 4 → node q ≠ none → ∃ page, start / pageSize ≤ page ∧
      page < start / pageSize + (stop - start) / pageSize ∧ q = tablePath page 4)
    (first : ∀ i, i ≠ 0 → node [i] = none) :
    (moduleLoaderFreeUserSpace m root start stop).freed.Perm m.taken ∧
      (moduleLoaderFreeUserSpace m root start stop).taken = m.taken := by
  have within : ∀ page, start / pageSize ≤ page →
      page < start / pageSize + (stop - start) / pageSize → page < 512 ^ 3 := by
    intro page lower upper
    unfold pageSize at *
    omega
  have zeroth : ∀ page, page < 512 ^ 3 → tableIndex 3 page = 0 := by
    intro page below
    unfold tableIndex
    rw [Nat.div_eq_of_lt below]
  obtain ⟨node₁, shrinks₁, none₁⟩ := freeUserPages_spec (start / pageSize)
    ((stop - start) / pageSize) tree fun page lower upper => by
      rw [zeroth page (within page lower upper)]
      exact mine
  have tables : Leafless node₁ := by
    refine ⟨fun q deep => ?_, fun i q wide => shrinks₁.gone _ (narrow i q wide)⟩
    by_cases empty : node q = none
    · exact shrinks₁.gone q empty
    · obtain ⟨page, lower, upper, rfl⟩ := only q deep empty
      exact none₁ page lower upper
  generalize freed : freeUserPages m root (start / pageSize) ((stop - start) / pageSize) = m₁
    at shrinks₁
  -- the walk over the root meets its first entry only
  obtain ⟨node₂, shrinks₂, none₂⟩ := sweepRoot_spec shrinks₁.tree tables mine
  generalize sweep : sweepRoot root [0] m₁ = m₂ at shrinks₂
  -- only the root is left
  have left : ∀ q, q ≠ [] → node₂ q = none := by
    intro q
    induction q with
    | nil => exact fun no => absurd rfl no
    | cons i q ih =>
        intro _
        cases q with
        | cons j q => exact shrinks₂.tree.up i _ (ih (List.cons_ne_nil j q))
        | nil =>
            rcases eq_or_ne i 0 with rfl | other
            · exact none₂
            · exact shrinks₂.gone _ (shrinks₁.gone _ (first i other))
  have all : moduleLoaderFreeUserSpace m root start stop = m₂.free root := by
    have firstIndex := zeroth (start / pageSize) (by unfold pageSize at *; omega)
    have lastIndex := zeroth ((stop - 1) / pageSize) (by unfold pageSize at *; omega)
    unfold moduleLoaderFreeUserSpace
    rw [if_neg (not_or.2 ⟨nonzero, Nat.not_le.2 range⟩)]
    dsimp only
    rw [freed, firstIndex, lastIndex]
    exact congrArg (PageMem.free · root) sweep
  have taken : m₂.taken = m.taken := shrinks₂.taken.trans shrinks₁.taken
  rw [all]
  refine ⟨?_, taken⟩
  show (root :: m₂.freed).Perm m.taken
  rw [← taken]
  have once := (List.nodup_append.1 shrinks₂.tree.fresh).1
  have rootLeft : root ∉ m₂.freed := fun mem => shrinks₂.tree.gone root mem [] shrinks₂.tree.top
  refine (List.perm_ext_iff_of_nodup
    (List.nodup_cons.2 ⟨rootLeft, shrinks₂.tree.freedOnce⟩) once).2 fun f => ?_
  rw [List.mem_cons, shrinks₂.tree.accounted]
  constructor
  · rintro (rfl | freed)
    · exact .inr ⟨[], shrinks₂.tree.top⟩
    · exact .inl freed
  · rintro (freed | ⟨q, eq⟩)
    · exact .inr freed
    · rcases eq_or_ne q [] with rfl | other
      · exact .inl (Option.some.inj (eq.symm.trans shrinks₂.tree.top))
      · rw [left q other] at eq
        cases eq

end NTux.Elf
