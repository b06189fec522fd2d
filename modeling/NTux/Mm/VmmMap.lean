import NTux.Mm.VmmTree

/-!
# Mapping and unmapping a page

`vmm_map_page` is a walk and a store to a table of the last level, `vmm_unmap_page` a store of
0 there.  A walk changes no translation (`Vm.Walked.translate`), and such a store changes that
of one page (`Vm.Tree.leaf_translate`).
-/

namespace NTux.Mm

open NTux.Lib NTux.Lib.Bytes

/-! ## Pages -/

/-- Two addresses are in one page.  Bits 48 and up repeat bit 47. -/
def SamePage (v w : BitVec 64) : Prop :=
  v.toNat / pageSize % 2 ^ 36 = w.toNat / pageSize % 2 ^ 36

instance (v w : BitVec 64) : Decidable (SamePage v w) := inferInstanceAs (Decidable (_ = _))

theorem ptIdx_val (virt : BitVec 64) (level : ℕ) :
    (ptIdx virt level : ℕ) = virt.toNat / 2 ^ (12 + 9 * level) % 512 := by
  unfold ptIdx
  rw [Fin.val_ofNat, BitVec.toNat_ushiftRight, Nat.shiftRight_eq_div_pow]

/-- Addresses with the same indices are in one page. -/
theorem samePage_iff (v w : BitVec 64) :
    SamePage v w ↔ above v 0 = above w 0 ∧ ptIdx v 0 = ptIdx w 0 := by
  have list : ∀ x, above x 0 = [ptIdx x 1, ptIdx x 2, ptIdx x 3] := fun _ => rfl
  have size : pageSize = 4096 := rfl
  rw [list, list, List.cons.injEq, List.cons.injEq, List.cons.injEq, Fin.ext_iff, Fin.ext_iff,
    Fin.ext_iff, Fin.ext_iff]
  repeat rw [ptIdx_val]
  unfold SamePage
  rw [size]
  constructor
  · intro same
    exact ⟨⟨by omega, by omega, by omega, rfl⟩, by omega⟩
  · rintro ⟨⟨one, two, three, -⟩, zero⟩
    omega

namespace Vm

variable {s s' : Vm} {t : BitVec 64} {extra virt w : BitVec 64} {level : ℕ}

theorem node_up (less : level < 3) (at' : s.node (above w level) = some t) :
    ∃ u, s.node (above w (level + 1)) = some u ∧
      hasFlag pagePresent (s.mem u (ptIdx w (level + 1))) = true := by
  rw [above_succ w less, node] at at'
  obtain ⟨u, atU, next⟩ := Option.bind_eq_some_iff.mp at'
  refine ⟨u, atU, ?_⟩
  by_contra absent
  rw [next_absent (Bool.eq_false_iff.mpr absent)] at next
  cases next

/-- Where the last table is reached, all entries on the way are in use. -/
theorem node_way (at' : s.node (above w 0) = some t) (lt : level < 3) :
    ∃ u, s.node (above w (level + 1)) = some u ∧
      hasFlag pagePresent (s.mem u (ptIdx w (level + 1))) = true := by
  induction level with
  | zero => exact node_up lt at'
  | succ level ih =>
      obtain ⟨u, atU, -⟩ := ih (by omega)
      exact node_up lt atU

/-- A walk changes no translation. -/
theorem Walked.translate (walked : Walked extra s s') (w : BitVec 64) :
    s'.translate w = s.translate w := by
  have deep : (above w 0).length = 3 := above_length w 0
  unfold Vm.translate entryAt
  cases before : s.node (above w 0) with
  | some t =>
      rw [walked.keeps _ t deep.le before, Option.map_some, Option.map_some,
        walked.leaf _ t _ deep before]
  | none =>
      cases after : s'.node (above w 0) with
      | none => rfl
      | some t =>
          rw [Option.map_some, Option.bind_some, walked.empty _ t _ deep before after]
          rfl

/-- An address that is translated keeps its entries, up to the flags added. -/
theorem Walked.entries (walked : Walked extra s s') (some : s.translate w ≠ none) :
    s'.entryAt w 0 = s.entryAt w 0 ∧
      ∀ level, 1 ≤ level → level ≤ 3 → s'.entryAt w level = s.entryAt w level ∨
        s'.entryAt w level = (s.entryAt w level).map (· ||| extra) := by
  obtain ⟨t, at'⟩ : ∃ t, s.node (above w 0) = .some t := by
    rw [← Option.ne_none_iff_exists']
    intro none
    refine some ?_
    unfold Vm.translate entryAt
    rw [none]
    rfl
  have deep : (above w 0).length = 3 := above_length w 0
  constructor
  · unfold entryAt
    rw [walked.keeps _ t deep.le at', at', Option.map_some, Option.map_some,
      walked.leaf _ t _ deep at']
  · intro level pos le
    obtain ⟨below, rfl⟩ := Nat.exists_eq_add_of_le' pos
    obtain ⟨u, atU, present⟩ := @node_way s t w below at' (by omega)
    have short : (above w (below + 1)).length < 3 := by rw [above_length]; omega
    unfold entryAt
    rw [walked.keeps _ u short.le atU, atU, Option.map_some, Option.map_some, Option.map_some]
    exact (walked.upper _ u _ short atU present).imp (congrArg _) (congrArg _)

/-! ## A store to a table of the last level -/

/-- Such a store moves no table. -/
theorem Tree.leaf_node (tree : s.Tree) (at' : s.node (above virt 0) = some t) (i : Fin 512)
    (e : BitVec 64) (q : List (Fin 512)) (short : q.length ≤ 3) :
    (s.store t i e).node q = s.node q := by
  refine node_congr (show (s.store t i e).cr3 = s.cr3 from rfl) (fun p u j shortP atP => ?_) q short
  have away : ¬ (u = t ∧ j = i) := by
    rintro ⟨rfl, -⟩
    have same := tree.apart p _ u shortP.le (above_length virt 0).le atP at'
    rw [same, above_length] at shortP
    omega
  unfold next
  dsimp only
  rw [store_mem, if_neg away]

theorem Tree.leaf (tree : s.Tree) (at' : s.node (above virt 0) = some t) (i : Fin 512)
    (e : BitVec 64) : (s.store t i e).Tree := by
  refine tree.of_nodes (tree.leaf_node at' i e) (fun q u j shortQ atQ present => ?_) rfl
    fun _ _ short free => tree.not_node short free
  have away : ¬ (u = t ∧ j = i) := by
    rintro ⟨rfl, -⟩
    have same := tree.apart q _ u shortQ.le (above_length virt 0).le atQ at'
    rw [same, above_length] at shortQ
    omega
  rw [store_mem, if_neg away] at present ⊢
  exact tree.small q u j shortQ atQ present

/-- It changes the entry of one page. -/
theorem Tree.leaf_entryAt (tree : s.Tree) (at' : s.node (above virt 0) = some t) (e : BitVec 64)
    (w : BitVec 64) (le : level ≤ 3) :
    (s.store t (ptIdx virt 0) e).entryAt w level =
      if SamePage virt w ∧ level = 0 then some e else s.entryAt w level := by
  have nodes := tree.leaf_node at' (ptIdx virt 0) e (above w level)
    (by rw [above_length]; omega)
  unfold entryAt
  rw [nodes]
  split
  next here =>
    obtain ⟨same, rfl⟩ := here
    obtain ⟨way, last⟩ := (samePage_iff virt w).mp same
    rw [← way, at', Option.map_some, store_mem, if_pos ⟨rfl, last.symm⟩]
  next away =>
    cases atW : s.node (above w level) with
    | none => rfl
    | some u =>
        rw [Option.map_some, Option.map_some, store_mem, if_neg]
        rintro ⟨rfl, last⟩
        have way := tree.apart _ _ u (by rw [above_length]; omega) (above_length virt 0).le atW at'
        obtain rfl : level = 0 := by
          have lengths := congrArg List.length way
          rw [above_length, above_length] at lengths
          omega
        exact away ⟨(samePage_iff virt w).mpr ⟨way.symm, last.symm⟩, rfl⟩

theorem Tree.leaf_translate (tree : s.Tree) (at' : s.node (above virt 0) = some t) (e : BitVec 64)
    (w : BitVec 64) :
    (s.store t (ptIdx virt 0) e).translate w =
      if SamePage virt w then
        if hasFlag pagePresent e then some (pageAddr e + pageOffset w) else none
      else s.translate w := by
  unfold Vm.translate
  rw [tree.leaf_entryAt at' e w (Nat.zero_le _)]
  by_cases same : SamePage virt w
  · rw [if_pos ⟨same, rfl⟩, if_pos same, Option.bind_some]
  · rw [if_neg (fun both => same both.1), if_neg same]

/-! ## The functions -/

theorem root_node (s : Vm) (virt : BitVec 64) : s.node (above virt 3) = some s.root := rfl

/-- The address found in the tables is the one that the processor goes to. -/
theorem Tree.vmmGetPhysAddr_eq (tree : s.Tree) (virt : BitVec 64) :
    vmmGetPhysAddr s virt = s.translate virt := by
  obtain ⟨-, found⟩ := walkFrom_find le_rfl tree (root_node s virt)
  unfold vmmGetPhysAddr walkPt Vm.translate entryAt
  rw [found]
  cases s.node (above virt 0) with
  | none => rfl
  | some t =>
      dsimp only [Option.map_some, Option.bind_some]
      rw [pageAddr_or_offset]

/-- Unmapping a page clears its entry, if it is mapped. -/
theorem Tree.vmmUnmapPage_cases (tree : s.Tree) (virt : BitVec 64) :
    (vmmUnmapPage s virt = s ∧ s.translate virt = none) ∨
      ∃ t, s.node (above virt 0) = some t ∧
        vmmUnmapPage s virt = s.store t (ptIdx virt 0) 0#64 := by
  obtain ⟨same, found⟩ := walkFrom_find le_rfl tree (root_node s virt)
  unfold vmmUnmapPage walkPt Vm.translate entryAt
  cases walk : walkFrom false 0#64 virt 3 s s.root with
  | mk r s' =>
      rw [walk] at same found
      dsimp only at same found
      subst same found
      cases at' : s'.node (above virt 0) with
      | none => exact .inl ⟨rfl, rfl⟩
      | some t =>
          dsimp only
          split
          next => exact .inr ⟨t, rfl, rfl⟩
          next absent => exact .inl ⟨rfl, by simpa using absent⟩

end Vm

/-! ## An empty table -/

namespace Vm

variable {pmm : Pmm} {cr3 : BitVec 64}

theorem start_node (pmm : Pmm) (cr3 : BitVec 64) (i : Fin 512) (p : List (Fin 512)) :
    (start pmm cr3).node (i :: p) = none := by
  unfold node
  cases (start pmm cr3).node p with
  | none => rfl
  | some t => exact next_absent (show hasFlag pagePresent 0#64 = false by decide)

/-- One table that is not free is a tree. -/
theorem start_tree (root : ∀ page, pmm.IsFree page →
      pageAddr cr3 ≠ BitVec.ofNat 64 (page * pageSize)) (pages : pmm.totalPages ≤ 2 ^ 52) :
    (start pmm cr3).Tree := by
  have top : ∀ p t, (start pmm cr3).node p = some t → p = [] ∧ t = pageAddr cr3 := by
    intro p t at'
    cases p with
    | nil => exact ⟨rfl, (Option.some.inj at').symm⟩
    | cons i p =>
        rw [start_node] at at'
        cases at'
  refine ⟨fun p q t _ _ atP atQ => ?_, fun _ _ _ _ _ _ => ?_, fun p t page _ at' free => ?_, pages⟩
  · rw [(top p t atP).1, (top q t atQ).1]
  · exact (show hasFlag pageHuge 0#64 = false by decide)
  · rw [(top p t at').2]
    exact root page free

theorem start_translate (pmm : Pmm) (cr3 w : BitVec 64) : (start pmm cr3).translate w = none := by
  unfold translate entryAt
  rw [above_succ w (by decide), start_node]
  rfl

end Vm

/-- An allocator of `n` pages behind the first eight. -/
def pagesLeft (n : ℕ) : Pmm :=
  ⟨fun i => if i = 0 then 0xFF else 0, 0, (8 + n) / 8 + 1, 8 + n, n, 1⟩

theorem pagesLeft_tree {n : ℕ} (few : n ≤ 4) : (Vm.start (pagesLeft n) 0x1000#64).Tree := by
  have apart : ∀ page < 12, getBit (pagesLeft 4).bitmap page = false →
      pageAddr 0x1000#64 ≠ BitVec.ofNat 64 (page * pageSize) := by decide
  have total : (pagesLeft n).totalPages = 8 + n := rfl
  refine Vm.start_tree (fun page free => apart page ?_ free.2) (by omega)
  have lt := free.1
  omega

/-! ## The law -/

/-- What a page that was mapped is, and what all others are. -/
structure MapsPage (s s' : Vm) (virt phys flags : BitVec 64) : Prop where
  tree : s'.Tree
  inside : ∀ w, SamePage virt w → s'.translate w = some (phys + pageOffset w)
  outside : ∀ w, ¬ SamePage virt w → s'.translate w = s.translate w
  user : hasFlag pageUser flags = true → ∀ level ≤ 3, ∃ e, s'.entryAt virt level = some e ∧
    hasFlag pageUser e = true
  /-- the entries of the others, up to `PAGE_USER` in the tables they share -/
  rights : ∀ w, ¬ SamePage virt w → s.translate w ≠ none → s'.entryAt w 0 = s.entryAt w 0 ∧
    ∀ level, 1 ≤ level → level ≤ 3 → s'.entryAt w level = s.entryAt w level ∨
      hasFlag pageUser flags = true ∧
        s'.entryAt w level = (s.entryAt w level).map (· ||| pageUser)
  found : ∀ w, vmmGetPhysAddr s' w = s'.translate w

/-- A page is not mapped any more, and the others are as before. -/
structure UnmapsPage (s s' : Vm) (virt : BitVec 64) : Prop where
  tree : s'.Tree
  inside : ∀ w, SamePage virt w → s'.translate w = none
  outside : ∀ w, ¬ SamePage virt w → s'.translate w = s.translate w
  rights : ∀ w, ¬ SamePage virt w → ∀ level ≤ 3, s'.entryAt w level = s.entryAt w level
  found : ∀ w, vmmGetPhysAddr s' w = s'.translate w

section Law

variable {s s' : Vm} {virt phys flags : BitVec 64}

/-- Pages have one answer for all their addresses: whether they are mapped. -/
theorem translate_samePage (s : Vm) {v w : BitVec 64} (same : SamePage v w)
    (unmapped : s.translate v = none) : s.translate w = none := by
  obtain ⟨way, last⟩ := (samePage_iff v w).mp same
  unfold Vm.translate Vm.entryAt at unmapped ⊢
  rw [← way, ← last]
  cases at' : s.node (above v 0) with
  | none => rfl
  | some t =>
      rw [at', Option.map_some, Option.bind_some] at unmapped
      rw [Option.map_some, Option.bind_some]
      split at unmapped
      next => cases unmapped
      next absent => rw [if_neg absent]

theorem Vm.Tree.unmaps (tree : s.Tree) (virt : BitVec 64) :
    UnmapsPage s (vmmUnmapPage s virt) virt := by
  rcases tree.vmmUnmapPage_cases virt with ⟨same, none⟩ | ⟨t, at', stored⟩
  · rw [same]
    exact ⟨tree, fun w here => translate_samePage s here none, fun _ _ => rfl,
      fun _ _ _ _ => rfl, tree.vmmGetPhysAddr_eq⟩
  · rw [stored]
    have tree' := tree.leaf at' (ptIdx virt 0) 0#64
    refine ⟨tree', ?_, ?_, ?_, tree'.vmmGetPhysAddr_eq⟩
    · intro w same
      rw [tree.leaf_translate at', if_pos same]
      rfl
    · intro w away
      rw [tree.leaf_translate at', if_neg away]
    · intro w away level le
      rw [tree.leaf_entryAt at' _ w le, if_neg fun both => away both.1]

/-- What a call of `vmm_map_page` is: a walk, and a store if there was memory. -/
theorem Vm.Tree.map_cases (tree : s.Tree) (virt phys flags : BitVec 64) :
    ∃ s₁, (walkPt s s.root virt true (flags &&& pageUser)).2 = s₁ ∧
      Vm.Walked (flags &&& pageUser) s s₁ ∧
      (((walkPt s s.root virt true (flags &&& pageUser)).1 = .noMemory ∧
          vmmMapPage s virt phys flags = (none, s₁)) ∨
        ∃ t, (walkPt s s.root virt true (flags &&& pageUser)).1 ≠ .noMemory ∧
          s₁.node (above virt 0) = some t ∧
          vmmMapPage s virt phys flags =
            (some virt, s₁.store t (ptIdx virt 0) (pageAddr phys ||| flags)) ∧
          ∀ l, 1 ≤ l → l ≤ 3 → ∃ e, s₁.entryAt virt l = some e ∧
            e ||| flags &&& pageUser = e) := by
  have spec := Vm.walkFrom_spec (extra_cases flags) le_rfl tree (Vm.root_node s virt)
  unfold vmmMapPage
  change Vm.Walked _ s (walkPt s s.root virt true (flags &&& pageUser)).2 ∧ _ at spec
  obtain ⟨walked, reached⟩ := spec
  refine ⟨_, rfl, walked, ?_⟩
  cases call : walkPt s s.root virt true (flags &&& pageUser) with
  | mk r s₁ =>
      rw [show walkFrom true (flags &&& pageUser) virt 3 s s.root = (r, s₁) from call] at reached
      cases r with
      | noMemory => exact .inl ⟨rfl, rfl⟩
      | absent => exact absurd rfl reached.present
      | entry e t =>
          obtain ⟨last, -, way⟩ := reached.reached e t rfl
          exact .inr ⟨t, nofun, last, rfl, way⟩

theorem extra_user (wanted : hasFlag pageUser flags = true) : flags &&& pageUser = pageUser := by
  rcases extra_cases flags with zero | user
  · unfold hasFlag at wanted
    rw [zero] at wanted
    cases wanted
  · exact user

/-- A page that is mapped has its address, for all its entries the flag of the user if that is
asked for, and no other page changes. -/
theorem Vm.Tree.maps (tree : s.Tree) (aligned : pageAddr phys = phys) (flagsOk : IsFlags flags)
    (present : hasFlag pagePresent flags = true)
    (call : vmmMapPage s virt phys flags = (some virt, s')) : MapsPage s s' virt phys flags := by
  obtain ⟨s₁, -, walked, ⟨-, failed⟩ | ⟨t, -, at', stored, way⟩⟩ := tree.map_cases virt phys flags
  · rw [failed] at call
    cases (Prod.mk.inj call).1
  · obtain rfl : s₁.store t (ptIdx virt 0) (pageAddr phys ||| flags) = s' :=
      (Prod.mk.inj (stored.symm.trans call)).2
    rw [aligned]
    have tree₁ := walked.tree
    have tree' := tree₁.leaf at' (ptIdx virt 0) (phys ||| flags)
    have flag : hasFlag pagePresent (phys ||| flags) = true := by
      rw [hasFlag_present] at present ⊢
      rw [BitVec.getLsbD_or, present, Bool.or_true]
    refine ⟨tree', ?_, ?_, ?_, ?_, tree'.vmmGetPhysAddr_eq⟩
    · intro w same
      rw [tree₁.leaf_translate at', if_pos same, if_pos flag, pageAddr_or flagsOk, aligned]
    · intro w away
      rw [tree₁.leaf_translate at', if_neg away, walked.translate]
    · intro wanted level le
      rw [tree₁.leaf_entryAt at' _ virt le]
      rcases Nat.eq_zero_or_pos level with rfl | pos
      · refine ⟨_, if_pos ⟨rfl, rfl⟩, ?_⟩
        rw [hasFlag_user] at wanted ⊢
        rw [BitVec.getLsbD_or, wanted, Bool.or_true]
      · obtain ⟨e, here, marked⟩ := way level pos le
        refine ⟨e, (if_neg fun both => by omega).trans here, ?_⟩
        rw [extra_user wanted] at marked
        have bit := congrArg (fun x : BitVec 64 => x.getLsbD 2) marked
        rw [hasFlag_user, ← bit]
        simp [pageUser]
    · intro w away some
      obtain ⟨last, uppers⟩ := walked.entries some
      refine ⟨?_, fun level pos le => ?_⟩
      · rw [tree₁.leaf_entryAt at' _ w (Nat.zero_le _), if_neg fun both => away both.1, last]
      · rw [tree₁.leaf_entryAt at' _ w le, if_neg fun both => away both.1]
        rcases uppers level pos le with same | more
        · exact .inl same
        · rcases extra_cases flags with zero | user
          · rw [zero] at more
            simp only [BitVec.or_zero, Option.map_id'] at more
            exact .inl more
          · rw [user] at more
            refine .inr ⟨?_, more⟩
            unfold hasFlag
            rw [user]
            rfl

/-- A call that fails changes no translation. -/
theorem Vm.Tree.map_fails (tree : s.Tree) (call : vmmMapPage s virt phys flags = (none, s')) :
    Vm.Walked (flags &&& pageUser) s s' := by
  obtain ⟨s₁, -, walked, ⟨-, failed⟩ | ⟨t, -, -, stored, -⟩⟩ := tree.map_cases virt phys flags
  · obtain rfl : s₁ = s' := (Prod.mk.inj (failed.symm.trans call)).2
    exact walked
  · rw [stored] at call
    cases (Prod.mk.inj call).1

/-- Mapping a page and unmapping it again change the translation of that page alone, and the
page is translated to the address asked for in between. -/
theorem page_mapping_law (tree : s.Tree) (aligned : pageAddr phys = phys)
    (flagsOk : IsFlags flags) (present : hasFlag pagePresent flags = true) :
    (∀ s', vmmMapPage s virt phys flags = (some virt, s') →
      MapsPage s s' virt phys flags ∧ UnmapsPage s' (vmmUnmapPage s' virt) virt) ∧
      ∀ s', vmmMapPage s virt phys flags = (none, s') →
        s'.Tree ∧ ∀ w, s'.translate w = s.translate w := by
  constructor
  · intro s' call
    have maps := tree.maps aligned flagsOk present call
    exact ⟨maps, maps.tree.unmaps virt⟩
  · intro s' call
    have walked := tree.map_fails call
    exact ⟨walked.tree, walked.translate⟩

theorem page_mapping_law_user :
    ∃ s', vmmMapPage (Vm.start (pagesLeft 4) 0x1000#64) userMmapVaddr 0x8000#64
        (pagePresent ||| pageWritable ||| pageUser) = (some userMmapVaddr, s') ∧
      MapsPage (Vm.start (pagesLeft 4) 0x1000#64) s' userMmapVaddr 0x8000#64
        (pagePresent ||| pageWritable ||| pageUser) ∧
      UnmapsPage s' (vmmUnmapPage s' userMmapVaddr) userMmapVaddr := by
  have mapped : (vmmMapPage (Vm.start (pagesLeft 4) 0x1000#64) userMmapVaddr 0x8000#64
      (pagePresent ||| pageWritable ||| pageUser)).1 = some userMmapVaddr := by decide +kernel
  have flagsOk : IsFlags (pagePresent ||| pageWritable ||| pageUser) := by
    unfold IsFlags
    decide
  exact ⟨_, Prod.ext mapped rfl,
    (page_mapping_law (pagesLeft_tree le_rfl) (by decide) flagsOk (by decide)).1 _
      (Prod.ext mapped rfl)⟩

end Law

end NTux.Mm
