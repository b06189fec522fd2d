import NTux.Fs.Ramfs
import NTux.Fs.VfsUnion
import Mathlib.Data.List.Dedup

/-!
# Listing a union

A layer counts all entries of a directory and stores those there is room for (`Answers`);
`union_list_dir` lends it a buffer of sixteen slots and loops up to the count.  `unionReads` are
the slots its loops read, one after the other, and `unionMerge` is what they put together
(`unionLoops_eq`).

With more than sixteen entries in a layer they read what was never stored.  With at most sixteen
in each the listing is the union of both, if no layer has a name twice (`union_listing_iff`).
-/

namespace NTux.Fs

/-- The answer to a listing of a directory with the given entries, with that many slots. -/
structure Answers (r : ListOutcome) (slots : Nat) (ents : List VfsDirent) : Prop where
  count : r.outCount.getD 0 = ents.length
  stored : r.out.take ents.length = ents.take slots
  room : r.out.length ≤ slots

/-- `fat_list_visitor` and `iso_list_cb`: an entry is counted, and stored while there is room. -/
def storeVisited (maxEntries : Nat) (ctx : List VfsDirent × Nat) (e : VfsDirent) :
    List VfsDirent × Nat :=
  (if ctx.2 < maxEntries then ctx.1 ++ [e] else ctx.1, ctx.2 + 1)

/-! ## The loops -/

/-- A slot of one of the two temporary buffers. -/
inductive TempSlot
  | a (i : Nat)
  | b (i : Nat)
  deriving DecidableEq

/-- The loop over the first buffer: what is stored, and the slots that are read. -/
def unionLoopA (maxEntries : Nat) :
    List VfsDirent → Nat → List VfsDirent → List VfsDirent × List TempSlot
  | [], _, out => (out, [])
  | e :: rest, i, out =>
      if out.length < maxEntries then
        let next := unionLoopA maxEntries rest (i + 1) (if isDotName e.name then out else out ++ [e])
        (next.1, .a i :: next.2)
      else (out, [])

/-- The search for a name in the first buffer. -/
def unionDup (name : CString) : List VfsDirent → Nat → Bool × List TempSlot
  | [], _ => (false, [])
  | e :: rest, j =>
      if e.name == name then (true, [.a j])
      else ((unionDup name rest (j + 1)).1, .a j :: (unionDup name rest (j + 1)).2)

/-- The loop over the second buffer. -/
def unionLoopB (maxEntries : Nat) (aEnts : List VfsDirent) :
    List VfsDirent → Nat → List VfsDirent → List VfsDirent × List TempSlot
  | [], _, out => (out, [])
  | e :: rest, i, out =>
      if out.length < maxEntries then
        if isDotName e.name then
          let next := unionLoopB maxEntries aEnts rest (i + 1) out
          (next.1, .b i :: next.2)
        else
          let dup := unionDup e.name aEnts 0
          let next := unionLoopB maxEntries aEnts rest (i + 1) (if dup.1 then out else out ++ [e])
          (next.1, .b i :: (dup.2 ++ next.2))
      else (out, [])

/-- What both loops store, and the slots they read. -/
def unionLoops (heapA heapB : Nat → VfsDirent) (ra rb : ListOutcome) (maxEntries : Nat) :
    List VfsDirent × List TempSlot :=
  if ra.rc ≠ 0 ∧ rb.rc ≠ 0 then ([], [])
  else
    let aEnts := tempEntries heapA ra
    let first := unionLoopA maxEntries aEnts 0 []
    let second := unionLoopB maxEntries aEnts (tempEntries heapB rb) 0 first.1
    (second.1, first.2 ++ second.2)

/-- The slots that `union_list_dir` reads. -/
def unionReads (heapA heapB : Nat → VfsDirent) (ra rb : ListOutcome) (maxEntries : Nat) :
    List TempSlot := (unionLoops heapA heapB ra rb maxEntries).2

/-- The layer has stored an entry in the slot. -/
def TempSlot.Filled (ra rb : ListOutcome) : TempSlot → Prop
  | .a i => i < ra.out.length
  | .b i => i < rb.out.length

/-! ## What is to be listed -/

/-- The names in the layers, each once and without the two dots. -/
def unionNames (ea eb : List VfsDirent) : List CString :=
  (((ea ++ eb).map VfsDirent.name).filter fun n => !isDotName n).dedup

/-- The listing of layers with these entries. -/
structure UnionListed (ea eb listed : List VfsDirent) : Prop where
  names : ∀ n, n ∈ listed.map VfsDirent.name ↔
    isDotName n = false ∧ (n ∈ ea.map VfsDirent.name ∨ n ∈ eb.map VfsDirent.name)
  once : (listed.map VfsDirent.name).Nodup
  upper : ∀ e ∈ listed, e ∈ ea ∨ e ∈ eb ∧ e.name ∉ ea.map VfsDirent.name

/-- No name is twice in the upper layer, and none that it does not have in the lower one. -/
def NamesDistinct (ea eb : List VfsDirent) : Prop :=
  ((ea.map VfsDirent.name).filter fun n => !isDotName n).Nodup ∧
    ((eb.map VfsDirent.name).filter fun n => !isDotName n && !(ea.map VfsDirent.name).contains n).Nodup

section Loops

variable {r ra rb : ListOutcome} {ents ea eb : List VfsDirent} {heap heapA heapB : Nat → VfsDirent}
  {maxEntries slots : Nat}

/-- Of the visited entries the first are stored, and all are counted. -/
theorem foldl_storeVisited (slots : Nat) (ents : List VfsDirent) :
    ents.foldl (storeVisited slots) ([], 0) = (ents.take slots, ents.length) := by
  induction ents using List.reverseRecOn with
  | nil => simp
  | append_singleton ents e ih =>
      rw [List.foldl_append, ih, List.foldl_cons, List.foldl_nil, storeVisited]
      dsimp only
      rw [List.length_append, List.length_singleton]
      refine Prod.ext ?_ rfl
      dsimp only
      split
      next room =>
        rw [List.take_of_length_le (Nat.le_of_lt room), List.take_of_length_le]
        rw [List.length_append, List.length_singleton]
        exact room
      next full => rw [List.take_append_of_le_length (by omega)]

/-- Visited entries are an answer. -/
theorem storeVisited_answers (rc : Int) (slots : Nat) (ents : List VfsDirent) :
    Answers ⟨rc, some (ents.foldl (storeVisited slots) ([], 0)).2,
      (ents.foldl (storeVisited slots) ([], 0)).1⟩ slots ents := by
  rw [foldl_storeVisited]
  refine ⟨rfl, ?_, ?_⟩
  · dsimp only
    rw [List.take_take]
    exact List.take_eq_take_iff.2 (by omega)
  · dsimp only
    rw [List.length_take]
    exact Nat.min_le_left _ _

/-- The answer of the RAM filesystem. -/
theorem ramfsOpListDir_answers (fs : Ramfs) (path : CString) (slots : Nat) :
    ∃ ents, Answers (ramfsOpListDir fs path true slots) slots ents := by
  have failed : ∀ rc, Answers ⟨rc, none, []⟩ slots [] := fun rc => ⟨rfl, by simp, Nat.zero_le _⟩
  unfold ramfsOpListDir
  split
  · exact ⟨[], failed _⟩
  next node _ =>
    dsimp only
    split
    · exact ⟨[], failed _⟩
    · refine ⟨(fs.nodes node).entries.map fun c => ramfsDirent (fs.nodes c), ?_, ?_, ?_⟩
      · rw [if_pos rfl, List.length_map, RamfsNode.entries, List.length_map, List.length_range]
        rfl
      · rw [if_pos rfl, List.take_of_length_le, List.map_take]
        rw [List.length_map, List.length_map, List.length_take]
        exact Nat.min_le_right _ _
      · rw [if_pos rfl, List.length_map, List.length_take]
        exact Nat.min_le_left _ _

/-- Of a layer with at most as many entries as slots, the loops see the entries. -/
theorem tempEntries_eq (answers : Answers r slots ents) (few : ents.length ≤ slots) :
    tempEntries heap r = ents := by
  unfold tempEntries
  rw [answers.count]
  refine List.ext_getElem (by simp) fun i lt lt' => ?_
  have same : (r.out.take ents.length)[i]? = (ents.take slots)[i]? := by rw [answers.stored]
  rw [List.getElem?_take_of_lt lt', List.getElem?_take_of_lt (by omega)] at same
  rw [List.getElem_map, List.getElem_range, same, List.getElem?_eq_getElem lt', Option.getD_some]

theorem tempEntries_length (answers : Answers r slots ents) :
    (tempEntries heap r).length = ents.length := by
  rw [tempEntries, List.length_map, List.length_range, answers.count]

theorem unionLoopA_out (es : List VfsDirent) (i : Nat) (out : List VfsDirent) :
    (unionLoopA maxEntries es i out).1 =
      out ++ (es.filter fun e => !isDotName e.name).take (maxEntries - out.length) := by
  induction es generalizing i out with
  | nil => simp [unionLoopA]
  | cons e rest ih =>
      rw [unionLoopA]
      split
      next room =>
        dsimp only
        rw [ih]
        cases dots : isDotName e.name with
        | true => rw [if_pos rfl, List.filter_cons_of_neg (by simp [dots])]
        | false =>
            rw [if_neg (by simp), List.filter_cons_of_pos (by simp [dots]), List.append_assoc,
              List.length_append, List.length_singleton,
              show maxEntries - out.length = maxEntries - (out.length + 1) + 1 by omega,
              List.take_succ_cons]
            rfl
      next full =>
        rw [show maxEntries - out.length = 0 by omega, List.take_zero, List.append_nil]

theorem unionDup_found (name : CString) (es : List VfsDirent) (j : Nat) :
    (unionDup name es j).1 = es.any (·.name == name) := by
  induction es generalizing j with
  | nil => rfl
  | cons e rest ih =>
      rw [unionDup, List.any_cons]
      cases same : e.name == name with
      | true => rfl
      | false => exact ih (j + 1)

theorem unionLoopB_out (aEnts es : List VfsDirent) (i : Nat) (out : List VfsDirent) :
    (unionLoopB maxEntries aEnts es i out).1 = out ++
      (es.filter fun e => !isDotName e.name && !aEnts.any (·.name == e.name)).take
        (maxEntries - out.length) := by
  induction es generalizing i out with
  | nil => simp [unionLoopB]
  | cons e rest ih =>
      rw [unionLoopB]
      split
      next room =>
        cases dots : isDotName e.name with
        | true =>
            rw [if_pos rfl, List.filter_cons_of_neg (by simp [dots])]
            exact ih (i + 1) out
        | false =>
            rw [if_neg (by simp)]
            dsimp only
            rw [ih, unionDup_found]
            cases dup : aEnts.any (·.name == e.name) with
            | true => rw [if_pos rfl, List.filter_cons_of_neg (by simp [dots, dup])]
            | false =>
                rw [if_neg (by simp), List.filter_cons_of_pos (by simp [dots, dup]),
                  List.append_assoc, List.length_append, List.length_singleton,
                  show maxEntries - out.length = maxEntries - (out.length + 1) + 1 by omega,
                  List.take_succ_cons]
                rfl
      next full =>
        rw [show maxEntries - out.length = 0 by omega, List.take_zero, List.append_nil]

/-- **The loops store what `unionMerge` puts together.** -/
theorem unionLoops_eq (heapA heapB : Nat → VfsDirent) (ra rb : ListOutcome) (maxEntries : Nat) :
    (unionLoops heapA heapB ra rb maxEntries).1 =
      (unionMerge heapA heapB ra rb true maxEntries).out := by
  unfold unionLoops unionMerge
  split
  · rfl
  · dsimp only
    rw [if_pos rfl, unionLoopB_out, unionLoopA_out, List.nil_append, List.length_nil, Nat.sub_zero]

/-! ## The slots read -/

/-- The first loop reads slots of the first buffer only. -/
theorem unionLoopA_reads {slot : TempSlot} (es : List VfsDirent) (i : Nat) (out : List VfsDirent)
    (mem : slot ∈ (unionLoopA maxEntries es i out).2) : ∃ k < es.length, slot = .a (i + k) := by
  induction es generalizing i out with
  | nil => cases mem
  | cons e rest ih =>
      rw [unionLoopA] at mem
      split at mem
      · rcases List.mem_cons.1 mem with rfl | mem
        · exact ⟨0, Nat.succ_pos _, rfl⟩
        · obtain ⟨k, lt, rfl⟩ := ih _ _ mem
          exact ⟨k + 1, Nat.succ_lt_succ lt, congrArg TempSlot.a (by omega)⟩
      · cases mem

theorem unionDup_reads {slot : TempSlot} (name : CString) (es : List VfsDirent) (j : Nat)
    (mem : slot ∈ (unionDup name es j).2) : ∃ k < es.length, slot = .a (j + k) := by
  induction es generalizing j with
  | nil => cases mem
  | cons e rest ih =>
      rw [unionDup] at mem
      split at mem
      · obtain rfl := List.mem_singleton.1 mem
        exact ⟨0, Nat.succ_pos _, rfl⟩
      · rcases List.mem_cons.1 mem with rfl | mem
        · exact ⟨0, Nat.succ_pos _, rfl⟩
        · obtain ⟨k, lt, rfl⟩ := ih _ mem
          exact ⟨k + 1, Nat.succ_lt_succ lt, congrArg TempSlot.a (by omega)⟩

theorem unionLoopB_reads {slot : TempSlot} (aEnts es : List VfsDirent) (i : Nat)
    (out : List VfsDirent) (mem : slot ∈ (unionLoopB maxEntries aEnts es i out).2) :
    (∃ k < aEnts.length, slot = .a k) ∨ ∃ k < es.length, slot = .b (i + k) := by
  induction es generalizing i out with
  | nil => cases mem
  | cons e rest ih =>
      have later : ∀ out, slot ∈ (unionLoopB maxEntries aEnts rest (i + 1) out).2 →
          (∃ k < aEnts.length, slot = .a k) ∨ ∃ k < (e :: rest).length, slot = .b (i + k) := by
        intro out mem
        rcases ih _ _ mem with first | ⟨k, lt, rfl⟩
        · exact .inl first
        · exact .inr ⟨k + 1, Nat.succ_lt_succ lt, congrArg TempSlot.b (by omega)⟩
      rw [unionLoopB] at mem
      split at mem
      · split at mem
        · rcases List.mem_cons.1 mem with rfl | mem
          · exact .inr ⟨0, Nat.succ_pos _, rfl⟩
          · exact later _ mem
        · rcases List.mem_cons.1 mem with rfl | mem
          · exact .inr ⟨0, Nat.succ_pos _, rfl⟩
          · rcases List.mem_append.1 mem with search | mem
            · obtain ⟨k, lt, rfl⟩ := unionDup_reads _ _ _ search
              exact .inl ⟨k, lt, congrArg TempSlot.a (Nat.zero_add k)⟩
            · exact later _ mem
      · cases mem

/-- With room for all of them the first loop reads every slot. -/
theorem unionLoopA_reads_all (maxEntries : Nat) (es : List VfsDirent) (i : Nat)
    (out : List VfsDirent)
    (room : out.length + es.length ≤ maxEntries) {k : Nat} (lt : k < es.length) :
    .a (i + k) ∈ (unionLoopA maxEntries es i out).2 := by
  induction es generalizing i out k with
  | nil => cases lt
  | cons e rest ih =>
      rw [List.length_cons] at room
      rw [unionLoopA, if_pos (by omega)]
      cases k with
      | zero => exact List.mem_cons_self
      | succ k =>
          refine List.mem_cons_of_mem _ ?_
          rw [show i + (k + 1) = i + 1 + k by omega]
          refine ih _ _ ?_ (Nat.lt_of_succ_lt_succ lt)
          split
          · omega
          · rw [List.length_append, List.length_singleton]
            omega

theorem unionLoopB_reads_all (maxEntries : Nat) (aEnts es : List VfsDirent) (i : Nat)
    (out : List VfsDirent)
    (room : out.length + es.length ≤ maxEntries) {k : Nat} (lt : k < es.length) :
    .b (i + k) ∈ (unionLoopB maxEntries aEnts es i out).2 := by
  induction es generalizing i out k with
  | nil => cases lt
  | cons e rest ih =>
      rw [List.length_cons] at room
      rw [unionLoopB, if_pos (by omega)]
      cases k with
      | zero => split <;> exact List.mem_cons_self
      | succ k =>
          have later : ∀ out', out'.length ≤ out.length + 1 →
              TempSlot.b (i + (k + 1)) ∈ (unionLoopB maxEntries aEnts rest (i + 1) out').2 := by
            intro out' le
            rw [show i + (k + 1) = i + 1 + k by omega]
            exact ih _ _ (by omega) (Nat.lt_of_succ_lt_succ lt)
          split
          · exact List.mem_cons_of_mem _ (later out (Nat.le_succ _))
          · refine List.mem_cons_of_mem _ (List.mem_append_right _ (later _ ?_))
            split
            · exact Nat.le_succ _
            · rw [List.length_append, List.length_singleton]

/-- The loops read filled slots only exactly if no layer has more entries than slots. -/
theorem unionReads_filled_iff (some_ : ¬ (ra.rc ≠ 0 ∧ rb.rc ≠ 0)) (answersA : Answers ra slots ea)
    (answersB : Answers rb slots eb) :
    (∀ heapA heapB maxEntries, ∀ slot ∈ unionReads heapA heapB ra rb maxEntries,
      slot.Filled ra rb) ↔ ea.length ≤ slots ∧ eb.length ≤ slots := by
  have enough : ∀ {r ents}, Answers r slots ents → ents.length ≤ slots → ents.length ≤ r.out.length := by
    intro r ents answers few
    have lengths := congrArg List.length answers.stored
    rw [List.length_take, List.length_take] at lengths
    omega
  simp only [unionReads, unionLoops, if_neg some_]
  constructor
  · intro filled
    let e : VfsDirent := ⟨[], false, 0⟩
    have all := filled (fun _ => e) (fun _ => e) (ea.length + eb.length)
    refine ⟨Nat.le_of_not_lt fun more => ?_, Nat.le_of_not_lt fun more => ?_⟩
    · have lengthA : (tempEntries (fun _ => e) ra).length = ea.length :=
        tempEntries_length answersA
      have read := unionLoopA_reads_all (ea.length + eb.length)
        (tempEntries (fun _ => e) ra) 0 [] (by rw [lengthA, List.length_nil]; omega) (k := slots)
        (by rw [lengthA]; exact more)
      have here : slots < ra.out.length := by
        have fill := all _ (List.mem_append_left _ read)
        rwa [Nat.zero_add] at fill
      exact absurd here (Nat.not_lt.2 answersA.room)
    · have lengthA : (tempEntries (fun _ => e) ra).length = ea.length :=
        tempEntries_length answersA
      have lengthB : (tempEntries (fun _ => e) rb).length = eb.length :=
        tempEntries_length answersB
      have first : (unionLoopA (ea.length + eb.length) (tempEntries (fun _ => e) ra) 0 []).1.length ≤
          ea.length := by
        rw [unionLoopA_out, List.nil_append, List.length_take, ← lengthA]
        exact (Nat.min_le_right _ _).trans (List.length_filter_le _ _)
      have read := unionLoopB_reads_all (ea.length + eb.length)
        (tempEntries (fun _ => e) ra) (tempEntries (fun _ => e) rb) 0
        (unionLoopA (ea.length + eb.length) (tempEntries (fun _ => e) ra) 0 []).1
        (by rw [lengthB]; omega) (k := slots) (by rw [lengthB]; exact more)
      have here : slots < rb.out.length := by
        have fill := all _ (List.mem_append_right _ read)
        rwa [Nat.zero_add] at fill
      exact absurd here (Nat.not_lt.2 answersB.room)
  · rintro ⟨fewA, fewB⟩ heapA heapB maxEntries slot mem
    have inA : ∀ k < ea.length, TempSlot.Filled ra rb (.a k) := fun k lt =>
      Nat.lt_of_lt_of_le lt (enough answersA fewA)
    have inB : ∀ k < eb.length, TempSlot.Filled ra rb (.b k) := fun k lt =>
      Nat.lt_of_lt_of_le lt (enough answersB fewB)
    rcases List.mem_append.1 mem with first | second
    · obtain ⟨k, lt, rfl⟩ := unionLoopA_reads _ _ _ first
      rw [tempEntries_length answersA] at lt
      rw [Nat.zero_add]
      exact inA k lt
    · rcases unionLoopB_reads _ _ _ _ second with ⟨k, lt, rfl⟩ | ⟨k, lt, rfl⟩
      · rw [tempEntries_length answersA] at lt
        exact inA k lt
      · rw [tempEntries_length answersB] at lt
        rw [Nat.zero_add]
        exact inB k lt

end Loops

/-! ## The names listed -/

section Names

variable {ea eb : List VfsDirent} {maxEntries : Nat}

/-- What the union lists, where there is room for it. -/
def unionEntries (ea eb : List VfsDirent) : List VfsDirent :=
  (ea.filter fun e => !isDotName e.name) ++
    eb.filter fun e => !isDotName e.name && !ea.any (·.name == e.name)

theorem unionEntries_names (ea eb : List VfsDirent) :
    (unionEntries ea eb).map VfsDirent.name =
      ((ea.map VfsDirent.name).filter fun n => !isDotName n) ++
        (eb.map VfsDirent.name).filter fun n =>
          !isDotName n && !(ea.map VfsDirent.name).contains n := by
  have same : ∀ n, ea.any (·.name == n) = (ea.map VfsDirent.name).contains n := by
    intro n
    rw [List.contains_eq_any_beq, List.any_map]
    refine List.any_congr rfl fun e => ?_
    rw [Function.comp_apply, Bool.eq_iff_iff, beq_iff_eq, beq_iff_eq]
    exact eq_comm
  unfold unionEntries
  rw [List.map_append, List.filter_map, List.filter_map]
  simp only [same, Function.comp_def]

theorem mem_unionEntries_names (n : CString) : n ∈ (unionEntries ea eb).map VfsDirent.name ↔
    isDotName n = false ∧ (n ∈ ea.map VfsDirent.name ∨ n ∈ eb.map VfsDirent.name) := by
  rw [unionEntries_names]
  simp only [List.mem_append, List.mem_filter, Bool.and_eq_true, Bool.not_eq_true',
    List.contains_eq_mem, decide_eq_false_iff_not]
  tauto

/-- The names are distinct if those of each layer are. -/
theorem unionEntries_nodup :
    ((unionEntries ea eb).map VfsDirent.name).Nodup ↔ NamesDistinct ea eb := by
  rw [unionEntries_names, List.nodup_append, NamesDistinct]
  constructor
  · rintro ⟨upper, lower, -⟩
    exact ⟨upper, lower⟩
  · rintro ⟨upper, lower⟩
    refine ⟨upper, lower, fun n memA m memB eq => ?_⟩
    obtain ⟨inA, -⟩ := List.mem_filter.1 memA
    obtain ⟨-, other⟩ := List.mem_filter.1 memB
    simp only [Bool.and_eq_true, Bool.not_eq_true', List.contains_eq_mem,
      decide_eq_false_iff_not] at other
    exact other.2 (eq ▸ inA)

theorem unionListed_iff : UnionListed ea eb (unionEntries ea eb) ↔ NamesDistinct ea eb := by
  rw [← unionEntries_nodup]
  refine ⟨UnionListed.once, fun once => ⟨mem_unionEntries_names, once, fun e mem => ?_⟩⟩
  rcases List.mem_append.1 mem with upper | lower
  · exact .inl (List.mem_filter.1 upper).1
  · obtain ⟨memB, other⟩ := List.mem_filter.1 lower
    refine .inr ⟨memB, fun there => ?_⟩
    obtain ⟨a, memA, same⟩ := List.mem_map.1 there
    simp only [Bool.and_eq_true, Bool.not_eq_true', List.any_eq_false, beq_iff_eq] at other
    exact other.2 a memA same

/-- Distinct names are no more than there are in the layers. -/
theorem unionEntries_length (distinct : NamesDistinct ea eb) :
    (unionEntries ea eb).length = (unionNames ea eb).length := by
  have perm : ((unionEntries ea eb).map VfsDirent.name).Perm (unionNames ea eb) := by
    refine (List.perm_ext_iff_of_nodup (unionEntries_nodup.2 distinct) (List.nodup_dedup _)).2
      fun n => ?_
    rw [mem_unionEntries_names, List.mem_dedup, List.mem_filter, List.map_append, List.mem_append,
      Bool.not_eq_true']
    exact and_comm
  rw [← perm.length_eq, List.length_map]

end Names

section Listing

variable {α β : Type}

/-- `union_list_dir` of a directory with these entries in the layers: it reads filled slots
only, and with room for all names lists the union, whatever the two buffers held before. -/
structure ListsUnion (u : VfsUnion α β) (s : α × β) (path : CString) (ea eb : List VfsDirent) :
    Prop where
  filled : ∀ heapA heapB maxEntries,
    ∀ slot ∈ unionReads heapA heapB (vfsCallListDir u.opsA s.1 path true unionTempEnts)
        (vfsCallListDir u.opsB s.2 path true unionTempEnts) maxEntries,
      slot.Filled (vfsCallListDir u.opsA s.1 path true unionTempEnts)
        (vfsCallListDir u.opsB s.2 path true unionTempEnts)
  listed : ∀ heap maxEntries, (unionListDir u s (some heap) path true maxEntries).rc = 0 →
    (unionNames ea eb).length ≤ maxEntries →
      UnionListed ea eb (unionListDir u s (some heap) path true maxEntries).out

/-- **The listing reads filled slots only and is the union exactly if both layers refuse, or have
at most sixteen entries each and no name twice.** -/
theorem union_listing_iff (u : VfsUnion α β) (s : α × β) (path : CString) {ea eb : List VfsDirent}
    (answersA : Answers (vfsCallListDir u.opsA s.1 path true unionTempEnts) unionTempEnts ea)
    (answersB : Answers (vfsCallListDir u.opsB s.2 path true unionTempEnts) unionTempEnts eb) :
    ListsUnion u s path ea eb ↔
      ((vfsCallListDir u.opsA s.1 path true unionTempEnts).rc ≠ 0 ∧
        (vfsCallListDir u.opsB s.2 path true unionTempEnts).rc ≠ 0) ∨
      (ea.length ≤ unionTempEnts ∧ eb.length ≤ unionTempEnts ∧ NamesDistinct ea eb) := by
  by_cases both : (vfsCallListDir u.opsA s.1 path true unionTempEnts).rc ≠ 0 ∧
      (vfsCallListDir u.opsB s.2 path true unionTempEnts).rc ≠ 0
  · refine iff_of_true ⟨fun heapA heapB maxEntries slot mem => ?_, fun heap maxEntries ok => ?_⟩
      (.inl both)
    · rw [unionReads, unionLoops, if_pos both] at mem
      cases mem
    · rw [unionListDir, unionMerge, if_pos both] at ok
      exact absurd ok (by decide)
  · have merged : ea.length ≤ unionTempEnts → eb.length ≤ unionTempEnts → ∀ heap maxEntries,
        (unionEntries ea eb).length ≤ maxEntries →
        unionListDir u s (some heap) path true maxEntries =
          ⟨0, some (unionEntries ea eb).length, unionEntries ea eb⟩ := by
      intro fewA fewB heap maxEntries room
      unfold unionEntries at room ⊢
      rw [List.length_append] at room
      rw [unionListDir, unionMerge, if_neg both, tempEntries_eq answersA fewA,
        tempEntries_eq answersB fewB]
      dsimp only
      rw [if_pos rfl, List.take_of_length_le (by omega), List.take_of_length_le (by omega)]
    constructor
    · rintro ⟨filled, listed⟩
      obtain ⟨fewA, fewB⟩ := (unionReads_filled_iff both answersA answersB).1 filled
      refine .inr ⟨fewA, fewB, ?_⟩
      let e : VfsDirent := ⟨[], false, 0⟩
      have eq := merged fewA fewB (fun _ => e, fun _ => e)
        (max (unionEntries ea eb).length (unionNames ea eb).length) (Nat.le_max_left _ _)
      have here := listed (fun _ => e, fun _ => e)
        (max (unionEntries ea eb).length (unionNames ea eb).length) (by rw [eq]) (Nat.le_max_right _ _)
      rw [eq] at here
      exact unionListed_iff.1 here
    · rintro (refuse | ⟨fewA, fewB, distinct⟩)
      · exact absurd refuse both
      · refine ⟨(unionReads_filled_iff both answersA answersB).2 ⟨fewA, fewB⟩,
          fun heap maxEntries ok room => ?_⟩
        rw [merged fewA fewB heap maxEntries ((unionEntries_length distinct).trans_le room)]
        exact unionListed_iff.2 distinct

/-- A backend that lists the given entries. -/
def listingOps (ents : List VfsDirent) : VfsBackendOps Unit where
  mkdir := none
  createFile := none
  writeFile := none
  readFile := none
  listDir := some fun _ _ out maxEntries =>
    ⟨0, some (ents.foldl (storeVisited maxEntries) ([], 0)).2,
      if out then (ents.foldl (storeVisited maxEntries) ([], 0)).1 else []⟩
  exists_ := none
  remove := none
  rename := none

theorem listingOps_answers (ents : List VfsDirent) (path : CString) (slots : Nat) :
    Answers (vfsCallListDir (listingOps ents) () path true slots) slots ents :=
  storeVisited_answers 0 slots ents

/-- A file over one of the same name. -/
theorem union_listing_shadowed : ListsUnion
    ⟨listingOps [⟨[0x61], false, 1⟩], listingOps [⟨[0x61], false, 2⟩, ⟨[0x62], true, 0⟩]⟩ ((), ())
    [slash] [⟨[0x61], false, 1⟩] [⟨[0x61], false, 2⟩, ⟨[0x62], true, 0⟩] :=
  (union_listing_iff _ _ _ (listingOps_answers _ _ _) (listingOps_answers _ _ _)).2
    (.inr (by unfold NamesDistinct; decide))

/-- Seventeen files, and what is behind the sixteen slots is read. -/
theorem union_listing_seventeen : ¬ ∀ (ea eb : List VfsDirent) (u : VfsUnion Unit Unit) (path : CString),
    NamesDistinct ea eb →
    Answers (vfsCallListDir u.opsA () path true unionTempEnts) unionTempEnts ea →
    Answers (vfsCallListDir u.opsB () path true unionTempEnts) unionTempEnts eb →
      ListsUnion u ((), ()) path ea eb := by
  intro always
  let files : List VfsDirent := (List.range 17).map fun i => ⟨[UInt8.ofNat (0x61 + i)], false, 0⟩
  have lists := always files [] ⟨listingOps files, listingOps []⟩ [slash]
    (by unfold NamesDistinct; decide) (listingOps_answers _ _ _) (listingOps_answers _ _ _)
  have filled := (unionReads_filled_iff (fun both => both.1 rfl) (listingOps_answers files [slash] 16)
    (listingOps_answers [] [slash] 16)).1 lists.filled
  exact absurd filled.1 (by decide)

end Listing

end NTux.Fs
