import NTux.Lib.Fields
import NTux.Net.Http
import Mathlib.Data.List.Induction

/-!
# Dotted addresses

`parse_ipv4` of `syscall/int80.c`, which decides whether a host is looked up.  It goes once
over the text, with the number of octets it has stored and the value of the one it is in.

* `DottedQuad` — the texts that are addresses, and what they stand for.
* `ReadsAddresses` — the function accepts these and no others, and no value leaves an `int`.
* `parse_ipv4_iff` — it does so for a text exactly if the text is not three octets with a dot
  behind the third, and has no number of 2^31 or more where the function reads one.
-/

namespace NTux.Net

open NTux.Lib.Fields

def dot : UInt8 := 46

/-! ## The code -/

/-- `val * 10 + (s[i] - '0')`, before it is stored. -/
def nextVal (val : Int) (c : UInt8) : Int := val * 10 + (c.toNat - 48 : Int)

/-- The loop of `parse_ipv4`: `octets` are those stored, `prev` is the character before.  It
returns the values it computes, and `octets` and `val` at its end unless it fails. -/
def parseIpv4Loop (octets : List Int) (val : Int) (prev : Option UInt8) :
    CString → List Int × Option (List Int × Int)
  | [] => ([], some (octets, val))
  | c :: s =>
      if 4 ≤ octets.length then ([], some (octets, val))
      else if isDigit c then
        let after := parseIpv4Loop octets ((nextVal val c).bmod (2 ^ 32)) (some c) s
        (nextVal val c :: after.1, after.2)
      else if c = dot then
        if prev = none ∨ prev = some dot then ([], none)
        else parseIpv4Loop (octets ++ [val]) 0 (some c) s
      else ([], none)

/-- `parse_ipv4`. -/
def parseIpv4 (s : CString) : Option (List UInt8) :=
  (parseIpv4Loop [] 0 none s).2.bind fun (octets, val) =>
    if octets.length ≠ 3 then none
    else if (octets ++ [val]).all fun v => 0 ≤ v ∧ v ≤ 255 then
      some ((octets ++ [val]).map fun v => UInt8.ofNat v.toNat)
    else none

/-- The values that `parse_ipv4` computes on the way. -/
def parseIpv4Values (s : CString) : List Int := (parseIpv4Loop [] 0 none s).1

/-! ## Addresses -/

/-- The number that digits denote. -/
def number (p : CString) : Nat := p.foldl (fun v c => v * 10 + (c.toNat - 48)) 0

/-- Digits only. -/
def Digits (p : CString) : Prop := ∀ c ∈ p, isDigit c = true

/-- One octet: a number of one or more digits, up to 255. -/
def IsOctet (p : CString) : Prop := p ≠ [] ∧ Digits p ∧ number p ≤ 255

/-- The text is the address with the octets `bs`. -/
def DottedQuad (s : CString) (bs : List UInt8) : Prop :=
  ∃ a b c d, IsOctet a ∧ IsOctet b ∧ IsOctet c ∧ IsOctet d ∧
    s = a ++ dot :: (b ++ dot :: (c ++ dot :: d)) ∧
    bs = [a, b, c, d].map fun p => UInt8.ofNat (number p)

/-- `parse_ipv4` accepts a text exactly if it is an address, returns what it stands for, and
computes only values that an `int` holds. -/
def ReadsAddresses (s : CString) : Prop :=
  (∀ bs, parseIpv4 s = some bs ↔ DottedQuad s bs) ∧
    ∀ v ∈ parseIpv4Values s, -2 ^ 31 ≤ v ∧ v < 2 ^ 31

/-- Three octets, and a dot behind the third one with nothing after it. -/
def EndsInDot (s : CString) : Prop :=
  ∃ a b c, IsOctet a ∧ IsOctet b ∧ IsOctet c ∧ s = a ++ dot :: (b ++ dot :: (c ++ [dot]))

/-- The text begins with up to three numbers, each with a dot behind it, and then `run`. -/
def Reads (s run : CString) : Prop :=
  ∃ groups : List CString, groups.length ≤ 3 ∧ (∀ g ∈ groups, g ≠ [] ∧ Digits g) ∧ Digits run ∧
    terminated dot groups ++ run <+: s

/-- No number that is read needs more than an `int`. -/
def ShortNumbers (s : CString) : Prop := ∀ run, Reads s run → number run < 2 ^ 31

/-! ## Numbers -/

theorem isDigit_iff {c : UInt8} : isDigit c = true ↔ 48 ≤ c.toNat ∧ c.toNat ≤ 57 := by
  simp [isDigit, UInt8.le_iff_toNat_le]

theorem isDigit_dot : isDigit dot = false := by decide

theorem number_append (p : CString) (c : UInt8) :
    number (p ++ [c]) = number p * 10 + (c.toNat - 48) := by
  simp [number]

theorem digitsInt_append (p : CString) (c : UInt8) :
    digitsInt (p ++ [c]) = (nextVal (digitsInt p) c).bmod (2 ^ 32) := by
  simp [digitsInt, nextVal]

theorem nextVal_number (p : CString) {c : UInt8} (digit : isDigit c = true) :
    nextVal (number p) c = number (p ++ [c]) := by
  have range := isDigit_iff.mp digit
  rw [number_append, nextVal]
  omega

theorem number_le_append (p q : CString) : number p ≤ number (p ++ q) := by
  induction q using List.reverseRecOn with
  | nil => simp
  | append_singleton q c ih =>
      rw [← List.append_assoc, number_append]
      omega

theorem Digits.append {p q : CString} (left : Digits p) (right : Digits q) : Digits (p ++ q) := by
  intro c mem
  rcases List.mem_append.mp mem with mem | mem
  · exact left c mem
  · exact right c mem

theorem Digits.single {c : UInt8} (digit : isDigit c = true) : Digits [c] := by
  intro d mem
  rw [List.mem_singleton.mp mem]
  exact digit

/-- A number that an `int` holds is what the digits leave in `val`. -/
theorem digitsInt_eq {p : CString} (digits : Digits p) (small : number p < 2 ^ 31) :
    digitsInt p = number p := by
  induction p using List.reverseRecOn with
  | nil => rfl
  | append_singleton p c ih =>
      have before := number_le_append p [c]
      have digit := digits c (by simp)
      rw [digitsInt_append, ih (fun d mem => digits d (by simp [mem])) (by omega),
        nextVal_number p digit, Int.bmod_eq_of_le (by omega) (by omega)]

/-! ## The loop -/

/-- The state the loop is in behind some groups and a part `run` of the next number. -/
structure Behind (groups : List CString) (run : CString) (prev : Option UInt8) : Prop where
  count : groups.length ≤ 4
  full : ∀ g ∈ groups, g ≠ [] ∧ Digits g
  digits : Digits run
  fresh : (prev = none ∨ prev = some dot) ↔ run = []

/-- The loop behind some groups and a part of the next number. -/
def loopFrom (groups : List CString) (run : CString) (prev : Option UInt8) (s : CString) :
    List Int × Option (List Int × Int) :=
  parseIpv4Loop (groups.map digitsInt) (digitsInt run) prev s

variable {groups : List CString} {run : CString} {prev : Option UInt8}

theorem Behind.start : Behind [] [] none := ⟨by simp, by simp, by simp [Digits], by simp⟩

theorem Behind.digit (at_ : Behind groups run prev) {c : UInt8} (digit : isDigit c = true) :
    Behind groups (run ++ [c]) (some c) := by
  refine ⟨at_.count, at_.full, at_.digits.append (Digits.single digit), ?_⟩
  have ne : c ≠ dot := by
    rintro rfl
    exact absurd digit (by decide)
  simp [ne]

theorem Behind.dot (at_ : Behind groups run prev) (some : run ≠ []) (room : groups.length < 4) :
    Behind (groups ++ [run]) [] (Option.some dot) := by
  refine ⟨by simp; omega, ?_, by simp [Digits], by simp⟩
  intro g mem
  rcases List.mem_append.mp mem with mem | mem
  · exact at_.full g mem
  · rw [List.mem_singleton.mp mem]
    exact ⟨some, at_.digits⟩

theorem loopFrom_digit {c : UInt8} (s : CString) (room : groups.length < 4)
    (digit : isDigit c = true) :
    loopFrom groups run prev (c :: s) =
      (nextVal (digitsInt run) c :: (loopFrom groups (run ++ [c]) (some c) s).1,
        (loopFrom groups (run ++ [c]) (some c) s).2) := by
  simp [loopFrom, parseIpv4Loop, digit, digitsInt_append, Nat.not_le.mpr room]

theorem loopFrom_dot (at_ : Behind groups run prev) (s : CString) (room : groups.length < 4)
    (some : run ≠ []) :
    loopFrom groups run prev (dot :: s) = loopFrom (groups ++ [run]) [] (Option.some dot) s := by
  have go : ¬(prev = none ∨ prev = Option.some dot) := fun h => some (at_.fresh.mp h)
  simp [loopFrom, parseIpv4Loop, isDigit_dot, Nat.not_le.mpr room, go, digitsInt]

/-- Everything the loop can do at a character. -/
theorem loopFrom_cases (at_ : Behind groups run prev) (c : UInt8) (s : CString) :
    (4 ≤ groups.length ∧
      loopFrom groups run prev (c :: s) = ([], some (groups.map digitsInt, digitsInt run))) ∨
    (groups.length < 4 ∧ isDigit c = true) ∨
    (groups.length < 4 ∧ c = dot ∧ run ≠ []) ∨
    loopFrom groups run prev (c :: s) = ([], none) := by
  by_cases room : groups.length < 4
  · by_cases digit : isDigit c = true
    · exact .inr (.inl ⟨room, digit⟩)
    · by_cases isDot : c = dot
      · by_cases empty : run = []
        · refine .inr (.inr (.inr ?_))
          have stop := at_.fresh.mpr empty
          simp [loopFrom, parseIpv4Loop, isDot, isDigit_dot, Nat.not_le.mpr room, stop]
        · exact .inr (.inr (.inl ⟨room, isDot, empty⟩))
      · refine .inr (.inr (.inr ?_))
        simp [loopFrom, parseIpv4Loop, isDot, digit, Nat.not_le.mpr room]
  · refine .inl ⟨by omega, ?_⟩
    simp [loopFrom, parseIpv4Loop, Nat.not_lt.mp room]

/-- A run that ends with three octets stored has read three numbers and a part of a fourth. -/
theorem groups_of_loopFrom {s : CString} {octets : List Int} {val : Int}
    (at_ : Behind groups run prev) (eq : (loopFrom groups run prev s).2 = some (octets, val))
    (three : octets.length = 3) :
    ∃ groups' run', groups'.length = 3 ∧ (∀ g ∈ groups', g ≠ [] ∧ Digits g) ∧ Digits run' ∧
      octets = groups'.map digitsInt ∧ val = digitsInt run' ∧
      terminated dot groups ++ run ++ s = terminated dot groups' ++ run' := by
  induction s generalizing groups run prev with
  | nil =>
      simp only [loopFrom, parseIpv4Loop, Option.some.injEq, Prod.mk.injEq] at eq
      obtain ⟨rfl, rfl⟩ := eq
      exact ⟨groups, run, by simpa using three, at_.full, at_.digits, rfl, rfl, by simp⟩
  | cons c s ih =>
      rcases loopFrom_cases at_ c s with ⟨full, stop⟩ | ⟨room, digit⟩ | ⟨room, rfl, some⟩ | stop
      · rw [stop] at eq
        simp only [Option.some.injEq, Prod.mk.injEq] at eq
        obtain ⟨rfl, -⟩ := eq
        simp only [List.length_map] at three
        omega
      · rw [loopFrom_digit s room digit] at eq
        obtain ⟨groups', run', h⟩ := ih (at_.digit digit) eq
        exact ⟨groups', run', by simpa using h⟩
      · rw [loopFrom_dot at_ s room some] at eq
        obtain ⟨groups', run', h⟩ := ih (at_.dot some room) eq
        exact ⟨groups', run', by simpa [terminated] using h⟩
      · rw [stop] at eq
        cases eq

/-- Digits are read into the value of the run. -/
theorem loopFrom_digits {p : CString} (at_ : Behind groups run prev) (room : groups.length < 4)
    (digits : Digits p) (s : CString) :
    ∃ prev', Behind groups (run ++ p) prev' ∧
      (loopFrom groups run prev (p ++ s)).2 = (loopFrom groups (run ++ p) prev' s).2 ∧
      ∀ v ∈ (loopFrom groups (run ++ p) prev' s).1, v ∈ (loopFrom groups run prev (p ++ s)).1 := by
  induction p generalizing run prev with
  | nil => exact ⟨prev, by simpa using at_, by simp, by simp⟩
  | cons c p ih =>
      have digit := digits c (by simp)
      obtain ⟨prev', behind, same, mem⟩ :=
        ih (at_.digit digit) fun d mem => digits d (by simp [mem])
      refine ⟨prev', by simpa using behind, ?_, ?_⟩
      · rw [List.cons_append, loopFrom_digit _ room digit]
        simpa using same
      · intro v h
        rw [List.cons_append, loopFrom_digit _ room digit]
        exact List.mem_cons_of_mem _ (mem v (by simpa using h))

/-- Up to three numbers with their dots are stored. -/
theorem loopFrom_groups (more : List CString) (at_ : Behind groups [] prev)
    (room : groups.length + more.length ≤ 3) (full : ∀ g ∈ more, g ≠ [] ∧ Digits g)
    (s : CString) :
    ∃ prev', Behind (groups ++ more) [] prev' ∧
      (loopFrom groups [] prev (terminated dot more ++ s)).2 =
        (loopFrom (groups ++ more) [] prev' s).2 ∧
      ∀ v ∈ (loopFrom (groups ++ more) [] prev' s).1,
        v ∈ (loopFrom groups [] prev (terminated dot more ++ s)).1 := by
  induction more generalizing groups prev with
  | nil => exact ⟨prev, by simpa using at_, by simp [terminated], by simp [terminated]⟩
  | cons g more ih =>
      simp only [List.length_cons] at room
      have here := full g (by simp)
      obtain ⟨prev₁, behind₁, same₁, mem₁⟩ :=
        loopFrom_digits at_ (by omega) here.2 (dot :: (terminated dot more ++ s))
      rw [List.nil_append] at behind₁ same₁ mem₁
      have step := loopFrom_dot behind₁ (terminated dot more ++ s) (by omega) here.1
      obtain ⟨prev₂, behind₂, same₂, mem₂⟩ := ih (behind₁.dot here.1 (by omega))
        (by simp; omega) fun p mem => full p (by simp [mem])
      have text : terminated dot (g :: more) ++ s = g ++ dot :: (terminated dot more ++ s) := by
        simp [terminated]
      rw [List.append_assoc] at behind₂ same₂ mem₂
      refine ⟨prev₂, behind₂, ?_, fun v h => ?_⟩
      · rw [text, same₁, step]
        exact same₂
      · rw [text]
        refine mem₁ v ?_
        rw [step]
        exact mem₂ v h

/-! ## Values -/

/-- If every value computed over digits fits, the number does. -/
theorem number_lt_of_values {p : CString} (at_ : Behind groups run prev)
    (room : groups.length < 4) (digits : Digits p) (small : number run < 2 ^ 31)
    (fits : ∀ v ∈ (loopFrom groups run prev p).1, v < 2 ^ 31) : number (run ++ p) < 2 ^ 31 := by
  induction p generalizing run prev with
  | nil => simpa using small
  | cons c p ih =>
      have digit := digits c (by simp)
      rw [loopFrom_digit p room digit] at fits
      have head := fits _ List.mem_cons_self
      rw [digitsInt_eq at_.digits small, nextVal_number run digit] at head
      have rest := ih (at_.digit digit) (fun d mem => digits d (by simp [mem]))
        (by exact_mod_cast head) fun v mem => fits v (List.mem_cons_of_mem _ mem)
      simpa using rest

/-- What is computed over digits is computed whatever follows them. -/
theorem loopFrom_append {p : CString} (room : groups.length < 4) (digits : Digits p)
    (rest : CString) {v : Int} (mem : v ∈ (loopFrom groups run prev p).1) :
    v ∈ (loopFrom groups run prev (p ++ rest)).1 := by
  induction p generalizing run prev with
  | nil => cases mem
  | cons c p ih =>
      have digit := digits c (by simp)
      rw [loopFrom_digit p room digit] at mem
      rw [List.cons_append, loopFrom_digit _ room digit]
      rcases List.mem_cons.mp mem with rfl | mem
      · exact List.mem_cons_self
      · exact List.mem_cons_of_mem _ (ih (fun d h => digits d (by simp [h])) mem)

/-- If every number read fits, every value computed does. -/
theorem values_of_numbers {s : CString} (at_ : Behind groups run prev)
    (short : ShortNumbers (terminated dot groups ++ run ++ s)) :
    ∀ v ∈ (loopFrom groups run prev s).1, -2 ^ 31 ≤ v ∧ v < 2 ^ 31 := by
  induction s generalizing groups run prev with
  | nil => simp [loopFrom, parseIpv4Loop]
  | cons c s ih =>
      intro v mem
      rcases loopFrom_cases at_ c s with ⟨-, stop⟩ | ⟨room, digit⟩ | ⟨room, rfl, some⟩ | stop
      · rw [stop] at mem
        cases mem
      · have next := short (run ++ [c]) ⟨groups, by omega, at_.full, (at_.digit digit).digits,
          s, by simp⟩
        have before := number_le_append run [c]
        rw [loopFrom_digit s room digit] at mem
        rcases List.mem_cons.mp mem with rfl | mem
        · rw [digitsInt_eq at_.digits (by omega), nextVal_number run digit]
          omega
        · exact ih (at_.digit digit) (by simpa using short) v mem
      · rw [loopFrom_dot at_ s room some] at mem
        exact ih (at_.dot some room) (by simpa [terminated] using short) v mem
      · rw [stop] at mem
        cases mem

theorem parseIpv4Loop_start (s : CString) : parseIpv4Loop [] 0 none s = loopFrom [] [] none s := rfl

theorem shortNumbers_iff (s : CString) :
    ShortNumbers s ↔ ∀ v ∈ parseIpv4Values s, -2 ^ 31 ≤ v ∧ v < 2 ^ 31 := by
  rw [parseIpv4Values, parseIpv4Loop_start]
  constructor
  · intro short
    exact values_of_numbers Behind.start (by simpa [terminated] using short)
  · rintro fits run ⟨groups, count, full, digits, rest, rfl⟩
    rw [List.append_assoc] at fits
    obtain ⟨prev, behind, -, mem⟩ :=
      loopFrom_groups groups Behind.start (by simpa using count) full (run ++ rest)
    rw [List.nil_append] at behind mem
    have bound := number_lt_of_values behind (by omega) digits (by decide)
      fun v h => (fits v (mem v (loopFrom_append (by omega) digits rest h))).2
    simpa using bound

/-! ## The language -/

/-- Three numbers with dots and a part of a fourth are accepted if they are octets. -/
theorem parseIpv4_eq {groups : List CString} {run : CString} (three : groups.length = 3)
    (full : ∀ g ∈ groups, g ≠ [] ∧ Digits g) (digits : Digits run) :
    parseIpv4 (terminated dot groups ++ run) =
      if ((groups ++ [run]).map digitsInt).all fun v => 0 ≤ v ∧ v ≤ 255 then
        some ((groups ++ [run]).map fun p => UInt8.ofNat (digitsInt p).toNat)
      else none := by
  obtain ⟨prev₁, behind₁, same₁, -⟩ :=
    loopFrom_groups groups Behind.start (by simp [three]) full run
  rw [List.nil_append] at behind₁ same₁
  obtain ⟨prev₂, -, same₂, -⟩ := loopFrom_digits behind₁ (by omega) digits []
  rw [List.append_nil, List.nil_append] at same₂
  have run_eq : (parseIpv4Loop [] 0 none (terminated dot groups ++ run)).2 =
      some (groups.map digitsInt, digitsInt run) := by
    rw [parseIpv4Loop_start, same₁, same₂]
    rfl
  rw [parseIpv4, run_eq]
  simp [three, Function.comp_def]

/-- What is accepted is three numbers with dots and a part of a fourth. -/
theorem groups_of_parseIpv4 {s : CString} {bs : List UInt8} (eq : parseIpv4 s = some bs) :
    ∃ (groups : List CString) (run : CString), groups.length = 3 ∧
      (∀ g ∈ groups, g ≠ [] ∧ Digits g) ∧ Digits run ∧ s = terminated dot groups ++ run := by
  rw [parseIpv4, Option.bind_eq_some_iff] at eq
  obtain ⟨⟨octets, val⟩, loop, rest⟩ := eq
  have three : octets.length = 3 := by
    by_contra ne
    simp [ne] at rest
  obtain ⟨groups, run, count, full, digits, -, -, text⟩ :=
    groups_of_loopFrom Behind.start loop three
  exact ⟨groups, run, count, full, digits, by simpa [terminated] using text⟩

/-- The numbers of a text are read. -/
theorem reads_of_groups {groups : List CString} {run : CString} (three : groups.length = 3)
    (full : ∀ g ∈ groups, g ≠ [] ∧ Digits g) (digits : Digits run) :
    ∀ p ∈ groups ++ [run], Reads (terminated dot groups ++ run) p := by
  intro p mem
  rcases List.mem_append.mp mem with mem | mem
  · obtain ⟨before, after, rfl⟩ := List.append_of_mem mem
    refine ⟨before, by simp at three; omega, fun g h => full g (by simp [h]), (full p mem).2,
      dot :: terminated dot after ++ run, ?_⟩
    simp [terminated]
  · rw [List.mem_singleton.mp mem]
    exact ⟨groups, by omega, full, digits, [], by simp⟩

/-- Numbers that an `int` holds are accepted exactly if they are octets. -/
theorem parseIpv4_short {groups : List CString} {run : CString} (three : groups.length = 3)
    (full : ∀ g ∈ groups, g ≠ [] ∧ Digits g) (digits : Digits run)
    (small : ∀ p ∈ groups ++ [run], number p < 2 ^ 31) :
    parseIpv4 (terminated dot groups ++ run) =
      if ∀ p ∈ groups ++ [run], number p ≤ 255 then
        some ((groups ++ [run]).map fun p => UInt8.ofNat (number p))
      else none := by
  have value : ∀ p ∈ groups ++ [run], digitsInt p = number p := by
    intro p mem
    refine digitsInt_eq ?_ (small p mem)
    rcases List.mem_append.mp mem with mem | mem
    · exact (full p mem).2
    · rw [List.mem_singleton.mp mem]
      exact digits
  have octets : ((groups ++ [run]).map digitsInt).all (fun v => 0 ≤ v ∧ v ≤ 255) = true ↔
      ∀ p ∈ groups ++ [run], number p ≤ 255 := by
    rw [List.all_map, List.all_eq_true]
    refine forall₂_congr fun p mem => ?_
    have eq := value p mem
    simp only [Function.comp_apply, decide_eq_true_eq]
    omega
  have bytes : ((groups ++ [run]).map fun p => UInt8.ofNat (digitsInt p).toNat) =
      (groups ++ [run]).map fun p => UInt8.ofNat (number p) := by
    refine List.map_congr_left fun p mem => ?_
    rw [value p mem, Int.toNat_natCast]
  rw [parseIpv4_eq three full digits, bytes]
  exact if_congr octets rfl rfl

/-- Where a text ends is the end of its fourth octet. -/
theorem DottedQuad.getLast {s : CString} {bs : List UInt8} (quad : DottedQuad s bs) :
    s.getLast? ≠ some dot := by
  obtain ⟨a, b, c, d, -, -, -, octet, rfl, -⟩ := quad
  have shape : a ++ dot :: (b ++ dot :: (c ++ dot :: d)) =
      (a ++ dot :: (b ++ dot :: (c ++ [dot]))) ++ d := by simp
  intro last
  rw [shape, List.getLast?_append_of_ne_nil _ octet.1] at last
  have digit := octet.2.1 dot (List.mem_of_getLast? last)
  rw [isDigit_dot] at digit
  cases digit

/-- `parse_ipv4` reads addresses exactly in the texts that are not three octets with a dot
behind the third one and in which no number that is read is 2^31 or more. -/
theorem parse_ipv4_iff (s : CString) : ReadsAddresses s ↔ ¬EndsInDot s ∧ ShortNumbers s := by
  constructor
  · rintro ⟨language, fits⟩
    refine ⟨?_, (shortNumbers_iff s).mpr fits⟩
    rintro ⟨a, b, c, octetA, octetB, octetC, rfl⟩
    have octets : ∀ p ∈ [a, b, c] ++ [[]], number p ≤ 255 := by
      simp only [List.cons_append, List.nil_append, List.forall_mem_cons]
      exact ⟨octetA.2.2, octetB.2.2, octetC.2.2, by decide, by simp⟩
    have full : ∀ g ∈ [a, b, c], g ≠ [] ∧ Digits g := by
      simp only [List.forall_mem_cons]
      exact ⟨⟨octetA.1, octetA.2.1⟩, ⟨octetB.1, octetB.2.1⟩, ⟨octetC.1, octetC.2.1⟩, by simp⟩
    have none : Digits [] := by simp [Digits]
    have accepted := parseIpv4_short rfl full none
      fun p mem => Nat.lt_of_le_of_lt (octets p mem) (by decide)
    rw [if_pos octets] at accepted
    have text : terminated dot [a, b, c] ++ [] = a ++ dot :: (b ++ dot :: (c ++ [dot])) := by
      simp [terminated]
    rw [text] at accepted
    have last : a ++ dot :: (b ++ dot :: (c ++ [dot])) =
        (a ++ dot :: (b ++ dot :: c)) ++ [dot] := by simp
    refine ((language _).mp accepted).getLast ?_
    rw [last, List.getLast?_concat]
  · rintro ⟨complete, short⟩
    refine ⟨fun bs => ⟨fun eq => ?_, ?_⟩, (shortNumbers_iff s).mp short⟩
    · obtain ⟨groups, run, three, full, digits, rfl⟩ := groups_of_parseIpv4 eq
      have small := fun p mem => short p (reads_of_groups three full digits p mem)
      rw [parseIpv4_short three full digits small] at eq
      obtain ⟨octets, eq⟩ := Option.ite_none_right_eq_some.mp eq
      obtain ⟨a, b, c, rfl⟩ := List.length_eq_three.mp three
      simp only [List.forall_mem_cons] at full
      simp only [List.cons_append, List.nil_append, List.forall_mem_cons] at octets
      have text : terminated dot [a, b, c] ++ run =
          a ++ dot :: (b ++ dot :: (c ++ dot :: run)) := by simp [terminated]
      have octetA : IsOctet a := ⟨full.1.1, full.1.2, octets.1⟩
      have octetB : IsOctet b := ⟨full.2.1.1, full.2.1.2, octets.2.1⟩
      have octetC : IsOctet c := ⟨full.2.2.1.1, full.2.2.1.2, octets.2.2.1⟩
      refine ⟨a, b, c, run, octetA, octetB, octetC, ⟨?_, digits, octets.2.2.2.1⟩, text,
        (Option.some.inj eq).symm⟩
      rintro rfl
      exact complete ⟨a, b, c, octetA, octetB, octetC, by simp [terminated]⟩
    · rintro ⟨a, b, c, d, octetA, octetB, octetC, octetD, rfl, rfl⟩
      have octets : ∀ p ∈ [a, b, c] ++ [d], number p ≤ 255 := by
        simp only [List.cons_append, List.nil_append, List.forall_mem_cons]
        exact ⟨octetA.2.2, octetB.2.2, octetC.2.2, octetD.2.2, by simp⟩
      have full : ∀ g ∈ [a, b, c], g ≠ [] ∧ Digits g := by
        simp only [List.forall_mem_cons]
        exact ⟨⟨octetA.1, octetA.2.1⟩, ⟨octetB.1, octetB.2.1⟩, ⟨octetC.1, octetC.2.1⟩, by simp⟩
      have accepted := parseIpv4_short rfl full octetD.2.1
        fun p mem => Nat.lt_of_le_of_lt (octets p mem) (by decide)
      rw [if_pos octets] at accepted
      simpa [terminated] using accepted

/-- `1.2.3.` is accepted as `1.2.3.0`. -/
theorem trailing_dot_accepted : ¬ReadsAddresses (ascii "1.2.3.") := by
  have accepted : parseIpv4 (ascii "1.2.3.") = some [1, 2, 3, 0] := by decide
  intro reads
  exact ((reads.1 _).mp accepted).getLast (by decide)

end NTux.Net
