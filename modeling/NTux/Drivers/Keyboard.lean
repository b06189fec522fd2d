import NTux.Lib.Runs
import NTux.Lib.Bytes

/-!
# The keyboard driver

`keyboard_poll` and what it calls, over the bytes that the controller has ready.  A flag stands
for the two keys of a modifier, and one entry of `key_down` for a key with the prefix E0 and
the one without.

* `scanStep`, `machineStep` — the code; the characters read from the queue are taken out of it.
* `Keys` — the keys that are held, and the characters that are due, according to the codes.
* `Follows` — flags and characters are those of the keys.
* `keyboard_follows_iff` — they are after every byte exactly if every byte `Suits` the state
  that it is read in, however the bytes are split over polls.
-/

namespace NTux.Drivers

open NTux.Lib

/-! ## The code -/

/-- A layout: the characters of the codes, without and with shift. -/
structure Layout where
  ascii : Nat → UInt8
  asciiShift : Nat → UInt8

/-- The variables of `keyboard.c`. -/
structure Keyboard where
  buffer : List UInt8
  shiftPressed : Bool
  ctrlPressed : Bool
  altPressed : Bool
  superPressed : Bool
  superPressEvent : Bool
  extendedScancode : Bool
  keyDown : Nat → Bool
  keyPressEvent : Nat → Bool

/-- `RINGBUFFER_SIZE`. -/
def ringbufferSize : Nat := 256

/-- The character that `rb_put` has put into the queue: none if it is full, one entry being
left free. -/
def rbPut (buffer : List UInt8) (c : UInt8) : List UInt8 :=
  if buffer.length + 1 < ringbufferSize then [c] else []

/-- A letter is made a control character. -/
def ctrlChar (c : UInt8) : UInt8 :=
  if 97 ≤ c ∧ c ≤ 122 then c &&& 0x1F else if 65 ≤ c ∧ c ≤ 90 then c &&& 0x1F else c

/-- The flags, `key_down` and the events after a code, the first part of
`keyboard_apply_scancode`. -/
def applyFlags (k : Keyboard) (key : Nat) (released extended : Bool) : Keyboard :=
  let k := { k with
    keyDown := Function.update k.keyDown key !released
    keyPressEvent := if released then k.keyPressEvent else Function.update k.keyPressEvent key true }
  let k := if key = 0x5B ∨ key = 0x5C then
      { k with superPressed := !released, superPressEvent := k.superPressEvent || !released }
    else k
  if extended then
    let k := if key = 0x1D then { k with ctrlPressed := !released } else k
    if key = 0x38 then { k with altPressed := !released } else k
  else
    let k := if key = 0x2A ∨ key = 0x36 then { k with shiftPressed := !released } else k
    let k := if key = 0x1D then { k with ctrlPressed := !released } else k
    if key = 0x38 then { k with altPressed := !released } else k

/-- The characters that `keyboard_apply_scancode` puts into the queue, with the flags it has
set. -/
def applyChars (layout : Layout) (k : Keyboard) (wasDown : Bool) (key : Nat)
    (released extended : Bool) : List UInt8 :=
  if extended then []
  else if !released && !wasDown then
    let c := if k.shiftPressed then layout.asciiShift key else layout.ascii key
    let c := if k.ctrlPressed then ctrlChar c else c
    if c = 0 then [] else rbPut k.buffer c
  else []

/-- `keyboard_apply_scancode`, with the characters put into the queue. -/
def keyboardApplyScancode (layout : Layout) (k : Keyboard) (key : Nat) (released extended : Bool) :
    Keyboard × List UInt8 :=
  let flags := applyFlags k key released extended
  let chars := applyChars layout flags (k.keyDown key) key released extended
  ({ flags with buffer := flags.buffer ++ chars }, chars)

/-- What `keyboard_poll` does with a byte. -/
def pollByte (layout : Layout) (k : Keyboard) (scancode : UInt8) : Keyboard × List UInt8 :=
  if scancode = 0xE0 then ({ k with extendedScancode := true }, [])
  else
    let r := keyboardApplyScancode layout k (scancode.toNat % 128) (decide (128 ≤ scancode.toNat))
      k.extendedScancode
    ({ r.1 with extendedScancode := false }, r.2)

/-- A byte is handled, or a character is taken with `keyboard_getchar`. -/
inductive KeyEvent where
  | byte (scancode : UInt8)
  | getchar
  deriving DecidableEq

/-- The state and all characters that have been put into the queue. -/
structure Logged where
  keyboard : Keyboard
  queued : List UInt8

/-- One event. -/
def scanStep (layout : Layout) (s : Logged) : KeyEvent → Logged
  | .byte b =>
      let r := pollByte layout s.keyboard b
      ⟨r.1, s.queued ++ r.2⟩
  | .getchar => { s with keyboard := { s.keyboard with buffer := s.keyboard.buffer.tail } }

/-- The state after `keyboard_init`. -/
def keyboardInit : Logged :=
  ⟨⟨[], false, false, false, false, false, false, fun _ => false, fun _ => false⟩, []⟩

/-- A byte in the controller, and whether it is one of the mouse. -/
structure Ready where
  aux : Bool
  byte : UInt8

/-- The keyboard's bytes. -/
def keyBytes (bytes : List Ready) : List KeyEvent :=
  (bytes.filter (!·.aux)).map fun r => .byte r.byte

/-- The loop of `keyboard_poll`, which takes at most `budget` bytes: what is left, and the
state. -/
def keyboardPoll (layout : Layout) : Nat → List Ready → Logged → List Ready × Logged
  | 0, bytes, s => (bytes, s)
  | _ + 1, [], s => ([], s)
  | budget + 1, r :: bytes, s =>
      if r.aux then keyboardPoll layout budget bytes s
      else keyboardPoll layout budget bytes (scanStep layout s (.byte r.byte))

/-- What happens: a byte arrives, the interrupt or a program polls, a program reads. -/
inductive MachineEvent where
  | arrives (r : Ready)
  | poll
  | getchar

/-- The controller and the driver, with the events so far that the driver has handled. -/
structure KeyMachine where
  ready : List Ready
  state : Logged
  handled : List KeyEvent

/-- One step. -/
def machineKeyStep (layout : Layout) (m : KeyMachine) : MachineEvent → KeyMachine
  | .arrives r => { m with ready := m.ready ++ [r] }
  | .poll =>
      let p := keyboardPoll layout 256 m.ready m.state
      ⟨p.1, p.2, m.handled ++ keyBytes (m.ready.take 256)⟩
  | .getchar => ⟨m.ready, scanStep layout m.state .getchar, m.handled ++ [.getchar]⟩

/-! ## What is expected -/

/-- The keys according to the codes: whether the prefix was the last byte, which keys are held,
with and without the prefix, and the characters that are due. -/
structure Keys where
  prefixed : Bool
  held : Bool → Nat → Bool
  due : List UInt8

/-- One of two keys is held. -/
def Keys.shift (r : Keys) : Bool := r.held false 0x2A || r.held false 0x36

/-- The left key has no prefix. -/
def Keys.ctrl (r : Keys) : Bool := r.held false 0x1D || r.held true 0x1D

/-- The left key has no prefix. -/
def Keys.alt (r : Keys) : Bool := r.held false 0x38 || r.held true 0x38

/-- Both keys have the prefix. -/
def Keys.super (r : Keys) : Bool := r.held true 0x5B || r.held true 0x5C

/-- A code that denotes no key. -/
def noKey (extended : Bool) (key : Nat) : Bool := extended && (key = 0x2A || key = 0x36)

/-- The keys that are held after a code. -/
def Keys.heldAfter (r : Keys) (extended : Bool) (key : Nat) (released : Bool) : Bool → Nat → Bool :=
  if noKey extended key then r.held
  else Function.update r.held extended (Function.update (r.held extended) key !released)

/-- The character of a key in the layout, selected by shift. -/
def Keys.char (layout : Layout) (r : Keys) (key : Nat) : UInt8 :=
  if r.shift then layout.asciiShift key else layout.ascii key

/-- A make or break code. -/
def Keys.code (layout : Layout) (r : Keys) (key : Nat) (released : Bool) : Keys :=
  let r' : Keys := ⟨false, r.heldAfter r.prefixed key released, r.due⟩
  if r.prefixed || released || r.held false key || decide (r'.char layout key = 0) then r'
  else { r' with due := r.due ++ [r'.char layout key] }

/-- A byte. -/
def Keys.byte (layout : Layout) (r : Keys) (b : UInt8) : Keys :=
  if b = 0xE0 then { r with prefixed := true }
  else r.code layout (b.toNat % 128) (decide (128 ≤ b.toNat))

/-- One event. -/
def keysStep (layout : Layout) (r : Keys) : KeyEvent → Keys
  | .byte b => r.byte layout b
  | .getchar => r

/-- No key is held. -/
def noKeys : Keys := ⟨false, fun _ _ => false, []⟩

/-- The driver and the keys side by side. -/
structure Both where
  driver : Logged
  keys : Keys

/-- One event of both. -/
def bothStep (layout : Layout) (s : Both) (e : KeyEvent) : Both :=
  ⟨scanStep layout s.driver e, keysStep layout s.keys e⟩

/-- The flags and the characters queued are those of the keys. -/
structure Both.Follows (s : Both) : Prop where
  shift : s.driver.keyboard.shiftPressed = s.keys.shift
  ctrl : s.driver.keyboard.ctrlPressed = s.keys.ctrl
  alt : s.driver.keyboard.altPressed = s.keys.alt
  super : s.driver.keyboard.superPressed = s.keys.super
  queued : s.driver.queued = s.keys.due

/-- The other key of a modifier. -/
def partner (extended : Bool) (key : Nat) : Option (Bool × Nat) :=
  if key = 0x1D ∨ key = 0x38 then some (!extended, key)
  else if extended then
    if key = 0x5B then some (true, 0x5C) else if key = 0x5C then some (true, 0x5B) else none
  else if key = 0x2A then some (false, 0x36) else if key = 0x36 then some (false, 0x2A)
  else none

/-- The flags are right after a code: no key of a modifier is released while the other one is
held, and a code 5B or 5C without prefix changes nothing about the flag of super. -/
structure Both.FlagsSuit (s : Both) (key : Nat) (released : Bool) : Prop where
  pair : released = true → ∀ other ∈ partner s.keys.prefixed key,
    s.keys.held other.1 other.2 = false
  bare : s.keys.prefixed = false → key = 0x5B ∨ key = 0x5C → s.keys.super = !released

/-- The character is right after the make code of a key without prefix: there is none, or the
key is held and `key_down` says so or the queue is full, or it is not held, `key_down` says so,
there is room and the character is not made a control character. -/
def Both.CharSuits (layout : Layout) (s : Both) (key : Nat) : Prop :=
  let r := s.keys.code layout key false
  r.char layout key = 0 ∨
    s.keys.held false key = true ∧ (s.driver.keyboard.keyDown key = true ∨
      ringbufferSize ≤ s.driver.keyboard.buffer.length + 1) ∨
    s.keys.held false key = false ∧ s.driver.keyboard.keyDown key = false ∧
      s.driver.keyboard.buffer.length + 1 < ringbufferSize ∧
      (r.ctrl = true → ctrlChar (r.char layout key) = r.char layout key)

/-- What an event has to meet in the state before it. -/
def Both.Suits (layout : Layout) (s : Both) : KeyEvent → Prop
  | .getchar => True
  | .byte b => b ≠ 0xE0 →
      s.FlagsSuit (b.toNat % 128) (decide (128 ≤ b.toNat)) ∧
        (s.keys.prefixed = false → b.toNat < 128 → s.CharSuits layout (b.toNat % 128))

/-! ## The codes and the flags -/

variable {layout : Layout} {s : Both} {k : Keyboard} {r : Keys} {key : Nat}
  {released extended : Bool}

@[simp] theorem Keys.code_held (layout : Layout) (r : Keys) (key : Nat) (released : Bool) :
    (r.code layout key released).held = r.heldAfter r.prefixed key released := by
  unfold Keys.code
  dsimp only
  split <;> rfl

theorem Keys.heldAfter_apply (e : Bool) (j : Nat) :
    r.heldAfter extended key released e j =
      if noKey extended key = false ∧ e = extended ∧ j = key then !released else r.held e j := by
  unfold Keys.heldAfter
  cases noKey extended key with
  | true => simp
  | false =>
      rcases eq_or_ne e extended with rfl | ne
      · rcases eq_or_ne j key with rfl | ne
        · simp
        · simp [ne]
      · simp [ne]

@[simp] theorem applyFlags_shift : (applyFlags k key released extended).shiftPressed =
    if extended = false ∧ (key = 0x2A ∨ key = 0x36) then !released else k.shiftPressed := by
  unfold applyFlags
  dsimp only
  split_ifs <;> simp_all

@[simp] theorem applyFlags_ctrl : (applyFlags k key released extended).ctrlPressed =
    if key = 0x1D then !released else k.ctrlPressed := by
  unfold applyFlags
  dsimp only
  split_ifs <;> simp_all

@[simp] theorem applyFlags_alt : (applyFlags k key released extended).altPressed =
    if key = 0x38 then !released else k.altPressed := by
  unfold applyFlags
  dsimp only
  split_ifs <;> simp_all

@[simp] theorem applyFlags_super : (applyFlags k key released extended).superPressed =
    if key = 0x5B ∨ key = 0x5C then !released else k.superPressed := by
  unfold applyFlags
  dsimp only
  split_ifs <;> simp_all

@[simp] theorem applyFlags_buffer : (applyFlags k key released extended).buffer = k.buffer := by
  unfold applyFlags
  dsimp only
  split_ifs <;> rfl

/-- The flags are those of the keys. -/
structure FlagsFollow (k : Keyboard) (r : Keys) : Prop where
  shift : k.shiftPressed = r.shift
  ctrl : k.ctrlPressed = r.ctrl
  alt : k.altPressed = r.alt
  super : k.superPressed = r.super

/-- After a code the flag of a modifier is right if it was before: of shift. -/
theorem shift_iff (same : k.shiftPressed = r.shift) :
    (applyFlags k key released r.prefixed).shiftPressed = (r.code layout key released).shift ↔
      (released = true → r.prefixed = false → (key = 0x2A → r.held false 0x36 = false) ∧
        (key = 0x36 → r.held false 0x2A = false)) := by
  simp only [applyFlags_shift, Keys.shift, Keys.code_held, Keys.heldAfter_apply] at same ⊢
  by_cases left : key = 0x2A
  · subst left
    cases r.prefixed <;> cases released <;> simp [noKey, same]
  by_cases right : key = 0x36
  · subst right
    cases r.prefixed <;> cases released <;> simp [noKey, same]
  simp [left, right, same, Ne.symm left, Ne.symm right]

/-- A flag that either of two keys of one code sets, with the prefix or without. -/
theorem either_iff {flag : Bool} {code : Nat} (real : ∀ e, noKey e code = false)
    (same : flag = (r.held false code || r.held true code)) :
    (if key = code then !released else flag) =
        (r.heldAfter r.prefixed key released false code ||
          r.heldAfter r.prefixed key released true code) ↔
      (released = true → key = code → r.held (!r.prefixed) code = false) := by
  simp only [Keys.heldAfter_apply]
  -- a release of one of the two clears the flag although the other may be held
  by_cases here : key = code
  · subst here
    cases r.prefixed <;> cases released <;> simp [real]
  simp [here, same, Ne.symm here]

theorem ctrl_iff (same : k.ctrlPressed = r.ctrl) :
    (applyFlags k key released r.prefixed).ctrlPressed = (r.code layout key released).ctrl ↔
      (released = true → key = 0x1D → r.held (!r.prefixed) 0x1D = false) := by
  simp only [applyFlags_ctrl, Keys.ctrl, Keys.code_held] at same ⊢
  exact either_iff (by decide) same

theorem alt_iff (same : k.altPressed = r.alt) :
    (applyFlags k key released r.prefixed).altPressed = (r.code layout key released).alt ↔
      (released = true → key = 0x38 → r.held (!r.prefixed) 0x38 = false) := by
  simp only [applyFlags_alt, Keys.alt, Keys.code_held] at same ⊢
  exact either_iff (by decide) same

theorem super_iff (same : k.superPressed = r.super) :
    (applyFlags k key released r.prefixed).superPressed = (r.code layout key released).super ↔
      (r.prefixed = true → released = true → (key = 0x5B → r.held true 0x5C = false) ∧
        (key = 0x5C → r.held true 0x5B = false)) ∧
      (r.prefixed = false → key = 0x5B ∨ key = 0x5C → r.super = !released) := by
  simp only [applyFlags_super, Keys.super, Keys.code_held, Keys.heldAfter_apply] at same ⊢
  by_cases left : key = 0x5B
  · subst left
    generalize r.held true 0x5B = a
    generalize r.held true 0x5C = b
    cases r.prefixed <;> cases released <;> cases a <;> cases b <;> simp [noKey]
  by_cases right : key = 0x5C
  · subst right
    generalize r.held true 0x5B = a
    generalize r.held true 0x5C = b
    cases r.prefixed <;> cases released <;> cases a <;> cases b <;> simp [noKey]
  simp [left, right, same, Ne.symm left, Ne.symm right]

/-- The flags are right after a code exactly if it suits them. -/
theorem flags_iff (follows : FlagsFollow s.driver.keyboard s.keys) :
    FlagsFollow (applyFlags s.driver.keyboard key released s.keys.prefixed)
        (s.keys.code layout key released) ↔ s.FlagsSuit key released := by
  have each : FlagsFollow (applyFlags s.driver.keyboard key released s.keys.prefixed)
      (s.keys.code layout key released) ↔ _ ∧ _ ∧ _ ∧ _ :=
    ⟨fun f => ⟨f.shift, f.ctrl, f.alt, f.super⟩, fun f => ⟨f.1, f.2.1, f.2.2.1, f.2.2.2⟩⟩
  rw [each, shift_iff follows.shift, ctrl_iff follows.ctrl, alt_iff follows.alt,
    super_iff follows.super]
  constructor
  · rintro ⟨shift, ctrl, alt, super, bare⟩
    refine ⟨fun rel other mem => ?_, bare⟩
    unfold partner at mem
    split_ifs at mem with both prefixed left right left right
    · obtain rfl := Option.some.inj mem
      rcases both with rfl | rfl
      · exact ctrl rel rfl
      · exact alt rel rfl
    · obtain rfl := Option.some.inj mem
      exact (super prefixed rel).1 left
    · obtain rfl := Option.some.inj mem
      exact (super prefixed rel).2 right
    · cases mem
    · obtain rfl := Option.some.inj mem
      exact (shift rel (by simpa using prefixed)).1 left
    · obtain rfl := Option.some.inj mem
      exact (shift rel (by simpa using prefixed)).2 right
    · cases mem
  · rintro ⟨pair, bare⟩
    refine ⟨fun rel prefixed => ⟨?_, ?_⟩, ?_, ?_, fun prefixed rel => ⟨?_, ?_⟩, bare⟩
    · rintro rfl
      exact pair rel (false, 0x36) (by simp [partner, prefixed])
    · rintro rfl
      exact pair rel (false, 0x2A) (by simp [partner, prefixed])
    · rintro rel rfl
      exact pair rel (!s.keys.prefixed, 0x1D) (by simp [partner])
    · rintro rel rfl
      exact pair rel (!s.keys.prefixed, 0x38) (by simp [partner])
    · rintro rfl
      exact pair rel (true, 0x5C) (by simp [partner, prefixed])
    · rintro rfl
      exact pair rel (true, 0x5B) (by simp [partner, prefixed])

/-! ## The character -/

theorem ctrlChar_eq_zero (c : UInt8) : ctrlChar c = 0 ↔ c = 0 := by
  have all : ∀ n < 256, ctrlChar (UInt8.ofNat n) = 0 ↔ UInt8.ofNat n = 0 := by
    decide +kernel
  have found := all c.toNat c.toNat_lt
  rwa [UInt8.ofNat_toNat] at found

/-- The characters that are due after a code. -/
theorem code_due : (r.code layout key released).due =
    if r.prefixed || released || r.held false key ||
      decide ((r.code layout key released).char layout key = 0) then r.due
    else r.due ++ [(r.code layout key released).char layout key] := by
  have same : (r.code layout key released).char layout key =
      Keys.char layout ⟨false, r.heldAfter r.prefixed key released, r.due⟩ key := by
    unfold Keys.char Keys.shift
    rw [Keys.code_held]
  rw [same]
  unfold Keys.code
  dsimp only
  split <;> rfl

/-- With right flags, what is queued for a make code is what is due exactly if the character
suits. -/
theorem chars_iff
    (follows : FlagsFollow (applyFlags s.driver.keyboard key false false)
      (s.keys.code layout key false)) :
    applyChars layout (applyFlags s.driver.keyboard key false false)
        (s.driver.keyboard.keyDown key) key false false =
      (if s.keys.held false key || decide ((s.keys.code layout key false).char layout key = 0)
        then [] else [(s.keys.code layout key false).char layout key]) ↔
      s.CharSuits layout key := by
  unfold applyChars Both.CharSuits rbPut
  rw [follows.shift, follows.ctrl, applyFlags_buffer]
  dsimp only
  have table : (if (s.keys.code layout key false).shift then layout.asciiShift key
      else layout.ascii key) = (s.keys.code layout key false).char layout key := rfl
  rw [table]
  generalize (s.keys.code layout key false).char layout key = c
  generalize s.driver.keyboard.keyDown key = down
  generalize s.keys.held false key = held
  generalize s.driver.keyboard.buffer.length + 1 = used
  by_cases none_ : c = 0
  · have zero : (if (s.keys.code layout key false).ctrl then ctrlChar c else c) = 0 := by
      split
      · exact (ctrlChar_eq_zero c).2 none_
      · exact none_
    rw [if_pos zero]
    simp [none_]
  have some_ : (if (s.keys.code layout key false).ctrl then ctrlChar c else c) ≠ 0 := by
    split
    · exact fun zero => none_ ((ctrlChar_eq_zero c).1 zero)
    · exact none_
  have mapped : (if (s.keys.code layout key false).ctrl then ctrlChar c else c) = c ↔
      ((s.keys.code layout key false).ctrl = true → ctrlChar c = c) := by
    split
    next on => simp [on]
    next off => simp [off]
  cases down <;> cases held <;> by_cases room : used < ringbufferSize <;>
    simp [none_, some_, room, mapped, Nat.not_lt.1]

/-! ## Runs -/

/-- The driver sees the prefix that the keys see. -/
def Both.SamePrefix (s : Both) : Prop :=
  s.driver.keyboard.extendedScancode = s.keys.prefixed

theorem samePrefix_step (same : s.SamePrefix) (e : KeyEvent) :
    (bothStep layout s e).SamePrefix := by
  cases e with
  | getchar => exact same
  | byte b =>
      unfold Both.SamePrefix bothStep scanStep keysStep pollByte Keys.byte Keys.code
      dsimp only
      split
      · rfl
      · dsimp only
        split <;> rfl

/-- What every step keeps that suits. -/
def Both.Linked (s : Both) : Prop := s.Follows ∧ s.SamePrefix

theorem Both.Follows.flags (follows : s.Follows) : FlagsFollow s.driver.keyboard s.keys :=
  ⟨follows.shift, follows.ctrl, follows.alt, follows.super⟩

/-- An event leaves flags and characters right exactly if it suits the state. -/
theorem follows_step_iff (follows : s.Follows) (same : s.SamePrefix) (e : KeyEvent) :
    (bothStep layout s e).Follows ↔ s.Suits layout e := by
  cases e with
  | getchar =>
      exact iff_of_true ⟨follows.shift, follows.ctrl, follows.alt, follows.super, follows.queued⟩
        trivial
  | byte b =>
      by_cases prefix_ : b = 0xE0
      · refine iff_of_true ?_ fun other => absurd prefix_ other
        unfold bothStep scanStep keysStep pollByte Keys.byte
        dsimp only
        rw [if_pos prefix_, if_pos prefix_]
        exact ⟨follows.shift, follows.ctrl, follows.alt, follows.super, by
          rw [List.append_nil]; exact follows.queued⟩
      have split_ : (bothStep layout s (.byte b)).Follows ↔
          FlagsFollow (applyFlags s.driver.keyboard (b.toNat % 128) (decide (128 ≤ b.toNat))
              s.keys.prefixed)
            (s.keys.code layout (b.toNat % 128) (decide (128 ≤ b.toNat))) ∧
          s.driver.queued ++ applyChars layout (applyFlags s.driver.keyboard (b.toNat % 128)
              (decide (128 ≤ b.toNat)) s.keys.prefixed)
            (s.driver.keyboard.keyDown (b.toNat % 128)) (b.toNat % 128) (decide (128 ≤ b.toNat))
            s.keys.prefixed = (s.keys.code layout (b.toNat % 128) (decide (128 ≤ b.toNat))).due := by
        unfold bothStep scanStep keysStep pollByte Keys.byte keyboardApplyScancode
        dsimp only
        rw [if_neg prefix_, if_neg prefix_, same]
        exact ⟨fun f => ⟨⟨f.shift, f.ctrl, f.alt, f.super⟩, f.queued⟩,
          fun f => ⟨f.1.shift, f.1.ctrl, f.1.alt, f.1.super, f.2⟩⟩
      rw [split_, flags_iff follows.flags]
      have unfolded : s.Suits layout (.byte b) ↔
          s.FlagsSuit (b.toNat % 128) (decide (128 ≤ b.toNat)) ∧
            (s.keys.prefixed = false → b.toNat < 128 → s.CharSuits layout (b.toNat % 128)) :=
        ⟨fun suits => suits prefix_, fun suits _ => suits⟩
      rw [unfolded]
      refine and_congr_right fun suits => ?_
      have flags := (@flags_iff layout s _ _ follows.flags).2 suits
      rw [code_due, follows.queued]
      cases plain : s.keys.prefixed with
      | true => simp [applyChars]
      | false =>
          by_cases released : 128 ≤ b.toNat
          · simp [applyChars, released, Nat.not_lt.2 released]
          · rw [plain, decide_eq_false released] at flags
            rw [decide_eq_false released]
            have chars := chars_iff flags
            simp only [Bool.false_or, forall_const, Nat.lt_of_not_le released]
            rw [← chars]
            split
            next none_ => rw [List.append_right_eq_self]
            next some_ => rw [List.append_right_inj]

theorem keyboardPoll_eq (layout : Layout) (budget : Nat) (bytes : List Ready) (d : Logged) :
    keyboardPoll layout budget bytes d =
      (bytes.drop budget, run (scanStep layout) d (keyBytes (bytes.take budget))) := by
  induction budget generalizing bytes d with
  | zero => rfl
  | succ budget ih =>
      cases bytes with
      | nil => rfl
      | cons r bytes =>
          unfold keyboardPoll
          cases aux : r.aux with
          | true =>
              rw [if_pos rfl, ih]
              simp [keyBytes, aux]
          | false =>
              rw [if_neg (by simp), ih]
              simp [keyBytes, aux]

/-- The bytes of the keyboard that have arrived. -/
def arrived (events : List MachineEvent) : List KeyEvent :=
  keyBytes (events.filterMap fun
    | .arrives r => some r
    | _ => none)

/-- The bytes among the events. -/
def onlyBytes (events : List KeyEvent) : List KeyEvent := events.filter (· ≠ .getchar)

/-- The machine at the beginning. -/
def keyMachineInit : KeyMachine := ⟨[], keyboardInit, []⟩

theorem onlyBytes_keyBytes (bytes : List Ready) : onlyBytes (keyBytes bytes) = keyBytes bytes := by
  refine List.filter_eq_self.2 fun e mem => ?_
  obtain ⟨r, -, rfl⟩ := List.mem_map.1 mem
  simp

theorem keyBytes_append (a b : List Ready) : keyBytes (a ++ b) = keyBytes a ++ keyBytes b := by
  simp [keyBytes]

/-- What the machine has done: the driver has handled the events in order, and the bytes that
have arrived are those among them and those still in the controller. -/
structure Handled (layout : Layout) (bytes : List KeyEvent) (m : KeyMachine) : Prop where
  state : m.state = run (scanStep layout) keyboardInit m.handled
  bytes : onlyBytes m.handled ++ keyBytes m.ready = bytes

theorem handled_step {m : KeyMachine} {bytes : List KeyEvent} (handled : Handled layout bytes m)
    (e : MachineEvent) : Handled layout (bytes ++ arrived [e]) (machineKeyStep layout m e) := by
  obtain ⟨state, bytes_eq⟩ := handled
  cases e with
  | arrives r =>
      refine ⟨state, ?_⟩
      rw [← bytes_eq, List.append_assoc]
      exact congrArg (_ ++ ·) (keyBytes_append ..)
  | poll =>
      unfold machineKeyStep
      rw [keyboardPoll_eq]
      constructor
      · rw [run_append, ← state]
      · dsimp only [arrived, List.filterMap_cons, List.filterMap_nil]
        rw [onlyBytes, List.filter_append]
        change onlyBytes _ ++ onlyBytes _ ++ _ = _
        rw [onlyBytes_keyBytes, List.append_assoc, ← keyBytes_append, List.take_append_drop,
          bytes_eq]
        exact (List.append_nil _).symm
  | getchar =>
      unfold machineKeyStep
      constructor
      · dsimp only
        rw [run_append, ← state]
        rfl
      · dsimp only [arrived, List.filterMap_cons, List.filterMap_nil]
        rw [onlyBytes, List.filter_append]
        change onlyBytes _ ++ [] ++ _ = _
        rw [List.append_nil, bytes_eq]
        exact (List.append_nil _).symm

theorem handled_run (events : List MachineEvent) {m : KeyMachine} {bytes : List KeyEvent}
    (handled : Handled layout bytes m) :
    Handled layout (bytes ++ arrived events) (run (machineKeyStep layout) m events) := by
  induction events generalizing m bytes with
  | nil =>
      rw [run_nil]
      exact (List.append_nil bytes).symm ▸ handled
  | cons e events ih =>
      have rest := ih (handled_step handled e)
      rw [List.append_assoc] at rest
      have cons : arrived [e] ++ arrived events = arrived (e :: events) := by
        unfold arrived
        rw [← keyBytes_append, ← List.filterMap_append]
        rfl
      rwa [cons] at rest

/-- The driver and the keys after the events that have been handled. -/
def Both.init : Both := ⟨keyboardInit, noKeys⟩

/-- For every layout and everything that happens: the driver handles the keyboard's bytes in
the order in which they arrive, however they are split over polls, and flags and characters are
those of the keys after each of them exactly if each suits the state that it is handled in. -/
theorem keyboard_follows_iff (layout : Layout) (events : List MachineEvent) :
    Handled layout (arrived events) (run (machineKeyStep layout) keyMachineInit events) ∧
      (AllSteps (bothStep layout) (fun s e => (bothStep layout s e).Follows) Both.init
          (run (machineKeyStep layout) keyMachineInit events).handled ↔
        AllSteps (bothStep layout) (Both.Suits layout) Both.init
          (run (machineKeyStep layout) keyMachineInit events).handled) := by
  have start : Handled layout [] keyMachineInit := ⟨rfl, rfl⟩
  refine ⟨by simpa using handled_run events start, ?_⟩
  have init : Both.init.Linked := ⟨⟨rfl, rfl, rfl, rfl, rfl⟩, rfl⟩
  have keep (s : Both) (e : KeyEvent) (linked : s.Linked) (suits : s.Suits layout e) :
      (bothStep layout s e).Linked :=
    ⟨(follows_step_iff linked.1 linked.2 e).2 suits, samePrefix_step linked.2 e⟩
  exact allSteps_iff_of_invariant keep (fun s e linked => follows_step_iff linked.1 linked.2 e) init

/-- Both shift keys are pressed and the right one is released: the flag is off though the left
one is held. -/
theorem shift_lost : ¬ ∀ (layout : Layout) (events : List MachineEvent),
    (⟨(run (machineKeyStep layout) keyMachineInit events).state,
      run (keysStep layout) noKeys
        (run (machineKeyStep layout) keyMachineInit events).handled⟩ : Both).Follows := by
  intro follows
  have shift := (follows ⟨fun _ => 0, fun _ => 0⟩
    [.arrives ⟨false, 0x2A⟩, .arrives ⟨false, 0x36⟩, .arrives ⟨false, 0xB6⟩, .poll]).shift
  exact absurd shift (by decide)

end NTux.Drivers
