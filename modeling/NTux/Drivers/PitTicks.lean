import Mathlib.Data.Nat.Count
import Mathlib.Data.Nat.ModEq
import Mathlib.Order.Monotone.Basic

/-!
# The tick count of the timer

`interrupt/timer.c` derives the time from the counter of PIT channel 0: each call of
`pit_update` reads the counter and adds the distance from the reading before, modulo the
divisor, to `pit_cycles`.  Two readings tell the distance only up to whole periods, so
a gap of a period or more between two calls loses one.

* `pitUpdate`, `getTickCount` — the code.
* `PitCalls` — the times of the calls, with one in each period at least: the interrupt
  of the period, handled before the next one.
* `longGaps` — how many gaps of a period or more there were so far.
* `pitAfter_spec` — what the state is after each call.
* `tick_error_iff` — the tick count is off by one period at most exactly as long as there
  was at most one such gap.
-/

namespace NTux.Drivers

/-- The static variables of the timer. -/
structure PitState where
  /-- `g_pit_divisor` -/
  divisor : Nat
  /-- `pit_last` -/
  last : Nat
  /-- `pit_cycles` -/
  cycles : Nat
  /-- `pit_ticks` -/
  ticks : Nat
  /-- `pit_inited` -/
  inited : Bool
  /-- `tick_count` -/
  tickCount : Nat
  deriving DecidableEq, Repr

/-- The divisor `timer_pit_config_c` computes from the frequency. -/
def pitDivisor (hz : Nat) : Nat :=
  let hz := if hz = 0 then 1000 else hz
  min (max ((1193182 + hz / 2) / hz) 1) 65535

/-- The timer once configured, before the first call. -/
def pitStart (divisor : Nat) : PitState :=
  { divisor, last := 0, cycles := 0, ticks := 0, inited := false, tickCount := 0 }

/-- The distance from the reading `last` down to `cur`, in 16 bits. -/
def pitDec (divisor last cur : Nat) : Nat :=
  if cur ≤ last then last - cur
  -- the counter wrapped around
  else (last + (divisor + 2 ^ 16 - cur) % 2 ^ 16) % 2 ^ 16

/-- `pit_update`, with the counter at `cur`. -/
def pitUpdate (s : PitState) (cur : Nat) : PitState :=
  if s.divisor = 0 then s
  else if !s.inited then { s with last := cur, inited := true }
  else
    let cycles := (s.cycles + pitDec s.divisor s.last cur) % 2 ^ 64
    let newTicks := cycles / s.divisor
    if s.ticks < newTicks then
      { s with last := cur, cycles, ticks := newTicks, tickCount := newTicks }
    else { s with last := cur, cycles }

/-- `get_tick_count`: what it returns and the state it leaves. -/
def getTickCount (s : PitState) (cur : Nat) : Nat × PitState :=
  let s := pitUpdate s cur
  (s.ticks, s)

/-- The counter of channel 0 at the time `t`, in PIT cycles: it counts from the divisor
down to one and reloads at each multiple of the divisor, where it raises the interrupt. -/
def pitCount (divisor t : Nat) : Nat := divisor - t % divisor

/-- The calls of `pit_update`, by their times.  Each period from the first call on has
its interrupt handled before it ends; `get_tick_count` adds calls at will. -/
structure PitCalls (divisor : Nat) where
  time : ℕ → ℕ
  mono : Monotone time
  handled : ∀ k, time 0 / divisor ≤ k → ∃ i, time i / divisor = k

/-- The timer before the call `n`. -/
def pitAfter {divisor : Nat} (calls : PitCalls divisor) : ℕ → PitState
  | 0 => pitStart divisor
  | n + 1 => pitUpdate (pitAfter calls n) (pitCount divisor (calls.time n))

namespace PitCalls

variable {divisor : Nat} (calls : PitCalls divisor)

/-- The cycles from the first call to the call `n`. -/
def elapsed (n : ℕ) : ℕ := calls.time n - calls.time 0

/-- The PIT periods elapsed from the first call to the call `n`. -/
def periods (n : ℕ) : ℕ := calls.elapsed n / divisor

/-- The calls before the call `n` that a period or more passed after. -/
def longGaps (n : ℕ) : ℕ := Nat.count (fun j => divisor ≤ calls.time (j + 1) - calls.time j) n

end PitCalls

/-- The tick count is right up to one period. -/
def TicksWithinOne {divisor : Nat} (calls : PitCalls divisor) (n : ℕ) : Prop :=
  (pitAfter calls (n + 1)).ticks ≤ calls.periods n + 1 ∧
    calls.periods n ≤ (pitAfter calls (n + 1)).ticks + 1

instance {divisor : Nat} (calls : PitCalls divisor) (n : ℕ) :
    Decidable (TicksWithinOne calls n) := by
  unfold TicksWithinOne
  infer_instance

/-! ## One call -/

/-- The tick count never goes back. -/
theorem pitUpdate_ticks_le (s : PitState) (cur : Nat) : s.ticks ≤ (pitUpdate s cur).ticks := by
  unfold pitUpdate
  split
  · exact le_refl _
  · split
    · exact le_refl _
    · dsimp only
      split
      next more => exact more.le
      next => exact le_refl _

/-- Two readings tell the time between them modulo the divisor. -/
theorem pitDec_pitCount {divisor s t : Nat} (pos : 0 < divisor) (fits : divisor < 2 ^ 16)
    (later : s ≤ t) :
    pitDec divisor (pitCount divisor s) (pitCount divisor t) = (t - s) % divisor := by
  have hs := Nat.mod_lt s pos
  have ht := Nat.mod_lt t pos
  have decomposed : t - s + s % divisor + divisor * (s / divisor) =
      t % divisor + divisor * (t / divisor) := by
    have hs' := Nat.mod_add_div s divisor
    have ht' := Nat.mod_add_div t divisor
    omega
  have residue : (t - s + s % divisor) % divisor = t % divisor := by
    have := congrArg (· % divisor) decomposed
    simpa [Nat.add_mul_mod_self_left] using this
  unfold pitDec pitCount
  by_cases forward : s % divisor ≤ t % divisor
  · have reading : divisor - t % divisor ≤ divisor - s % divisor := by omega
    rw [if_pos reading]
    have split : (t % divisor - s % divisor + s % divisor) % divisor =
        (t - s + s % divisor) % divisor := by
      rw [residue, Nat.sub_add_cancel forward, Nat.mod_mod]
    have same : t % divisor - s % divisor ≡ t - s [MOD divisor] := Nat.ModEq.add_right_cancel' _ split
    have small : t % divisor - s % divisor < divisor := by omega
    rw [← same, Nat.mod_eq_of_lt small]
    omega
  · have reading : ¬ divisor - t % divisor ≤ divisor - s % divisor := by omega
    rw [if_neg reading]
    have split : (t % divisor + divisor - s % divisor + s % divisor) % divisor =
        (t - s + s % divisor) % divisor := by
      rw [residue, Nat.sub_add_cancel (by omega), Nat.add_mod_right, Nat.mod_mod]
    have same : t % divisor + divisor - s % divisor ≡ t - s [MOD divisor] :=
      Nat.ModEq.add_right_cancel' _ split
    have small : t % divisor + divisor - s % divisor < divisor := by omega
    rw [← same, Nat.mod_eq_of_lt small]
    omega

/-! ## The calls -/

namespace PitCalls

variable {divisor : Nat} (calls : PitCalls divisor) (n : ℕ)

theorem elapsed_succ : calls.elapsed (n + 1) =
    calls.elapsed n + (calls.time (n + 1) - calls.time n) := by
  have start := calls.mono (Nat.zero_le n)
  have step := calls.mono (Nat.le_add_right n 1)
  simp only [elapsed]
  omega

/-- No two interrupts are missed in a row: a gap is shorter than two periods. -/
theorem gap_lt (pos : 0 < divisor) : calls.time (n + 1) - calls.time n < 2 * divisor := by
  by_contra far
  -- the period after that of the call `n` ends before the next call
  obtain ⟨i, inside⟩ := calls.handled (calls.time n / divisor + 1)
    (le_trans (Nat.div_le_div_right (calls.mono (Nat.zero_le n))) (Nat.le_succ _))
  have lower : divisor * (calls.time n / divisor + 1) ≤ calls.time i := by
    rw [← inside]
    exact Nat.mul_div_le _ _
  have upper : calls.time i < divisor * (calls.time n / divisor + 1 + 1) := by
    rw [← inside]
    exact Nat.lt_mul_div_succ _ pos
  have here := Nat.mul_div_le (calls.time n) divisor
  have next := Nat.lt_mul_div_succ (calls.time n) pos
  rw [Nat.mul_add, Nat.mul_one] at lower upper next
  rw [Nat.mul_add, Nat.mul_one] at upper
  rcases Nat.lt_or_ge n i with after | before
  · have : calls.time (n + 1) ≤ calls.time i := calls.mono after
    omega
  · have := calls.mono before
    omega

/-- What a gap adds beyond its whole periods. -/
theorem gap_mod (pos : 0 < divisor) : (calls.time (n + 1) - calls.time n) % divisor +
    (if divisor ≤ calls.time (n + 1) - calls.time n then divisor else 0) =
      calls.time (n + 1) - calls.time n := by
  have bound := calls.gap_lt n pos
  split
  next long =>
    rw [Nat.mod_eq_sub_mod long, Nat.mod_eq_of_lt (by omega)]
    omega
  next short =>
    rw [Nat.mod_eq_of_lt (by omega)]
    rfl

end PitCalls

/-! ## The state after each call -/

/-- What holds after the call `n`: the cycles counted are those elapsed less a period
for each long gap, and the ticks are the whole periods of these. -/
structure PitCounted {divisor : Nat} (calls : PitCalls divisor) (n : ℕ) (s : PitState) :
    Prop where
  divisor_eq : s.divisor = divisor
  inited : s.inited = true
  last : s.last = pitCount divisor (calls.time n)
  cycles : s.cycles + divisor * calls.longGaps n = calls.elapsed n
  ticks : s.ticks = s.cycles / divisor

theorem pitAfter_spec {divisor : Nat} (pos : 0 < divisor) (fits : divisor < 2 ^ 16)
    (calls : PitCalls divisor) (n : ℕ) (room : calls.elapsed n < 2 ^ 64) :
    PitCounted calls n (pitAfter calls (n + 1)) := by
  induction n with
  | zero =>
      have start : pitAfter calls 1 =
          { pitStart divisor with last := pitCount divisor (calls.time 0), inited := true } := by
        simp only [pitAfter, pitUpdate, pitStart, pos.ne', ↓reduceIte, Bool.not_false]
      rw [start]
      refine ⟨rfl, rfl, rfl, ?_, ?_⟩
      · simp [pitStart, PitCalls.longGaps, PitCalls.elapsed]
      · simp [pitStart]
  | succ n ih =>
      have step := calls.elapsed_succ n
      have before := ih (by omega)
      have gap := calls.gap_mod n pos
      set s := pitAfter calls (n + 1) with hs
      have dec : pitDec s.divisor s.last (pitCount divisor (calls.time (n + 1))) =
          (calls.time (n + 1) - calls.time n) % divisor := by
        rw [before.divisor_eq, before.last]
        exact pitDec_pitCount pos fits (calls.mono (Nat.le_succ n))
      have counted := before.cycles
      have small : s.cycles + (calls.time (n + 1) - calls.time n) % divisor < 2 ^ 64 := by
        have := Nat.mod_le (calls.time (n + 1) - calls.time n) divisor
        omega
      have update : pitUpdate s (pitCount divisor (calls.time (n + 1))) =
          let cycles := s.cycles + (calls.time (n + 1) - calls.time n) % divisor
          if s.ticks < cycles / divisor then
            { s with last := pitCount divisor (calls.time (n + 1)), cycles,
                     ticks := cycles / divisor, tickCount := cycles / divisor }
          else { s with last := pitCount divisor (calls.time (n + 1)), cycles } := by
        unfold pitUpdate
        rw [if_neg (by rw [before.divisor_eq]; exact pos.ne'), if_neg (by simp [before.inited]), dec,
          Nat.mod_eq_of_lt small, before.divisor_eq]
      have total : s.cycles + (calls.time (n + 1) - calls.time n) % divisor +
          divisor * calls.longGaps (n + 1) = calls.elapsed (n + 1) := by
        rw [step, PitCalls.longGaps, Nat.count_succ, Nat.mul_add]
        have held : s.cycles + divisor * Nat.count
            (fun j => divisor ≤ calls.time (j + 1) - calls.time j) n = calls.elapsed n := counted
        split at gap
        next long => rw [if_pos long]; omega
        next short => rw [if_neg short]; omega
      show PitCounted calls (n + 1) (pitUpdate s (pitCount divisor (calls.time (n + 1))))
      rw [update]
      dsimp only
      split
      next => exact ⟨before.divisor_eq, before.inited, rfl, total, rfl⟩
      next same =>
        refine ⟨before.divisor_eq, before.inited, rfl, total, ?_⟩
        have grows : s.cycles / divisor ≤
            (s.cycles + (calls.time (n + 1) - calls.time n) % divisor) / divisor :=
          Nat.div_le_div_right (Nat.le_add_right _ _)
        exact le_antisymm (before.ticks ▸ grows) (Nat.not_lt.mp same)

/-- The ticks are the periods elapsed less the long gaps. -/
theorem ticks_add_longGaps {divisor : Nat} (pos : 0 < divisor) (fits : divisor < 2 ^ 16)
    (calls : PitCalls divisor) (n : ℕ) (room : calls.elapsed n < 2 ^ 64) :
    (pitAfter calls (n + 1)).ticks + calls.longGaps n = calls.periods n := by
  have counted := pitAfter_spec pos fits calls n room
  rw [counted.ticks, PitCalls.periods, ← counted.cycles, Nat.add_mul_div_left _ _ pos]

/-- The tick count never goes back, and while the 64 bits last it is right up to one
period after a call exactly if at most one gap before that call was a period or longer. -/
theorem tick_error_iff {divisor : Nat} (pos : 0 < divisor) (fits : divisor < 2 ^ 16)
    (calls : PitCalls divisor) :
    (∀ n, (pitAfter calls n).ticks ≤ (pitAfter calls (n + 1)).ticks) ∧
      ∀ n, calls.elapsed n < 2 ^ 64 → (TicksWithinOne calls n ↔ calls.longGaps n ≤ 1) := by
  refine ⟨fun n => pitUpdate_ticks_le _ _, ?_⟩
  intro n room
  have exact_count := ticks_add_longGaps pos fits calls n room
  unfold TicksWithinOne
  omega

/-- Every interrupt handled at once, with the divisor of the kernel's 250 Hz. -/
def promptCalls : PitCalls (pitDivisor 250) where
  time n := 4773 * n
  mono := fun _ _ le => Nat.mul_le_mul_left _ le
  handled k _ := ⟨k, by simp [pitDivisor]⟩

/-- Handled at once every time, the interrupts count nothing: two periods after the first
call the tick count is still zero. -/
theorem prompt_ticks_lost :
    ¬ ∀ divisor, 0 < divisor → divisor < 2 ^ 16 → ∀ (calls : PitCalls divisor) (n : ℕ),
      TicksWithinOne calls n := by
  intro within
  have := within _ (by decide) (by decide) promptCalls 2
  revert this
  decide

/-- The counts of `promptCalls`. -/
theorem tick_error_iff_prompt :
    (∀ n, (pitAfter promptCalls n).ticks ≤ (pitAfter promptCalls (n + 1)).ticks) ∧
      (TicksWithinOne promptCalls 1 ↔ promptCalls.longGaps 1 ≤ 1) :=
  have result := tick_error_iff (by decide) (by decide) promptCalls
  ⟨result.1, result.2 1 (by decide)⟩

end NTux.Drivers
