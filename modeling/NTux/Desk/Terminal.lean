import NTux.Desk.Ring

/-!
# Writing to the terminal

`stdio_write` of the C library: the bytes are cut into the texts of window messages, and each
message is pushed to the ring of the desktop once.

What the push returns is passed over, so that `stdio_write` reports all the bytes whether or
not they were queued (`stdio_write_exact_iff`).
-/

namespace NTux.Desk

open NTux.Lib

/-- `WINDOW_MAX_TEXT`. -/
def windowMaxText : Nat := 192

/-- `WINDOW_CMD_TERMINAL_WRITE`. -/
def cmdTerminalWrite : Nat := 29

/-- The bytes of a `uint32_t`, the lowest first. -/
def le32 (n : Nat) : List UInt8 :=
  [UInt8.ofNat n, UInt8.ofNat (n / 2 ^ 8), UInt8.ofNat (n / 2 ^ 16), UInt8.ofNat (n / 2 ^ 24)]

/-- A string in a field of `WINDOW_MAX_TEXT` bytes. -/
def textField (text : List UInt8) : List UInt8 :=
  text ++ List.replicate (windowMaxText - text.length) 0

/-- The `window_msg_t` that `stdio_write` fills in: the command, the size, the identifier, the
rectangle, the color, the flags, the owner, the options and the two texts. -/
def terminalMsg (tid : Nat) (text : List UInt8) : List UInt8 :=
  le32 cmdTerminalWrite ++ le32 432 ++ List.replicate 8 0 ++ List.replicate 16 0 ++ le32 0 ++
    le32 0 ++ le32 tid ++ le32 0 ++ textField text ++ textField []

/-- The loop of `stdio_write`: the texts, each with what its push has returned.  There are
fewer texts than bytes. -/
def stdioLoop (tid : Nat) : Nat → List UInt8 → DeskRing → List (List UInt8 × Int) × DeskRing
  | 0, _, r => ([], r)
  | _ + 1, [], r => ([], r)
  | fuel + 1, p, r =>
      let text := p.take (windowMaxText - 1)
      let (rc, r) := deskapiPush r (some (terminalMsg tid text))
      let (texts, r) := stdioLoop tid fuel (p.drop (windowMaxText - 1)) r
      ((text, rc) :: texts, r)

/-- What `stdio_write` leaves: the number it reports, the texts with what their pushes have
returned, and the ring. -/
structure Written where
  reported : Nat
  texts : List (List UInt8 × Int)
  ring : DeskRing

/-- `stdio_write`; the buffer is the bytes it is called with, if it is not null. -/
def stdioWrite (tid : Nat) (buf : Option (List UInt8)) (r : DeskRing) : Written :=
  match buf with
  | none => ⟨0, [], r⟩
  | some [] => ⟨0, [], r⟩
  | some p =>
      let (texts, r) := stdioLoop tid p.length p r
      ⟨p.length, texts, r⟩

/-- The texts that were queued. -/
def queuedTexts (texts : List (List UInt8 × Int)) : List (List UInt8) :=
  (texts.filter fun t => t.2 = 0).map Prod.fst

/-- As many bytes are reported as were queued, and they are the first ones. -/
def StdioExact (tid : Nat) (buf : Option (List UInt8)) (r : DeskRing) : Prop :=
  (stdioWrite tid buf r).reported = (queuedTexts (stdioWrite tid buf r).texts).flatten.length ∧
    (queuedTexts (stdioWrite tid buf r).texts).flatten =
      (buf.getD []).take (stdioWrite tid buf r).reported

/-- How many messages the bytes take. -/
def messageCount (n : Nat) : Nat := (n + 190) / 191

/-! ## The messages -/

theorem terminalMsg_length (tid : Nat) {text : List UInt8} (short : text.length ≤ windowMaxText) :
    (terminalMsg tid text).length = 432 := by
  unfold terminalMsg textField le32
  simp only [List.length_append, List.length_replicate, List.length_cons, List.length_nil]
  unfold windowMaxText at short ⊢
  omega

/-- A push of a text is refused where the ring is full only. -/
theorem push_terminalMsg (tid : Nat) (r : DeskRing) {text : List UInt8}
    (short : text.length ≤ windowMaxText) :
    (r.count < deskapiRingSize → (deskapiPush r (some (terminalMsg tid text))).1 = 0 ∧
        (deskapiPush r (some (terminalMsg tid text))).2.count = r.count + 1) ∧
      (deskapiRingSize ≤ r.count →
        deskapiPush r (some (terminalMsg tid text)) = (-2, r)) := by
  have length := terminalMsg_length tid short
  unfold deskapiPush
  dsimp only
  rw [if_neg (by rw [length]; decide)]
  constructor
  · intro room
    rw [if_neg (Nat.not_le.2 room)]
    exact ⟨rfl, rfl⟩
  · intro full
    rw [if_pos full]

/-! ## What is reported -/

/-- Behind a message the loop has fewer bytes left. -/
theorem rest_length_le {b : UInt8} {p : List UInt8} {fuel : Nat}
    (enough : (b :: p).length ≤ fuel + 1) : ((b :: p).drop (windowMaxText - 1)).length ≤ fuel := by
  rw [List.length_drop]
  unfold windowMaxText
  rw [List.length_cons] at enough ⊢
  omega

/-- The texts are all the bytes. -/
theorem stdioLoop_flatten (tid : Nat) {fuel : Nat} {p : List UInt8} (enough : p.length ≤ fuel)
    (r : DeskRing) : ((stdioLoop tid fuel p r).1.map Prod.fst).flatten = p := by
  induction fuel generalizing p r with
  | zero =>
      obtain rfl := List.eq_nil_of_length_eq_zero (Nat.le_zero.1 enough)
      rfl
  | succ fuel ih =>
      cases p with
      | nil => rfl
      | cons b p =>
          have rest := rest_length_le enough
          unfold stdioLoop
          dsimp only
          rw [List.map_cons, List.flatten_cons, ih rest]
          exact List.take_append_drop _ _

/-- No text is empty. -/
theorem stdioLoop_ne_nil (tid fuel : Nat) (p : List UInt8) (r : DeskRing) :
    ∀ t ∈ (stdioLoop tid fuel p r).1, t.1 ≠ [] := by
  induction fuel generalizing p r with
  | zero => exact fun t none => by cases none
  | succ fuel ih =>
      cases p with
      | nil => exact fun t none => by cases none
      | cons b p =>
          intro t mem
          unfold stdioLoop at mem
          dsimp only at mem
          rcases List.mem_cons.1 mem with rfl | later
          · exact List.cons_ne_nil b _
          · exact ih _ _ t later

/-- Every push of the loop succeeds just when there is room for the messages. -/
theorem stdioLoop_accepted (tid : Nat) {fuel : Nat} {p : List UInt8} (enough : p.length ≤ fuel)
    (ne : p ≠ []) (r : DeskRing) :
    (∀ t ∈ (stdioLoop tid fuel p r).1, t.2 = 0) ↔
      r.count + messageCount p.length ≤ deskapiRingSize := by
  induction fuel generalizing p r with
  | zero => exact absurd (List.eq_nil_of_length_eq_zero (Nat.le_zero.1 enough)) ne
  | succ fuel ih =>
      cases p with
      | nil => exact absurd rfl ne
      | cons b p =>
          have short : ((b :: p).take (windowMaxText - 1)).length ≤ windowMaxText :=
            (List.length_take_le _ _).trans (by decide)
          obtain ⟨accepted, refused⟩ := push_terminalMsg tid r short
          have rest := rest_length_le enough
          unfold stdioLoop
          dsimp only
          rw [List.forall_mem_cons]
          rcases Nat.lt_or_ge r.count deskapiRingSize with room | full
          · obtain ⟨zero, count⟩ := accepted room
            have dropped : ((b :: p).drop (windowMaxText - 1)).length =
                (b :: p).length - (windowMaxText - 1) := List.length_drop
            have cut : windowMaxText - 1 = 191 := rfl
            rcases eq_or_ne ((b :: p).drop (windowMaxText - 1)) [] with last | more
            · have none : (stdioLoop tid fuel ((b :: p).drop (windowMaxText - 1))
                  (deskapiPush r (some (terminalMsg tid ((b :: p).take
                    (windowMaxText - 1))))).2).1 = [] := by
                rw [last]
                cases fuel with
                | zero => rfl
                | succ fuel => rfl
              rw [none, zero]
              have one : messageCount (b :: p).length = 1 := by
                rw [last, cut] at dropped
                unfold messageCount
                rw [List.length_nil, List.length_cons] at dropped
                rw [List.length_cons]
                omega
              rw [one]
              exact ⟨fun _ => room, fun _ => ⟨rfl, fun t none => by cases none⟩⟩
            · rw [ih rest more, count, zero]
              have next : messageCount (b :: p).length =
                  messageCount ((b :: p).drop (windowMaxText - 1)).length + 1 := by
                have pos := List.length_pos_of_ne_nil more
                rw [dropped, cut] at pos ⊢
                unfold messageCount
                omega
              rw [next, Nat.add_assoc, Nat.add_comm 1]
              exact ⟨And.right, fun le => ⟨rfl, le⟩⟩
          · rw [refused full]
            unfold messageCount
            rw [List.length_cons]
            constructor
            · rintro ⟨no, -⟩
              cases no
            · intro le
              omega

theorem queuedTexts_cons (t : List UInt8 × Int) (texts : List (List UInt8 × Int)) :
    queuedTexts (t :: texts) = if t.2 = 0 then t.1 :: queuedTexts texts else queuedTexts texts := by
  unfold queuedTexts
  rw [List.filter_cons]
  by_cases accepted : t.2 = 0
  · rw [if_pos accepted, if_pos (decide_eq_true accepted), List.map_cons]
  · rw [if_neg accepted, if_neg (fun yes => accepted (of_decide_eq_true yes))]

/-- Texts are queued in full length just when all of them are. -/
theorem queuedTexts_length {texts : List (List UInt8 × Int)} (some : ∀ t ∈ texts, t.1 ≠ []) :
    (queuedTexts texts).flatten.length ≤ (texts.map Prod.fst).flatten.length ∧
      ((queuedTexts texts).flatten.length = (texts.map Prod.fst).flatten.length ↔
        ∀ t ∈ texts, t.2 = 0) := by
  induction texts with
  | nil => exact ⟨le_rfl, fun _ t none => (by cases none), fun _ => rfl⟩
  | cons t texts ih =>
      obtain ⟨le, exact'⟩ := ih fun u mem => some u (List.mem_cons_of_mem _ mem)
      have pos := List.length_pos_of_ne_nil (some t (List.mem_cons_self ..))
      rw [List.forall_mem_cons, ← exact']
      rw [List.map_cons, List.flatten_cons, List.length_append, queuedTexts_cons]
      by_cases accepted : t.2 = 0
      · rw [if_pos accepted, List.flatten_cons, List.length_append]
        exact ⟨Nat.add_le_add_left le _, fun same => ⟨accepted, Nat.add_left_cancel same⟩,
          fun both => congrArg _ both.2⟩
      · rw [if_neg accepted]
        exact ⟨le.trans (Nat.le_add_left _ _), fun same => by omega,
          fun both => absurd both.1 accepted⟩

theorem queuedTexts_all {texts : List (List UInt8 × Int)} (all : ∀ t ∈ texts, t.2 = 0) :
    queuedTexts texts = texts.map Prod.fst := by
  unfold queuedTexts
  rw [List.filter_eq_self.2 fun t mem => decide_eq_true (all t mem)]

/-- What `stdio_write` reports was queued just when the ring has room for all the messages. -/
theorem stdio_write_exact_iff (tid : Nat) (buf : Option (List UInt8)) (r : DeskRing) :
    StdioExact tid buf r ↔ ∀ p ∈ buf, p ≠ [] →
      r.count + messageCount p.length ≤ deskapiRingSize := by
  unfold StdioExact
  cases buf with
  | none => exact ⟨fun _ p none => (by cases none), fun _ => ⟨rfl, rfl⟩⟩
  | some p =>
      cases p with
      | nil =>
          refine ⟨fun _ p same ne => ?_, fun _ => ⟨rfl, rfl⟩⟩
          exact absurd (Option.some.inj same).symm ne
      | cons b p =>
          have whole := stdioLoop_flatten tid (le_refl (b :: p).length) r
          have lengths := queuedTexts_length (stdioLoop_ne_nil tid (b :: p).length (b :: p) r)
          have room := stdioLoop_accepted tid (le_refl (b :: p).length) (List.cons_ne_nil b p) r
          rw [whole] at lengths
          unfold stdioWrite
          dsimp only
          constructor
          · rintro ⟨same, -⟩ q eq -
            obtain rfl := Option.some.inj eq
            exact room.1 (lengths.2.1 same.symm)
          · intro enough
            have all := room.2 (enough _ rfl (List.cons_ne_nil b p))
            rw [queuedTexts_all all, whole]
            exact ⟨rfl, List.take_length.symm⟩

/-- A ring with as many messages as it has room for. -/
def fullRing : DeskRing := ⟨fun _ => .zero, 0, 0, deskapiRingSize⟩

/-- Where the ring is full, a byte is reported and lost. -/
theorem stdio_write_loses : ¬ StdioExact 0 (some [65]) fullRing := fun exact' =>
  absurd exact'.1 (by decide +kernel)

end NTux.Desk
