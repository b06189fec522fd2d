import NTux.Sys.Int80Memory

/-!
# The checks of `int 0x80` and what they cover

Each call of `int 0x80` with a pointer, shown to touch nothing outside the range of its thread:
past `user_cstr_ok` the string is inside with its terminator, past `user_ptr_range_ok` every part
of the range is.  For the four calls that check something else, `int80_within_iff` says when they
stay inside.
-/

namespace NTux.Sys.UserMem

open NTux.Lib NTux.Lib.Touching

variable {m : Machine} {r : Regs} {lo hi : Nat}

/-! ## Rules -/

/-- Past `user_cstr_ok`, the string is inside. -/
theorem within_checkCstr_bind (restricted : currentUserRange m = some (lo, hi)) {s maxScan : Nat}
    {f : Unit → Handler} :
    Within (Span.Inside lo hi) (checkCstr m s maxScan >>= f) ↔
      (userCstrOk m s maxScan = true → Within (Span.Inside lo hi) (f ())) := by
  have first : Within (Span.Inside lo hi) (checkCstr m s maxScan) := by
    unfold checkCstr
    rw [within_touchAll_bind]
    exact ⟨cstrScan_inside restricted, within_check⟩
  have result : (checkCstr m s maxScan).result =
      if userCstrOk m s maxScan = true then some () else none := rfl
  rw [within_bind, result]
  constructor
  · rintro ⟨_, rest⟩ ok
    exact rest () (if_pos ok)
  · intro rest
    refine ⟨first, fun a eq => rest ?_⟩
    by_contra refused
    rw [if_neg refused] at eq
    cases eq

@[simp] theorem within_checkRange_bind {P : Span → Prop} {p len : Nat} {f : Unit → Handler} :
    Within P (checkRange m p len >>= f) ↔ (userPtrRangeOk m p len = true → Within P (f ())) :=
  within_check_bind

@[simp] theorem within_checkOptional_bind {P : Span → Prop} {p size : Nat} {f : Unit → Handler} :
    Within P (checkOptional m p size >>= f) ↔
      (p = 0 ∨ userPtrRangeOk m p size = true → Within P (f ())) :=
  within_check_bind

/-- Past the check of an array, its size does not overflow and its range is accepted. -/
theorem within_checkArray_bind {P : Span → Prop} {p n size : Nat} {f : Unit → Handler} :
    Within P (checkArray m p n size >>= f) ↔
      (n * size < 2 ^ 64 → userPtrRangeOk m p (n * size) = true → Within P (f ())) := by
  unfold checkArray mulOverflowSize
  split
  next bytes eq =>
    split at eq
    next fits =>
      obtain rfl := Option.some.inj eq
      rw [within_checkRange_bind]
      exact ⟨fun rest _ => rest, fun rest => rest fits⟩
    next => cases eq
  next eq =>
    split at eq
    next => cases eq
    next overflows =>
      rw [within_check_bind]
      exact ⟨fun _ fits => absurd fits overflows, fun _ no => no.elim⟩

/-! ## Families of calls -/

section Families

variable (restricted : currentUserRange m = some (lo, hi))
include restricted

theorem text_within {c : Callee} {p maxScan : Nat} (ok : userCstrOk m p maxScan = true) :
    Span.Inside lo hi ⟨p, m.textUsed c p⟩ :=
  text_inside restricted ok (Nat.le_trans (m.textUsed_le c p) (Nat.min_le_left _ _))

theorem buffer_within {c : Callee} {p : UInt64} {n : Nat} (size : n ≤ 2 ^ 64)
    (ok : userPtrRangeOk m p.toNat n = true) : Span.Inside lo hi ⟨p.toNat, m.bufUsed c p.toNat n⟩ :=
  inside_of_ok restricted ok size (m.bufUsed_le c p.toNat n)

/-- An optional result is inside. -/
theorem optional_within {p : UInt64} {size : Nat} (small : size ≤ 2 ^ 64)
    (ok : p.toNat = 0 ∨ userPtrRangeOk m p.toNat size = true) (there : p.toNat ≠ 0) :
    Span.Inside lo hi ⟨p.toNat, size⟩ :=
  inside_of_ok restricted (ok.resolve_left there) small (Nat.le_refl size)

theorem textCall_within {c : Callee} {p maxScan : Nat} :
    Within (Span.Inside lo hi) (textCall m c p maxScan) := by
  unfold textCall text
  rw [within_checkCstr_bind restricted, within_touch]
  exact fun ok => text_within restricted ok

theorem twoTextCall_within {c : Callee} {p pMax q qMax : Nat} :
    Within (Span.Inside lo hi) (twoTextCall m c p pMax q qMax) := by
  unfold twoTextCall text
  rw [within_checkCstr_bind restricted]
  intro pOk
  rw [within_checkCstr_bind restricted, within_touch_bind, within_touch]
  exact fun qOk => ⟨text_within restricted pOk, text_within restricted qOk⟩

/-- A string that must not be empty. -/
theorem namedCall_within {c : Callee} {p maxScan : Nat} :
    Within (Span.Inside lo hi) (do
      checkCstr m p maxScan
      touch ⟨p, 1⟩
      check (m.mem p ≠ 0)
      text m c p) := by
  unfold text
  rw [within_checkCstr_bind restricted]
  intro ok
  rw [within_touch_bind, within_check_bind, within_touch]
  exact ⟨text_inside restricted ok (Nat.le_add_left 1 _), fun _ => text_within restricted ok⟩

theorem recordCall_within {p : UInt64} {size : Nat} {ready : Bool} (small : size ≤ 2 ^ 64) :
    Within (Span.Inside lo hi) (recordCall m p.toNat size ready) := by
  unfold recordCall
  rw [within_check_bind]
  intro _
  rw [within_checkRange_bind, within_touchIf]
  exact fun ok _ => inside_of_ok restricted ok small (Nat.le_refl size)

theorem replyCall_within {c : Callee} {p : UInt64} {cap : UInt64} {capMax : Nat} :
    Within (Span.Inside lo hi) (replyCall m c p.toNat cap.toNat capMax) := by
  unfold replyCall
  rw [within_check_bind]
  rintro ⟨_, some_room, _⟩
  rw [within_checkRange_bind, within_touch]
  intro ok
  have cut := Nat.min_le_right ((m.answer c).getD 0) (cap.toNat - 1)
  exact inside_of_ok restricted ok (Nat.le_of_lt cap.toNat_lt) (by omega)

theorem entryLine_within {c : Callee} {p : UInt64} (ok : userPtrRangeOk m p.toNat 256 = true) :
    Within (Span.Inside lo hi) (entryLine m c p.toNat) := by
  unfold entryLine
  split
  next len _ =>
    rw [within_touch]
    have cut := Nat.min_le_right len 250
    exact inside_of_ok restricted ok (by decide) (by omega)
  next => exact within_pure ()

theorem tcpCall_within {c : Callee} {p n : UInt64} :
    Within (Span.Inside lo hi) (tcpCall m c p.toNat n.toNat) := by
  unfold tcpCall buffer
  rw [within_check_bind]
  intro _
  rw [within_checkRange_bind, within_touch]
  exact fun ok => buffer_within restricted (Nat.le_of_lt n.toNat_lt) ok

/-- What a call stores in an array, and the count beside it. -/
theorem storeList_within {stores : Prop} [Decidable stores] {k : Nat} {p result : UInt64}
    (inside : stores → Span.Inside lo hi ⟨p.toNat, k⟩) :
    Within (Span.Inside lo hi) (do
      checkOptional m result.toNat 8
      touchIf stores ⟨p.toNat, k⟩
      touchIf (result.toNat ≠ 0) ⟨result.toNat, 8⟩) := by
  rw [within_checkOptional_bind, within_touchIf_bind, within_touchIf]
  exact fun ok => ⟨inside, optional_within restricted (by decide) ok⟩

theorem listCall_within {count size : Nat} {p n result : UInt64} :
    Within (Span.Inside lo hi) (listCall m count p.toNat n.toNat size result.toNat) := by
  unfold listCall
  by_cases entries : 0 < n.toNat
  · simp only [if_pos entries, within_check_bind, within_checkArray_bind]
    intro _ fits ok
    have cut := Nat.mul_le_mul_right size (Nat.min_le_right count n.toNat)
    apply storeList_within restricted
    exact fun _ => inside_of_ok restricted ok (Nat.le_of_lt fits) cut
  · simp only [if_neg entries]
    apply storeList_within restricted
    exact fun both => absurd both.2 entries

theorem driveListCall_within {c : Callee} {size : Nat} {p n result : UInt64} :
    Within (Span.Inside lo hi) (driveListCall m c p.toNat n.toNat size result.toNat) := by
  unfold driveListCall
  by_cases array : p.toNat ≠ 0
  · simp only [if_pos array, within_checkArray_bind]
    intro fits ok
    have cut := Nat.mul_le_mul_right size
      (Nat.min_le_right ((m.answer c).getD 0) (min n.toNat 16))
    apply storeList_within restricted
    exact fun _ => inside_of_ok restricted ok (Nat.le_of_lt fits) cut
  · simp only [if_neg array]
    apply storeList_within restricted
    exact fun there => absurd there array

theorem sectorCall_within {c : Callee} {sectors p : UInt64} :
    Within (Span.Inside lo hi) (sectorCall m c sectors p.toNat) := by
  unfold sectorCall buffer
  rw [within_checkArray_bind, within_touch]
  exact fun fits ok => buffer_within restricted (Nat.le_of_lt fits) ok

theorem httpReply_within {failedLen : Nat} {p cap : UInt64} (room : cap.toNat ≠ 0)
    (ok : userPtrRangeOk m p.toNat cap.toNat = true) :
    Within (Span.Inside lo hi) (httpReply m failedLen p.toNat cap.toNat) := by
  have part : ∀ {k : Nat}, k ≤ cap.toNat → Span.Inside lo hi ⟨p.toNat, k⟩ :=
    fun le => inside_of_ok restricted ok (Nat.le_of_lt cap.toNat_lt) le
  unfold httpReply
  split
  next => exact within_touch.2 (part (Nat.min_le_right 21 cap.toNat))
  next => exact within_touch.2 (part (Nat.min_le_right failedLen cap.toNat))
  next len _ =>
    have cut := Nat.min_le_right len (cap.toNat - 1)
    exact within_touch.2 (part (by omega))

/-- Groups are copied from or to the whole of an array whose size in bytes is accepted. -/
theorem groups_within {p : UInt64} {n k : Int} (fits : n < 2 ^ 31) (le : k ≤ n)
    (ok : userPtrRangeOk m p.toNat (asSize n * 4 % 2 ^ 64) = true) :
    Span.Inside lo hi ⟨p.toNat, k.toNat * 4⟩ := by
  rcases Int.lt_or_le n 0 with negative | positive
  -- a negative count copies nothing, whatever its size wraps to
  · rw [inside_iff]
    exact .inl (by dsimp only; omega)
  · have size : asSize n * 4 % 2 ^ 64 = n.toNat * 4 := by
      unfold asSize
      omega
    rw [size] at ok
    exact inside_of_ok restricted ok (by omega) (by omega)

end Families

theorem asInt_lt (x : UInt64) : asInt x < 2 ^ 31 := by
  unfold asInt
  have low := Nat.mod_lt x.toNat (show 0 < 2 ^ 32 by decide)
  dsimp only
  split <;> omega

/-! ## The calls -/

section Calls

variable (restricted : currentUserRange m = some (lo, hi))
include restricted

theorem int80Write_within : Within (Span.Inside lo hi) (int80Write m r) := by
  unfold int80Write
  rw [within_check_bind]
  intro _
  rw [within_checkRange_bind, within_touch]
  exact fun ok => inside_of_ok restricted ok (Nat.le_of_lt r.rsi.toNat_lt) (Nat.le_refl _)

theorem int80Stat_within : Within (Span.Inside lo hi) (int80Stat m r) := by
  unfold int80Stat text
  rw [within_checkCstr_bind restricted]
  intro path
  rw [within_checkRange_bind]
  intro buf
  rw [within_touch_bind, within_check_bind, within_touch_bind, within_touch]
  exact ⟨text_within restricted path, fun _ => ⟨text_within restricted path,
    inside_of_ok restricted buf (by decide) (Nat.le_refl _)⟩⟩

theorem int80Getpw_within {c : Callee} :
    Within (Span.Inside lo hi) (do
      check (r.rdi.toNat ≠ 0)
      checkRange m r.rdi.toNat 256
      checkCstr m r.rsi.toNat 32
      text m c r.rsi.toNat
      entryLine m c r.rdi.toNat) := by
  unfold text
  rw [within_check_bind]
  intro _
  rw [within_checkRange_bind]
  intro out
  rw [within_checkCstr_bind restricted, within_touch_bind]
  exact fun name => ⟨text_within restricted name, entryLine_within restricted out⟩

theorem int80Getid_within {c : Callee} :
    Within (Span.Inside lo hi) (do
      check (r.rdi.toNat ≠ 0)
      checkRange m r.rdi.toNat 256
      entryLine m c r.rdi.toNat) := by
  rw [within_check_bind]
  intro _
  rw [within_checkRange_bind]
  exact fun out => entryLine_within restricted out

theorem int80FsCreateFile_within : Within (Span.Inside lo hi) (int80FsCreateFile m r) := by
  unfold int80FsCreateFile text buffer
  rw [within_checkCstr_bind restricted]
  intro parent
  rw [within_checkCstr_bind restricted]
  intro name
  rw [within_checkRange_bind, within_touch_bind, within_touch_bind, within_touch]
  exact fun data => ⟨text_within restricted parent, text_within restricted name,
    buffer_within restricted (Nat.le_of_lt r.rcx.toNat_lt) data⟩

theorem int80FsWriteFile_within : Within (Span.Inside lo hi) (int80FsWriteFile m r) := by
  unfold int80FsWriteFile text buffer
  rw [within_checkCstr_bind restricted]
  intro path
  rw [within_checkRange_bind, within_touch_bind, within_touch]
  exact fun data => ⟨text_within restricted path,
    buffer_within restricted (Nat.le_of_lt r.rdx.toNat_lt) data⟩

theorem int80FsReadFile_within : Within (Span.Inside lo hi) (int80FsReadFile m r) := by
  unfold int80FsReadFile text buffer
  rw [within_checkCstr_bind restricted]
  intro path
  rw [within_checkRange_bind]
  intro out
  rw [within_checkOptional_bind, within_touch_bind, within_touch_bind, within_touchIf]
  exact fun len => ⟨text_within restricted path,
    buffer_within restricted (Nat.le_of_lt r.rdx.toNat_lt) out,
    optional_within restricted (by decide) len⟩

theorem int80FsListDir_within : Within (Span.Inside lo hi) (int80FsListDir m r) := by
  have store : ∀ {k : Nat}, userCstrOk m r.rdi.toNat 1024 = true →
      (r.rsi.toNat ≠ 0 ∧ r.rdx.toNat ≠ 0 → Span.Inside lo hi ⟨r.rsi.toNat, k⟩) →
      Within (Span.Inside lo hi) (do
        checkOptional m r.rcx.toNat 8
        check (r.rsi.toNat = 0 ∨ r.rdx.toNat = 0 ∨ m.kmalloc = true)
        text m .fsListDir r.rdi.toNat
        touchIf (r.rsi.toNat ≠ 0 ∧ r.rdx.toNat ≠ 0) ⟨r.rsi.toNat, k⟩
        touchIf (r.rcx.toNat ≠ 0) ⟨r.rcx.toNat, 8⟩) := by
    intro k path inside
    unfold text
    rw [within_checkOptional_bind]
    intro count
    rw [within_check_bind, within_touch_bind, within_touchIf_bind, within_touchIf]
    exact fun _ => ⟨text_within restricted path, inside, optional_within restricted (by decide) count⟩
  unfold int80FsListDir
  rw [within_checkCstr_bind restricted]
  intro path
  by_cases array : r.rsi.toNat ≠ 0
  · simp only [if_pos array, within_checkArray_bind]
    intro fits ok
    have entries := Nat.min_le_right ((m.answer .fsListDir).getD 0) (min r.rdx.toNat 64)
    have cap := Nat.min_le_left r.rdx.toNat 64
    exact store path fun _ => inside_of_ok restricted ok (Nat.le_of_lt fits) (by omega)
  · simp only [if_neg array]
    exact store path fun both => absurd both.1 array

theorem int80KbdGetState_within : Within (Span.Inside lo hi) (int80KbdGetState m r) := by
  unfold int80KbdGetState
  rw [within_check_bind]
  intro _
  rw [within_checkRange_bind, within_touch]
  exact fun ok => inside_of_ok restricted ok (Nat.le_of_lt r.rsi.toNat_lt) (Nat.le_refl _)

/-- A row of the picture lies in the rows that were checked. -/
theorem int80FbBlit32_within : Within (Span.Inside lo hi) (int80FbBlit32 m r) := by
  unfold int80FbBlit32
  dsimp only
  rw [within_check_bind]
  intro _
  rw [within_check_bind]
  intro _
  rw [within_check_bind]
  intro wide
  rw [within_checkArray_bind]
  intro fits ok
  have whole := (userPtrRangeOk_iff restricted r.rdi.toNat_lt (Nat.le_of_lt fits)).1 ok
  split
  next => exact within_pure ()
  next fb _ =>
    rw [within_check_bind, within_touchAll]
    intro _ t mem
    obtain ⟨y, row, rfl⟩ := List.mem_map.1 mem
    rw [List.mem_range] at row
    intro i lt
    have rows := Nat.min_le_left (r.rdx.toNat % 2 ^ 32) (fb.height % 2 ^ 32)
    have columns := Nat.min_le_left (r.rsi.toNat % 2 ^ 32) (fb.width % 2 ^ 32)
    -- a row ends where the next one begins, and the last one with what was checked
    have next_row : (y + 1) * (r.rcx.toNat % 2 ^ 32) ≤
        r.rcx.toNat % 2 ^ 32 * (r.rdx.toNat % 2 ^ 32) := by
      rw [Nat.mul_comm (r.rcx.toNat % 2 ^ 32)]
      exact Nat.mul_le_mul_right _ (by omega)
    rw [Nat.succ_mul] at next_row
    have byte := whole (y * (r.rcx.toNat % 2 ^ 32) + i) (by dsimp only at lt ⊢; omega)
    dsimp only at byte ⊢
    rwa [← Nat.add_assoc] at byte

theorem fdOpen_within {p maxScan : Nat} (ok : userCstrOk m p maxScan = true) :
    Within (Span.Inside lo hi) (fdOpen m p) := by
  unfold fdOpen text
  rw [within_check_bind]
  intro _
  rw [within_touch_bind, within_check_bind, within_touch_bind, within_touch]
  exact ⟨text_inside restricted ok (Nat.le_add_left 1 _),
    fun _ => ⟨text_within restricted ok, text_within restricted ok⟩⟩

theorem int80Open_within : Within (Span.Inside lo hi) (int80Open m r) := by
  unfold int80Open
  rw [within_checkCstr_bind restricted]
  exact fun ok => fdOpen_within restricted ok

theorem int80Read_within : Within (Span.Inside lo hi) (int80Read m r) := by
  unfold int80Read fdRead
  rw [within_checkRange_bind, within_touch]
  exact fun ok => inside_of_ok restricted ok (Nat.le_of_lt r.rdx.toNat_lt) (fdReadBytes_le m _ _ _)

theorem int80WriteFd_within : Within (Span.Inside lo hi) (int80WriteFd m r) := by
  unfold int80WriteFd fdWrite
  rw [within_checkRange_bind, within_touch]
  exact fun ok => inside_of_ok restricted ok (Nat.le_of_lt r.rdx.toNat_lt) (fdWriteBytes_le m _ _ _)

theorem int80NetPing_within : Within (Span.Inside lo hi) (int80NetPing m r) := by
  unfold int80NetPing text
  rw [within_checkCstr_bind restricted]
  intro host
  rw [within_check_bind]
  rintro ⟨_, room, _⟩
  rw [within_checkRange_bind]
  intro out
  rw [within_touch_bind, within_touch_bind]
  refine ⟨text_within restricted host, text_within restricted host, ?_⟩
  split
  next len _ =>
    rw [within_touch]
    have cut := Nat.min_le_right len (r.rdx.toNat - 1)
    exact inside_of_ok restricted out (Nat.le_of_lt r.rdx.toNat_lt) (by omega)
  next => exact within_pure ()

theorem int80NetHttpGet_within : Within (Span.Inside lo hi) (int80NetHttpGet m r) := by
  unfold int80NetHttpGet
  rw [within_checkCstr_bind restricted]
  intro url
  rw [within_check_bind]
  rintro ⟨_, room, _⟩
  rw [within_checkRange_bind]
  intro out
  rw [within_check_bind, within_touch_bind]
  exact fun _ => ⟨text_inside restricted url (Nat.min_le_left _ _),
    httpReply_within restricted room out⟩

theorem int80NetHttpPost_within : Within (Span.Inside lo hi) (int80NetHttpPost m r) := by
  unfold int80NetHttpPost text
  rw [within_checkCstr_bind restricted]
  intro url
  rw [within_check_bind]
  rintro ⟨_, room, _⟩
  rw [within_checkRange_bind]
  intro out
  rw [within_check_bind]
  intro _
  rw [within_checkCstr_bind restricted]
  intro body
  rw [within_check_bind, within_touch_bind, within_touch_bind]
  exact fun _ => ⟨text_inside restricted url (Nat.min_le_left _ _), text_within restricted body,
    httpReply_within restricted room out⟩

theorem int80NetDnsLookup_within : Within (Span.Inside lo hi) (int80NetDnsLookup m r) := by
  unfold int80NetDnsLookup text
  rw [within_check_bind]
  intro _
  rw [within_checkCstr_bind restricted]
  intro host
  rw [within_check_bind]
  intro _
  rw [within_checkRange_bind, within_touch_bind, within_touchIf]
  exact fun out => ⟨text_within restricted host,
    fun _ => inside_of_ok restricted out (by decide) (Nat.le_refl _)⟩

theorem int80DeskapiPush_within : Within (Span.Inside lo hi) (int80DeskapiPush m r) := by
  unfold int80DeskapiPush buffer
  rw [within_check_bind]
  intro _
  rw [within_checkRange_bind, within_touch]
  exact fun ok => buffer_within restricted (Nat.le_of_lt r.rsi.toNat_lt) ok

theorem int80DeskapiPop_within : Within (Span.Inside lo hi) (int80DeskapiPop m r) := by
  unfold int80DeskapiPop
  rw [within_check_bind]
  intro _
  rw [within_checkRange_bind]
  intro out
  rw [within_checkOptional_bind]
  intro count
  have result := fun there => optional_within restricted (by decide) count there
  split
  next len _ =>
    rw [within_check_bind]
    intro fits
    rw [within_touch_bind, within_touchIf]
    exact ⟨inside_of_ok restricted out (Nat.le_of_lt r.rsi.toNat_lt) fits, result⟩
  next => exact within_touchIf.2 result

theorem int80DialogPop_within : Within (Span.Inside lo hi) (int80DialogPop m r) := by
  unfold int80DialogPop
  rw [within_check_bind]
  intro _
  rw [within_check_bind]
  rintro ⟨_, room, _⟩
  rw [within_checkRange_bind]
  intro out
  rw [within_checkOptional_bind]
  intro code
  have result := fun there => optional_within restricted (by decide) code there
  split
  next len _ =>
    rw [within_touch_bind, within_touchIf]
    have cut := Nat.min_le_right len (r.rsi.toNat - 1)
    exact ⟨inside_of_ok restricted out (Nat.le_of_lt r.rsi.toNat_lt) (by omega), result⟩
  next => exact within_touchIf.2 result

theorem int80DialogPush_within : Within (Span.Inside lo hi) (int80DialogPush m r) := by
  unfold int80DialogPush
  rw [within_check_bind]
  intro _
  rw [within_check_bind]
  intro _
  rw [within_checkCstr_bind restricted, within_touch]
  exact fun ok => text_inside restricted ok (Nat.le_refl _)

theorem int80AudioPlay_within : Within (Span.Inside lo hi) (int80AudioPlay m r) := by
  unfold int80AudioPlay
  dsimp only
  rw [within_check_bind]
  intro _
  rw [within_checkRange_bind, within_touch]
  intro ok
  have samples := Nat.min_le_left (r.rsi.toNat % 2 ^ 32) ((m.answer .audioPlay).getD 0)
  have count := Nat.mod_lt r.rsi.toNat (show 0 < 2 ^ 32 by decide)
  exact inside_of_ok restricted ok (by omega) (by omega)

/-- An accepted `ioctl` stays inside exactly when the bytes it reaches are accepted too. -/
theorem int80Ioctl_within_iff : Within (Span.Inside lo hi) (int80Ioctl m r) ↔
    (r.rdx.toNat ≠ 0 → userPtrRangeOk m r.rdx.toNat 256 = true →
      userPtrRangeOk m r.rdx.toNat (fdIoctlReach m (asInt r.rdi) r.rsi) = true) := by
  have reach := fdIoctlReach_le m (asInt r.rdi) r.rsi
  unfold int80Ioctl
  rw [within_checkOptional_bind, fdIoctl_within_iff,
    userPtrRangeOk_iff restricted r.rdx.toNat_lt (Nat.le_trans reach (by decide))]
  constructor
  · exact fun rest there ok => rest (.inr ok) there
  · exact fun rest ok there => rest there (ok.resolve_left there)

/-- A null pointer stays inside exactly when nothing is copied. -/
theorem null_inside_iff {n : Nat} : Span.Inside lo hi ⟨0, n⟩ ↔ n = 0 := by
  have bounds := range_lt restricted
  rw [inside_iff]
  dsimp only
  omega

theorem caller_ne_none : m.caller ≠ none := by
  intro nobody
  unfold currentUserRange at restricted
  rw [nobody] at restricted
  cases restricted

theorem int80Getgroups_within_iff : Within (Span.Inside lo hi) (int80Getgroups m r) ↔
    (r.rdi.toNat = 0 → ∀ t, m.caller = some t → min t.ngroups (asInt r.rsi) ≤ 0) := by
  unfold int80Getgroups
  rw [within_check_bind]
  split
  next t there =>
    rw [within_touch, there]
    -- a null pointer passes without a check, every other one has been checked
    by_cases null : r.rdi.toNat = 0
    · rw [null, null_inside_iff restricted]
      constructor
      · intro none_ _ u same
        obtain rfl := Option.some.inj same
        have copied := none_ (.inl rfl)
        omega
      · intro none_ _
        have few := none_ rfl t rfl
        omega
    · refine ⟨fun _ zero => absurd zero null, fun _ ok => ?_⟩
      exact groups_within restricted (asInt_lt r.rsi) (Int.min_le_right _ _) (ok.resolve_left null)
  next nobody => exact absurd nobody (caller_ne_none restricted)

theorem int80Setgroups_within_iff : Within (Span.Inside lo hi) (int80Setgroups m r) ↔
    (r.rdi.toNat = 0 → asInt r.rsi ≤ 0) := by
  unfold int80Setgroups
  rw [within_check_bind]
  split
  next t there =>
    rw [within_touch]
    by_cases null : r.rdi.toNat = 0
    · rw [null, null_inside_iff restricted]
      constructor
      · intro none_ _
        have copied := none_ (.inl rfl)
        omega
      · intro few _
        have few := few rfl
        omega
    · refine ⟨fun _ zero => absurd zero null, fun _ ok => ?_⟩
      exact groups_within restricted (asInt_lt r.rsi) (Int.min_le_left _ _) (ok.resolve_left null)
  next nobody => exact absurd nobody (caller_ne_none restricted)

theorem int80Ufree_within_iff : Within (Span.Inside lo hi) (int80Ufree r) ↔
    (r.rdi.toNat ≠ 0 →
      userPtrRangeOk m ((r.rdi.toNat + (2 ^ 64 - 16)) % 2 ^ 64) 16 = true) := by
  unfold int80Ufree
  rw [within_check_bind, within_touch,
    userPtrRangeOk_iff restricted (Nat.mod_lt _ (by decide)) (by decide)]

end Calls

/-! ## The dispatcher -/

/-- What a call through `int 0x80` has to meet: the bytes an `ioctl` reaches are accepted and
not only the first 256, a null pointer comes with no groups to copy, and the header of a freed
block is accepted. -/
def Int80Meets (m : Machine) (r : Regs) : Prop :=
  match r.rax.toNat with
  | 84 =>
      r.rdx.toNat ≠ 0 → userPtrRangeOk m r.rdx.toNat 256 = true →
        userPtrRangeOk m r.rdx.toNat (fdIoctlReach m (asInt r.rdi) r.rsi) = true
  | 128 => r.rdi.toNat = 0 → ∀ t, m.caller = some t → min t.ngroups (asInt r.rsi) ≤ 0
  | 129 => r.rdi.toNat = 0 → asInt r.rsi ≤ 0
  | 151 =>
      r.rdi.toNat ≠ 0 → userPtrRangeOk m ((r.rdi.toNat + (2 ^ 64 - 16)) % 2 ^ 64) 16 = true
  | _ => True

/-- Every call but four checks what it touches. -/
theorem int80_checked (restricted : currentUserRange m = some (lo, hi))
    (other : r.rax.toNat ≠ 84 ∧ r.rax.toNat ≠ 128 ∧ r.rax.toNat ≠ 129 ∧ r.rax.toNat ≠ 151) :
    Within (Span.Inside lo hi) (syscallInt80Dispatch m r) := by
  unfold syscallInt80Dispatch
  -- in the order of the dispatcher
  split
  next => exact int80Write_within restricted
  next => exact namedCall_within restricted
  next => exact listCall_within restricted
  next => exact namedCall_within restricted
  next => exact textCall_within restricted
  next => exact twoTextCall_within restricted
  next => exact int80FsCreateFile_within restricted
  next => exact int80FsWriteFile_within restricted
  next => exact int80FsReadFile_within restricted
  next => exact int80FsListDir_within restricted
  next => exact textCall_within restricted
  next => exact twoTextCall_within restricted
  next => exact twoTextCall_within restricted
  next => exact recordCall_within restricted (by decide)
  next => exact int80KbdGetState_within restricted
  next => exact recordCall_within restricted (by decide)
  next => exact int80FbBlit32_within restricted
  next => exact recordCall_within restricted (by decide)
  next => exact driveListCall_within restricted
  next => exact driveListCall_within restricted
  next => exact sectorCall_within restricted
  next => exact sectorCall_within restricted
  next => exact recordCall_within restricted (by decide)
  next => exact int80Open_within restricted
  next => exact int80Read_within restricted
  next => exact int80WriteFd_within restricted
  next number => exact absurd number other.1
  next => exact int80NetPing_within restricted
  next => exact int80NetHttpGet_within restricted
  next => exact replyCall_within restricted
  next => exact int80NetHttpPost_within restricted
  next => exact tcpCall_within restricted
  next => exact tcpCall_within restricted
  next => exact int80NetDnsLookup_within restricted
  next => exact int80DeskapiPush_within restricted
  next => exact int80DeskapiPop_within restricted
  next => exact recordCall_within restricted (by decide)
  next => exact recordCall_within restricted (by decide)
  next => exact recordCall_within restricted (by decide)
  next => exact replyCall_within restricted
  next => exact int80DialogPop_within restricted
  next => exact int80DialogPush_within restricted
  next => exact listCall_within restricted
  next => exact textCall_within restricted
  next => exact textCall_within restricted
  next => exact int80Stat_within restricted
  next number => exact absurd number other.2.1
  next number => exact absurd number other.2.2.1
  next => exact twoTextCall_within restricted
  next => exact int80Getpw_within restricted
  next => exact int80Getid_within restricted
  next => exact int80Getpw_within restricted
  next => exact int80Getid_within restricted
  next => exact namedCall_within restricted
  next => exact int80AudioPlay_within restricted
  next number => exact absurd number other.2.2.2
  next => exact tcpCall_within restricted
  next => exact within_pure ()

/-- A call through `int 0x80` touches nothing outside the range exactly when it meets its
condition. -/
theorem int80_within_iff (restricted : currentUserRange m = some (lo, hi)) :
    Within (Span.Inside lo hi) (syscallInt80Dispatch m r) ↔ Int80Meets m r := by
  by_cases ioctl : r.rax.toNat = 84
  · unfold syscallInt80Dispatch Int80Meets
    rw [ioctl]
    exact int80Ioctl_within_iff restricted
  by_cases getgroups : r.rax.toNat = 128
  · unfold syscallInt80Dispatch Int80Meets
    rw [getgroups]
    exact int80Getgroups_within_iff restricted
  by_cases setgroups : r.rax.toNat = 129
  · unfold syscallInt80Dispatch Int80Meets
    rw [setgroups]
    exact int80Setgroups_within_iff restricted
  by_cases ufree : r.rax.toNat = 151
  · unfold syscallInt80Dispatch Int80Meets
    rw [ufree]
    exact int80Ufree_within_iff restricted
  refine iff_of_true (int80_checked restricted ⟨ioctl, getgroups, setgroups, ufree⟩) ?_
  unfold Int80Meets
  split
  next number => exact absurd number ioctl
  next number => exact absurd number getgroups
  next number => exact absurd number setgroups
  next number => exact absurd number ufree
  next => trivial

end NTux.Sys.UserMem
