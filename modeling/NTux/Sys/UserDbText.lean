import NTux.Sys.UserDb

/-!
# What the texts of the user database are read as

The three texts are the first 4090 bytes of lines (`passwd_text`, `shadow_text`,
`group_text`).  The lines of `/etc/passwd` and `/etc/group` are read as what they were
written for exactly when at most the last newline is missing; of a line cut off earlier
something else is read, or nothing.
-/

namespace NTux.Sys

open NTux.Lib.Fields

/-! ## The writer -/

theorem emit_eq {buf s : CString} (le : buf.length ≤ bufLimit) :
    emit buf s = (buf ++ s).take bufLimit := by
  rw [List.take_append, List.take_of_length_le le]
  rfl

theorem foldl_emit (fields : List CString) {buf : CString} (le : buf.length ≤ bufLimit) :
    fields.foldl emit buf = (buf ++ fields.flatten).take bufLimit := by
  induction fields generalizing buf with
  | nil => simp [List.take_of_length_le le]
  | cons s fields ih =>
      have taken : (emit buf s).length ≤ bufLimit := by
        rw [emit_eq le]
        exact List.length_take_le _ _
      rw [List.foldl_cons, ih taken, emit_eq le, take_append_take, List.flatten_cons,
        List.append_assoc]

theorem emitAll_eq (fields : List CString) : emitAll fields = fields.flatten.take bufLimit :=
  foldl_emit fields (Nat.zero_le _)

/-! ## Numbers -/

theorem utoaDigits_digit {k val : Nat} {c : UInt8} (mem : c ∈ utoaDigits k val) :
    48 ≤ c ∧ c ≤ 57 := by
  induction k generalizing val with
  | zero => exact absurd mem (by simp [utoaDigits])
  | succ k ih =>
      unfold utoaDigits at mem
      split at mem
      · exact absurd mem (by simp)
      · rcases List.mem_cons.1 mem with rfl | mem
        · have lt := Nat.mod_lt val (show 0 < 10 by decide)
          generalize val % 10 = m at lt
          revert m
          decide
        · exact ih mem

theorem utoa_digit {v : UInt32} {c : UInt8} (mem : c ∈ utoa v) : 48 ≤ c ∧ c ≤ 57 := by
  unfold utoa at mem
  split at mem
  · obtain rfl := List.mem_singleton.1 mem
    decide
  · exact utoaDigits_digit (List.mem_reverse.1 mem)

theorem newline_notMem_utoa (v : UInt32) : newline ∉ utoa v := fun mem =>
  absurd (utoa_digit mem) (by decide)

theorem comma_notMem_utoa (v : UInt32) : comma ∉ utoa v := fun mem =>
  absurd (utoa_digit mem) (by decide)

theorem colon_notMem_utoa (v : UInt32) : colon ∉ utoa v := fun mem =>
  absurd (utoa_digit mem) (by decide)

theorem toNat_pos {v : UInt32} (ne : v ≠ 0) : v.toNat ≠ 0 := fun eq =>
  ne (UInt32.toNat_inj.1 eq)

theorem utoa_ne_nil (v : UInt32) : utoa v ≠ [] := by
  unfold utoa
  split
  · simp
  next ne =>
    rw [utoaDigits, if_neg (toNat_pos ne)]
    simp

theorem strtol_concat {s : CString} {d : Nat} (lt : d < 10) (small : strtol s * 10 + d < 2 ^ 64) :
    strtol (s ++ [UInt8.ofNat (48 + d)]) = strtol s * 10 + d := by
  have digit : 48 ≤ UInt8.ofNat (48 + d) ∧ UInt8.ofNat (48 + d) ≤ 57 ∧
      (UInt8.ofNat (48 + d)).toNat - 48 = d := by
    clear small
    revert d
    decide
  unfold strtol at small ⊢
  rw [List.foldl_append, List.foldl_cons, List.foldl_nil, if_pos ⟨digit.1, digit.2.1⟩, digit.2.2,
    Nat.mod_eq_of_lt small]

/-- A number is read back, -/
theorem strtol_utoaDigits (k val : Nat) (lt : val < 10 ^ k) (small : val < 2 ^ 64) :
    strtol (utoaDigits k val).reverse = val := by
  induction k generalizing val with
  | zero =>
      obtain rfl : val = 0 := by omega
      rfl
  | succ k ih =>
      unfold utoaDigits
      split
      next zero => rw [zero]; rfl
      next pos =>
        have rest := ih (val / 10) (by rw [Nat.pow_succ] at lt; omega) (by omega)
        rw [List.reverse_cons, strtol_concat (Nat.mod_lt _ (by decide)) (by omega), rest]
        omega

/-- and the beginning of a number is read as a smaller one. -/
theorem strtol_prefix_le (k val : Nat) (lt : val < 10 ^ k) (small : val < 2 ^ 64) {s : CString}
    (pre : s <+: (utoaDigits k val).reverse) (ne : s ≠ (utoaDigits k val).reverse) :
    strtol s ≤ val / 10 := by
  induction k generalizing val with
  | zero => exact absurd (List.prefix_nil.1 pre) ne
  | succ k ih =>
      unfold utoaDigits at pre ne
      split at pre
      next zero => exact absurd (List.prefix_nil.1 pre) (by rwa [if_pos zero] at ne)
      next pos =>
        rw [if_neg pos] at ne
        rw [List.reverse_cons] at pre ne
        have less : val / 10 < 10 ^ k := by
          rw [Nat.pow_succ] at lt
          omega
        rcases List.prefix_concat_iff.1 pre with rfl | pre
        · exact absurd rfl ne
        · by_cases eq : s = (utoaDigits k (val / 10)).reverse
          · exact Nat.le_of_eq (by rw [eq, strtol_utoaDigits k _ less (by omega)])
          · have le := ih (val / 10) less (by omega) pre eq
            omega

theorem number_utoa (v : UInt32) : number (utoa v) = v := by
  have lt := v.toNat_lt
  unfold number utoa
  split
  next zero => rw [zero]; rfl
  next ne =>
    rw [strtol_utoaDigits 15 _ (by omega) (by omega)]
    exact UInt32.ofNat_toNat

/-- A number that has been cut off is not the number. -/
theorem number_prefix_ne {v : UInt32} {s : CString} (pre : s <+: utoa v) (ne : s ≠ utoa v)
    (some : s ≠ []) : number s ≠ v := by
  have lt := v.toNat_lt
  unfold utoa at pre ne
  split at pre
  next zero =>
    rw [if_pos zero] at ne
    rw [← List.nil_append [48], List.prefix_concat_iff, List.prefix_nil] at pre
    rcases pre with eq | eq
    · exact absurd eq ne
    · exact absurd eq some
  next pos =>
    rw [if_neg pos] at ne
    have le := strtol_prefix_le 15 v.toNat (by omega) (by omega) pre ne
    intro eq
    have value := congrArg UInt32.toNat eq
    unfold number at value
    rw [UInt32.toNat_ofNat_of_lt' (show strtol s < 2 ^ 32 by omega)] at value
    have := toNat_pos pos
    omega

/-- The numbers of a list that has been cut off are not those of the list. -/
theorem members_prefix_ne (ms : List UInt32) {s : CString} {n : Nat} (all : ms.length ≤ n)
    (pre : s <+: ((ms.map utoa).intersperse [comma]).flatten)
    (ne : s ≠ ((ms.map utoa).intersperse [comma]).flatten) :
    ((pieces comma s).map number).take n ≠ ms := by
  induction ms generalizing s n with
  | nil => exact absurd (List.prefix_nil.1 pre) ne
  | cons m ms ih =>
      obtain ⟨n, rfl⟩ : ∃ k, n = k + 1 := ⟨n - 1, by rw [List.length_cons] at all; omega⟩
      rw [List.length_cons, Nat.add_le_add_iff_right] at all
      have short : s <+: utoa m → s ≠ utoa m → ((pieces comma s).map number).take (n + 1) ≠ m :: ms := by
        intro pre ne
        by_cases nil : s = []
        · simp [nil, pieces]
        · have notMem : comma ∉ s := fun mem => comma_notMem_utoa m (pre.subset mem)
          rw [pieces_of_notMem notMem nil]
          intro eq
          exact number_prefix_ne pre ne nil (List.cons.inj eq).1
      cases ms with
      | nil => exact short (by simpa using pre) (by simpa using ne)
      | cons m' ms =>
          simp only [List.map_cons, List.intersperse_cons_cons, List.flatten_cons,
            List.singleton_append] at pre ne ih
          rcases List.prefix_or_prefix_of_prefix pre (List.prefix_append (utoa m) _) with
            inside | ⟨rest, rfl⟩
          · by_cases eq : s = utoa m
            · rw [eq, pieces_of_notMem (comma_notMem_utoa m) (utoa_ne_nil m)]
              simp
            · exact short inside eq
          · rw [List.prefix_append_right_inj] at pre
            rw [ne_eq, List.append_cancel_left_eq] at ne
            cases rest with
            | nil =>
                rw [List.append_nil, pieces_of_notMem (comma_notMem_utoa m) (utoa_ne_nil m)]
                simp
            | cons x rest =>
                obtain ⟨rfl, inner⟩ := List.cons_prefix_cons.1 pre
                rw [pieces_append_cons (comma_notMem_utoa m), List.map_cons, List.take_succ_cons]
                intro eq
                exact ih all inner (fun eq => ne (by rw [eq])) (List.cons.inj eq).2

/-! ## `/etc/passwd` -/

/-- The line of a user, without the newline. -/
def userLine (u : UserEntry) : CString :=
  u.name ++ colon :: (utoa u.uid ++ colon :: (utoa u.gid ++ colon :: (u.home ++ colon :: u.shell)))

/-- The fields of a user can be told apart in the texts. -/
structure CleanUser (u : UserEntry) : Prop where
  name : colon ∉ u.name ∧ newline ∉ u.name
  home : colon ∉ u.home ∧ newline ∉ u.home
  shell : newline ∉ u.shell
  passwdHash : newline ∉ u.passwdHash

/-- The fields of a user fit into `user_entry_t`. -/
structure SizedUser (u : UserEntry) : Prop where
  name : u.name.length < userMaxName
  home : u.home.length < userMaxName
  shell : u.shell.length < userMaxName
  passwdHash : u.passwdHash.length < userMaxPass

/-- The user as `load_passwd` leaves it. -/
def withoutHash (u : UserEntry) : UserEntry := { u with passwdHash := [] }

theorem field_of_lt {cap : Nat} {s : CString} (lt : s.length < cap) : field cap s = s :=
  List.take_of_length_le (by omega)

theorem passwd_text (users : List UserEntry) :
    (users.flatMap passwdFields).flatten = terminated newline (users.map userLine) := by
  induction users with
  | nil => rfl
  | cons u users ih =>
      rw [List.flatMap_cons, List.flatten_append, ih, List.map_cons, terminated_cons]
      simp [passwdFields, userLine]

theorem passwdLine_userLine {u : UserEntry} (clean : CleanUser u) :
    passwdLine (userLine u) = some (u.name, utoa u.uid, utoa u.gid, u.home, u.shell) := by
  unfold passwdLine userLine
  simp only [cut_append_cons clean.name.1, cut_append_cons (colon_notMem_utoa _),
    cut_append_cons clean.home.1, Option.bind_eq_bind, Option.bind_some]

theorem passwdLine_append {p name uid gid home shell : CString}
    (eq : passwdLine p = some (name, uid, gid, home, shell)) (t : CString) :
    passwdLine (p ++ t) = some (name, uid, gid, home, shell ++ t) := by
  unfold passwdLine at eq ⊢
  simp only [Option.bind_eq_bind, Option.bind_eq_some_iff, Prod.exists, Option.some.injEq,
    Prod.mk.injEq] at eq
  obtain ⟨_, r₁, cut₁, _, r₂, cut₂, _, r₃, cut₃, _, _, cut₄, rfl, rfl, rfl, rfl, rfl⟩ := eq
  simp only [cut_append cut₁, cut_append cut₂, cut_append cut₃, cut_append cut₄,
    Option.bind_eq_bind, Option.bind_some]

theorem parseUser_userLine {u : UserEntry} (clean : CleanUser u) (sized : SizedUser u) :
    parseUser (userLine u) = some (withoutHash u) := by
  unfold parseUser
  rw [passwdLine_userLine clean]
  simp only [Option.map_some, field_of_lt sized.name, field_of_lt sized.home,
    field_of_lt sized.shell, number_utoa, withoutHash]

/-- The shell is the last field, and is shorter in the beginning of a line. -/
theorem parseUser_take_ne {u : UserEntry} (clean : CleanUser u) {k : Nat}
    (lt : k < (userLine u).length) : parseUser ((userLine u).take k) ≠ some (withoutHash u) := by
  intro eq
  unfold parseUser at eq
  obtain ⟨⟨name, uid, gid, home, shell⟩, line, same⟩ := Option.map_eq_some_iff.1 eq
  have whole := passwdLine_append line ((userLine u).drop k)
  rw [List.take_append_drop, passwdLine_userLine clean] at whole
  have shells := congrArg (fun r => r.2.2.2.2) (Option.some.inj whole)
  have taken := congrArg UserEntry.shell same
  dsimp only [withoutHash] at shells taken
  have lengths := congrArg List.length shells
  rw [List.length_append, List.length_drop] at lengths
  have short := congrArg List.length taken
  rw [field, List.length_take] at short
  omega

theorem newline_notMem_userLine {u : UserEntry} (clean : CleanUser u) : newline ∉ userLine u := by
  unfold userLine
  have ne : newline ≠ colon := by decide
  simp [clean.name.2, clean.home.2, clean.shell, newline_notMem_utoa, ne]

theorem userLine_ne_nil (u : UserEntry) : userLine u ≠ [] := by
  simp [userLine]

/-- **The users are read back, but for their hashes, exactly when the text fits.** -/
theorem loadPasswd_eq_iff {users : List UserEntry} (clean : ∀ u ∈ users, CleanUser u)
    (sized : ∀ u ∈ users, SizedUser u) (few : users.length ≤ userDbMax) :
    loadPasswd (emitAll (users.flatMap passwdFields)) = users.map withoutHash ↔
      (users.flatMap passwdFields).flatten.length ≤ bufLimit + 1 := by
  have lines : ∀ p ∈ users.map userLine, newline ∉ p ∧ p ≠ [] := by
    intro p mem
    obtain ⟨u, mem', rfl⟩ := List.mem_map.1 mem
    exact ⟨newline_notMem_userLine (clean u mem'), userLine_ne_nil u⟩
  have count : ((kept bufLimit (users.map userLine)).filterMap parseUser).length ≤ userDbMax := by
    refine Nat.le_trans (List.length_filterMap_le _ _) (Nat.le_trans (kept_length _ _) ?_)
    rwa [List.length_map]
  unfold loadPasswd
  rw [emitAll_eq, passwd_text, pieces_take_terminated _ _ lines, List.take_of_length_le count]
  exact filterMap_kept_eq_iff bufLimit users (fun u _ => userLine_ne_nil u)
    (fun u mem => parseUser_userLine (clean u mem) (sized u mem))
    fun u mem k lt => parseUser_take_ne (clean u mem) lt

/-! ## `/etc/group` -/

/-- The line of a group, without the newline. -/
def groupEntryLine (g : GroupEntry) : CString :=
  g.name ++ colon :: (utoa g.gid ++ colon :: ((g.members.map utoa).intersperse [comma]).flatten)

/-- The name of a group can be told apart in the text. -/
def CleanGroup (g : GroupEntry) : Prop := colon ∉ g.name ∧ newline ∉ g.name

/-- The fields of a group fit into `group_entry_t`. -/
structure SizedGroup (g : GroupEntry) : Prop where
  name : g.name.length < userMaxName
  members : g.members.length ≤ userMaxGroups

theorem group_text (groups : List GroupEntry) :
    (groups.flatMap groupFields).flatten = terminated newline (groups.map groupEntryLine) := by
  induction groups with
  | nil => rfl
  | cons g groups ih =>
      rw [List.flatMap_cons, List.flatten_append, ih, List.map_cons, terminated_cons]
      simp [groupFields, groupEntryLine]

theorem groupLine_groupEntryLine {g : GroupEntry} (clean : CleanGroup g) :
    groupLine (groupEntryLine g) =
      some (g.name, utoa g.gid, ((g.members.map utoa).intersperse [comma]).flatten) := by
  unfold groupLine groupEntryLine
  simp only [cut_append_cons clean.1, cut_append_cons (colon_notMem_utoa _),
    Option.bind_eq_bind, Option.bind_some]

theorem groupLine_append {p name gid members : CString}
    (eq : groupLine p = some (name, gid, members)) (t : CString) :
    groupLine (p ++ t) = some (name, gid, members ++ t) := by
  unfold groupLine at eq ⊢
  simp only [Option.bind_eq_bind, Option.bind_eq_some_iff, Prod.exists, Option.some.injEq,
    Prod.mk.injEq] at eq
  obtain ⟨_, r₁, cut₁, _, r₂, cut₂, rfl, rfl, rfl⟩ := eq
  simp only [cut_append cut₁, cut_append cut₂, Option.bind_eq_bind, Option.bind_some]

theorem parseGroup_groupEntryLine {g : GroupEntry} (clean : CleanGroup g) (sized : SizedGroup g) :
    parseGroup (groupEntryLine g) = some g := by
  unfold parseGroup
  have numbers : (g.members.map utoa).map number = g.members := by
    rw [List.map_map, show number ∘ utoa = id from funext number_utoa, List.map_id]
  rw [groupLine_groupEntryLine clean, Option.map_some]
  dsimp only
  rw [pieces_intersperse, numbers, field_of_lt sized.name, number_utoa,
    List.take_of_length_le sized.members]
  intro p mem
  obtain ⟨v, -, rfl⟩ := List.mem_map.1 mem
  exact ⟨comma_notMem_utoa v, utoa_ne_nil v⟩

/-- The members are the last field, and are not read from the beginning of a line. -/
theorem parseGroup_take_ne {g : GroupEntry} (clean : CleanGroup g) (sized : SizedGroup g) {k : Nat}
    (lt : k < (groupEntryLine g).length) : parseGroup ((groupEntryLine g).take k) ≠ some g := by
  intro eq
  unfold parseGroup at eq
  obtain ⟨⟨name, gid, members⟩, line, same⟩ := Option.map_eq_some_iff.1 eq
  have whole := groupLine_append line ((groupEntryLine g).drop k)
  rw [List.take_append_drop, groupLine_groupEntryLine clean] at whole
  have text := congrArg (fun r => r.2.2) (Option.some.inj whole)
  dsimp only at text
  refine members_prefix_ne g.members sized.members ⟨_, text.symm⟩ ?_
    (congrArg GroupEntry.members same)
  intro eq
  have lengths := congrArg List.length text
  rw [← eq, List.length_append, List.length_drop] at lengths
  omega

theorem newline_notMem_groupEntryLine {g : GroupEntry} (clean : CleanGroup g) :
    newline ∉ groupEntryLine g := by
  have ne : newline ≠ colon := by decide
  have members : newline ∉ ((g.members.map utoa).intersperse [comma]).flatten := by
    induction g.members with
    | nil => simp
    | cons m ms ih =>
        cases ms with
        | nil => simpa using newline_notMem_utoa m
        | cons m' ms =>
            have ne : newline ≠ comma := by decide
            rw [List.map_cons, List.map_cons, List.intersperse_cons_cons, ← List.map_cons,
              List.flatten_cons, List.flatten_cons, List.mem_append, List.mem_append]
            simp only [newline_notMem_utoa, List.mem_singleton, ne, ih, or_self, not_false_eq_true]
  unfold groupEntryLine
  simp [clean.2, newline_notMem_utoa, ne, members]

theorem groupEntryLine_ne_nil (g : GroupEntry) : groupEntryLine g ≠ [] := by
  simp [groupEntryLine]

/-- **The groups are read back exactly when the text fits.** -/
theorem loadGroup_eq_iff {groups : List GroupEntry} (clean : ∀ g ∈ groups, CleanGroup g)
    (sized : ∀ g ∈ groups, SizedGroup g) (few : groups.length ≤ userDbMax) :
    loadGroup (emitAll (groups.flatMap groupFields)) = groups ↔
      (groups.flatMap groupFields).flatten.length ≤ bufLimit + 1 := by
  have lines : ∀ p ∈ groups.map groupEntryLine, newline ∉ p ∧ p ≠ [] := by
    intro p mem
    obtain ⟨g, mem', rfl⟩ := List.mem_map.1 mem
    exact ⟨newline_notMem_groupEntryLine (clean g mem'), groupEntryLine_ne_nil g⟩
  have count : ((kept bufLimit (groups.map groupEntryLine)).filterMap parseGroup).length ≤
      userDbMax := by
    refine Nat.le_trans (List.length_filterMap_le _ _) (Nat.le_trans (kept_length _ _) ?_)
    rwa [List.length_map]
  have read := filterMap_kept_eq_iff (c := newline) (f := id) bufLimit groups
    (fun g _ => groupEntryLine_ne_nil g)
    (fun g mem => parseGroup_groupEntryLine (clean g mem) (sized g mem))
    fun g mem k lt => parseGroup_take_ne (clean g mem) (sized g mem) lt
  unfold loadGroup
  rw [emitAll_eq, group_text, pieces_take_terminated _ _ lines, List.take_of_length_le count,
    ← read, List.map_id]

end NTux.Sys
