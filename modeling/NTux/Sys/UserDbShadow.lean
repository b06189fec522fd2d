import NTux.Sys.UserDbText

/-!
# The hashes

`load_shadow` gives the hash of each line to the first user of the name.  The hashes are
read back exactly when every user with a hash has its line in the text, and no other user
whose line is there has its name (`loadShadow_eq_iff`).
-/

namespace NTux.Sys

open NTux.Lib.Fields

/-- The line of a user, without the newline. -/
def shadowLine (u : UserEntry) : CString := u.name ++ colon :: u.passwdHash

theorem shadow_text (users : List UserEntry) :
    (users.flatMap shadowFields).flatten = terminated newline (users.map shadowLine) := by
  induction users with
  | nil => rfl
  | cons u users ih =>
      rw [List.flatMap_cons, List.flatten_append, ih, List.map_cons, terminated_cons]
      simp [shadowFields, shadowLine]

/-- The number of users whose lines are whole in the first `n` bytes, but perhaps for the
newline. -/
def wholeLines (n : Nat) : List UserEntry → Nat
  | [] => 0
  | u :: us =>
      if (shadowLine u).length ≤ n then wholeLines (n - (shadowLine u).length - 1) us + 1 else 0

/-- Every user with a hash has its line in the first `n` bytes, and no other user whose line
is there has its name. -/
structure HashesKept (n : Nat) (users : List UserEntry) : Prop where
  rest : ∀ u ∈ users.drop (wholeLines n users), u.passwdHash = []
  whole : (users.take (wholeLines n users)).Pairwise fun u v =>
    u.name = v.name → u.passwdHash = [] ∧ v.passwdHash = []

/-- The names and hashes that are read from the first `n` bytes. -/
def entries (n : Nat) : List UserEntry → List (CString × CString)
  | [] => []
  | u :: us =>
      if (shadowLine u).length ≤ n then
        (u.name, u.passwdHash) :: entries (n - (shadowLine u).length - 1) us
      else if n ≤ u.name.length then []
      else [(u.name, u.passwdHash.take (n - u.name.length - 1))]

theorem shadowLine_length (u : UserEntry) :
    (shadowLine u).length = u.name.length + u.passwdHash.length + 1 := by
  simp [shadowLine, Nat.add_assoc]

theorem entries_eq {users : List UserEntry} (clean : ∀ u ∈ users, CleanUser u) (n : Nat) :
    (kept n (users.map shadowLine)).filterMap (cut colon) = entries n users := by
  induction users generalizing n with
  | nil => rfl
  | cons u users ih =>
      have notMem := (clean u (List.mem_cons_self ..)).name.1
      have rest := ih (fun u mem => clean u (List.mem_cons_of_mem _ mem))
        (n - (shadowLine u).length - 1)
      rw [List.map_cons, kept, entries]
      split
      · rw [List.filterMap_cons_some (show cut colon (shadowLine u) = _ from
          cut_append_cons notMem), rest]
      next gt =>
        split
        next zero => rw [zero, if_pos (Nat.zero_le _)]; rfl
        next pos =>
          split
          next before =>
            have none : cut colon ((shadowLine u).take n) = none := by
              refine cut_of_notMem fun mem => notMem ?_
              unfold shadowLine at mem
              rw [List.take_append_of_le_length before] at mem
              exact List.mem_of_mem_take mem
            rw [List.filterMap_cons_none none, List.filterMap_nil]
          next behind =>
            obtain ⟨k, rfl⟩ := Nat.exists_eq_add_of_lt (Nat.lt_of_not_le behind)
            have some : cut colon ((shadowLine u).take (u.name.length + k + 1)) =
                some (u.name, u.passwdHash.take k) := by
              unfold shadowLine
              rw [Nat.add_assoc, List.take_length_add_append, List.take_succ_cons,
                cut_append_cons notMem]
            rw [List.filterMap_cons_some some, List.filterMap_nil,
              show u.name.length + k + 1 - u.name.length - 1 = k by omega]

/-! ## Giving the hashes to the users -/

/-- The last hash among the entries of a name. -/
def lastHash (es : List (CString × CString)) (name hash : CString) : CString :=
  es.foldl (fun h r => if r.1 = name then field userMaxPass r.2 else h) hash

local instance lawfulName : LawfulBEq CString := inferInstance

/-- The entries for other names than those seen already. -/
def unseen (seen : List CString) (es : List (CString × CString)) : List (CString × CString) :=
  es.filter fun r => r.1 ∉ seen

/-- The hashes after all entries have been given to the users. -/
def setHashes (es : List (CString × CString)) (users : List UserEntry) : List UserEntry :=
  es.foldl (fun us r => setHash r.1 r.2 us) users

theorem setHashes_nil (es : List (CString × CString)) : setHashes es [] = [] := by
  induction es with
  | nil => rfl
  | cons r es ih => exact ih

/-- The first user gets the last hash of its name, and the entries of its name are used up. -/
theorem setHashes_cons (es : List (CString × CString)) (u : UserEntry) (us : List UserEntry) :
    setHashes es (u :: us) = { u with passwdHash := lastHash es u.name u.passwdHash } ::
      setHashes (es.filter fun r => r.1 ≠ u.name) us := by
  induction es generalizing u us with
  | nil => rfl
  | cons r es ih =>
      unfold setHashes lastHash at ih ⊢
      rw [List.foldl_cons, List.foldl_cons, setHash]
      by_cases same : r.1 = u.name
      · rw [if_pos same.symm, if_pos same, ih, List.filter_cons_of_neg (by simpa using same)]
      · rw [if_neg (Ne.symm same), if_neg same, ih, List.filter_cons_of_pos (by simpa using same),
          List.foldl_cons]

theorem unseen_cons (seen : List CString) (es : List (CString × CString)) (name : CString) :
    (unseen seen es).filter (fun r => r.1 ≠ name) = unseen (name :: seen) es := by
  unfold unseen
  rw [List.filter_filter]
  refine List.filter_congr fun r _ => ?_
  simp only [List.mem_cons, not_or, Bool.decide_and]

/-- Entries that say nothing new. -/
theorem lastHash_eq_of {es : List (CString × CString)} {name hash : CString}
    (same : ∀ r ∈ es, r.1 = name → field userMaxPass r.2 = hash) : lastHash es name hash = hash := by
  induction es with
  | nil => rfl
  | cons r es ih =>
      have rest := ih fun r mem => same r (List.mem_cons_of_mem _ mem)
      unfold lastHash at rest ⊢
      rw [List.foldl_cons]
      split
      next eq => rwa [same r (List.mem_cons_self ..) eq]
      · exact rest

/-- An entry without hash is among entries without hash. -/
theorem lastHash_eq_nil {es : List (CString × CString)} {name hash : CString}
    (none : ∀ r ∈ es, r.1 = name → r.2 = []) (some : ∃ r ∈ es, r.1 = name) :
    lastHash es name hash = [] := by
  induction es generalizing hash with
  | nil => exact absurd some (by simp)
  | cons r es ih =>
      have rest := fun r mem => none r (List.mem_cons_of_mem _ mem)
      unfold lastHash
      rw [List.foldl_cons]
      split
      next eq =>
        rw [none r (List.mem_cons_self ..) eq]
        exact lastHash_eq_of fun r mem eq => by rw [rest r mem eq]
      next ne =>
        refine ih rest ?_
        obtain ⟨r', mem, eq⟩ := some
        rcases List.mem_cons.1 mem with rfl | mem
        · exact absurd eq ne
        · exact ⟨r', mem, eq⟩

/-! ## The entries of the users -/

/-- An entry comes from a user, whose hash it begins. -/
theorem mem_entries {n : Nat} {users : List UserEntry} {r : CString × CString}
    (mem : r ∈ entries n users) : ∃ u ∈ users, r.1 = u.name ∧ r.2 <+: u.passwdHash := by
  induction users generalizing n with
  | nil => exact absurd mem (by simp [entries])
  | cons u us ih =>
      unfold entries at mem
      split at mem
      · rcases List.mem_cons.1 mem with rfl | mem
        · exact ⟨u, List.mem_cons_self .., rfl, List.prefix_rfl⟩
        · obtain ⟨v, mem, same⟩ := ih mem
          exact ⟨v, List.mem_cons_of_mem _ mem, same⟩
      · split at mem
        · exact absurd mem (by simp)
        · obtain rfl := List.mem_singleton.1 mem
          exact ⟨u, List.mem_cons_self .., rfl, List.take_prefix _ _⟩

/-- The users whose lines are whole have entries, -/
theorem entries_of_whole {n : Nat} {users : List UserEntry} {u : UserEntry}
    (mem : u ∈ users.take (wholeLines n users)) : (u.name, u.passwdHash) ∈ entries n users := by
  induction users generalizing n with
  | nil => exact absurd mem (by simp)
  | cons v us ih =>
      unfold wholeLines at mem
      unfold entries
      split at mem
      next le =>
        rw [if_pos le]
        rcases List.mem_cons.1 mem with rfl | mem
        · exact List.mem_cons_self ..
        · exact List.mem_cons_of_mem _ (ih mem)
      · exact absurd mem (by simp)

/-- and where the others have no hashes, only they have. -/
theorem whole_of_mem_entries {n : Nat} {users : List UserEntry} {r : CString × CString}
    (rest : ∀ u ∈ users.drop (wholeLines n users), u.passwdHash = [])
    (mem : r ∈ entries n users) :
    ∃ u ∈ users.take (wholeLines n users), r = (u.name, u.passwdHash) := by
  induction users generalizing n with
  | nil => exact absurd mem (by simp [entries])
  | cons v us ih =>
      unfold wholeLines at rest ⊢
      unfold entries at mem
      split at mem
      next le =>
        rw [if_pos le] at rest ⊢
        rcases List.mem_cons.1 mem with rfl | mem
        · exact ⟨v, List.mem_cons_self .., rfl⟩
        · obtain ⟨u, mem, eq⟩ := ih rest mem
          exact ⟨u, List.mem_cons_of_mem _ mem, eq⟩
      next gt =>
        rw [if_neg gt] at rest
        have none := rest v (List.mem_cons_self ..)
        rw [shadowLine_length, none, List.length_nil] at gt
        rw [if_pos (by omega)] at mem
        exact absurd mem (by simp)

theorem mem_unseen {seen : List CString} {es : List (CString × CString)} {r : CString × CString} :
    r ∈ unseen seen es ↔ r ∈ es ∧ r.1 ∉ seen := by
  simp [unseen]

theorem map_withoutHash_eq_iff {users : List UserEntry} :
    users.map withoutHash = users ↔ ∀ u ∈ users, u.passwdHash = [] := by
  induction users with
  | nil => simp
  | cons u us ih =>
      have head : withoutHash u = u ↔ u.passwdHash = [] := by
        refine ⟨fun eq => by rw [← eq]; rfl, fun eq => ?_⟩
        unfold withoutHash
        rw [← eq]
      rw [List.map_cons, List.cons.injEq, ih, head, List.forall_mem_cons]

/-- A name that is used up gets no hash. -/
theorem lastHash_unseen {seen : List CString} {es : List (CString × CString)} {name : CString}
    (mem : name ∈ seen) : lastHash (unseen seen es) name [] = [] :=
  lastHash_eq_of fun _ memR eq => absurd (eq ▸ mem) (mem_unseen.1 memR).2

section Step

variable {n : Nat} {u : UserEntry} {us : List UserEntry} (seen : List CString)

/-- The step for a user whose line is whole. -/
theorem setHashes_whole (le : (shadowLine u).length ≤ n) (short : u.passwdHash.length < userMaxPass)
    (rest : setHashes (unseen (u.name :: seen) (entries (n - (shadowLine u).length - 1) us))
        (us.map withoutHash) = us ↔
      HashesKept (n - (shadowLine u).length - 1) us ∧
        ∀ v ∈ us, v.name ∈ u.name :: seen → v.passwdHash = []) :
    (lastHash (unseen seen (entries n (u :: us))) u.name [] = u.passwdHash ∧
      setHashes (unseen (u.name :: seen) (entries n (u :: us))) (us.map withoutHash) = us) ↔
      HashesKept n (u :: us) ∧ ∀ v ∈ u :: us, v.name ∈ seen → v.passwdHash = [] := by
  have es : entries n (u :: us) =
      (u.name, u.passwdHash) :: entries (n - (shadowLine u).length - 1) us := by
    rw [entries, if_pos le]
  have lines : wholeLines n (u :: us) = wholeLines (n - (shadowLine u).length - 1) us + 1 := by
    rw [wholeLines, if_pos le]
  have tail : unseen (u.name :: seen) (entries n (u :: us)) =
      unseen (u.name :: seen) (entries (n - (shadowLine u).length - 1) us) := by
    rw [es, unseen, List.filter_cons_of_neg (by simp)]
    rfl
  rw [tail, rest, es]
  constructor
  · rintro ⟨last, kept, used⟩
    have later : ∀ v ∈ us, v.name = u.name → v.passwdHash = [] := fun v mem eq =>
      used v mem (eq ▸ List.mem_cons_self ..)
    have seenEarlier : u.name ∈ seen → u.passwdHash = [] := fun mem => by
      rw [← last, lastHash_unseen mem]
    refine ⟨⟨?_, ?_⟩, ?_⟩
    · rw [lines]
      exact kept.rest
    · rw [lines, List.take_succ_cons, List.pairwise_cons]
      refine ⟨fun v mem eq => ?_, kept.whole⟩
      have none := later v (List.mem_of_mem_take mem) eq.symm
      refine ⟨?_, none⟩
      by_cases mem' : u.name ∈ seen
      · exact seenEarlier mem'
      · -- the last entry of the name is one of a later user
        rw [← last, unseen, List.filter_cons_of_pos (by simpa using mem'), lastHash, List.foldl_cons,
          if_pos rfl]
        refine lastHash_eq_nil (fun r memR same => ?_) ⟨_, mem_unseen.2 ⟨entries_of_whole mem, ?_⟩,
          eq.symm⟩
        · obtain ⟨w, memW, name, hash⟩ := mem_entries (mem_unseen.1 memR).1
          rw [later w memW (name.symm.trans same)] at hash
          exact List.prefix_nil.1 hash
        · rwa [← eq]
    · intro v mem memSeen
      rcases List.mem_cons.1 mem with rfl | mem
      · exact seenEarlier memSeen
      · exact used v mem (List.mem_cons_of_mem _ memSeen)
  · rintro ⟨kept, used⟩
    have keptRest := kept.rest
    have keptWhole := kept.whole
    rw [lines] at keptRest keptWhole
    rw [List.take_succ_cons, List.pairwise_cons] at keptWhole
    rw [List.drop_succ_cons] at keptRest
    refine ⟨?_, ⟨keptRest, keptWhole.2⟩, fun v mem memSeen => ?_⟩
    · by_cases mem : u.name ∈ seen
      · rw [lastHash_unseen mem, used u (List.mem_cons_self ..) mem]
      · rw [unseen, List.filter_cons_of_pos (by simpa using mem), lastHash, List.foldl_cons,
          if_pos rfl]
        dsimp only
        rw [field_of_lt short]
        refine lastHash_eq_of fun r memR same => ?_
        obtain ⟨v, memV, rfl⟩ := whole_of_mem_entries keptRest (mem_unseen.1 memR).1
        obtain ⟨noneU, noneV⟩ := keptWhole.1 v memV same.symm
        rw [noneU, noneV]
        rfl
    · rcases List.mem_cons.1 memSeen with eq | memSeen
      · rw [← List.take_append_drop (wholeLines (n - (shadowLine u).length - 1) us) us] at mem
        rcases List.mem_append.1 mem with mem | mem
        · exact (keptWhole.1 v mem eq.symm).2
        · exact keptRest v mem
      · exact used v (List.mem_cons_of_mem _ mem) memSeen

/-- The step for a user whose line is not whole. -/
theorem setHashes_part (gt : ¬ (shadowLine u).length ≤ n)
    (short : u.passwdHash.length < userMaxPass) :
    (lastHash (unseen seen (entries n (u :: us))) u.name [] = u.passwdHash ∧
      setHashes (unseen (u.name :: seen) (entries n (u :: us))) (us.map withoutHash) = us) ↔
      HashesKept n (u :: us) ∧ ∀ v ∈ u :: us, v.name ∈ seen → v.passwdHash = [] := by
  have lines : wholeLines n (u :: us) = 0 := by
    rw [wholeLines, if_neg gt]
  have tail : unseen (u.name :: seen) (entries n (u :: us)) = [] := by
    rw [entries, if_neg gt]
    split <;> simp [unseen]
  have head : lastHash (unseen seen (entries n (u :: us))) u.name [] = u.passwdHash ↔
      u.passwdHash = [] := by
    rw [shadowLine_length] at gt
    constructor
    · intro eq
      by_contra some
      have pos := List.length_pos_iff.2 some
      have less : (lastHash (unseen seen (entries n (u :: us))) u.name []).length <
          u.passwdHash.length := by
        rw [entries, if_neg (by rwa [shadowLine_length])]
        split
        · simpa [unseen, lastHash] using pos
        · by_cases mem : u.name ∈ seen
          · rw [lastHash_unseen mem]
            exact pos
          · rw [unseen, List.filter_cons_of_pos (by simpa using mem)]
            simp only [List.filter_nil, lastHash, List.foldl_cons, List.foldl_nil, if_true, field,
              List.length_take]
            omega
      rw [eq] at less
      exact Nat.lt_irrefl _ less
    · intro none
      rw [none, List.length_nil] at gt
      rw [entries, if_neg (by rw [shadowLine_length, none, List.length_nil]; omega),
        if_pos (by omega), none]
      rfl
  have kept : HashesKept n (u :: us) ↔ ∀ v ∈ u :: us, v.passwdHash = [] := by
    refine ⟨fun kept => ?_, fun none => ⟨fun v mem => none v (List.mem_of_mem_drop mem), ?_⟩⟩
    · have rest := kept.rest
      rwa [lines, List.drop_zero] at rest
    · rw [lines]
      exact List.Pairwise.nil
  rw [tail, head, kept]
  show u.passwdHash = [] ∧ us.map withoutHash = us ↔ _
  have all := List.forall_mem_cons (p := fun v : UserEntry => v.passwdHash = []) (a := u) (l := us)
  rw [map_withoutHash_eq_iff, ← all]
  exact ⟨fun none => ⟨none, fun v mem _ => none v mem⟩, And.left⟩

end Step

/-- **The hashes of the users are the last of their names, the names in `seen` being used up,
exactly when they are kept.** -/
theorem setHashes_eq_iff (seen : List CString) (n : Nat) {users : List UserEntry}
    (sized : ∀ u ∈ users, u.passwdHash.length < userMaxPass) :
    setHashes (unseen seen (entries n users)) (users.map withoutHash) = users ↔
      HashesKept n users ∧ ∀ u ∈ users, u.name ∈ seen → u.passwdHash = [] := by
  induction users generalizing n seen with
  | nil =>
      rw [List.map_nil, setHashes_nil]
      exact iff_of_true rfl ⟨⟨by simp, by simp⟩, by simp⟩
  | cons u us ih =>
      have short := sized u (List.mem_cons_self ..)
      have rest := ih (u.name :: seen) (n - (shadowLine u).length - 1) fun u mem =>
        sized u (List.mem_cons_of_mem _ mem)
      have head : ∀ h tail, ({ withoutHash u with passwdHash := h } : UserEntry) :: tail = u :: us ↔
          h = u.passwdHash ∧ tail = us := by
        intro h tail
        rw [List.cons.injEq]
        refine and_congr_left fun _ => ⟨fun eq => congrArg UserEntry.passwdHash eq, ?_⟩
        rintro rfl
        rfl
      rw [List.map_cons, setHashes_cons, head, unseen_cons]
      show lastHash _ u.name [] = _ ∧ setHashes (unseen (u.name :: seen) _) _ = us ↔ _
      by_cases le : (shadowLine u).length ≤ n
      · exact setHashes_whole seen le short rest
      · exact setHashes_part seen le short

/-- **The hashes are read back exactly when they are kept.** -/
theorem loadShadow_eq_iff {users : List UserEntry} (clean : ∀ u ∈ users, CleanUser u)
    (sized : ∀ u ∈ users, SizedUser u) :
    loadShadow (emitAll (users.flatMap shadowFields)) (users.map withoutHash) = users ↔
      HashesKept bufLimit users := by
  have lines : ∀ p ∈ users.map shadowLine, newline ∉ p ∧ p ≠ [] := by
    intro p mem
    obtain ⟨u, mem', rfl⟩ := List.mem_map.1 mem
    have ne : newline ≠ colon := by decide
    have some : shadowLine u ≠ [] := by simp [shadowLine]
    exact ⟨by simp [shadowLine, (clean u mem').name.2, (clean u mem').passwdHash, ne], some⟩
  have iff := setHashes_eq_iff [] bufLimit fun u mem => (sized u mem).passwdHash
  have all : unseen [] (entries bufLimit users) = entries bufLimit users := by
    unfold unseen
    exact List.filter_eq_self.2 fun r _ => by simp
  rw [all] at iff
  unfold loadShadow
  rw [emitAll_eq, shadow_text, pieces_take_terminated _ _ lines, entries_eq clean]
  show setHashes _ _ = _ ↔ _
  rw [iff]
  exact and_iff_left fun u _ mem => absurd mem (by simp)

end NTux.Sys
