import Mathlib.Data.List.Nodup

/-!
# Lists searched by a key

A table that is a list of entries, of which the first one with a given property is looked
up, and is removed by closing the gap.
-/

namespace NTux.Lib.KeyedLists

universe u v

variable {α : Type u} {κ : Type v}

/-- Removing the first entry that `p` accepts changes no search that passes over that entry. -/
theorem find?_eraseP {l : List α} {p q : α → Bool} {gone : α} (found : l.find? p = some gone)
    (passed : q gone = false) : (l.eraseP p).find? q = l.find? q := by
  induction l with
  | nil => rfl
  | cons x xs ih =>
      by_cases accepts : p x = true
      · rw [List.find?_cons_of_pos accepts] at found
        obtain rfl := Option.some.inj found
        rw [List.eraseP_cons_of_pos accepts, List.find?_cons_of_neg (by simp [passed])]
      · rw [List.find?_cons_of_neg accepts] at found
        rw [List.eraseP_cons_of_neg accepts, List.find?_cons, List.find?_cons, ih found]

/-- Where no two entries have the same key, the entry of a key is the one that is found. -/
theorem find?_key_iff [DecidableEq κ] {key : α → κ} {l : List α} (distinct : (l.map key).Nodup)
    {k : κ} {x : α} : l.find? (fun y => key y = k) = some x ↔ x ∈ l ∧ key x = k := by
  induction l with
  | nil => simp
  | cons y ys ih =>
      rw [List.map_cons, List.nodup_cons] at distinct
      by_cases same : key y = k
      · rw [List.find?_cons_of_pos (by simpa using same), Option.some.injEq]
        constructor
        · rintro rfl
          exact ⟨List.mem_cons_self, same⟩
        · rintro ⟨mem, eq⟩
          rcases List.mem_cons.1 mem with rfl | later
          · rfl
          · exact absurd (same.trans eq.symm ▸ List.mem_map_of_mem later) distinct.1
      · rw [List.find?_cons_of_neg (by simpa using same), ih distinct.2, List.mem_cons]
        constructor
        · exact fun ⟨mem, eq⟩ => ⟨.inr mem, eq⟩
        · rintro ⟨rfl | later, eq⟩
          · exact absurd eq same
          · exact ⟨later, eq⟩

/-- Removing an entry leaves the keys distinct. -/
theorem nodup_eraseP {key : α → κ} {l : List α} (distinct : (l.map key).Nodup) (p : α → Bool) :
    ((l.eraseP p).map key).Nodup :=
  distinct.sublist ((List.eraseP_sublist).map key)

/-- Where no two entries have the same key, the key is gone with the entry. -/
theorem find?_key_eraseP [DecidableEq κ] {key : α → κ} {l : List α}
    (distinct : (l.map key).Nodup) (k : κ) :
    (l.eraseP fun x => key x = k).find? (fun x => key x = k) = none := by
  cases again : (l.eraseP fun x => key x = k).find? fun x => key x = k with
  | none => rfl
  | some x =>
      obtain ⟨mem, rfl⟩ := (find?_key_iff (nodup_eraseP distinct _)).1 again
      obtain ⟨y, front, back, -, same, rfl, erased⟩ :=
        List.exists_of_eraseP (p := fun z => decide (key z = key x))
          (List.mem_of_mem_eraseP mem) (decide_eq_true rfl)
      rw [erased] at mem
      rw [List.map_append, List.map_cons, List.nodup_append, List.nodup_cons] at distinct
      have named : key y = key x := of_decide_eq_true same
      rcases List.mem_append.1 mem with early | late
      · exact absurd named.symm
          (distinct.2.2 _ (List.mem_map_of_mem early) _ List.mem_cons_self)
      · exact absurd (named ▸ List.mem_map_of_mem late) distinct.2.1.1

/-- An entry put at the end leaves the keys distinct exactly when its key is new. -/
theorem nodup_concat_iff {key : α → κ} {l : List α} {x : α} :
    ((l ++ [x]).map key).Nodup ↔ (l.map key).Nodup ∧ key x ∉ l.map key := by
  rw [List.map_append, List.map_singleton, List.nodup_append_comm, List.singleton_append,
    List.nodup_cons, and_comm]

end NTux.Lib.KeyedLists
