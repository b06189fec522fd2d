import NTux.Libc.Paths
import NTux.Libc.Format

/-!
# Relative paths

`ntux_resolve_path` of `libc/unistd.c`, on which `chdir`, `unlink` and `opendir` rest.  The
working directory and a relative path are put together by `snprintf` in a buffer of 256
bytes, and what is stored there is normalised; that `snprintf` returns the length of the whole
text is not looked at.

`resolve_path_iff` says for which directories and paths the result is a failure or the normal
form of the whole text.
-/

namespace NTux.Libc

open NTux.Fs

/-- `NTUX_PATH_MAX`. -/
def pathMax : Nat := 256

/-- The arguments of the call of `snprintf`. -/
def joinArgs (cwd path : CString) : Nat → Arg
  | 0 => ⟨0, some cwd⟩
  | _ => ⟨0, some path⟩

/-- `ntux_resolve_path`, where `cwd` is what `g_cwd` holds. -/
def ntuxResolvePath (cwd path : CString) (cap : Nat) : Option CString :=
  if cap = 0 then none
  else if path.head? = some slash then normalizePath cap path
  else if cwd.length = 0 ∨ pathMax ≤ cwd.length then none
  else
    let tmp := vsnprintf pathMax (text "%s/%s") (joinArgs cwd path)
    -- the text in `tmp` is what stands before the zero at its end
    if tmp.2 ≤ 0 then none else normalizePath cap tmp.1.dropLast

/-- The working directory and the path with a slash between them. -/
def joined (cwd path : CString) : CString := cwd ++ slash :: path

/-- What `normalize_path` makes of a text with room enough. -/
def NormalForm (path out : CString) : Prop := ∃ room, normalizePath room path = some out

/-- A relative path is resolved whole, or not at all. -/
def ResolvesWhole (cwd path : CString) (cap : Nat) : Prop :=
  path.head? ≠ some slash →
    ∀ out, ntuxResolvePath cwd path cap = some out → NormalForm (joined cwd path) out

/-- Two texts with one normal form: the same names, and a slash behind them in both or in
none. -/
def SamePlace (p q : CString) : Prop := names p = names q ∧ (EndsBelowRoot p ↔ EndsBelowRoot q)

/-- The text is put together, is longer than 255 bytes, and its first 255 bytes fit where the
result goes and lead to another place. -/
structure CutAstray (cwd path : CString) (cap : Nat) : Prop where
  relative : path.head? ≠ some slash
  cwdSome : cwd ≠ []
  cwdShort : cwd.length < pathMax
  counted : 0 < int32 (joined cwd path).length
  long : pathMax ≤ (joined cwd path).length
  fits : Fits cap ((joined cwd path).take (pathMax - 1))
  astray : ¬SamePlace ((joined cwd path).take (pathMax - 1)) (joined cwd path)

/-! ## The text -/

theorem formatted_join (cwd path : CString) :
    formatted (text "%s/%s") (joinArgs cwd path) = joined cwd path := by
  have out : formatted (text "%s/%s") (joinArgs cwd path) =
      path.foldl (fun s c => s ++ [c])
        ([slash].foldl (fun s c => s ++ [c]) (cwd.foldl (fun s c => s ++ [c]) [])) := rfl
  rw [out, foldl_snoc, foldl_snoc, foldl_snoc, joined]
  simp

/-- A relative path is normalised behind the working directory, as far as the buffer goes. -/
theorem resolve_relative {cwd path : CString} {cap : Nat} (relative : path.head? ≠ some slash) :
    ntuxResolvePath cwd path cap =
      if cap = 0 ∨ cwd = [] ∨ pathMax ≤ cwd.length ∨ int32 (joined cwd path).length ≤ 0 then none
      else normalizePath cap ((joined cwd path).take (pathMax - 1)) := by
  have stored : (vsnprintf pathMax (text "%s/%s") (joinArgs cwd path)) =
      ((joined cwd path).take (pathMax - 1) ++ [0], int32 (joined cwd path).length) := by
    rw [vsnprintf_eq, formatted_join, if_pos (by decide)]
  rw [ntuxResolvePath, stored]
  generalize int32 (joined cwd path).length = count
  simp only [List.dropLast_concat, if_neg relative, List.length_eq_zero_iff]
  by_cases zero : cap = 0
  · simp [zero]
  · by_cases bad : cwd = [] ∨ pathMax ≤ cwd.length
    · rw [if_neg zero, if_pos bad, if_pos]
      rcases bad with bad | bad
      · exact .inr (.inl bad)
      · exact .inr (.inr (.inl bad))
    · rw [not_or] at bad
      rw [if_neg zero, if_neg (not_or.mpr bad)]
      by_cases empty : count ≤ 0
      · rw [if_pos empty, if_pos (.inr (.inr (.inr empty)))]
      · rw [if_neg empty, if_neg (by simp only [not_or]; exact ⟨zero, bad.1, bad.2, empty⟩)]

/-! ## Normal forms -/

theorem FitsSegs.mono {cap cap' : Nat} {segs : List CString} (fits : FitsSegs cap segs)
    (le : cap ≤ cap') : FitsSegs cap' segs := fun part pre =>
  Nat.lt_of_lt_of_le (fits part pre) le

theorem exists_fits (path : CString) : ∃ cap, Fits cap path := by
  have segs : ∀ segs, ∃ cap, FitsSegs cap segs := by
    intro segs
    induction segs using List.reverseRecOn with
    | nil => exact ⟨2, fun part pre => by rw [List.prefix_nil.mp pre]; decide⟩
    | append_singleton segs seg ih =>
        obtain ⟨cap, fits⟩ := ih
        refine ⟨cap + (absolute (follow (segs.foldl follow []) seg)).length + 1, ?_⟩
        rw [fitsSegs_concat]
        exact ⟨fits.mono (by omega), by omega⟩
  exact segs (components path)

theorem normalForm_iff (path out : CString) :
    NormalForm path out ↔ out = (folded (components path)).text := by
  constructor
  · rintro ⟨room, eq⟩
    exact (fits_of_normalizePath eq).2
  · rintro rfl
    obtain ⟨room, fits⟩ := exists_fits path
    exact ⟨room, normalizePath_of_fits fits⟩

theorem components_text {x : Folded} (proper : x.Proper) : components x.text = x.names := by
  have plain := components_absolute proper.1
  rw [Folded.text]
  cases x.slashed with
  | false => simpa using plain
  | true =>
      have joined := components_append (absolute x.names) []
      rw [plain] at joined
      simpa [components, Lib.Fields.pieces] using joined

/-- The text tells what it stands for. -/
theorem Folded.text_injective {x y : Folded} (properX : x.Proper) (properY : y.Proper)
    (eq : x.text = y.text) : x = y := by
  have names : x.names = y.names := by
    rw [← components_text properX, eq, components_text properY]
  have length := congrArg List.length eq
  obtain ⟨ns, slashedX⟩ := x
  obtain ⟨ms, slashedY⟩ := y
  obtain rfl : ns = ms := names
  cases slashedX <;> cases slashedY <;> simp_all [Folded.text]

theorem samePlace_iff (p q : CString) :
    SamePlace p q ↔ (folded (components p)).text = (folded (components q)).text := by
  have proper := fun s : CString =>
    folded_proper fun n (mem : n ∈ components s) => components_name mem
  have slashed := fun s : CString => folded_slashed (components s)
  constructor
  · rintro ⟨same, ends⟩
    have both : folded (components p) = folded (components q) := by
      rw [names_eq, names_eq] at same
      have left := (slashed p).trans (ends.trans (slashed q).symm)
      cases hp : folded (components p)
      cases hq : folded (components q)
      rw [hp, hq] at same left
      simp only at same left
      rw [same, Bool.eq_iff_iff.mpr left]
    rw [both]
  · intro eq
    have both := Folded.text_injective (proper p) (proper q) eq
    refine ⟨by rw [names_eq, names_eq, both], ?_⟩
    exact (slashed p).symm.trans ((by rw [both] : _ ↔ _).trans (slashed q))

/-- A relative path is resolved whole or not at all exactly if the text put together is not
cut where it leads to another place. -/
theorem resolve_path_iff (cwd path : CString) (cap : Nat) :
    ResolvesWhole cwd path cap ↔ ¬CutAstray cwd path cap := by
  constructor
  · intro whole cut
    have positive : cap ≠ 0 := by
      have root := cut.fits [] List.nil_prefix
      omega
    have resolved : ntuxResolvePath cwd path cap =
        some (folded (components ((joined cwd path).take (pathMax - 1)))).text := by
      rw [resolve_relative cut.relative, if_neg, normalizePath_of_fits cut.fits]
      simp only [not_or]
      exact ⟨positive, cut.cwdSome, by have := cut.cwdShort; omega, by have := cut.counted; omega⟩
    have form := (normalForm_iff _ _).mp (whole cut.relative _ resolved)
    exact cut.astray ((samePlace_iff _ _).mpr form)
  · intro notCut relative out resolved
    rw [resolve_relative relative] at resolved
    obtain ⟨good, eq⟩ := Option.ite_none_left_eq_some.mp resolved
    simp only [not_or, not_le] at good
    obtain ⟨fits, rfl⟩ := fits_of_normalizePath eq
    rw [normalForm_iff, ← samePlace_iff]
    by_cases long : pathMax ≤ (joined cwd path).length
    · by_contra astray
      exact notCut ⟨relative, good.2.1, good.2.2.1, good.2.2.2, long, fits, astray⟩
    · rw [List.take_of_length_le (by omega)]
      exact ⟨rfl, Iff.rfl⟩

/-- In the root, a name of 300 letters is resolved to its first 253. -/
theorem long_name_cut : ¬ResolvesWhole [slash] (List.replicate 300 97) 256 := by
  have resolved : ntuxResolvePath [slash] (List.replicate 300 97) 256 =
      some (slash :: List.replicate 253 97) := by decide +kernel
  intro whole
  have form := (normalForm_iff _ _).mp (whole (by decide) _ resolved)
  exact absurd form (by decide +kernel)

end NTux.Libc
