import NTux.Fat.Corrupted

/-!
# Reading a range of a file

`fat_read_file_range_data` skips whole clusters, then whole sectors, then the start of one
sector, and counts both loops with one guard.  What it makes of the bytes that come by is
`serve`, of a sector, of a cluster or of several; so a range is served from the very bytes that
`fat_read_file_data` reads (`rangeWalk_of_fileWalk`), and the clusters skipped are those it
reads first (`skipClusters_of_fileWalk`).
-/

namespace NTux.Fat.Disk

open NTux.Fs NTux.Lib NTux.Lib.Bytes NTux.Lib.ChainWalk

/-- What the range takes of bytes that come by. -/
def serve (bytes : List UInt8) (r : RangeReading) : Visit RangeReading (Int × List UInt8) :=
  if bytes.length ≤ r.skip then .next ⟨r.skip - bytes.length, r.remaining, r.out⟩
  else if r.skip + r.remaining ≤ bytes.length then
    .done (0, r.out ++ (bytes.drop r.skip).take r.remaining)
  else .next ⟨0, r.skip + r.remaining - bytes.length, r.out ++ bytes.drop r.skip⟩

variable {fs : FatFs} {v : FatVolume} {c : Nat}

/-! ## Serving -/

section Serve

variable {a b bytes : List UInt8} {r : RangeReading}

/-- Something of the range is still to be read wherever a visit goes on. -/
theorem serve_next {r' : RangeReading} (some_ : 0 < r.remaining) (next : serve a r = .next r') :
    0 < r'.remaining := by
  unfold serve at next
  split at next
  · obtain rfl := Visit.next.inj next
    exact some_
  · split at next
    · cases next
    · obtain rfl := Visit.next.inj next
      dsimp only
      omega

/-- Bytes are served piece by piece. -/
theorem serve_append :
    serve (a ++ b) r = match serve a r with
      | .done d => .done d
      | .next r' => serve b r' := by
  obtain ⟨skip, remaining, out⟩ := r
  unfold serve
  dsimp only
  rw [List.length_append]
  rcases Nat.lt_or_ge skip a.length with inside | past
  · rw [if_neg (Nat.not_le.2 inside), if_neg (by omega : ¬ a.length + b.length ≤ skip)]
    rcases Nat.lt_or_ge a.length (skip + remaining) with more | within
    · rw [if_neg (Nat.not_le.2 more), List.drop_append_of_le_length (Nat.le_of_lt inside)]
      dsimp only
      have whole : ((a.drop skip).length = a.length - skip) := List.length_drop
      by_cases enough : skip + remaining ≤ a.length + b.length
      · have cut : (a.drop skip ++ b).take remaining =
            a.drop skip ++ b.take (skip + remaining - a.length) := by
          rw [← take_append_take_eq (by omega), whole,
            show remaining - (a.length - skip) = skip + remaining - a.length by omega]
        rw [if_pos enough, if_neg (by omega), if_pos (by omega), List.drop_zero, cut,
          List.append_assoc]
      · rw [if_neg enough, List.drop_zero]
        by_cases none : b.length ≤ 0
        · obtain rfl := List.length_eq_zero_iff.1 (Nat.le_zero.1 none)
          simp
        · rw [if_neg none, if_neg (by omega), Nat.zero_add, Nat.sub_sub, List.append_assoc]
    · rw [if_pos within, if_pos (by omega), List.drop_append_of_le_length (Nat.le_of_lt inside),
        List.take_append_of_le_length (by rw [List.length_drop]; omega)]
  · rw [if_pos past]
    dsimp only
    have skipped : (a ++ b).drop skip = b.drop (skip - a.length) := by
      rw [List.drop_append, List.drop_eq_nil_of_le past, List.nil_append]
    rw [skipped]
    have all : a.length + b.length ≤ skip ↔ b.length ≤ skip - a.length := by omega
    have enough : skip + remaining ≤ a.length + b.length ↔
      skip - a.length + remaining ≤ b.length := by omega
    have left : skip + remaining - (a.length + b.length) =
      skip - a.length + remaining - b.length := by omega
    simp only [all, enough, left, Nat.sub_sub]

theorem rangeSector_eq (sector : Nat) (buf : Bytes) (some_ : 0 < r.remaining) :
    rangeSector sector buf r = serve (sectorBytes buf) r := by
  obtain ⟨skip, remaining, out⟩ := r
  unfold rangeSector serve
  rw [sectorBytes_length]
  have whole := sectorBytes_length buf
  dsimp only at some_ ⊢
  generalize ataSectorSize = size at whole ⊢
  split
  · rfl
  next inside =>
    rcases Nat.lt_or_ge (size - skip) remaining with more | within
    · rw [Nat.min_eq_right (Nat.le_of_lt more), if_neg (by omega), if_neg (by omega),
        List.take_of_length_le (by rw [List.length_drop]; omega),
        show remaining - (size - skip) = skip + remaining - size by omega]
    · rw [Nat.min_eq_left within, if_pos (by omega), if_pos (by omega)]

/-- The sectors serve their bytes. -/
theorem visitSectors_rangeSector {failed : RangeReading → Int × List UInt8} {sectors : List Nat}
    (answers : ∀ sector ∈ sectors, v.responds sector = true) (some_ : 0 < r.remaining)
    (rest : List Nat) :
    visitSectors v failed rangeSector (sectors ++ rest) r =
      match serve (bytesOf v sectors) r with
      | .done d => .done d
      | .next r' => visitSectors v failed rangeSector rest r' := by
  induction sectors generalizing r with
  | nil =>
      have nothing : serve (bytesOf v []) r = .next r := by
        unfold serve
        rw [bytesOf, List.flatMap_nil, List.length_nil, if_pos (Nat.zero_le _), Nat.sub_zero]
      rw [nothing]
      rfl
  | cons sector later ih =>
      obtain ⟨here, answers⟩ := List.forall_mem_cons.1 answers
      rw [List.cons_append, visitSectors, fatReadSector, if_pos here, bytesOf_cons, serve_append]
      dsimp only
      rw [rangeSector_eq _ _ some_]
      cases first : serve (sectorBytes (v.sectors sector)) r with
      | done d => rfl
      | next r' => exact ih answers (serve_next some_ first)

end Serve

/-! ## A plain read that succeeds -/

/-- The sectors that are read for the last bytes of a file. -/
theorem fileSectors_done {failed : FileReading → Int × List UInt8}
    (fails : ∀ r, (failed r).1 ≠ 0) {sectors : List Nat} {r : FileReading}
    (some_ : 0 < r.remaining) {bytes : List UInt8}
    (done : visitSectors v failed fileSector sectors r = .done (0, bytes)) :
    ∃ first rest, sectors = first ++ rest ∧ (∀ sector ∈ first, v.responds sector = true) ∧
      r.remaining ≤ (bytesOf v first).length ∧
        bytes = r.out ++ (bytesOf v first).take r.remaining := by
  induction sectors generalizing r with
  | nil => cases done
  | cons sector later ih =>
      unfold visitSectors at done
      cases read : fatReadSector v sector with
      | none =>
          simp only [read] at done
          exact absurd (congrArg Prod.fst (Visit.done.inj done)) (fails r)
      | some buf =>
          obtain ⟨here, rfl⟩ := fatReadSector_eq_some read
          simp only [read, fileSector] at done
          have whole := sectorBytes_length (v.sectors sector)
          rcases Nat.lt_or_ge ataSectorSize r.remaining with more | last
          · rw [Nat.min_eq_right (Nat.le_of_lt more), if_neg (by omega)] at done
            dsimp only at done
            obtain ⟨first, rest, rfl, answers, enough, rfl⟩ :=
              ih (r := ⟨r.remaining - ataSectorSize, _⟩) (Nat.sub_pos_of_lt more) done
            dsimp only at enough ⊢
            refine ⟨sector :: first, rest, rfl, List.forall_mem_cons.2 ⟨here, answers⟩, ?_, ?_⟩
            · rw [bytesOf_cons, List.length_append, whole]
              omega
            · rw [bytesOf_cons, ← take_append_take_eq (by omega), whole, ← List.append_assoc,
                List.take_of_length_le (Nat.le_of_eq whole)]
          · rw [Nat.min_eq_left last, Nat.sub_self, if_pos rfl] at done
            obtain rfl := congrArg Prod.snd (Visit.done.inj done)
            have one : bytesOf v [sector] = sectorBytes (v.sectors sector) := by
              rw [bytesOf_cons, bytesOf, List.flatMap_nil, List.append_nil]
            refine ⟨[sector], later, rfl, List.forall_mem_singleton.2 here, ?_, ?_⟩
            · rw [one, whole]
              exact last
            · rw [one]

/-- What a plain read that succeeds has done at its first cluster: the file ends in it, or the
read goes on at the next one. -/
theorem fileWalk_cases {g : Nat} {r : FileReading} {bytes : List UInt8} (some_ : 0 < r.remaining)
    (done : walk (fileWalker fs v) g c r = .done (0, bytes)) :
    ∃ g', g = g' + 1 ∧ 2 ≤ c ∧ c ≤ fs.clusterCount + 1 ∧
      ((∃ first rest, clusterSectors fs c = first ++ rest ∧
          (∀ sector ∈ first, v.responds sector = true) ∧
            r.remaining ≤ (bytesOf v first).length ∧
              bytes = r.out ++ (bytesOf v first).take r.remaining) ∨
        (Readable fs v c ∧ perCluster fs < r.remaining ∧ ∃ n, fatLink fs v c = .to n ∧
          walk (fileWalker fs v) g' n ⟨r.remaining - perCluster fs, r.out ++ clusterBytes fs v c⟩ =
            .done (0, bytes))) := by
  cases g with
  | zero => cases done
  | succ g' =>
      unfold walk at done
      cases ends : (fileWalker fs v).ends c with
      | true => simp [ends] at done
      | false =>
          have low : 2 ≤ c := clusterWalker_ends.1 ends
          simp only [ends] at done
          have within : c ≤ fs.clusterCount + 1 := by
            refine Nat.le_of_not_lt fun outside => ?_
            have visit : (fileWalker fs v).visit c r = .done (-4, r.out) := if_pos outside
            simp [visit] at done
          refine ⟨g', rfl, low, within, ?_⟩
          have visit : (fileWalker fs v).visit c r = visitSectors v (fun r => (-2, r.out))
              fileSector (clusterSectors fs c) r := if_neg (Nat.not_lt.2 within)
          cases visited : (fileWalker fs v).visit c r with
          | done d =>
              simp only [visited] at done
              obtain rfl := Outcome.done.inj done
              rw [visit] at visited
              exact .inl (fileSectors_done (fun _ => (by decide : (-2 : Int) ≠ 0)) some_ visited)
          | next r' =>
              have readable : Readable fs v c :=
                ⟨⟨low, within⟩, (clusterWalker_next ends visited).2⟩
              have known := fileWalker_visit readable some_
              rw [visited] at known
              split at known
              · cases known
              next more =>
                obtain rfl := Visit.next.inj known
                simp only [visited] at done
                refine .inr ⟨readable, Nat.lt_of_not_le more, ?_⟩
                rcases link : (fileWalker fs v).link c with n | _ | _
                · simp only [link] at done
                  exact ⟨n, link, done⟩
                · simp [link] at done
                · simp only [link] at done
                  have code : (-3 : Int) = 0 := congrArg Prod.fst (Outcome.done.inj done)
                  exact absurd code (by decide)

/-! ## The range from the bytes of the plain read -/

/-- The visit of a cluster that is read serves its bytes. -/
theorem rangeWalker_visit (readable : Readable fs v c) {r : RangeReading}
    (some_ : 0 < r.remaining) :
    (rangeWalker fs v).visit c r = serve (clusterBytes fs v c) r := by
  have visit : (rangeWalker fs v).visit c r = visitSectors v (fun r => (-2, r.out))
      rangeSector (clusterSectors fs c ++ []) r := by
    rw [List.append_nil]
    exact if_neg (Nat.not_lt.2 readable.1.2)
  rw [visit, visitSectors_rangeSector readable.2 some_, clusterBytes]
  cases serve (bytesOf v (clusterSectors fs c)) r with
  | done d => rfl
  | next r' => rfl

/-- **Where the plain read succeeds, a range of what it still reads is read from it.** -/
theorem rangeWalk_of_fileWalk {g : Nat} {r : FileReading} {bytes : List UInt8}
    (some_ : 0 < r.remaining) (done : walk (fileWalker fs v) g c r = .done (0, bytes)) :
    ∃ rest, bytes = r.out ++ rest ∧ rest.length = r.remaining ∧
      ∀ skip len out, 0 < len → skip + len ≤ r.remaining →
        walk (rangeWalker fs v) g c ⟨skip, len, out⟩ =
          .done (0, out ++ (rest.drop skip).take len) := by
  induction g generalizing c r with
  | zero => cases done
  | succ g ih =>
      obtain ⟨g', same, low, within, last | ⟨readable, more, n, link, later⟩⟩ :=
        fileWalk_cases some_ done
      · -- the file ends in this cluster, and the range with it
        obtain ⟨first, rest, split, answers, enough, rfl⟩ := last
        refine ⟨(bytesOf v first).take r.remaining, rfl, ?_, fun skip len out asked fits => ?_⟩
        · rw [List.length_take, Nat.min_eq_left enough]
        · have visit : (rangeWalker fs v).visit c ⟨skip, len, out⟩ =
              visitSectors v (fun r => (-2, r.out)) rangeSector (clusterSectors fs c)
                ⟨skip, len, out⟩ := if_neg (Nat.not_lt.2 within)
          have goes : (rangeWalker fs v).ends c = false :=
            clusterWalker_ends.2 low
          have served : serve (bytesOf v first) ⟨skip, len, out⟩ =
              .done (0, out ++ ((bytesOf v first).drop skip).take len) := by
            unfold serve
            dsimp only
            rw [if_neg (by omega), if_pos (by omega)]
          rw [walk, goes, visit, split, visitSectors_rangeSector answers asked, served]
          dsimp only
          rw [List.drop_take, List.take_take, Nat.min_eq_left (by omega)]
          rfl
      · obtain rfl : g = g' := Nat.succ.inj same
        obtain ⟨rest, rfl, length, served⟩ :=
          ih (r := ⟨r.remaining - perCluster fs, _⟩) (Nat.sub_pos_of_lt more) later
        dsimp only at length served
        have whole := clusterBytes_length fs v c
        refine ⟨clusterBytes fs v c ++ rest, List.append_assoc .., ?_, ?_⟩
        · rw [List.length_append, whole, length]
          omega
        · intro skip len out asked fits
          have goes : (rangeWalker fs v).ends c = false :=
            clusterWalker_ends.2 low
          have linked : (rangeWalker fs v).link c = .to n := link
          rw [walk, goes, rangeWalker_visit readable asked]
          unfold serve
          dsimp only
          rw [whole, linked]
          by_cases past : perCluster fs ≤ skip
          · -- all of the cluster is skipped
            have skipped : (clusterBytes fs v c ++ rest).drop skip =
                rest.drop (skip - perCluster fs) := by
              rw [List.drop_append, whole, List.drop_eq_nil_of_le (by omega), List.nil_append]
            rw [if_pos past]
            dsimp only
            rw [if_neg Bool.false_ne_true, served _ _ _ asked (by omega), skipped]
          · rw [if_neg past]
            by_cases inside : skip + len ≤ perCluster fs
            · rw [if_pos inside, List.drop_append_of_le_length (by omega),
                List.take_append_of_le_length (by rw [List.length_drop]; omega)]
              rfl
            · -- the rest of the cluster is read, and the range goes on in the next one
              rw [if_neg inside]
              dsimp only
              rw [if_neg Bool.false_ne_true, served _ _ _ (by omega) (by omega), List.drop_zero,
                List.drop_append_of_le_length (by omega), List.append_assoc,
                ← take_append_take_eq (by rw [List.length_drop]; omega), List.length_drop, whole,
                show len - (perCluster fs - skip) = skip + len - perCluster fs by omega]

/-- The clusters skipped are those that the plain read comes by first. -/
theorem skipClusters_of_fileWalk {g : Nat} (skip : Nat) {r : FileReading} {bytes : List UInt8}
    (done : walk (fileWalker fs v) g c r = .done (0, bytes)) (inside : skip < r.remaining) :
    ∃ skip' c' g' r', skipClusters fs v (perCluster fs) g skip c = .ok (skip', c', g') ∧
      walk (fileWalker fs v) g' c' r' = .done (0, bytes) ∧
        skip' ≤ skip ∧ r.remaining = r'.remaining + (skip - skip') ∧
          r'.out.length = r.out.length + (skip - skip') := by
  induction g generalizing c r skip with
  | zero => cases done
  | succ g ih =>
      by_cases stays : ¬ (perCluster fs ≤ skip ∧ 2 ≤ c)
      · refine ⟨skip, c, g + 1, r, ?_, done, Nat.le_refl _, ?_, ?_⟩
        · rw [skipClusters, if_neg stays]
        · rw [Nat.sub_self, Nat.add_zero]
        · rw [Nat.sub_self, Nat.add_zero]
      · rw [not_not] at stays
        obtain ⟨g', same, low, within, last | ⟨readable, more, n, link, later⟩⟩ :=
          fileWalk_cases (Nat.zero_lt_of_lt inside) done
        · -- the file ends in this cluster, so that there is nothing to skip it for
          obtain ⟨first, rest, split, -, enough, -⟩ := last
          have short : (bytesOf v first).length ≤ perCluster fs := by
            rw [← clusterBytes_length fs v c, clusterBytes, split, bytesOf_length, bytesOf_length,
              List.length_append]
            exact Nat.mul_le_mul_right _ (Nat.le_add_right _ _)
          omega
        · obtain rfl : g = g' := Nat.succ.inj same
          have room : skip - perCluster fs < r.remaining - perCluster fs := by omega
          obtain ⟨skip', c', g', r', skipped, reads, le, remaining, length⟩ :=
            ih (skip - perCluster fs) (r := ⟨r.remaining - perCluster fs, _⟩) later room
          dsimp only at remaining length
          rw [List.length_append, clusterBytes_length] at length
          refine ⟨skip', c', g', r', ?_, reads, by omega, by omega, by omega⟩
          rw [skipClusters, if_pos stays]
          unfold fatLink at link
          cases read : fatReadFatEntry fs v c with
          | none => simp [read] at link
          | some next =>
              simp only [read] at link ⊢
              split at link
              · cases link
              next notEnd =>
                split at link
                · cases link
                next other =>
                  obtain rfl := Link.to.inj link
                  rw [if_neg notEnd, if_neg other]
                  exact skipped

/-! ## Well formed chains -/

/-- The clusters from `c` to the end of its chain. -/
inductive ChainOf (fs : FatFs) (v : FatVolume) : Nat → List Nat → Prop
  | last {c : Nat} (ends : fatLink fs v c = .stop) : ChainOf fs v c [c]
  | link {c n : Nat} {cs : List Nat} (linked : fatLink fs v c = .to n) (rest : ChainOf fs v n cs) :
      ChainOf fs v c (c :: cs)

/-- The chain of a file is well formed and long enough. -/
structure SoundFile (fs : FatFs) (v : FatVolume) (e : FatDirEntry) (cs : List Nat) : Prop where
  chain : 0 < e.size.toNat → ChainOf fs v e.cluster.toNat cs
  inside : ∀ c ∈ cs, 2 ≤ c ∧ c ≤ fs.clusterCount + 1
  long : e.size.toNat ≤ cs.length * perCluster fs

section Chains

variable {cs : List Nat}

theorem ChainOf.unique {cs' : List Nat} (chain : ChainOf fs v c cs) (other : ChainOf fs v c cs') :
    cs = cs' := by
  induction chain generalizing cs' with
  | last ends =>
      cases other with
      | last => rfl
      | link linked => simp [ends] at linked
  | link linked rest ih =>
      cases other with
      | last ends => simp [ends] at linked
      | link linked' rest' =>
          obtain rfl := Link.to.inj (linked.symm.trans linked')
          rw [ih rest']

/-- Every cluster of a chain starts a chain that is no longer. -/
theorem ChainOf.from_mem (chain : ChainOf fs v c cs) {x : Nat} (mem : x ∈ cs) :
    ∃ cs', ChainOf fs v x cs' ∧ cs'.length ≤ cs.length := by
  induction chain with
  | last ends =>
      obtain rfl := List.mem_singleton.1 mem
      exact ⟨_, .last ends, Nat.le_refl _⟩
  | link linked rest ih =>
      rcases List.mem_cons.1 mem with rfl | later
      · exact ⟨_, .link linked rest, Nat.le_refl _⟩
      · obtain ⟨cs', chain', le⟩ := ih later
        exact ⟨cs', chain', Nat.le_succ_of_le le⟩

/-- A chain that ends comes by no cluster twice. -/
theorem ChainOf.nodup (chain : ChainOf fs v c cs) : cs.Nodup := by
  induction chain with
  | last ends => exact List.nodup_singleton _
  | link linked rest ih =>
      refine List.nodup_cons.2 ⟨fun mem => ?_, ih⟩
      obtain ⟨cs', chain', le⟩ := rest.from_mem mem
      have same := chain'.unique (.link linked rest)
      rw [same, List.length_cons] at le
      omega

theorem ChainOf.length_le (chain : ChainOf fs v c cs)
    (inside : ∀ c ∈ cs, 2 ≤ c ∧ c ≤ fs.clusterCount + 1) : cs.length ≤ fs.clusterCount := by
  have sub : cs ⊆ List.range' 2 fs.clusterCount := fun x mem =>
    List.mem_range'_1.2 ⟨(inside x mem).1, by have := (inside x mem).2; omega⟩
  have le := (List.subperm_of_subset chain.nodup sub).length_le
  rwa [List.length_range'] at le

/-- A well formed chain is read to the last byte. -/
theorem fileWalk_of_chain (chain : ChainOf fs v c cs) (readable : ∀ x ∈ cs, Readable fs v x)
    {r : FileReading} {g : Nat} (guard : cs.length ≤ g) (some_ : 0 < r.remaining)
    (long : r.remaining ≤ cs.length * perCluster fs) :
    walk (fileWalker fs v) g c r =
      .done (0, r.out ++ (cs.flatMap (clusterBytes fs v)).take r.remaining) := by
  induction chain generalizing r g with
  | @last c ends =>
      obtain ⟨g, rfl⟩ := Nat.exists_eq_add_of_le' guard
      have here := readable c List.mem_cons_self
      have goes : (fileWalker fs v).ends c = false :=
        clusterWalker_ends.2 here.1.1
      rw [List.length_singleton, Nat.one_mul] at long
      rw [List.length_singleton, walk, goes, fileWalker_visit here some_, if_pos long,
        List.flatMap_cons, List.flatMap_nil, List.append_nil]
      rfl
  | @link c n cs linked rest ih =>
      obtain ⟨here, later⟩ := List.forall_mem_cons.1 readable
      obtain ⟨g, rfl⟩ : ∃ g', g = g' + 1 := ⟨g - 1, by rw [List.length_cons] at guard; omega⟩
      rw [List.length_cons] at guard long
      have goes : (fileWalker fs v).ends c = false :=
        clusterWalker_ends.2 here.1.1
      have link : (fileWalker fs v).link c = .to n := linked
      have whole := clusterBytes_length fs v c
      rw [Nat.succ_mul] at long
      rw [walk, goes, fileWalker_visit here some_, List.flatMap_cons]
      by_cases last : r.remaining ≤ perCluster fs
      · rw [if_pos last, List.take_append_of_le_length (by omega)]
        rfl
      · rw [if_neg last, link]
        dsimp only
        rw [if_neg Bool.false_ne_true, ih later (Nat.le_of_succ_le_succ guard) (by dsimp only; omega)
          (by dsimp only; omega), ← take_append_take_eq (by omega), whole, List.append_assoc]

theorem fatReadFileData_of_sound (few : fs.clusterCount < 2147483648) {e : FatDirEntry}
    (sound : SoundFile fs v e cs)
    (answers : ∀ c ∈ cs, ∀ sector ∈ clusterSectors fs c, v.responds sector = true) {outCap : Nat}
    (room : e.size.toNat ≤ outCap) :
    fatReadFileData fs v e outCap = (0, (cs.flatMap (clusterBytes fs v)).take e.size.toNat) := by
  unfold fatReadFileData
  rw [if_neg (Nat.not_lt.2 room)]
  split
  next empty => rw [empty, List.take_zero]
  next some_ =>
    have chain := sound.chain (Nat.pos_of_ne_zero some_)
    have short := chain.length_le sound.inside
    rw [fileWalk_of_chain (r := ⟨e.size.toNat, []⟩) chain
      (fun x mem => ⟨sound.inside x mem, answers x mem⟩) (by rw [guardOf_eq few]; omega)
      (Nat.pos_of_ne_zero some_) sound.long]
    rfl

end Chains

/-! ## A range is a slice -/

/-- The bytes `[offset, min (offset + len) size)`. -/
def slice (bytes : List UInt8) (offset len : Nat) : List UInt8 :=
  (bytes.take (min (offset + len) bytes.length)).drop offset

/-- The slice is delivered, and its length reported. -/
def delivered (bytes : List UInt8) (offset len : Nat) : RangeOutcome :=
  ⟨0, some (slice bytes offset len).length, slice bytes offset len⟩

section Range

variable {e : FatDirEntry} {outCap offset len : Nat} {bytes : List UInt8}

/-- What a plain read delivers is as long as the file. -/
theorem fatReadFileData_length (plain : fatReadFileData fs v e outCap = (0, bytes)) :
    bytes.length = e.size.toNat := by
  unfold fatReadFileData at plain
  split at plain
  · exact absurd (congrArg Prod.fst plain) (by dsimp only; decide)
  · split at plain
    next empty =>
      obtain rfl := congrArg Prod.snd plain
      exact empty.symm
    next some_ =>
      split at plain
      next read =>
        rw [plain] at read
        obtain ⟨rest, rfl, length, -⟩ := rangeWalk_of_fileWalk (Nat.pos_of_ne_zero some_) read
        exact length
      · exact absurd (congrArg Prod.fst plain) (by dsimp only; decide)

theorem slice_past (past : bytes.length ≤ offset) : slice bytes offset len = [] := by
  unfold slice
  exact List.drop_eq_nil_of_le (by rw [List.length_take]; omega)

/-- The range that is cut off at the end of the file. -/
theorem slice_eq_take (inside : offset < bytes.length) :
    slice bytes offset len =
      (bytes.drop offset).take
        (if bytes.length < offset + len then bytes.length - offset else len) := by
  unfold slice
  rw [List.drop_take]
  congr 1
  split <;> omega

/-- **Wherever the plain read succeeds, a range read delivers the slice of its bytes.** -/
theorem fatReadFileRangeData_of_plain (plain : fatReadFileData fs v e outCap = (0, bytes))
    (fits : offset + len < 2 ^ 64) (asked : len ≠ 0) :
    fatReadFileRangeData fs v e offset len = delivered bytes offset len := by
  have length := fatReadFileData_length plain
  unfold fatReadFileRangeData
  dsimp only
  by_cases past : e.size.toNat ≤ offset
  · rw [if_pos (.inl past), delivered, slice_past (by omega)]
    rfl
  · rw [if_neg (by omega), Nat.mod_eq_of_lt fits]
    have inside : offset < bytes.length := by omega
    unfold fatReadFileData at plain
    split at plain
    · exact absurd (congrArg Prod.fst plain) (by dsimp only; decide)
    · rw [if_neg (by omega)] at plain
      split at plain
      next d read =>
        rw [plain] at read
        obtain ⟨skip', c', g', r', skipped, reads, le, remaining, outs⟩ :=
          skipClusters_of_fileWalk offset read (by dsimp only; omega)
        dsimp only at remaining outs
        obtain ⟨rest, split, restLength, served⟩ := rangeWalk_of_fileWalk (by omega) reads
        have cut : bytes.drop offset = rest.drop skip' := by
          rw [split, List.drop_append, outs, List.drop_eq_nil_of_le (by rw [outs, List.length_nil]; omega),
            List.nil_append, List.length_nil, show offset - (0 + (offset - skip')) = skip' by omega]
        rw [perCluster] at skipped
        rw [skipped, delivered, slice_eq_take inside, length]
        dsimp only
        rw [served _ _ _ (by split <;> omega) (by split <;> omega), cut]
        rfl
      · exact absurd (congrArg Prod.fst plain) (by dsimp only; decide)

/-- **A ranged read is the slice of the plain one exactly if something is asked for**: with
`len == 0` the number of bytes is not stored. -/
theorem fat_range_read_slice_iff {v₀ : FatVolume} (mounted : fatFsMount v₀ = .ok fs)
    {path : CString} (resolves : fatResolvePath fs v path = .ok e)
    (file : e.attr &&& attrDir = 0) {cs : List Nat} (sound : SoundFile fs v e cs)
    (fits : offset + len < 2 ^ 64) :
    ((∀ c ∈ cs, ∀ sector ∈ clusterSectors fs c, v.responds sector = true) →
      ∀ outCap, e.size.toNat ≤ outCap →
        fatReadFileData fs v e outCap =
          (0, (cs.flatMap (clusterBytes fs v)).take e.size.toNat)) ∧
    ∀ outCap bytes, fatReadFileData fs v e outCap = (0, bytes) →
      bytes.length = e.size.toNat ∧
      (e.size.toNat ≤ offset → (fatFsReadFileRange fs v path offset len).rc = 0 ∧
        (fatFsReadFileRange fs v path offset len).out = []) ∧
      (fatFsReadFileRange fs v path offset len = delivered bytes offset len ↔ len ≠ 0) := by
  refine ⟨fun answers outCap room =>
    fatReadFileData_of_sound (fatFsMount_clusters mounted).1 sound answers room,
    fun outCap bytes plain => ⟨fatReadFileData_length plain, fun past => ?_, ?_⟩⟩
  · unfold fatFsReadFileRange
    rw [resolves]
    dsimp only
    rw [if_neg (not_not.2 file)]
    split
    · exact ⟨rfl, rfl⟩
    · unfold fatReadFileRangeData
      rw [if_pos (.inl past)]
      exact ⟨rfl, rfl⟩
  · unfold fatFsReadFileRange
    rw [resolves]
    dsimp only
    rw [if_neg (not_not.2 file)]
    by_cases asked : len = 0
    · rw [if_pos asked]
      exact iff_of_false (fun same => by cases congrArg RangeOutcome.outRead same)
        (not_not.2 asked)
    · rw [if_neg asked]
      exact iff_of_true (fatReadFileRangeData_of_plain plain fits asked) asked

end Range

/-! ## A file of three bytes -/

/-- A FAT12 floppy with the file `A` of three bytes in cluster 2. -/
def oneFileFloppy : FatVolume where
  sectors sector i :=
    ((if sector = 0 then [(12, 2), (13, 1), (14, 1), (16, 2), (17, 224), (19, 64), (20, 11),
        (22, 9), (510, 0x55), (511, 0xAA)]
      else if sector = 1 then [(3, 0xFF), (4, 0x0F)]
      else if sector = 19 then (0, 65) :: (26, 2) :: (28, 3) ::
        (List.range 10).map fun i => (i + 1, 0x20)
      else if sector = 33 then [(0, 97), (1, 98), (2, 99)]
      else []).lookup i).getD 0
  responds _ := true

/-- The entry of the file. -/
def oneFile : FatDirEntry := ⟨65 :: List.replicate 10 0x20, 0, 2, 3⟩

theorem oneFileFloppy_mounted :
    fatFsMount oneFileFloppy = .ok (fatGeometry (oneFileFloppy.sectors 0)) := rfl

theorem oneFileFloppy_resolves :
    fatResolvePath (fatGeometry (oneFileFloppy.sectors 0)) oneFileFloppy [slash, 65] =
      .ok oneFile := by rfl

theorem oneFile_sound :
    SoundFile (fatGeometry (oneFileFloppy.sectors 0)) oneFileFloppy oneFile [2] where
  chain _ := .last (by rfl)
  inside c mem := by
    obtain rfl := List.mem_singleton.1 mem
    exact ⟨Nat.le_refl 2, by decide +kernel⟩
  long := by decide +kernel

/-- From its second byte on. -/
theorem oneFile_range :
    fatFsReadFileRange (fatGeometry (oneFileFloppy.sectors 0)) oneFileFloppy [slash, 65] 1 5 =
      delivered ([2].flatMap (clusterBytes (fatGeometry (oneFileFloppy.sectors 0)) oneFileFloppy)
        |>.take 3) 1 5 := by
  have range := fat_range_read_slice_iff oneFileFloppy_mounted oneFileFloppy_resolves (by decide)
    oneFile_sound (by decide : 1 + 5 < 2 ^ 64)
  have plain := range.1 (fun _ _ _ _ => rfl) 3 (by decide)
  exact (range.2 3 _ plain).2.2.2 (by decide)

/-- A range of no bytes is not reported. -/
theorem empty_range_unreported : ¬ ∀ (v₀ : FatVolume) (fs : FatFs), fatFsMount v₀ = .ok fs →
    ∀ (v : FatVolume) (path : CString) (e : FatDirEntry) (cs : List Nat),
      fatResolvePath fs v path = .ok e → e.attr &&& attrDir = 0 → SoundFile fs v e cs →
        ∀ offset len outCap bytes, offset + len < 2 ^ 64 →
          fatReadFileData fs v e outCap = (0, bytes) →
            fatFsReadFileRange fs v path offset len = delivered bytes offset len := by
  intro all
  have few := (fatFsMount_clusters oneFileFloppy_mounted).1
  have plain := fatReadFileData_of_sound few oneFile_sound (fun _ _ _ _ => rfl)
    (by decide : oneFile.size.toNat ≤ 3)
  have none := all _ _ oneFileFloppy_mounted _ _ _ _ oneFileFloppy_resolves (by decide)
    oneFile_sound 1 0 3 _ (by decide) plain
  unfold fatFsReadFileRange at none
  rw [oneFileFloppy_resolves] at none
  dsimp only at none
  rw [if_neg (by decide), if_pos rfl] at none
  cases congrArg RangeOutcome.outRead none

end NTux.Fat.Disk
