import Rtems.Models.Fat.Scan

/-!
# The bytes of a file

A descriptor follows a chain if its first, cached and last clusters are those of the chain. The
bytes of the file are then those of the clusters, one after the other, and a read returns them.
-/

namespace Rtems.Fat

variable {vol : Vol}

/-- The descriptor belongs to the file with these clusters. -/
structure Follows (vol : Vol) (d : Disk) (fd : Fd) (cs : List Nat) : Prop where
  /-- The clusters form a chain. -/
  chain : ClusterChain vol d cs
  /-- The first cluster. -/
  first : ∀ c ∈ cs.head?, fd.cln = c
  /-- The cached cluster is the one of the cached index. -/
  cached : cs ≠ [] → cs[fd.fileCln]? = some fd.diskCln
  /-- The last cluster, if it is known. -/
  last : fd.lastCln ≠ undefinedValue → ∀ c ∈ cs.getLast?, fd.lastCln = c

variable {cs : List Nat} {fd : Fd}

theorem Follows.congr {d d' : Disk} (h : Follows vol d fd cs)
    (hentry : ∀ c ∈ cs, entry vol d' c = entry vol d c) : Follows vol d' fd cs :=
  ⟨h.chain.congr hentry, h.first, h.cached, h.last⟩

variable {d : Disk}

theorem Follows.seek (h : Follows vol d fd cs) {i c : Nat} (hc : cs[i]? = some c) :
    Follows vol d { fd with fileCln := i, diskCln := c } cs :=
  ⟨h.chain, h.first, fun _ => hc, h.last⟩

/-- Seeking finds the cluster of an index and caches it. -/
theorem fileLseek_eq (h : Follows vol d fd cs) {i c : Nat} (hc : cs[i]? = some c) :
    fileLseek vol d fd i = some ({ fd with fileCln := i, diskCln := c }, c) := by
  have hne : cs ≠ [] := fun hnil => by simp [hnil] at hc
  have hcached := h.cached hne
  unfold fileLseek
  by_cases hsame : i = fd.fileCln
  · subst hsame
    obtain rfl : fd.diskCln = c := Option.some.inj (hcached.symm.trans hc)
    rw [if_pos rfl]
  · rw [if_neg hsame]
    by_cases hbehind : i > fd.fileCln
    · have hwalk : walk vol d (i - fd.fileCln) fd.diskCln = some c := by
        apply walk_eq h.chain hcached
        rwa [show fd.fileCln + (i - fd.fileCln) = i by omega]
      rw [if_pos hbehind, hwalk, Option.map_some]
    · obtain ⟨c₀, hc₀⟩ : ∃ c₀, cs.head? = some c₀ := by
        cases cs with
        | nil => exact absurd rfl hne
        | cons c₀ cs => exact ⟨c₀, rfl⟩
      have hwalk : walk vol d i fd.cln = some c := by
        rw [h.first c₀ hc₀]
        apply walk_eq h.chain (i := 0) (by rwa [← List.head?_eq_getElem?])
        rwa [Nat.zero_add]
      rw [if_neg hbehind, hwalk, Option.map_some]

/-- The byte of a file at a position. -/
def content (vol : Vol) (d : Disk) (cs : List Nat) (p : Nat) : UInt8 :=
  d (vol.clusterAddr (cs.getD (p / vol.bpc) 0) + p % vol.bpc)

theorem index_eq (vol : Vol) {i j : Nat} (hj : j < vol.bpc) : (i * vol.bpc + j) / vol.bpc = i := by
  rw [Nat.add_comm, Nat.add_mul_div_right _ _ vol.bpc_pos, Nat.div_eq_of_lt hj, Nat.zero_add]

theorem content_cluster (d : Disk) {i c j : Nat} (hc : cs[i]? = some c)
    (hj : j < vol.bpc) : content vol d cs (i * vol.bpc + j) = d (vol.clusterAddr c + j) := by
  have hdiv : (i * vol.bpc + j) / vol.bpc = i := index_eq vol hj
  have hmod : (i * vol.bpc + j) % vol.bpc = j := by
    rw [Nat.add_comm, Nat.add_mul_mod_self_right, Nat.mod_eq_of_lt hj]
  rw [content, hdiv, hmod, List.getD_eq_getElem?_getD, hc, Option.getD_some]

/-- A part of a cluster is read as it is on the disk. -/
theorem clusterRead_eq (d : Disk) {c ofs n : Nat} (hc : vol.IsData c) (hofs : ofs < vol.bpc)
    (hn : ofs + n ≤ vol.bpc) :
    blockRead vol d n ((vol.clusterNumToSectorNum c + ofs / vol.bps) % word) (ofs % vol.bps) n =
      some (segment d (vol.clusterAddr c + ofs) n) := by
  have hend := vol.clusterAddr_add_le hc
  have hmul := vol.clusterNumToSectorNum_mul hc
  have hsplit : ofs / vol.bps * vol.bps + ofs % vol.bps = ofs := Nat.div_add_mod' ofs vol.bps
  have hsec : vol.clusterNumToSectorNum c + ofs / vol.bps < vol.endSec := by
    apply Nat.lt_of_mul_lt_mul_right (a := vol.bps)
    rw [Nat.add_mul, hmul]
    omega
  rw [Nat.mod_eq_of_lt (Nat.lt_trans hsec vol.endSec_lt),
    blockRead_eq d (Nat.mod_lt _ vol.bps_pos) (by rw [Nat.add_mul, hmul]; omega) (Nat.le_refl n),
    Nat.add_mul, hmul]
  congr 2
  omega

theorem segment_cluster (d : Disk) {i c ofs n : Nat} (hc : cs[i]? = some c)
    (hn : ofs + n ≤ vol.bpc) :
    segment d (vol.clusterAddr c + ofs) n = segment (content vol d cs) (i * vol.bpc + ofs) n := by
  apply segment_congr
  intro j hj
  rw [Nat.add_assoc (i * vol.bpc), content_cluster d hc (by omega), Nat.add_assoc]

/-- The read loop returns the bytes of the file and ends in the cluster of the last one. -/
theorem readLoop_eq (h : ClusterChain vol d cs)
    {fuel i cur save ofs count : Nat} (hcur : cs[i]? = some cur) (hofs : ofs < vol.bpc)
    (hfits : i * vol.bpc + ofs + count ≤ cs.length * vol.bpc) (hpos : 0 < count)
    (hfuel : count ≤ fuel) :
    readLoop vol d fuel cur save ofs count =
      some (segment (content vol d cs) (i * vol.bpc + ofs) count,
        cs.getD ((i * vol.bpc + ofs + count - 1) / vol.bpc) 0) := by
  induction fuel generalizing i cur save ofs count with
  | zero => omega
  | succ fuel ih =>
    obtain ⟨count, rfl⟩ := Nat.exists_eq_succ_of_ne_zero (Nat.ne_of_gt hpos)
    have hdata := h.data cur (List.mem_of_getElem? hcur)
    obtain ⟨c, hc⟩ := @exists_eq _ (min (count + 1) (vol.bpc - ofs))
    have hle : ofs + c ≤ vol.bpc := by omega
    simp only [readLoop, ← hc]
    rw [clusterRead_eq d hdata hofs hle, Option.bind_some, getFat_eq d hdata, Option.bind_some,
      segment_cluster d hcur hle]
    by_cases hlast : count + 1 ≤ vol.bpc - ofs
    · -- The rest of the cluster is enough.
      obtain rfl : c = count + 1 := by omega
      have hindex : (i * vol.bpc + ofs + (count + 1) - 1) / vol.bpc = i := by
        rw [show i * vol.bpc + ofs + (count + 1) - 1 = i * vol.bpc + (ofs + count) by omega]
        exact index_eq vol (by omega)
      rw [Nat.sub_self, readLoop, Option.map_some, List.append_nil, hindex,
        List.getD_eq_getElem?_getD, hcur, Option.getD_some]
    · obtain rfl : c = vol.bpc - ofs := by omega
      have hnext : i + 1 < cs.length := by
        apply Nat.lt_of_mul_lt_mul_right (a := vol.bpc)
        rw [Nat.succ_mul]
        omega
      have hget := List.getElem?_eq_getElem hnext
      have hstart : (i + 1) * vol.bpc = i * vol.bpc + ofs + (vol.bpc - ofs) := by
        rw [Nat.succ_mul]
        omega
      have hsum : vol.bpc - ofs + (count + 1 - (vol.bpc - ofs)) = count + 1 := by omega
      have htotal : i * vol.bpc + ofs + (vol.bpc - ofs) + (count + 1 - (vol.bpc - ofs)) =
          i * vol.bpc + ofs + (count + 1) := by omega
      rw [h.chained.next_eq hcur hget,
        ih hget vol.bpc_pos (by rw [Nat.add_zero, hstart]; omega) (by omega) (by omega),
        Option.map_some, Nat.add_zero, hstart, segment_append, hsum, htotal]

/-- The cached index after a transfer is the one of its last byte. -/
theorem cachedIndex_eq {start n : Nat} (hn : 0 < n) (hend : start + n ≤ word) :
    cachedIndex vol (start / vol.bpc) (start % vol.bpc) n = (start + n - 1) / vol.bpc := by
  have hsplit : start / vol.bpc * vol.bpc + start % vol.bpc = start :=
    Nat.div_add_mod' start vol.bpc
  have hsum : (start % vol.bpc + n + (word - 1)) % word = start % vol.bpc + n - 1 := by
    rw [show start % vol.bpc + n + (word - 1) = start % vol.bpc + n - 1 + word by
      unfold word; omega, Nat.add_mod_right, Nat.mod_eq_of_lt (by omega)]
  have hdiv : (start + n - 1) / vol.bpc =
      start / vol.bpc + (start % vol.bpc + n - 1) / vol.bpc := by
    rw [show start + n - 1 = start % vol.bpc + n - 1 + start / vol.bpc * vol.bpc by omega,
      Nat.add_mul_div_right _ _ vol.bpc_pos, Nat.add_comm]
  rw [cachedIndex, hsum, hdiv, Nat.mod_eq_of_lt]
  rw [← hdiv]
  exact Nat.lt_of_le_of_lt (Nat.div_le_self _ _) (by omega)

/-- A read inside the size of a file returns its bytes and keeps the descriptor valid. -/
theorem fileRead_eq (h : Follows vol d fd cs)
    (hroot : isFixedRoot vol fd = false) {start n : Nat} (hn : 0 < n) (hsize : start + n ≤ fd.size)
    (hlen : fd.size ≤ cs.length * vol.bpc) (hword : fd.size ≤ word) :
    ∃ fd', fileRead vol d fd start n = some (fd', segment (content vol d cs) start n) ∧
      Follows vol d fd' cs := by
  have hsplit : start / vol.bpc * vol.bpc + start % vol.bpc = start :=
    Nat.div_add_mod' start vol.bpc
  have hmod := Nat.mod_lt start vol.bpc_pos
  have hindex : start / vol.bpc < cs.length := by
    rw [Nat.div_lt_iff_lt_mul vol.bpc_pos]
    omega
  have hindex' : (start + n - 1) / vol.bpc < cs.length := by
    rw [Nat.div_lt_iff_lt_mul vol.bpc_pos]
    omega
  have hcur := List.getElem?_eq_getElem hindex
  have hloop : readLoop vol d n cs[start / vol.bpc] 0 (start % vol.bpc) n = _ :=
    readLoop_eq h.chain hcur hmod (by rw [hsplit]; omega) hn (Nat.le_refl n)
  rw [hsplit] at hloop
  refine ⟨{ fd with
    fileCln := (start + n - 1) / vol.bpc
    diskCln := cs.getD ((start + n - 1) / vol.bpc) 0 }, ?_, ?_⟩
  · have hcount : ¬ n = 0 := by omega
    have hstart : ¬ start ≥ fd.size := by omega
    have hwhole : ¬ (n > fd.size ∨ start > fd.size - n) := by omega
    simp only [fileRead]
    rw [if_neg hcount, if_neg hstart, if_neg hwhole, hroot]
    simp only [Bool.false_eq_true, if_false]
    rw [fileLseek_eq h hcur, Option.bind_some]
    simp only
    rw [hloop, Option.map_some]
    simp only [length_segment]
    rw [cachedIndex_eq hn (by omega)]
  · apply h.seek
    rw [List.getD_eq_getElem?_getD, List.getElem?_eq_getElem hindex', Option.getD_some]

end Rtems.Fat
