import Rtems.Models.Fat.File

/-!
# Extending a file

The room of a file is that of its clusters. An extension uses the rest of the last cluster and
then adds free clusters to the chain, as many as it needs or all there are. The bytes below the
old size stay.
-/

namespace Rtems.Fat

variable {vol : Vol}

/-- The number of clusters of a file of some size. -/
def clustersOf (vol : Vol) (size : Nat) : Nat :=
  (size + vol.bpc - 1) / vol.bpc

/-- The room behind the end of a file in its last cluster. -/
def roomLeft (vol : Vol) (size : Nat) : Nat :=
  (vol.bpc - size % vol.bpc) % vol.bpc

/-- The clusters of a file hold its bytes and the room behind them. -/
theorem clustersOf_mul (vol : Vol) (size : Nat) :
    clustersOf vol size * vol.bpc = size + roomLeft vol size := by
  have hpos := vol.bpc_pos
  have hsplit : size / vol.bpc * vol.bpc + size % vol.bpc = size := Nat.div_add_mod' size vol.bpc
  have hlt := Nat.mod_lt size hpos
  unfold clustersOf roomLeft
  rcases Nat.eq_zero_or_pos (size % vol.bpc) with hzero | hrest
  · have hdiv : (size + vol.bpc - 1) / vol.bpc = size / vol.bpc := by
      rw [show size + vol.bpc - 1 = (vol.bpc - 1) + size / vol.bpc * vol.bpc by omega,
        Nat.add_mul_div_right _ _ hpos, Nat.div_eq_of_lt (by omega), Nat.zero_add]
    rw [hdiv, hzero, Nat.sub_zero, Nat.mod_self]
    omega
  · have hdiv : (size + vol.bpc - 1) / vol.bpc = size / vol.bpc + 1 := by
      rw [show size + vol.bpc - 1 = (size % vol.bpc - 1) + (size / vol.bpc + 1) * vol.bpc by
        rw [Nat.succ_mul]; omega, Nat.add_mul_div_right _ _ hpos, Nat.div_eq_of_lt (by omega),
        Nat.zero_add]
    rw [hdiv, Nat.succ_mul, Nat.mod_eq_of_lt (by omega)]
    omega

theorem roomLeft_lt (vol : Vol) (size : Nat) : roomLeft vol size < vol.bpc :=
  Nat.mod_lt _ vol.bpc_pos

theorem clustersOf_eq {size k : Nat} (hle : size ≤ k * vol.bpc)
    (hlt : k * vol.bpc < size + vol.bpc) : clustersOf vol size = k := by
  have hpos := vol.bpc_pos
  apply Nat.div_eq_of_lt_le
  · omega
  · rw [Nat.succ_mul]
    omega

/-- The chain of a file with further clusters behind it. -/
structure Grown (vol : Vol) (d d' : Disk) (cs got : List Nat) : Prop where
  /-- The tables are copies of each other. -/
  synced : Synced vol d'
  /-- Only the clusters of the file were touched. -/
  frame : Frame vol (· ∈ cs ++ got) d d'
  /-- The old bytes of the file stay. -/
  kept : ∀ c ∈ cs, ∀ j, j < vol.bpc → d' (vol.clusterAddr c + j) = d (vol.clusterAddr c + j)

variable {d : Disk}
  {st : Scan} {cs got : List Nat}

/-- No cluster of a chain is free. -/
theorem ClusterChain.ne_free {cs : List Nat} (h : ClusterChain vol d cs) {c : Nat}
    (hc : c ∈ cs) : entry vol d c ≠ genfatFree := by
  intro hfree
  obtain ⟨i, hi⟩ := List.getElem?_of_mem hc
  have hlen := (List.getElem?_eq_some_iff.mp hi).1
  by_cases hnext : i + 1 < cs.length
  · -- A cluster with a successor has its number in the entry.
    have hget := List.getElem?_eq_getElem hnext
    have hdata := h.data _ (List.getElem_mem hnext)
    have hentry := h.chained.next_eq hi hget
    have hge := hdata.1
    unfold genfatFree at hfree
    unfold rsrvdCln at hge
    omega
  · have hlast : cs.getLast? = some c := by
      rw [List.getLast?_eq_getElem?, show cs.length - 1 = i by omega]
      exact hi
    have hend := h.chained.ends c hlast
    rw [hfree] at hend
    have hpos : isLink vol genfatFree = true := by
      unfold isLink genfatFree
      cases vol.type <;> decide
    rw [hpos] at hend
    cases hend

theorem Found.not_mem {got cs : List Nat} (h : Found vol d got st)
    (hcs : ClusterChain vol d cs) : ∀ c ∈ cs, c ∉ got :=
  fun c hc hgot => hcs.ne_free hc (h.free c hgot)

theorem ClusterChain.length_le {cs : List Nat} (h : ClusterChain vol d cs) :
    cs.length ≤ vol.dataCls := by
  have hsub : cs.Subperm (dataClusters vol) :=
    h.nodup.subperm fun c hc => mem_dataClusters.mpr (h.data c hc)
  have hlen := hsub.length_le
  rwa [dataClusters, List.length_map, List.length_range] at hlen

variable {fd : Fd}

/-- The last cluster of a file, as the extension finds it. -/
theorem oldLast_spec {init : List Nat} {c : Nat}
    (h : Follows vol d fd (init ++ [c])) (hlen : (init ++ [c]).length = clustersOf vol fd.size) :
    ∃ fd₁, (if fd.lastCln ≠ undefinedValue then some (fd, fd.lastCln)
        else fileLseek vol d fd ((fd.size - 1) / vol.bpc)) = some (fd₁, c) ∧
      Follows vol d fd₁ (init ++ [c]) ∧ fd₁ = { fd with
        fileCln := fd₁.fileCln
        diskCln := fd₁.diskCln } := by
  by_cases hknown : fd.lastCln ≠ undefinedValue
  · have hlast : fd.lastCln = c := h.last hknown c (by simp)
    exact ⟨fd, by rw [if_pos hknown, hlast], h, rfl⟩
  · have hroom := clustersOf_mul vol fd.size
    have hlt := roomLeft_lt vol fd.size
    rw [← hlen, List.length_append, List.length_singleton, Nat.succ_mul] at hroom
    have hindex : (fd.size - 1) / vol.bpc = init.length := by
      apply Nat.div_eq_of_lt_le
      · omega
      · rw [Nat.succ_mul]
        omega
    have hc : (init ++ [c])[init.length]? = some c := by simp
    exact ⟨_, by rw [if_neg hknown, hindex, fileLseek_eq h hc], h.seek hc, rfl⟩

/-- Only the clusters of the map differ between two descriptors. -/
def SameFile (fd fd' : Fd) : Prop :=
  fd'.isRootDir = fd.isRootDir ∧ fd'.isDirectory = fd.isDirectory

section

variable (hnum : vol.Numbered) (h : Follows vol d fd cs)
  (hlen : cs.length = clustersOf vol fd.size) (hfound : Found vol d got st) (hgot : got ≠ [])
include hnum h hlen hfound hgot

/-- The first step of an extension: the new clusters are linked to the file. -/
theorem linkNew_spec :
    ∃ d' fd₁, (if fd.size = 0 then
        some ((⟨st.disk, st.last⟩ : Fs), { fd with
          diskCln := st.chain
          fileCln := 0
          cln := st.chain })
      else
        (if fd.lastCln ≠ undefinedValue then some (fd, fd.lastCln)
          else fileLseek vol st.disk fd ((fd.size - 1) / vol.bpc)).bind fun (fd, last) =>
          (setFat vol st.disk last st.chain).map fun d => ((⟨d, st.last⟩ : Fs), fd)) =
        some (⟨d', st.last⟩, fd₁) ∧
      Follows vol d' { fd₁ with lastCln := st.last } (cs ++ got) ∧ Grown vol d d' cs got ∧
      fd₁ = { fd with
        cln := fd₁.cln
        fileCln := fd₁.fileCln
        diskCln := fd₁.diskCln } := by
  obtain ⟨c', got', rfl⟩ := List.exists_cons_of_ne_nil hgot
  have hchain : st.chain = c' := hfound.first c' rfl
  have hdisjoint := hfound.not_mem h.chain
  have hold : Follows vol st.disk fd cs :=
    h.congr fun c hc => hfound.frame.entries c (h.chain.data c hc) (hdisjoint c hc)
  have hkept : ∀ c ∈ cs, ∀ j, j < vol.bpc →
      st.disk (vol.clusterAddr c + j) = d (vol.clusterAddr c + j) :=
    fun c hc => hfound.frame.data c (h.chain.data c hc) (hdisjoint c hc)
  have hframe : Frame vol (· ∈ cs ++ c' :: got') d st.disk :=
    hfound.frame.mono fun c hc => List.mem_append_right _ hc
  by_cases hsize : fd.size = 0
  · have hnil : cs = [] := by
      apply List.eq_nil_of_length_eq_zero
      rw [hlen, hsize]
      exact Nat.div_eq_of_lt (by have := vol.bpc_pos; omega)
    subst hnil
    refine ⟨st.disk, _, by rw [if_pos hsize], ?_, ⟨hfound.synced, hframe, hkept⟩, rfl⟩
    refine ⟨hfound.chain, fun c hc => hfound.first c hc, fun _ => ?_, fun _ => hfound.last⟩
    show some c' = some st.chain
    rw [hchain]
  · have hne : cs ≠ [] := by
      intro hnil
      have hroom := clustersOf_mul vol fd.size
      rw [← hlen, hnil, List.length_nil, Nat.zero_mul] at hroom
      omega
    obtain ⟨init, c, rfl⟩ := (List.eq_nil_or_concat' cs).resolve_left hne
    have hdata : vol.IsData c := h.chain.data c (by simp)
    obtain ⟨fd₁, hlast, hfollows, hfd₁⟩ := oldLast_spec hold hlen
    obtain ⟨d', hset, hd'⟩ := setFat_spec hfound.synced hdata c'
    have hlinked := hd'.link hnum hold.chain hfound.chain hdisjoint
    refine ⟨d', fd₁, ?_, ?_, ⟨hd'.synced, ?_, ?_⟩, ?_⟩
    · rw [if_neg hsize, hlast, Option.bind_some, hchain]
      simp only [hset, Option.map_some]
    · refine ⟨hlinked, ?_, ?_, ?_⟩
      · intro e he
        apply hfollows.first e
        rwa [List.head?_append_of_ne_nil _ (by simp)] at he
      · intro _
        have hcached := hfollows.cached hne
        have hlt := (List.getElem?_eq_some_iff.mp hcached).1
        rw [List.getElem?_append_left hlt]
        exact hcached
      · intro _ e he
        rw [List.getLast?_append_of_ne_nil _ (List.cons_ne_nil _ _)] at he
        exact hfound.last e he
    · exact hframe.trans (hd'.frame.mono fun e he => by simp [he])
    · intro e he j hj
      have hloc := rdirLoc_le_clusterAddr vol e
      rw [hd'.outside _ (Or.inr (by omega))]
      exact hkept e he j hj
    · rw [hfd₁]

/-- The new clusters are added to the end of the file, and cleared for a directory. -/
theorem appendChain_spec :
    ∃ d' fd', appendChain vol ⟨st.disk, st.last⟩ fd st = some (⟨d', st.last⟩, fd') ∧
      Follows vol d' fd' (cs ++ got) ∧ Grown vol d d' cs got ∧ fd'.size = fd.size ∧
      SameFile fd fd' := by
  obtain ⟨d₁, fd₁, hlink, hfollows, hgrown, hfd₁⟩ := linkNew_spec hnum h hlen hfound hgot
  have hsame : SameFile fd { fd₁ with lastCln := st.last } := by
    rw [hfd₁]
    exact ⟨rfl, rfl⟩
  have hsize : fd₁.size = fd.size := by rw [hfd₁]
  unfold appendChain
  rw [hlink, Option.bind_some]
  by_cases hdir : fd₁.isDirectory = true
  · obtain ⟨c', got', rfl⟩ := List.exists_cons_of_ne_nil hgot
    have hchain : st.chain = c' := hfound.first c' rfl
    have hnew : ClusterChain vol d₁ (c' :: got') := by
      have hdrop := hfollows.chain.drop cs.length
      rwa [List.drop_left] at hdrop
    have hfuel : got'.length < vol.dataCls + 1 := by
      have hle := hnew.length_le
      rw [List.length_cons] at hle
      omega
    obtain ⟨d₂, hinit, hframe, htables⟩ := initChain_spec hnum hnew hfuel
    have hdisjoint := hfound.not_mem h.chain
    refine ⟨d₂, { fd₁ with lastCln := st.last }, ?_, ?_, ⟨hgrown.synced.congr htables, ?_, ?_⟩,
      hsize, hsame⟩
    · simp only [hdir, if_true, hchain, hinit, Option.map_some]
    · exact hfollows.congr fun c hc => entry_congr (hfollows.chain.data c hc) htables
    · exact hgrown.frame.trans (hframe.mono fun c hc => List.mem_append_right _ hc)
    · intro c hc j hj
      rw [hframe.data c (h.chain.data c hc) (hdisjoint c hc) j hj]
      exact hgrown.kept c hc j hj
  · refine ⟨d₁, { fd₁ with lastCln := st.last }, ?_, hfollows, hgrown, hsize, hsame⟩
    simp only [hdir, Bool.false_eq_true, if_false]

end

/-- The number of clusters that a file lacks for a new length. -/
def lacking (vol : Vol) (size newLength : Nat) : Nat :=
  clustersOf vol newLength - clustersOf vol size

/-- The length that a file has room for after an extension that got some clusters. -/
def granted (vol : Vol) (size newLength got : Nat) : Nat :=
  if got = lacking vol size newLength then newLength
  else if got = 0 then size + roomLeft vol size
  else newLength - (lacking vol size newLength - got) * vol.bpc

/-- What an extension by some clusters keeps and brings about. -/
structure Extended (vol : Vol) (fs : Fs) (fd : Fd) (cs : List Nat) (fs' : Fs) (fd' : Fd)
    (got : List Nat) : Prop where
  /-- The tables are copies of each other. -/
  synced : Synced vol fs'.disk
  /-- The place to look for free clusters is a word. -/
  nextCl_lt : fs'.nextCl < word
  /-- Only the clusters of the file were touched. -/
  frame : Frame vol (· ∈ cs ++ got) fs.disk fs'.disk
  /-- The new clusters were free. -/
  free : ∀ c ∈ got, entry vol fs.disk c = genfatFree
  /-- The descriptor follows the longer chain. -/
  follows : Follows vol fs'.disk fd' (cs ++ got)
  /-- The bytes of the file stay. -/
  kept : ∀ p, p < fd.size → content vol fs'.disk (cs ++ got) p = content vol fs.disk cs p
  /-- It is the same file. -/
  same : SameFile fd fd'

theorem lacking_eq_zero {size newLength : Nat} (hsize : size < newLength)
    (h : newLength ≤ size + roomLeft vol size) :
    lacking vol size newLength = 0 ∧ clustersOf vol newLength = clustersOf vol size := by
  have hold := clustersOf_mul vol size
  have hlt := roomLeft_lt vol size
  have heq : clustersOf vol newLength = clustersOf vol size :=
    clustersOf_eq (by omega) (by omega)
  exact ⟨by rw [lacking, heq, Nat.sub_self], heq⟩

/-- The bytes of clusters that are kept, in a longer chain. -/
theorem content_kept {d d' : Disk} {cs : List Nat} (got : List Nat)
    (hkept : ∀ c ∈ cs, ∀ j, j < vol.bpc → d' (vol.clusterAddr c + j) = d (vol.clusterAddr c + j))
    {p : Nat} (hp : p < cs.length * vol.bpc) :
    content vol d' (cs ++ got) p = content vol d cs p := by
  have hindex : p / vol.bpc < cs.length := (Nat.div_lt_iff_lt_mul vol.bpc_pos).mpr hp
  have hget := List.getElem?_eq_getElem hindex
  have hmod := Nat.mod_lt p vol.bpc_pos
  rw [← Nat.div_add_mod' p vol.bpc, content_cluster _ hget hmod,
    content_cluster _ ((List.getElem?_append_left hindex).trans hget) hmod]
  exact hkept _ (List.getElem_mem hindex) _ hmod

/-- The room behind the end of a file was filled, or nothing was done. -/
structure Filled (vol : Vol) (d d' : Disk) (cs : List Nat) (size : Nat) : Prop where
  /-- Only the clusters of the file were touched. -/
  frame : Frame vol (· ∈ cs) d d'
  /-- The tables stay. -/
  tables : ∀ a, a < vol.rdirLoc * vol.bps → d' a = d a
  /-- The bytes of the file stay. -/
  kept : ∀ p, p < size → content vol d' cs p = content vol d cs p

theorem Filled.refl (vol : Vol) (d : Disk) (cs : List Nat) (size : Nat) :
    Filled vol d d cs size :=
  ⟨Frame.refl _ d, fun _ _ => rfl, fun _ _ => rfl⟩

/-- A patch behind the end of a file, in its last cluster. -/
theorem filled_patch {d : Disk} {cs : List Nat} {size n c : Nat} {data : Nat → UInt8}
    (h : ClusterChain vol d cs) (hc : cs[size / vol.bpc]? = some c)
    (hn : size % vol.bpc + n ≤ vol.bpc) :
    Filled vol d (patch d (vol.clusterAddr c + size % vol.bpc) data n) cs size := by
  have hmem : c ∈ cs := List.mem_of_getElem? hc
  have hframe : Frame vol (· = c) d (patch d (vol.clusterAddr c + size % vol.bpc) data n) :=
    patch_frame d (h.data c hmem) hn
  refine ⟨hframe.mono fun e he => he ▸ hmem, patch_tables vol d c _ n data, fun p hp => ?_⟩
  have hmod := Nat.mod_lt p vol.bpc_pos
  have hsplit := Nat.div_add_mod' p vol.bpc
  have hsplitSize := Nat.div_add_mod' size vol.bpc
  have hle : p / vol.bpc ≤ size / vol.bpc := Nat.div_le_div_right (Nat.le_of_lt hp)
  have hindex : p / vol.bpc < cs.length :=
    Nat.lt_of_le_of_lt hle (List.getElem?_eq_some_iff.mp hc).1
  have hget := List.getElem?_eq_getElem hindex
  rw [← hsplit, content_cluster _ hget hmod, content_cluster _ hget hmod]
  by_cases hsame : p / vol.bpc = size / vol.bpc
  · -- In the same cluster the byte lies before the end of the file.
    have heq : cs[p / vol.bpc] = c := by
      rw [← hsame] at hc
      exact Option.some.inj (hget.symm.trans hc)
    rw [heq]
    rw [hsame] at hsplit
    exact patch_outside _ _ (.inl (by omega))
  · refine hframe.data _ (h.data _ (List.getElem_mem hindex)) (fun heq => hsame ?_) _ hmod
    exact (List.getElem?_inj hindex h.nodup).mp (by rw [hget, heq, hc])

section

variable {fs : Fs} {fd : Fd} {cs : List Nat}

/-- The fill of the last cluster before an extension. -/
theorem fillRoom_spec (h : Follows vol fs.disk fd cs)
    (hlen : cs.length = clustersOf vol fd.size) (zeroFill : Bool) :
    ∃ d' fd', fillRoom vol fs fd zeroFill (roomLeft vol fd.size) = some (⟨d', fs.nextCl⟩, fd') ∧
      Follows vol d' fd' cs ∧ Filled vol fs.disk d' cs fd.size ∧ fd'.size = fd.size ∧
      SameFile fd fd' := by
  unfold fillRoom
  by_cases hfill : zeroFill = true ∧ roomLeft vol fd.size > 0
  · have hmul := clustersOf_mul vol fd.size
    have hindex : fd.size / vol.bpc < cs.length :=
      (Nat.div_lt_iff_lt_mul vol.bpc_pos).mpr (by rw [hlen, hmul]; omega)
    have hc := List.getElem?_eq_getElem hindex
    have hdata := h.chain.data _ (List.getElem_mem hindex)
    have hmod := Nat.mod_lt fd.size vol.bpc_pos
    have hroom : roomLeft vol fd.size ≤ vol.bpc - fd.size % vol.bpc := Nat.mod_le _ _
    have hfilled : Filled vol fs.disk
        (patch fs.disk (vol.clusterAddr cs[fd.size / vol.bpc] + fd.size % vol.bpc) (fun _ => 0)
          (roomLeft vol fd.size)) cs fd.size :=
      filled_patch h.chain hc (by omega)
    refine ⟨_, _, ?_, (h.seek hc).congr fun c hmem => ?_, hfilled, rfl, ⟨rfl, rfl⟩⟩
    · rw [if_pos hfill, fileLseek_eq h hc, Option.bind_some]
      simp only [clusterSet, clusterPut_eq fs.disk hdata hmod, Nat.min_eq_left hroom,
        Option.map_some]
    · exact entry_congr (h.chain.data c hmem) hfilled.tables
  · exact ⟨fs.disk, fd, by rw [if_neg hfill], h, Filled.refl .., rfl, ⟨rfl, rfl⟩⟩

/-- The linking of what a search found, which may be nothing. -/
theorem linkFound_spec {d : Disk} {st : Scan} {got : List Nat} (hnum : vol.Numbered)
    (h : Follows vol d fd cs) (hlen : cs.length = clustersOf vol fd.size)
    (hfound : Found vol d got st) :
    ∃ d' fd', (if st.added > 0 then appendChain vol ⟨st.disk, st.last⟩ fd st
        else some (⟨st.disk, st.last⟩, fd)) = some (⟨d', st.last⟩, fd') ∧
      Follows vol d' fd' (cs ++ got) ∧ Grown vol d d' cs got ∧ SameFile fd fd' := by
  by_cases hnone : got = []
  · subst hnone
    have hadded : ¬ st.added > 0 := by rw [hfound.added]; exact Nat.not_lt_zero 0
    have hout : ∀ c ∈ cs, ¬ c ∈ ([] : List Nat) := fun _ _ => List.not_mem_nil
    have hkeep : Follows vol st.disk fd cs :=
      h.congr fun c hc => hfound.frame.entries c (h.chain.data c hc) (hout c hc)
    refine ⟨st.disk, fd, by rw [if_neg hadded], ?_, ⟨hfound.synced, ?_, ?_⟩, ⟨rfl, rfl⟩⟩
    · rwa [List.append_nil]
    · exact hfound.frame.mono fun c hc => (List.not_mem_nil hc).elim
    · exact fun c hc => hfound.frame.data c (h.chain.data c hc) (hout c hc)
  · have hadded : st.added > 0 := by rw [hfound.added]; exact List.length_pos_of_ne_nil hnone
    obtain ⟨d', fd', happend, hfollows, hgrown, -, hsame⟩ :=
      appendChain_spec hnum h hlen hfound hnone
    exact ⟨d', fd', by rw [if_pos hadded, happend], hfollows, hgrown, hsame⟩

end

/-- The clusters that an extension asks for are those that the file lacks. -/
theorem cls2add_eq {size newLength : Nat} (h : size + roomLeft vol size < newLength) :
    (newLength - size - roomLeft vol size - 1) / vol.bpc + 1 = lacking vol size newLength ∧
      lacking vol size newLength * vol.bpc =
        newLength + roomLeft vol newLength - (size + roomLeft vol size) := by
  have hold := clustersOf_mul vol size
  have hnew := clustersOf_mul vol newLength
  have hlt := roomLeft_lt vol newLength
  have hmul : lacking vol size newLength * vol.bpc =
      newLength + roomLeft vol newLength - (size + roomLeft vol size) := by
    rw [lacking, Nat.sub_mul, hold, hnew]
  have hpos : 0 < lacking vol size newLength := by
    apply Nat.pos_of_ne_zero
    intro hzero
    rw [hzero, Nat.zero_mul] at hmul
    omega
  refine ⟨?_, hmul⟩
  obtain ⟨k, hk⟩ := Nat.exists_eq_succ_of_ne_zero (Nat.ne_of_gt hpos)
  rw [hk, Nat.succ_mul] at hmul
  have hdiv : (newLength - size - roomLeft vol size - 1) / vol.bpc = k := by
    apply Nat.div_eq_of_lt_le
    · omega
    · rw [Nat.succ_mul]
      omega
  rw [hdiv, hk]

/-- The number of missing bytes fits a word, and the granted length follows from it. -/
theorem granted_eq {size newLength got : Nat} (h : size + roomLeft vol size < newLength)
    (hword : newLength < word) (hgot : got ≤ lacking vol size newLength)
    (hsome : ¬ (got = 0 ∧ roomLeft vol size = 0)) :
    (if lacking vol size newLength ≠ got then
      newLength - (if newLength - size - roomLeft vol size <
          (lacking vol size newLength - got) * vol.bpc % word
        then newLength - size - roomLeft vol size
        else (lacking vol size newLength - got) * vol.bpc % word)
      else newLength) = granted vol size newLength got := by
  obtain ⟨-, hmul⟩ := cls2add_eq h
  have hlt := roomLeft_lt vol newLength
  unfold granted
  by_cases hall : got = lacking vol size newLength
  · rw [if_neg (by simp [hall]), if_pos hall]
  · rw [if_pos (Ne.symm hall), if_neg hall]
    obtain ⟨missing, hmissing⟩ :
      ∃ missing, missing = (lacking vol size newLength - got) * vol.bpc := ⟨_, rfl⟩
    have hsum : missing + got * vol.bpc = lacking vol size newLength * vol.bpc := by
      rw [hmissing, ← Nat.add_mul, Nat.sub_add_cancel hgot]
    rw [← hmissing]
    rcases Nat.eq_zero_or_pos got with hzero | hpos
    · -- A file with room left has a cluster, so that the missing bytes fit a word.
      have hold := clustersOf_mul vol size
      have hone : vol.bpc ≤ clustersOf vol size * vol.bpc := by
        apply Nat.le_mul_of_pos_left
        apply Nat.pos_of_ne_zero
        intro hnone
        rw [hnone, Nat.zero_mul] at hold
        omega
      rw [hzero, Nat.zero_mul] at hsum
      rw [if_pos hzero, Nat.mod_eq_of_lt (by omega)]
      split <;> omega
    · have hone : vol.bpc ≤ got * vol.bpc := Nat.le_mul_of_pos_left _ hpos
      rw [Nat.mod_eq_of_lt (by omega), if_neg (by omega), if_neg (by omega)]

/-- The granted length ends in the last cluster of the file. -/
theorem clustersOf_granted {size newLength got : Nat} (h : size + roomLeft vol size < newLength)
    (hgot : got ≤ lacking vol size newLength) :
    clustersOf vol (granted vol size newLength got) = clustersOf vol size + got := by
  obtain ⟨-, hmul⟩ := cls2add_eq h
  have hold := clustersOf_mul vol size
  have hlt := roomLeft_lt vol newLength
  have hltOld := roomLeft_lt vol size
  unfold granted
  split_ifs with hall hzero
  · rw [hall, lacking]
    have hnew := clustersOf_mul vol newLength
    have hle : clustersOf vol size ≤ clustersOf vol newLength :=
      Nat.div_le_div_right (by omega)
    omega
  · rw [hzero, Nat.add_zero]
    apply clustersOf_eq
    · omega
    · have := vol.bpc_pos
      omega
  · have hsum : (lacking vol size newLength - got) * vol.bpc + got * vol.bpc =
        lacking vol size newLength * vol.bpc := by
      rw [← Nat.add_mul, Nat.sub_add_cancel hgot]
    have hone : vol.bpc ≤ got * vol.bpc :=
      Nat.le_mul_of_pos_left _ (Nat.pos_of_ne_zero hzero)
    apply clustersOf_eq <;> rw [Nat.add_mul] <;> omega

section

variable {fs : Fs} {fd fd₁ : Fd} {d₁ : Disk} {zeroFill : Bool} {newLength : Nat}
  (hnew : fd.size < newLength) (hroot : isFixedRoot vol fd = false)
  (hfill : fillRoom vol fs fd zeroFill (roomLeft vol fd.size) = some (⟨d₁, fs.nextCl⟩, fd₁))
include hnew hroot hfill

/-- The last cluster has room for all of the new bytes. -/
theorem fileExtend_fits (hfits : newLength ≤ fd.size + roomLeft vol fd.size) :
    fileExtend vol fs fd zeroFill newLength = some (⟨d₁, fs.nextCl⟩, fd₁, .ok newLength) := by
  unfold roomLeft at hfill hfits
  unfold fileExtend
  rw [if_neg (Nat.not_le.mpr hnew), if_neg (by rw [hroot]; decide)]
  dsimp only at hfill ⊢
  rw [hfill, Option.bind_some, if_neg (by omega : ¬ _ > _), if_pos rfl]

/-- The extension looks for further clusters. -/
theorem fileExtend_scans (hmore : fd.size + roomLeft vol fd.size < newLength)
    (hword : newLength < word) {st : Scan} {fs₂ : Fs}
    (hscan : scanFat vol ⟨d₁, fs.nextCl⟩ (lacking vol fd.size newLength) zeroFill =
      some (fs₂, st)) (hadded : st.added ≤ lacking vol fd.size newLength) :
    fileExtend vol fs fd zeroFill newLength =
      if st.added = 0 ∧ roomLeft vol fd.size = 0 then some (fs₂, fd₁, .error .enospc)
      else (if st.added > 0 then appendChain vol fs₂ fd₁ st else some (fs₂, fd₁)).map
        fun (fs, fd') => (fs, { fd' with size := granted vol fd.size newLength st.added },
          .ok (granted vol fd.size newLength st.added)) := by
  have hcls := (cls2add_eq hmore).1
  have hgranted := granted_eq hmore hword hadded
  have hbytes : newLength - fd.size > roomLeft vol fd.size := by omega
  unfold roomLeft at hfill hcls hbytes hgranted
  unfold fileExtend
  rw [if_neg (Nat.not_le.mpr hnew), if_neg (by rw [hroot]; decide)]
  dsimp only at hfill ⊢
  rw [hfill, Option.bind_some]
  simp only [if_pos hbytes, hcls]
  rw [if_neg (by omega), hscan, Option.bind_some]
  by_cases hnone : st.added = 0 ∧ roomLeft vol fd.size = 0
  · rw [if_pos hnone]
    exact if_pos hnone
  · rw [if_neg hnone]
    simp only [hgranted hnone]
    exact if_neg hnone

end

/-- The fill, the search and the linking make an extension. -/
theorem Filled.extended {fs : Fs} {fd fd₁ fd' : Fd} {d₁ d₂ : Disk} {st : Scan}
    {cs got : List Nat} (h : Filled vol fs.disk d₁ cs fd.size)
    (hlen : cs.length = clustersOf vol fd.size) (hfound : Found vol d₁ got st)
    (hgrown : Grown vol d₁ d₂ cs got) (hlast : st.last < word) (hsame₁ : SameFile fd fd₁)
    (hsame₂ : SameFile fd₁ fd') (hfollows : Follows vol d₂ fd' (cs ++ got)) :
    Extended vol fs fd cs ⟨d₂, st.last⟩ fd' got where
  synced := hgrown.synced
  nextCl_lt := hlast
  frame := (h.frame.mono fun c hc => List.mem_append_left got hc).trans hgrown.frame
  free c hc := by
    rw [← entry_congr (hfound.chain.data c hc) h.tables]
    exact hfound.free c hc
  follows := hfollows
  kept p hp := by
    rw [content_kept got hgrown.kept (by rw [hlen, clustersOf_mul]; omega), h.kept p hp]
  same := ⟨hsame₂.1.trans hsame₁.1, hsame₂.2.trans hsame₁.2⟩

/-- An extension adds the clusters that the file lacks, or all that are free, and the file has as
many clusters as the granted length needs. It fails only if it gets none and the last cluster has
no room either. -/
theorem fileExtend_spec (hnum : vol.Numbered) {fs : Fs} {fd : Fd} {cs : List Nat}
    (zeroFill : Bool) {newLength : Nat} (hsync : Synced vol fs.disk) (hcl : fs.nextCl < word)
    (h : Follows vol fs.disk fd cs) (hlen : cs.length = clustersOf vol fd.size)
    (hroot : isFixedRoot vol fd = false) (hnew : fd.size < newLength) (hword : newLength < word) :
    ∃ fs' fd' got, fileExtend vol fs fd zeroFill newLength = some (fs', fd',
        if lacking vol fd.size newLength ≠ 0 ∧ got = [] ∧ roomLeft vol fd.size = 0 then
          .error .enospc
        else .ok (granted vol fd.size newLength got.length)) ∧
      got.length = min (lacking vol fd.size newLength) (freeCount vol fs.disk) ∧
      Extended vol fs fd cs fs' fd' got ∧
      (cs ++ got).length = clustersOf vol (granted vol fd.size newLength got.length) ∧
      fd'.size = if lacking vol fd.size newLength = 0 then fd.size
        else granted vol fd.size newLength got.length := by
  obtain ⟨d₁, fd₁, hfill, hfollows₁, hfilled, hsize₁, hsame₁⟩ := fillRoom_spec h hlen zeroFill
  have hsync₁ : Synced vol d₁ := hsync.congr hfilled.tables
  have hentry : ∀ c, vol.IsData c → entry vol d₁ c = entry vol fs.disk c :=
    fun c hc => entry_congr hc hfilled.tables
  by_cases hfits : newLength ≤ fd.size + roomLeft vol fd.size
  · obtain ⟨hlack, hclusters⟩ := lacking_eq_zero hnew hfits
    have hgranted : granted vol fd.size newLength 0 = newLength := by rw [granted, if_pos hlack.symm]
    refine ⟨⟨d₁, fs.nextCl⟩, fd₁, [], ?_, ?_, ?_, ?_, ?_⟩
    · rw [fileExtend_fits hnew hroot hfill hfits, if_neg (fun hno => hno.1 hlack),
        List.length_nil, hgranted]
    · rw [hlack, Nat.zero_min, List.length_nil]
    · refine ⟨hsync₁, hcl, ?_, fun c hc => (List.not_mem_nil hc).elim, ?_, ?_, hsame₁⟩ <;>
        rw [List.append_nil]
      exacts [hfilled.frame, hfollows₁, hfilled.kept]
    · rw [List.append_nil, hlen, List.length_nil, hgranted, hclusters]
    · rw [if_pos hlack, hsize₁]
  · have hmore : fd.size + roomLeft vol fd.size < newLength := Nat.not_le.mp hfits
    have hlack : lacking vol fd.size newLength ≠ 0 := by
      rw [← (cls2add_eq hmore).1]
      exact Nat.succ_ne_zero _
    obtain ⟨st, got, hscan, hfound, hgot⟩ :=
      scanFat_spec hnum (show Synced vol (Fs.mk d₁ fs.nextCl).disk from hsync₁) hcl
        (lacking vol fd.size newLength) zeroFill
    have hadded : st.added ≤ lacking vol fd.size newLength := by
      rw [hfound.added, hgot]
      exact Nat.min_le_left _ _
    have hlinks := fileExtend_scans hnew hroot hfill hmore hword hscan hadded
    obtain ⟨d₂, fd₂, hlink, hfollows₂, hgrown, hsame₂⟩ :=
      linkFound_spec hnum hfollows₁ (by rw [hsize₁, hlen]) hfound
    have hextended : ∀ size, Extended vol fs fd cs ⟨d₂, st.last⟩ { fd₂ with size } got := fun _ =>
      hfilled.extended hlen hfound hgrown (hfound.last_lt hscan) hsame₁ hsame₂
        ⟨hfollows₂.chain, hfollows₂.first, hfollows₂.cached, hfollows₂.last⟩
    have hcount : got.length = min (lacking vol fd.size newLength) (freeCount vol fs.disk) := by
      rw [hgot, freeCount_congr hentry]
    rw [hfound.added] at hlinks hadded
    have hclusters : (cs ++ got).length =
        clustersOf vol (granted vol fd.size newLength got.length) := by
      rw [List.length_append, hlen, clustersOf_granted hmore hadded]
    by_cases hnone : got = [] ∧ roomLeft vol fd.size = 0
    · -- Nothing was found and nothing was linked: the granted length is the old size.
      obtain ⟨rfl, hroom⟩ := hnone
      have hgranted : granted vol fd.size newLength 0 = fd.size := by
        rw [granted, if_neg (Ne.symm hlack), if_pos rfl, hroom, Nat.add_zero]
      rw [if_neg (by rw [hfound.added]; exact Nat.not_lt_zero 0)] at hlink
      obtain ⟨hfs, rfl⟩ := Prod.mk.inj (Option.some.inj hlink)
      refine ⟨⟨d₂, st.last⟩, fd₁, [], ?_, hcount, ?_, hclusters, ?_⟩
      · rw [hlinks, if_pos ⟨rfl, hroom⟩, if_pos ⟨hlack, rfl, hroom⟩, hfs]
      · exact hextended fd₁.size
      · rw [if_neg hlack, List.length_nil, hgranted, hsize₁]
    · have hsome : ¬ (got.length = 0 ∧ roomLeft vol fd.size = 0) := fun hno =>
        hnone ⟨List.eq_nil_of_length_eq_zero hno.1, hno.2⟩
      have hok : ¬ (lacking vol fd.size newLength ≠ 0 ∧ got = [] ∧ roomLeft vol fd.size = 0) :=
        fun hno => hnone hno.2
      rw [hfound.added] at hlink
      refine ⟨⟨d₂, st.last⟩, { fd₂ with size := granted vol fd.size newLength got.length }, got, ?_,
        hcount, hextended _, hclusters, by rw [if_neg hlack]⟩
      rw [hlinks, if_neg hsome, hlink, Option.map_some, if_neg hok]

end Rtems.Fat
