import Rtems.Models.Fat.Chain

/-!
# The search for free clusters

The search goes round the table once from where the last one ended, and links the free clusters
it meets to a new chain, until there are enough.
-/

namespace Rtems.Fat

variable {vol : Vol}

/-- The cluster behind a cluster, the first one behind the last. -/
def advance (vol : Vol) (pos : Nat) : Nat :=
  if pos + 1 ≥ vol.dataCls + 2 then 2 else pos + 1

/-- The clusters that the search looks at. -/
def visited (vol : Vol) : Nat → Nat → List Nat
  | 0, _ => []
  | n + 1, pos => pos :: visited vol n (advance vol pos)

/-- The search has linked these clusters, which were free. -/
structure Found (vol : Vol) (d : Disk) (got : List Nat) (st : Scan) : Prop where
  /-- The tables are copies of each other. -/
  synced : Synced vol st.disk
  /-- Only the found clusters were touched. -/
  frame : Frame vol (· ∈ got) d st.disk
  /-- They form a chain. -/
  chain : ClusterChain vol st.disk got
  /-- They were free. -/
  free : ∀ c ∈ got, entry vol d c = genfatFree
  /-- The first of them. -/
  first : ∀ c ∈ got.head?, st.chain = c
  /-- The last of them. -/
  last : ∀ c ∈ got.getLast?, st.last = c
  /-- Their number. -/
  added : st.added = got.length

variable {c : Nat}

theorem mod_mask (hnum : vol.Numbered) (hc : vol.IsData c) :
    c % (vol.type.mask + 1) = c := by
  have hmask : vol.type.eocVal ≤ vol.type.mask + 1 := by cases vol.type <;> decide
  have hnum : vol.dataCls + 1 < vol.type.eocVal := hnum
  have hle := hc.2
  simp only [rsrvdCln] at hle
  exact Nat.mod_eq_of_lt (by omega)

/-- A cluster with an end mark is a chain. -/
theorem EntrySet.single {d d' : Disk} (h : EntrySet vol d c genfatEoc d')
    (hc : vol.IsData c) (hmasked : entry vol d c ≤ vol.type.mask) :
    ClusterChain vol d' [c] := by
  have hentry := h.entry_self hmasked
  have hlt : genfatEoc % (vol.type.mask + 1) < vol.type.mask + 1 := Nat.mod_lt _ (Nat.succ_pos _)
  refine ⟨by simpa using hc, List.nodup_singleton c, ?_, .singleton c, ?_⟩
  · intro e he
    obtain rfl := List.mem_singleton.mp he
    omega
  · intro e he
    obtain rfl : c = e := Option.some.inj he
    rw [hentry]
    unfold isLink genfatEoc
    cases vol.type <;> decide

/-- Linking the end of a chain to another chain makes one chain of them. -/
theorem EntrySet.link (hnum : vol.Numbered) {d d' : Disk} {cs cs' : List Nat} {c c' : Nat}
    (h : EntrySet vol d c c' d') (hcs : ClusterChain vol d (cs ++ [c]))
    (hcs' : ClusterChain vol d (c' :: cs')) (hout : ∀ e ∈ cs ++ [c], e ∉ c' :: cs') :
    ClusterChain vol d' (cs ++ [c] ++ c' :: cs') := by
  have hc : vol.IsData c := hcs.data c (by simp)
  have hc' : vol.IsData c' := hcs'.data c' (by simp)
  have hself : entry vol d' c = c' := by
    rw [h.entry_self (hcs.masked c (by simp)), mod_mask hnum hc']
  have hnot : c ∉ cs := fun hin => by
    have := List.disjoint_of_nodup_append hcs.nodup hin
    simp at this
  have hfirst : ∀ e ∈ cs, entry vol d' e = entry vol d e := fun e he =>
    h.entry_other (hcs.data e (List.mem_append_left _ he)) fun heq => hnot (heq ▸ he)
  have hsecond : ClusterChain vol d' (c' :: cs') :=
    hcs'.frame h.frame fun e he heq => hout c (by simp) (heq ▸ he)
  refine ⟨?_, ?_, ?_, ?_⟩
  · intro e he
    rcases List.mem_append.mp he with he | he
    · exact hcs.data e he
    · exact hcs'.data e he
  · exact List.nodup_append.mpr ⟨hcs.nodup, hcs'.nodup, fun a ha b hb heq => hout a ha (heq ▸ hb)⟩
  · intro e he
    rcases List.mem_append.mp he with he | he
    · rcases List.mem_append.mp he with he' | he'
      · rw [hfirst e he']
        exact hcs.masked e he
      · obtain rfl := List.mem_singleton.mp he'
        have hmod := mod_mask hnum hc'
        have hlt : c' % (vol.type.mask + 1) < vol.type.mask + 1 := Nat.mod_lt _ (Nat.succ_pos _)
        omega
    · exact hsecond.masked e he
  · exact Chained.append (isChain_concat_congr hcs.chained.links hfirst) hsecond.chained hself

/-- The clearing of a new cluster, if it is asked for. -/
theorem zeroFill_spec (zeroFill : Bool) (d : Disk) (hc : vol.IsData c) :
    ∃ d', (if zeroFill then (clusterSet vol d c 0 vol.bpc 0).map (·.1) else some d) = some d' ∧
      Frame vol (· = c) d d' ∧ ∀ a, a < vol.rdirLoc * vol.bps → d' a = d a := by
  cases zeroFill with
  | false => exact ⟨d, rfl, Frame.refl _ d, fun _ _ => rfl⟩
  | true =>
    refine ⟨_, ?_, patch_frame d hc (by omega), patch_tables vol d c 0 vol.bpc fun _ => 0⟩
    rw [if_pos rfl, clusterSet_whole d hc]
    rfl

variable {got : List Nat}
  {st : Scan} {d : Disk} {n pos : Nat}

/-- The links of a new cluster: an end mark, and the link to it from the last one found. -/
theorem link_spec (hnum : vol.Numbered)
    (h : Found vol d got st) (hpos : vol.IsData st.pos) (hfree : entry vol d st.pos = genfatFree)
    (hnew : st.pos ∉ got) :
    ∃ d', ((setFat vol st.disk st.pos genfatEoc).bind fun d =>
        if st.added = 0 then some d else setFat vol d st.last st.pos) = some d' ∧
      Synced vol d' ∧ Frame vol (· ∈ got ++ [st.pos]) st.disk d' ∧
      ClusterChain vol d' (got ++ [st.pos]) := by
  obtain ⟨d₁, hset, hd₁⟩ := setFat_spec h.synced hpos genfatEoc
  have hmasked : entry vol st.disk st.pos ≤ vol.type.mask := by
    rw [h.frame.entries _ hpos hnew, hfree]
    exact Nat.zero_le _
  have hsingle := hd₁.single hpos hmasked
  have hframe₁ : Frame vol (· ∈ got ++ [st.pos]) st.disk d₁ :=
    hd₁.frame.mono fun c hc => by simp [hc]
  rw [hset, Option.bind_some]
  rcases List.eq_nil_or_concat' got with rfl | ⟨init, lastCln, rfl⟩
  · exact ⟨d₁, if_pos h.added, hd₁.synced, hframe₁, hsingle⟩
  · have hlast : st.last = lastCln := h.last lastCln (by simp)
    have hdata : vol.IsData lastCln := h.chain.data lastCln (by simp)
    have hkeep : ClusterChain vol d₁ (init ++ [lastCln]) :=
      h.chain.frame hd₁.frame fun c hc heq => hnew (heq ▸ hc)
    obtain ⟨d₂, hset₂, hd₂⟩ := setFat_spec hd₁.synced hdata st.pos
    refine ⟨d₂, ?_, hd₂.synced, ?_, ?_⟩
    · rw [if_neg (by rw [h.added]; simp), hlast, hset₂]
    · exact hframe₁.trans (hd₂.frame.mono fun c hc => by simp [hc])
    · apply hd₂.link hnum hkeep hsingle
      intro c hc hin
      exact hnew (List.mem_singleton.mp hin ▸ hc)

/-- Taking a free cluster adds it to the chain. -/
theorem takeCluster_spec (hnum : vol.Numbered) (zeroFill : Bool) (h : Found vol d got st)
    (hpos : vol.IsData st.pos)
    (hfree : entry vol d st.pos = genfatFree) (hnew : st.pos ∉ got) :
    ∃ st', takeCluster vol zeroFill st = some st' ∧ Found vol d (got ++ [st.pos]) st' ∧
      st'.pos = st.pos := by
  obtain ⟨d₂, hlinks, hsync, hframe, hchain⟩ := link_spec hnum h hpos hfree hnew
  obtain ⟨d₃, hfill, hframe₃, htables⟩ := zeroFill_spec zeroFill d₂ hpos
  refine ⟨{ st with
    disk := d₃
    chain := if st.added = 0 then st.pos else st.chain
    last := st.pos
    added := st.added + 1 }, ?_, ?_, rfl⟩
  · rw [takeCluster, ← Option.bind_assoc, hlinks, Option.bind_some, hfill]
    rfl
  · have hold : Frame vol (· ∈ got ++ [st.pos]) d st.disk :=
      h.frame.mono fun c hc => by simp [hc]
    refine ⟨hsync.congr htables,
      (hold.trans hframe).trans (hframe₃.mono fun c hc => by simp [hc]),
      hchain.congr fun c hc => entry_congr (hchain.data c hc) htables, ?_, ?_, ?_, ?_⟩
    · intro c hc
      rcases List.mem_append.mp hc with hc | hc
      · exact h.free c hc
      · rw [List.mem_singleton.mp hc]
        exact hfree
    · intro c hc
      show (if st.added = 0 then st.pos else st.chain) = c
      cases got with
      | nil =>
        have hzero : st.added = 0 := h.added
        rw [if_pos hzero]
        exact Option.some.inj hc
      | cons e got =>
        rw [if_neg (by rw [h.added]; simp)]
        exact h.first c hc
    · intro c hc
      simp only [List.getLast?_concat, Option.mem_some_iff] at hc
      exact hc
    · show st.added + 1 = _
      rw [h.added, List.length_append, List.length_singleton]

/-- The position after some passes. -/
def position (vol : Vol) (pos k : Nat) : Nat :=
  if pos + k < vol.dataCls + 2 then pos + k else pos + k - vol.dataCls

/-- The clusters that the search looks at, by the number of the pass. -/
theorem visited_eq (hpos : vol.IsData pos) (hn : n ≤ vol.dataCls) :
    visited vol n pos = (List.range n).map (position vol pos) := by
  induction n generalizing pos with
  | zero => rfl
  | succ n ih =>
    obtain ⟨hge, hle⟩ := hpos
    simp only [rsrvdCln] at hge hle
    have hnext : vol.IsData (advance vol pos) := by
      unfold advance Vol.IsData rsrvdCln
      split <;> omega
    rw [visited, ih hnext (by omega), List.range_succ_eq_map, List.map_cons, List.map_map]
    congr 1
    · unfold position
      rw [if_pos (by omega), Nat.add_zero]
    · apply List.map_congr_left
      intro k hk
      have hk := List.mem_range.mp hk
      simp only [Function.comp_apply, position, advance]
      split_ifs <;> omega

/-- The search looks at no cluster twice. -/
theorem visited_nodup (hpos : vol.IsData pos) (hn : n ≤ vol.dataCls) :
    (visited vol n pos).Nodup := by
  rw [visited_eq hpos hn]
  apply List.Nodup.map_on _ List.nodup_range
  intro i hi j hj heq
  have hi := List.mem_range.mp hi
  have hj := List.mem_range.mp hj
  obtain ⟨hge, hle⟩ := hpos
  unfold position at heq
  split_ifs at heq <;> omega

/-- The search looks at data clusters, and at all of them in a whole round. -/
theorem mem_visited {n pos c : Nat} (hpos : vol.IsData pos) (hn : n ≤ vol.dataCls) :
    (c ∈ visited vol n pos → vol.IsData c) ∧
      (n = vol.dataCls → vol.IsData c → c ∈ visited vol n pos) := by
  rw [visited_eq hpos hn]
  obtain ⟨hge, hle⟩ := hpos
  simp only [rsrvdCln] at hge hle
  constructor
  · intro hc
    obtain ⟨k, hk, rfl⟩ := List.mem_map.mp hc
    have hk := List.mem_range.mp hk
    unfold position Vol.IsData rsrvdCln
    split <;> omega
  · rintro rfl ⟨hcge, hcle⟩
    simp only [rsrvdCln] at hcge hcle
    apply List.mem_map.mpr
    by_cases hbehind : pos ≤ c
    · refine ⟨c - pos, List.mem_range.mpr (by omega), ?_⟩
      unfold position
      split <;> omega
    · refine ⟨c + vol.dataCls - pos, List.mem_range.mpr (by omega), ?_⟩
      unfold position
      split <;> omega

/-- The cluster is free. -/
def isFree (vol : Vol) (d : Disk) (c : Nat) : Bool :=
  entry vol d c = genfatFree

/-- The search takes the free clusters it meets, up to the number asked for. -/
theorem scanLoop_spec (hnum : vol.Numbered) (zeroFill : Bool) {count left : Nat}
    (h : Found vol d got st) (hcount : got.length ≤ count)
    (hdata : ∀ c ∈ visited vol left st.pos, vol.IsData c)
    (hnodup : (got ++ visited vol left st.pos).Nodup) :
    ∃ st', scanLoop vol zeroFill count left st = some st' ∧
      Found vol d (got ++ ((visited vol left st.pos).filter (isFree vol d)).take
        (count - got.length)) st' := by
  induction left generalizing got st with
  | zero =>
    refine ⟨st, rfl, ?_⟩
    simpa [visited] using h
  | succ left ih =>
    by_cases hdone : st.added = count
    · refine ⟨st, by rw [scanLoop, if_pos hdone], ?_⟩
      rw [← hdone, h.added, Nat.sub_self, List.take_zero, List.append_nil]
      exact h
    · have hlt : got.length < count := by
        have := h.added
        omega
      have hpos : vol.IsData st.pos := hdata st.pos (List.mem_cons_self ..)
      have hnew : st.pos ∉ got := fun hin =>
        List.disjoint_of_nodup_append hnodup hin (List.mem_cons_self ..)
      have hsame : entry vol st.disk st.pos = entry vol d st.pos := h.frame.entries _ hpos hnew
      have hrest : ∀ c ∈ visited vol left (advance vol st.pos), vol.IsData c :=
        fun c hc => hdata c (List.mem_cons_of_mem _ hc)
      rw [scanLoop, if_neg hdone, getFat_eq _ hpos, Option.bind_some, hsame, visited,
        List.filter_cons]
      by_cases hfree : entry vol d st.pos = genfatFree
      · obtain ⟨st₁, htake, hfound, hpos₁⟩ := takeCluster_spec hnum zeroFill h hpos hfree hnew
        have hyes : isFree vol d st.pos = true := decide_eq_true hfree
        rw [if_pos hfree, htake, Option.bind_some, if_pos hyes, hpos₁]
        have hstep : Found vol d (got ++ [st.pos]) { st₁ with pos := advance vol st.pos } :=
          { hfound with }
        have hsplit : got ++ [st.pos] ++ visited vol left (advance vol st.pos) =
            got ++ visited vol (left + 1) st.pos := by simp [visited]
        obtain ⟨st', hloop, hend⟩ := ih hstep (by simp; omega) hrest (hsplit ▸ hnodup)
        refine ⟨st', hloop, ?_⟩
        obtain ⟨k, hk⟩ : ∃ k, count - got.length = k + 1 := ⟨count - got.length - 1, by omega⟩
        rw [hk, List.take_succ_cons]
        rw [List.length_append, List.length_singleton,
          show count - (got.length + 1) = k by omega] at hend
        simpa using hend
      · have hno : ¬ isFree vol d st.pos = true := by simpa [isFree] using hfree
        rw [if_neg hfree, Option.bind_some, if_neg hno]
        have hstep : Found vol d got { st with pos := advance vol st.pos } :=
          { h with }
        apply ih hstep hcount hrest
        exact hnodup.sublist ((List.sublist_cons_self _ _).append_left got)

/-- The data clusters of the volume. -/
def dataClusters (vol : Vol) : List Nat :=
  (List.range vol.dataCls).map (· + rsrvdCln)

/-- The number of free clusters. -/
def freeCount (vol : Vol) (d : Disk) : Nat :=
  (dataClusters vol).countP (isFree vol d)

/-- The data clusters are those with a number of one. -/
theorem mem_dataClusters : c ∈ dataClusters vol ↔ vol.IsData c := by
  unfold dataClusters Vol.IsData
  constructor
  · intro hc
    obtain ⟨k, hk, rfl⟩ := List.mem_map.mp hc
    have hk := List.mem_range.mp hk
    omega
  · rintro ⟨hge, hlt⟩
    exact List.mem_map.mpr ⟨c - rsrvdCln, List.mem_range.mpr (by omega), by omega⟩

/-- A whole round looks at each data cluster once. -/
theorem visited_perm {pos : Nat} (hpos : vol.IsData pos) :
    (visited vol vol.dataCls pos).Perm (dataClusters vol) := by
  have hnodup : (dataClusters vol).Nodup :=
    List.nodup_range.map fun _ _ heq => Nat.add_right_cancel heq
  apply (List.perm_ext_iff_of_nodup (visited_nodup hpos (Nat.le_refl _)) hnodup).mpr
  intro c
  rw [mem_dataClusters]
  have hmem := mem_visited (c := c) hpos (Nat.le_refl _)
  exact ⟨hmem.1, hmem.2 rfl⟩

theorem start_isData {nextCl : Nat} (hcl : nextCl < word) (hpos : vol.dataCls ≠ 0) :
    vol.IsData (if (nextCl + (word - 2)) % word < vol.dataCls then nextCl else 2) := by
  have hcls := vol.dataCls_lt
  unfold Vol.IsData rsrvdCln
  unfold word at hcl ⊢
  split <;> omega

/-- The search returns a chain of free clusters, as many as asked for or all there are. -/
theorem scanFat_spec (hnum : vol.Numbered) {fs : Fs} (hsync : Synced vol fs.disk)
    (hcl : fs.nextCl < word) (count : Nat) (zeroFill : Bool) :
    ∃ st got, scanFat vol fs count zeroFill = some (⟨st.disk, st.last⟩, st) ∧
      Found vol fs.disk got st ∧ got.length = min count (freeCount vol fs.disk) := by
  obtain ⟨pos, hpos⟩ := @exists_eq _
    (if (fs.nextCl + (word - 2)) % word < vol.dataCls then fs.nextCl else 2)
  obtain ⟨start, hdef⟩ : ∃ start : Scan, start = ⟨fs.disk, pos, 0, undefinedValue, 0⟩ := ⟨_, rfl⟩
  have hstart : Found vol fs.disk [] start := by
    subst hdef
    exact ⟨hsync, Frame.refl _ _, ClusterChain.nil, fun _ h => absurd h List.not_mem_nil,
      fun _ h => (Option.not_mem_none _ h).elim, fun _ h => (Option.not_mem_none _ h).elim, rfl⟩
  have hscan : scanFat vol fs count zeroFill =
      (scanLoop vol zeroFill count vol.dataCls start).map fun st => (⟨st.disk, st.last⟩, st) := by
    rw [hdef, hpos]
    rfl
  by_cases hzero : vol.dataCls = 0
  · refine ⟨start, [], ?_, hstart, by simp [freeCount, dataClusters, hzero]⟩
    rw [hscan, hzero, scanLoop, Option.map_some]
  · have hdata : vol.IsData start.pos := by
      rw [hdef, hpos]
      exact start_isData hcl hzero
    have hle := Nat.le_refl vol.dataCls
    obtain ⟨st, hloop, hfound⟩ := scanLoop_spec hnum zeroFill hstart (Nat.zero_le count)
      (fun c hc => (mem_visited hdata hle).1 hc) (visited_nodup hdata hle)
    refine ⟨st, _, by rw [hscan, hloop, Option.map_some], hfound, ?_⟩
    rw [List.nil_append, List.length_take, List.length_nil, Nat.sub_zero,
      ← List.countP_eq_length_filter, (visited_perm hdata).countP_eq, freeCount]

theorem isData_lt (hc : vol.IsData c) : c < word := by
  have hcls := vol.dataCls_lt
  unfold Vol.IsData rsrvdCln at hc
  unfold word
  omega

/-- The search that finds nothing keeps the last cluster. -/
theorem scanLoop_last {zeroFill : Bool} {count left : Nat} {st st' : Scan}
    (h : scanLoop vol zeroFill count left st = some st') :
    st.added ≤ st'.added ∧ (st'.added = st.added → st'.last = st.last) := by
  induction left generalizing st with
  | zero =>
    cases h
    exact ⟨Nat.le_refl _, fun _ => rfl⟩
  | succ left ih =>
    rw [scanLoop] at h
    split at h
    · cases h
      exact ⟨Nat.le_refl _, fun _ => rfl⟩
    · obtain ⟨next, -, h⟩ := Option.bind_eq_some_iff.mp h
      obtain ⟨st₁, htake, h⟩ := Option.bind_eq_some_iff.mp h
      obtain ⟨hle, hlast⟩ := ih h
      split at htake
      · simp only [takeCluster, Option.bind_eq_some_iff, Option.map_eq_some_iff] at htake
        obtain ⟨_, -, _, -, _, -, rfl⟩ := htake
        simp only at hle
        exact ⟨by omega, fun heq => by omega⟩
      · cases htake
        exact ⟨hle, hlast⟩

/-- The search leaves a word as the place to look for free clusters. -/
theorem Found.last_lt {fs : Fs} {count : Nat} {zeroFill : Bool} (h : Found vol d got st)
    (hscan : scanFat vol fs count zeroFill = some (⟨st.disk, st.last⟩, st)) : st.last < word := by
  obtain ⟨st', hloop, heq⟩ := Option.map_eq_some_iff.mp hscan
  obtain rfl : st' = st := congrArg Prod.snd heq
  rcases hgot : got.getLast? with _ | c
  · have hnone := List.getLast?_eq_none_iff.mp hgot
    rw [(scanLoop_last hloop).2 (h.added.trans (by rw [hnone]; rfl))]
    exact Nat.lt_succ_self undefinedValue
  · rw [h.last c hgot]
    exact isData_lt (h.chain.data c (List.mem_of_getLast? hgot))

/-- The free clusters are counted from the entries of the data clusters. -/
theorem freeCount_congr {d d' : Disk}
    (h : ∀ c, vol.IsData c → entry vol d' c = entry vol d c) :
    freeCount vol d' = freeCount vol d := by
  apply List.countP_congr
  intro c hc
  rw [isFree, isFree, h c (mem_dataClusters.mp hc)]

end Rtems.Fat
