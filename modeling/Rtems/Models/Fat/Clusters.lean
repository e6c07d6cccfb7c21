import Rtems.Core.Run
import Rtems.Models.Fat.Extend

/-!
# Clusters that are handed out and released

A caller of the search for free clusters holds the chain it got until it releases it. Along every
run of searches and releases no cluster is in two chains, none is lost, and the clusters that
were not free at the start are left alone.
-/

namespace Rtems.Fat

/-- The volume, and the first clusters of the chains that were handed out. -/
structure Clusters where
  fs : Fs
  held : List Nat

/-- The calls. -/
inductive Clusters.Op
  /-- `fat_scan_fat_for_free_clusters`. -/
  | scan (count : Nat) (zeroFill : Bool)
  /-- `fat_free_fat_clusters_chain`. -/
  | free (chain : Nat)

/-- One call. A search that finds nothing hands out no chain. -/
def Clusters.step (vol : Vol) (s : Clusters) : Op → Option Clusters
  | .scan count zeroFill => (scanFat vol s.fs count zeroFill).map fun found =>
      ⟨found.1, if found.2.added = 0 then s.held else found.2.chain :: s.held⟩
  | .free chain => (freeChain vol s.fs chain).map fun fs => ⟨fs, s.held.erase chain⟩

/-- Only a chain that is held is released. -/
def Clusters.Allowed (s : Clusters) : Op → Prop
  | .scan _ _ => True
  | .free chain => chain ∈ s.held

instance (s : Clusters) (op : Clusters.Op) : Decidable (s.Allowed op) :=
  match op with
  | .scan _ _ => inferInstanceAs (Decidable True)
  | .free chain => inferInstanceAs (Decidable (chain ∈ s.held))

/-- The chains that are held take clusters that were free on the disk `d`, each at most once. -/
structure Clusters.Holds (vol : Vol) (d : Disk) (s : Clusters) (chains : List (List Nat)) :
    Prop where
  synced : Synced vol s.fs.disk
  nextCl_lt : s.fs.nextCl < word
  chain : ∀ cs ∈ chains, cs ≠ [] ∧ ClusterChain vol s.fs.disk cs
  nodup : chains.flatten.Nodup
  /-- The chains are known by their first clusters. -/
  held : (chains.map (·.headD 0)).Perm s.held
  taken : ∀ c ∈ chains.flatten, entry vol d c = genfatFree
  /-- The free clusters are those that were free and are not held. -/
  free : ∀ c, vol.IsData c → (entry vol s.fs.disk c = genfatFree ↔
    entry vol d c = genfatFree ∧ c ∉ chains.flatten)
  /-- Everything else is as it was. -/
  frame : Frame vol (entry vol d · = genfatFree) d s.fs.disk

/-- What is read from clusters whose bytes are kept. -/
theorem segment_kept {vol : Vol} {d d' : Disk} {cs : List Nat} (got : List Nat)
    (hkept : ∀ c ∈ cs, ∀ j, j < vol.bpc → d' (vol.clusterAddr c + j) = d (vol.clusterAddr c + j))
    {start n : Nat} (hend : start + n ≤ cs.length * vol.bpc) :
    segment (content vol d' (cs ++ got)) start n = segment (content vol d cs) start n := by
  apply segment_congr
  intro j hj
  exact content_kept got hkept (by omega)

namespace Clusters

variable {vol : Vol} {d : Disk} {s : Clusters} {chains : List (List Nat)}

theorem Holds.perm (h : Holds vol d s chains) {chains' : List (List Nat)}
    (hperm : chains.Perm chains') : Holds vol d s chains' where
  __ := h
  chain cs hcs := h.chain cs (hperm.mem_iff.mpr hcs)
  nodup := hperm.flatten.nodup_iff.mp h.nodup
  held := (hperm.map _).symm.trans h.held
  taken c hc := h.taken c (hperm.flatten.mem_iff.mpr hc)
  free c hc := by rw [h.free c hc, hperm.flatten.mem_iff]

theorem Holds.freeCount_eq (h : Holds vol d s chains) :
    freeCount vol s.fs.disk + chains.flatten.length = freeCount vol d := by
  have hnodup : (dataClusters vol).Nodup :=
    List.nodup_range.map fun _ _ heq => Nat.add_right_cancel heq
  have hdata : ∀ c ∈ chains.flatten, vol.IsData c := by
    intro c hc
    obtain ⟨cs, hcs, hin⟩ := List.mem_flatten.mp hc
    exact (h.chain cs hcs).2.data c hin
  have hperm : ((dataClusters vol).filter (isFree vol s.fs.disk) ++ chains.flatten).Perm
      ((dataClusters vol).filter (isFree vol d)) := by
    apply (List.perm_ext_iff_of_nodup (List.nodup_append.mpr ⟨hnodup.filter _, h.nodup, ?_⟩)
      (hnodup.filter _)).mpr
    · intro c
      simp only [List.mem_append, List.mem_filter, mem_dataClusters, isFree, decide_eq_true_eq]
      constructor
      · rintro (⟨hc, hfree⟩ | hc)
        · exact ⟨hc, ((h.free c hc).mp hfree).1⟩
        · exact ⟨hdata c hc, h.taken c hc⟩
      · rintro ⟨hc, hfree⟩
        by_cases hin : c ∈ chains.flatten
        · exact .inr hin
        · exact .inl ⟨hc, (h.free c hc).mpr ⟨hfree, hin⟩⟩
    · rintro c hc e he rfl
      obtain ⟨-, hfree⟩ := List.mem_filter.mp hc
      exact ((h.free c (hdata c he)).mp (of_decide_eq_true hfree)).2 he
  rw [freeCount, freeCount, List.countP_eq_length_filter, List.countP_eq_length_filter,
    ← hperm.length_eq, List.length_append]

variable (hnum : vol.Numbered)
include hnum

/-- A search takes free clusters, as many as asked for or all there are. -/
theorem Holds.scan (h : Holds vol d s chains) (count : Nat) (zeroFill : Bool) :
    ∃ s' chains', s.step vol (.scan count zeroFill) = some s' ∧ Holds vol d s' chains' ∧
      chains'.flatten.length = chains.flatten.length + min count (freeCount vol s.fs.disk) := by
  obtain ⟨st, got, hscan, hfound, hlen⟩ := scanFat_spec hnum h.synced h.nextCl_lt count zeroFill
  have hnew : ∀ c ∈ got, entry vol d c = genfatFree ∧ c ∉ chains.flatten := fun c hc =>
    (h.free c (hfound.chain.data c hc)).mp (hfound.free c hc)
  have hlast : st.last < word := hfound.last_lt hscan
  -- The clusters found join those of the other chains, whether or not there are any.
  have hjoined : ∀ held' chains', chains'.flatten = got ++ chains.flatten →
      (∀ cs ∈ chains', cs ≠ [] ∧ (cs = got ∨ cs ∈ chains)) →
      (chains'.map (·.headD 0)).Perm held' → Holds vol d ⟨⟨st.disk, st.last⟩, held'⟩ chains' := by
    intro held' chains' hflat hcs hheld
    refine ⟨hfound.synced, hlast, ?_, ?_, hheld, ?_, ?_,
      h.frame.trans (hfound.frame.mono fun c hc => (hnew c hc).1)⟩
    · intro cs hin
      obtain ⟨hne, rfl | hold⟩ := hcs cs hin
      · exact ⟨hne, hfound.chain⟩
      · exact ⟨hne, (h.chain cs hold).2.frame hfound.frame fun c hc hgot =>
          (hnew c hgot).2 (List.mem_flatten.mpr ⟨cs, hold, hc⟩)⟩
    · rw [hflat]
      exact List.nodup_append.mpr ⟨hfound.chain.nodup, h.nodup, fun c hc e he heq =>
        (hnew c hc).2 (heq ▸ he)⟩
    · rw [hflat]
      exact fun c hc => (List.mem_append.mp hc).elim (fun hg => (hnew c hg).1) (h.taken c)
    · intro c hc
      rw [hflat, List.mem_append, not_or]
      by_cases hgot : c ∈ got
      · simp [hgot, hfound.chain.ne_free hgot]
      · rw [hfound.frame.entries c hc hgot, h.free c hc]
        simp [hgot]
  rw [step, hscan, Option.map_some, hfound.added, ← hlen]
  cases got with
  | nil =>
    refine ⟨_, chains, rfl, hjoined _ _ rfl (fun cs hin => ⟨(h.chain cs hin).1, .inr hin⟩) ?_, rfl⟩
    exact h.held
  | cons c got =>
    refine ⟨_, (c :: got) :: chains, rfl, hjoined _ _ rfl ?_ ?_, ?_⟩
    · exact List.forall_mem_cons.mpr ⟨⟨List.cons_ne_nil _ _, .inl rfl⟩, fun cs hin =>
        ⟨(h.chain cs hin).1, .inr hin⟩⟩
    · show (c :: chains.map (·.headD 0)).Perm (st.chain :: s.held)
      rw [hfound.first c rfl]
      exact h.held.cons c
    · rw [List.flatten_cons, List.length_append, Nat.add_comm]

/-- A release frees the clusters of its chain. -/
theorem Holds.release (h : Holds vol d s chains) {chain : Nat} (hin : chain ∈ s.held) :
    ∃ s' chains', s.step vol (.free chain) = some s' ∧ Holds vol d s' chains' := by
  obtain ⟨cs, hcs, rfl⟩ := List.mem_map.mp (h.held.mem_iff.mpr hin)
  have h := h.perm (List.perm_cons_erase hcs)
  generalize chains.erase cs = rest at h
  obtain ⟨hne, hchain⟩ := h.chain cs (List.mem_cons_self ..)
  obtain ⟨c, cs, rfl⟩ := List.exists_cons_of_ne_nil hne
  have hfuel : cs.length < vol.dataCls + 1 := by
    have hle := hchain.length_le
    rw [List.length_cons] at hle
    omega
  obtain ⟨d', hfree, hsync, hframe, hfreed⟩ := freeLoop_spec hnum h.synced hchain hfuel
  have hnodup := h.nodup
  rw [List.flatten_cons] at hnodup
  obtain ⟨-, hrest, hapart⟩ := List.nodup_append.mp hnodup
  have htaken := h.taken
  rw [List.flatten_cons] at htaken
  refine ⟨⟨⟨d', c⟩, s.held.erase c⟩, rest, ?_, hsync, ?_, ?_, hrest, ?_, ?_, ?_, ?_⟩
  · show (freeChain vol s.fs c).map _ = _
    rw [freeChain, hfree]
    rfl
  · exact isData_lt (hchain.data c (List.mem_cons_self ..))
  · intro bs hbs
    obtain ⟨hne, hb⟩ := h.chain bs (List.mem_cons_of_mem _ hbs)
    exact ⟨hne, hb.frame hframe fun e he hin =>
      hapart e hin e (List.mem_flatten.mpr ⟨bs, hbs, he⟩) rfl⟩
  · have herase := h.held.erase c
    rwa [List.map_cons, List.headD_cons, List.erase_cons_head] at herase
  · exact fun e he => htaken e (List.mem_append_right _ he)
  · intro e he
    show entry vol d' e = genfatFree ↔ _
    by_cases hin : e ∈ c :: cs
    · exact iff_of_true (hfreed e hin)
        ⟨htaken e (List.mem_append_left _ hin), fun hr => hapart e hin e hr rfl⟩
    · rw [hframe.entries e he hin, h.free e he, List.flatten_cons, List.mem_append]
      simp [hin]
  · exact h.frame.trans (hframe.mono fun e he => htaken e (List.mem_append_left _ he))

/-- An allowed call returns and keeps the chains apart. -/
theorem Holds.step (h : Holds vol d s chains) {op : Op} (hop : s.Allowed op) :
    ∃ s' chains', s.step vol op = some s' ∧ Holds vol d s' chains' := by
  cases op with
  | scan count zeroFill =>
    obtain ⟨s', chains', hstep, h', -⟩ := h.scan hnum count zeroFill
    exact ⟨s', chains', hstep, h'⟩
  | free chain => exact h.release hnum hop

omit hnum

/-- The state after some calls on a volume with synchronised tables, whose cluster numbers lie
below the end marks. -/
structure Reached (vol : Vol) (fs : Fs) (ops : List Op) (s : Clusters) : Prop where
  numbered : vol.Numbered
  synced : Synced vol fs.disk
  nextCl_lt : fs.nextCl < word
  run : Run (Clusters.step vol) Allowed ⟨fs, []⟩ ops s

variable {fs : Fs} {ops : List Op}

theorem Reached.holds (h : Reached vol fs ops s) : ∃ chains, Holds vol fs.disk s chains := by
  refine h.run.invariant (fun s => ∃ chains, Holds vol fs.disk s chains) ⟨[], ?_⟩ ?_
  · exact ⟨h.synced, h.nextCl_lt, by simp, by simp, by simp, by simp, by simp, Frame.refl _ _⟩
  · rintro s op t ⟨chains, hs⟩ hop hstep
    obtain ⟨s', chains', hs', hholds⟩ := hs.step h.numbered hop
    obtain rfl : s' = t := Option.some.inj (hs'.symm.trans hstep)
    exact ⟨chains', hholds⟩

/-- In every run no cluster is in two of the chains that are held, a cluster that was free is
free or held, the rest of the disk is as it was, and a further call returns. A search hands out
as many clusters as asked for or all that are free. -/
theorem clusters_held_once (h : Reached vol fs ops s) :
    (∃ chains, Holds vol fs.disk s chains ∧
      freeCount vol s.fs.disk + chains.flatten.length = freeCount vol fs.disk) ∧
      (∀ op, s.Allowed op → ∃ s', s.step vol op = some s') ∧
      ∀ count zeroFill s', s.step vol (.scan count zeroFill) = some s' →
        freeCount vol s'.fs.disk = freeCount vol s.fs.disk - count := by
  obtain ⟨chains, hs⟩ := h.holds
  refine ⟨⟨chains, hs, hs.freeCount_eq⟩, ?_, ?_⟩
  · intro op hop
    obtain ⟨s', -, hstep, -⟩ := hs.step h.numbered hop
    exact ⟨s', hstep⟩
  · intro count zeroFill s' hstep
    obtain ⟨t, chains', ht, hholds, hlen⟩ := hs.scan h.numbered count zeroFill
    obtain rfl : t = s' := Option.some.inj (ht.symm.trans hstep)
    have hbefore := hs.freeCount_eq
    have hafter := hholds.freeCount_eq
    omega

/-- An execution on the small volume reaches a state. -/
theorem exists_reached {held : List Nat} (hcl : fs.nextCl < word)
    (h : (exec (Clusters.step smallVol) Allowed ⟨fs, []⟩ ops).map (·.held) = some held) :
    ∃ s, Reached smallVol fs ops s ∧ s.held = held := by
  obtain ⟨s, hexec, hheld⟩ := Option.map_eq_some_iff.mp h
  exact ⟨s, ⟨by decide, fun hmirror => absurd hmirror (by decide), hcl, .of_exec hexec⟩, hheld⟩

/-- Two chains are handed out on an empty volume. -/
theorem clusters_held_two : ∃ s,
    Reached smallVol ⟨fun _ => 0, 2⟩ [.scan 2 false, .scan 1 false] s ∧ s.held = [4, 2] ∧
      ∃ chains, Holds smallVol (fun _ => 0) s chains := by
  obtain ⟨s, h, hheld⟩ := @exists_reached ⟨fun _ => 0, 2⟩ [.scan 2 false, .scan 1 false] [4, 2]
    (by decide) (by decide +kernel)
  obtain ⟨⟨chains, hs, -⟩, -⟩ := clusters_held_once h
  exact ⟨s, h, hheld, chains, hs⟩

/-- When all chains are released, every entry of the table is as it was. -/
theorem released_entries (h : Reached vol fs ops s) (hheld : s.held = []) {c : Nat}
    (hc : vol.IsData c) : getFat vol s.fs.disk c = getFat vol fs.disk c := by
  obtain ⟨chains, hs⟩ := h.holds
  obtain rfl : chains = [] := by
    have hperm := hs.held
    rw [hheld, List.perm_nil, List.map_eq_nil_iff] at hperm
    exact hperm
  rw [getFat_eq _ hc, getFat_eq _ hc]
  by_cases hfree : entry vol fs.disk c = genfatFree
  · rw [hfree, (hs.free c hc).mpr ⟨hfree, by simp⟩]
  · rw [hs.frame.entries c hc hfree]

/-- Two clusters are handed out and released. -/
theorem released_two : ∃ s, Reached smallVol ⟨fun _ => 0, 2⟩ [.scan 2 false, .free 2] s ∧
    s.held = [] ∧ getFat smallVol s.fs.disk 3 = getFat smallVol (fun _ => 0) 3 := by
  obtain ⟨s, h, hheld⟩ := @exists_reached ⟨fun _ => 0, 2⟩ [.scan 2 false, .free 2] []
    (by decide) (by decide +kernel)
  exact ⟨s, h, hheld, released_entries h hheld (by decide)⟩

/-- Searches and releases do not change what is read from a file. -/
theorem read_kept (h : Reached vol fs ops s) {fd : Fd} {cs : List Nat}
    (hfd : Follows vol fs.disk fd cs) (hroot : isFixedRoot vol fd = false) {start n : Nat}
    (hn : 0 < n) (hsize : start + n ≤ fd.size) (hlen : fd.size ≤ cs.length * vol.bpc)
    (hword : fd.size ≤ word) :
    ∃ fd', fileRead vol s.fs.disk fd start n =
        some (fd', segment (content vol fs.disk cs) start n) ∧ Follows vol s.fs.disk fd' cs := by
  obtain ⟨chains, hs⟩ := h.holds
  have hused : ∀ c ∈ cs, ¬ entry vol fs.disk c = genfatFree := fun c hc => hfd.chain.ne_free hc
  have hfd' : Follows vol s.fs.disk fd cs := hfd.congr fun c hc =>
    hs.frame.entries c (hfd.chain.data c hc) (hused c hc)
  have hsegment := segment_kept [] (fun c hc => hs.frame.data c (hfd.chain.data c hc) (hused c hc))
    (Nat.le_trans hsize hlen)
  rw [List.append_nil] at hsegment
  rw [← hsegment]
  exact fileRead_eq hfd' hroot hn hsize hlen hword

/-- A disk on which the chain of the second cluster ends with it. -/
def oneFile : Disk :=
  patch (fun _ => 0) 16392 (fun j => if j = 3 then 0x0f else 0xff) 4

def oneFd : Fd := ⟨false, false, 8, 2, 0, 2, undefinedValue⟩

theorem oneFd_follows : Follows smallVol oneFile oneFd [2] :=
  ⟨⟨by decide, by decide, by decide, .singleton 2, by decide⟩, by decide, by decide, by decide⟩

/-- The file is read while another chain is handed out. -/
theorem read_kept_one : ∃ s, Reached smallVol ⟨oneFile, 3⟩ [.scan 1 true] s ∧ s.held = [3] ∧
    ∃ fd', fileRead smallVol s.fs.disk oneFd 4 2 =
      some (fd', segment (content smallVol oneFile [2]) 4 2) := by
  obtain ⟨s, h, hheld⟩ := @exists_reached ⟨oneFile, 3⟩ [.scan 1 true] [3] (by decide)
    (by decide +kernel)
  obtain ⟨fd', hread, -⟩ := @read_kept smallVol s _ _ h oneFd [2] oneFd_follows (by decide)
    4 2 (by decide) (by decide) (by decide) (by decide)
  exact ⟨s, h, hheld, fd', hread⟩

end Clusters

/-- A file that gets further clusters from a search has as many as there are, up to the number
asked for, and reads inside of its size return what they returned before. -/
theorem append_found {vol : Vol} {fs : Fs} {fd : Fd} {cs : List Nat} (hnum : vol.Numbered)
    (hsync : Synced vol fs.disk) (hcl : fs.nextCl < word) (h : Follows vol fs.disk fd cs)
    (hlen : cs.length = clustersOf vol fd.size) (hroot : isFixedRoot vol fd = false)
    (hword : fd.size ≤ word) {count : Nat} (zeroFill : Bool)
    (hsome : 0 < min count (freeCount vol fs.disk)) :
    ∃ fs' fd' got, ((scanFat vol fs count zeroFill).bind fun found =>
        appendChain vol found.1 fd found.2) = some (fs', fd') ∧
      got.length = min count (freeCount vol fs.disk) ∧ Follows vol fs'.disk fd' (cs ++ got) ∧
      Grown vol fs.disk fs'.disk cs got ∧ fd'.size = fd.size ∧
      ∀ start n, 0 < n → start + n ≤ fd.size → ∃ fd₁, fileRead vol fs'.disk fd' start n =
        some (fd₁, segment (content vol fs.disk cs) start n) := by
  obtain ⟨st, got, hscan, hfound, hgot⟩ := scanFat_spec hnum hsync hcl count zeroFill
  have hne : got ≠ [] := List.ne_nil_of_length_pos (hgot ▸ hsome)
  obtain ⟨d', fd', happend, hfollows, hgrown, hsize, hsame⟩ :=
    appendChain_spec hnum h hlen hfound hne
  refine ⟨⟨d', st.last⟩, fd', got, ?_, hgot, hfollows, hgrown, hsize, ?_⟩
  · rw [hscan, Option.bind_some, happend]
  · intro start n hn hend
    have hroom : fd.size ≤ cs.length * vol.bpc := by
      rw [hlen, clustersOf_mul]
      exact Nat.le_add_right _ _
    have hroot' : isFixedRoot vol fd' = false := by
      rw [isFixedRoot, hsame.1]
      exact hroot
    obtain ⟨fd₁, hread, -⟩ := fileRead_eq hfollows hroot' hn (hsize ▸ hend)
      (by rw [hsize, List.length_append, Nat.add_mul]; omega) (hsize ▸ hword)
    rw [segment_kept got hgrown.kept (Nat.le_trans hend hroom)] at hread
    exact ⟨fd₁, hread⟩

/-- The file gets a second cluster. -/
theorem append_found_one : ∃ fs' fd' got,
    ((scanFat smallVol ⟨Clusters.oneFile, 3⟩ 1 false).bind fun found =>
      appendChain smallVol found.1 Clusters.oneFd found.2) = some (fs', fd') ∧
      Follows smallVol fs'.disk fd' ([2] ++ got) := by
  have hfree : 0 < freeCount smallVol Clusters.oneFile :=
    List.countP_pos_iff.mpr ⟨3, mem_dataClusters.mpr (by decide), by decide⟩
  obtain ⟨fs', fd', got, happend, -, hfollows, -⟩ := @append_found smallVol ⟨Clusters.oneFile, 3⟩
    Clusters.oneFd [2] (by decide) (fun hmirror => absurd hmirror (by decide)) (by decide)
    Clusters.oneFd_follows (by decide) (by decide) (by decide) 1 false
    (Nat.lt_min.mpr ⟨Nat.one_pos, hfree⟩)
  exact ⟨fs', fd', got, happend, hfollows⟩

end Rtems.Fat
