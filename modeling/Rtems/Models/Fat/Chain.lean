import Rtems.Core.Chained
import Rtems.Models.Fat.Frame

/-!
# Chains of clusters

The clusters of a file as a list, and what the operations on a chain do to it: following its
links, freeing it and clearing its clusters.
-/

namespace Rtems.Fat

variable {vol : Vol}

/-- The cluster numbers are below the marks for the end of a chain. -/
def Vol.Numbered (vol : Vol) : Prop :=
  vol.dataCls + 1 < vol.type.eocVal

instance (vol : Vol) : Decidable vol.Numbered :=
  inferInstanceAs (Decidable (_ < _))

/-- The clusters form a chain in the active table. -/
structure ClusterChain (vol : Vol) (d : Disk) (cs : List Nat) : Prop where
  /-- They are data clusters. -/
  data : ∀ c ∈ cs, vol.IsData c
  /-- No cluster occurs twice. -/
  nodup : cs.Nodup
  /-- Their entries have no reserved bits set. -/
  masked : ∀ c ∈ cs, entry vol d c ≤ vol.type.mask
  /-- They are linked, up to an end mark. -/
  chained : Chained (entry vol d) (fun cln => isLink vol cln = false) cs

variable {d : Disk}

theorem ClusterChain.nil : ClusterChain vol d [] where
  data _ hc := absurd hc List.not_mem_nil
  nodup := List.nodup_nil
  masked _ hc := absurd hc List.not_mem_nil
  chained := Chained.nil

variable {cs : List Nat} {d' : Disk}

/-- The number of a data cluster is a link. -/
theorem isLink_of_isData (hnum : vol.Numbered) {c : Nat} (hc : vol.IsData c) :
    isLink vol c = true := by
  have hmask : vol.type.eocVal ≤ vol.type.mask + 1 := by cases vol.type <;> decide
  have hlt : c < vol.type.eocVal := by
    have hnum : vol.dataCls + 1 < vol.type.eocVal := hnum
    have hle := hc.2
    simp only [rsrvdCln] at hle
    omega
  rw [isLink, Nat.mod_eq_of_lt (by omega)]
  exact decide_eq_true hlt

section

variable (h : ClusterChain vol d cs)
include h

theorem ClusterChain.congr
    (hentry : ∀ c ∈ cs, entry vol d' c = entry vol d c) : ClusterChain vol d' cs where
  __ := h
  masked c hc := by
    rw [hentry c hc]
    exact h.masked c hc
  chained := h.chained.congr hentry

theorem ClusterChain.frame {changed : Nat → Prop} (hframe : Frame vol changed d d')
    (hout : ∀ c ∈ cs, ¬ changed c) : ClusterChain vol d' cs :=
  h.congr fun c hc => hframe.entries c (h.data c hc) (hout c hc)

theorem ClusterChain.drop (k : Nat) :
    ClusterChain vol d (cs.drop k) where
  data c hc := h.data c (List.mem_of_mem_drop hc)
  nodup := h.nodup.sublist (List.drop_sublist k cs)
  masked c hc := h.masked c (List.mem_of_mem_drop hc)
  chained := h.chained.drop k

/-- Following the links goes along the chain. -/
theorem walk_eq {n i c c' : Nat}
    (hc : cs[i]? = some c) (hc' : cs[i + n]? = some c') : walk vol d n c = some c' := by
  induction n generalizing i c with
  | zero => exact hc.symm.trans hc'
  | succ n ih =>
    have hlen : i + 1 < cs.length := by
      have := (List.getElem?_eq_some_iff.mp hc').1
      omega
    have hnext := List.getElem?_eq_getElem hlen
    rw [walk, getFat_eq d (h.data c (List.mem_of_getElem? hc)), Option.bind_some,
      h.chained.next_eq hc hnext]
    apply ih hnext
    rwa [show i + 1 + n = i + (n + 1) by omega]

end

variable {fuel cln : Nat}

theorem freeLoop_link (h : isLink vol cln = true) :
    freeLoop vol (fuel + 1) d cln = (getFat vol d cln).bind fun next =>
      (setFat vol d cln genfatFree).bind fun d => freeLoop vol fuel d next := by
  exact if_pos h

/-- Freeing a chain frees its clusters. -/
theorem freeLoop_spec (hnum : vol.Numbered) {c : Nat} {fuel : Nat}
    (hsync : Synced vol d) (h : ClusterChain vol d (c :: cs)) (hfuel : cs.length < fuel) :
    ∃ d', freeLoop vol fuel d c = some d' ∧ Synced vol d' ∧ Frame vol (· ∈ c :: cs) d d' ∧
      ∀ e ∈ c :: cs, entry vol d' e = genfatFree := by
  obtain ⟨fuel, rfl⟩ := Nat.exists_eq_succ_of_ne_zero (Nat.ne_zero_of_lt hfuel)
  induction cs generalizing d c fuel with
  | nil =>
    have hdata := h.data c (List.mem_cons_self ..)
    obtain ⟨d', hset, hd'⟩ := setFat_spec hsync hdata genfatFree
    have hend : isLink vol (entry vol d c) = false := h.chained.ends c rfl
    refine ⟨d', ?_, hd'.synced, hd'.frame.mono fun e he => by simp [he], ?_⟩
    · rw [freeLoop_link (isLink_of_isData hnum hdata), getFat_eq d hdata, Option.bind_some,
        hset, Option.bind_some, freeLoop.eq_def]
      exact if_neg (by simp [hend])
    · intro e he
      obtain rfl : e = c := List.mem_singleton.mp he
      rw [hd'.entry_self (h.masked e he), genfatFree, Nat.zero_mod]
  | cons b cs ih =>
    have hdata := h.data c (List.mem_cons_self ..)
    obtain ⟨hnot, -⟩ := List.nodup_cons.mp h.nodup
    obtain ⟨d₁, hset, hd₁⟩ := setFat_spec hsync hdata genfatFree
    have hrest : ClusterChain vol d₁ (b :: cs) :=
      (h.drop 1).frame hd₁.frame fun e he heq => hnot (heq ▸ he)
    have hpos : cs.length < fuel := Nat.lt_of_succ_lt_succ hfuel
    obtain ⟨fuel, rfl⟩ := Nat.exists_eq_succ_of_ne_zero (Nat.ne_zero_of_lt hpos)
    obtain ⟨d', hloop, hsync', hframe, hfree⟩ := ih hd₁.synced hrest fuel hpos
    refine ⟨d', ?_, hsync', ?_, ?_⟩
    · rw [freeLoop_link (isLink_of_isData hnum hdata), getFat_eq d hdata, Option.bind_some,
        hset, Option.bind_some, h.chained.next_eq (i := 0) rfl rfl]
      exact hloop
    · exact (hd₁.frame.mono fun e he => by simp [he]).trans
        (hframe.mono fun e he => List.mem_cons_of_mem _ he)
    · intro e he
      rcases List.mem_cons.mp he with rfl | he
      · rw [hframe.entries e hdata hnot, hd₁.entry_self (h.masked e (List.mem_cons_self ..)),
          genfatFree, Nat.zero_mod]
      · exact hfree e he

theorem Synced.congr (h : Synced vol d)
    (hsame : ∀ a, a < vol.rdirLoc * vol.bps → d' a = d a) : Synced vol d' := by
  intro hmirror i j hi hj
  have htable := tableAddr_add_le hi
  have hfirst := tableAddr_add_le (Nat.zero_lt_of_lt hi)
  rw [hsame _ (by omega), hsame _ (by omega)]
  exact h hmirror i j hi hj

theorem patch_tables (vol : Vol) (d : Disk) (cln ofs n : Nat) (data : Nat → UInt8) (a : Nat)
    (ha : a < vol.rdirLoc * vol.bps) :
    patch d (vol.clusterAddr cln + ofs) data n a = d a := by
  have hloc := rdirLoc_le_clusterAddr vol cln
  exact patch_outside _ _ (by omega)

theorem initChain_link (h : isLink vol cln = true) :
    initChain vol (fuel + 1) d cln = (clusterSet vol d cln 0 vol.bpc 0).bind fun (d, _) =>
      (getFat vol d cln).bind fun next => initChain vol fuel d next := by
  exact if_pos h

theorem clusterSet_whole (d : Disk) {cln : Nat} (hcln : vol.IsData cln) :
    clusterSet vol d cln 0 vol.bpc 0 =
      some (patch d (vol.clusterAddr cln + 0) (fun _ => 0) vol.bpc, vol.bpc) := by
  rw [clusterSet, clusterPut_eq d hcln vol.bpc_pos, Nat.sub_zero, Nat.min_self]

/-- Clearing a chain works on its clusters and keeps the tables. -/
theorem initChain_spec (hnum : vol.Numbered) {c : Nat} {fuel : Nat}
    (h : ClusterChain vol d (c :: cs)) (hfuel : cs.length < fuel) :
    ∃ d', initChain vol fuel d c = some d' ∧ Frame vol (· ∈ c :: cs) d d' ∧
      ∀ a, a < vol.rdirLoc * vol.bps → d' a = d a := by
  obtain ⟨fuel, rfl⟩ := Nat.exists_eq_succ_of_ne_zero (Nat.ne_zero_of_lt hfuel)
  induction cs generalizing d c fuel with
  | nil =>
    have hdata := h.data c (List.mem_cons_self ..)
    have htables := patch_tables vol d c 0 vol.bpc fun _ => 0
    have hend : isLink vol (entry vol d c) = false := h.chained.ends c rfl
    refine ⟨_, ?_, (patch_frame d hdata (by omega)).mono fun e he => by simp [he], htables⟩
    rw [initChain_link (isLink_of_isData hnum hdata), clusterSet_whole d hdata, Option.bind_some]
    show (getFat vol _ c).bind _ = _
    rw [getFat_eq _ hdata, Option.bind_some, entry_congr hdata htables, initChain.eq_def]
    exact if_neg (by simp [hend])
  | cons b cs ih =>
    have hdata := h.data c (List.mem_cons_self ..)
    have htables := patch_tables vol d c 0 vol.bpc fun _ => 0
    have hrest : ClusterChain vol _ (b :: cs) :=
      (h.drop 1).congr fun e he => entry_congr (h.data e (List.mem_cons_of_mem _ he)) htables
    have hpos : cs.length < fuel := Nat.lt_of_succ_lt_succ hfuel
    obtain ⟨fuel, rfl⟩ := Nat.exists_eq_succ_of_ne_zero (Nat.ne_zero_of_lt hpos)
    obtain ⟨d', hloop, hframe, hsame⟩ := ih hrest fuel hpos
    refine ⟨d', ?_, ?_, fun a ha => (hsame a ha).trans (htables a ha)⟩
    · rw [initChain_link (isLink_of_isData hnum hdata), clusterSet_whole d hdata,
        Option.bind_some]
      show (getFat vol _ c).bind _ = _
      rw [getFat_eq _ hdata, Option.bind_some, entry_congr hdata htables,
        h.chained.next_eq (i := 0) rfl rfl]
      exact hloop
    · exact ((patch_frame d hdata (by omega)).mono fun e he => by simp [he]).trans
        (hframe.mono fun e he => List.mem_cons_of_mem _ he)

end Rtems.Fat
