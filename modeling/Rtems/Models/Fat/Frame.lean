import Rtems.Models.Fat.State

/-!
# What an operation on some clusters leaves alone

An operation that works on a set of clusters changes their bytes and their entries in the
tables. The reserved sectors, the fixed root directory, the other clusters and the rest of the
tables stay as they are.
-/

namespace Rtems.Fat

variable {vol : Vol}

/-- Only the clusters of a set, and their entries in the tables, differ between two disks. -/
structure Frame (vol : Vol) (changed : Nat → Prop) (d d' : Disk) : Prop where
  /-- The reserved sectors are unchanged. -/
  reserved : ∀ a, a < vol.fatLoc * vol.bps → d' a = d a
  /-- The fixed root directory is unchanged. -/
  root : ∀ a, vol.rdirLoc * vol.bps ≤ a → a < vol.dataFsec * vol.bps → d' a = d a
  /-- The tables are unchanged outside of the bytes of the entries. -/
  table : ∀ i j, i < vol.fats → j < vol.fatLength * vol.bps →
    (∀ c, changed c → ¬ (vol.type.offset c ≤ j ∧ j < vol.type.offset c + vol.type.width)) →
    d' (vol.tableAddr i + j) = d (vol.tableAddr i + j)
  /-- The other entries are unchanged. -/
  entries : ∀ c, vol.IsData c → ¬ changed c → entry vol d' c = entry vol d c
  /-- The other clusters are unchanged. -/
  data : ∀ c, vol.IsData c → ¬ changed c → ∀ j, j < vol.bpc →
    d' (vol.clusterAddr c + j) = d (vol.clusterAddr c + j)

theorem Frame.refl (changed : Nat → Prop) (d : Disk) : Frame vol changed d d :=
  ⟨fun _ _ => rfl, fun _ _ _ => rfl, fun _ _ _ _ _ => rfl, fun _ _ _ => rfl,
    fun _ _ _ _ _ => rfl⟩

variable {d d' : Disk}

theorem Frame.mono {changed changed' : Nat → Prop} (h : Frame vol changed d d')
    (hsub : ∀ c, changed c → changed' c) : Frame vol changed' d d' where
  __ := h
  table i j hi hj hout := h.table i j hi hj fun c hc => hout c (hsub c hc)
  entries c hdata hc := h.entries c hdata fun hin => hc (hsub c hin)
  data c hdata hc := h.data c hdata fun hin => hc (hsub c hin)

theorem Frame.trans {changed : Nat → Prop} {d d' d'' : Disk} (h : Frame vol changed d d')
    (h' : Frame vol changed d' d'') : Frame vol changed d d'' where
  reserved a ha := (h'.reserved a ha).trans (h.reserved a ha)
  root a hge hlt := (h'.root a hge hlt).trans (h.root a hge hlt)
  table i j hi hj hout := (h'.table i j hi hj hout).trans (h.table i j hi hj hout)
  entries c hdata hc := (h'.entries c hdata hc).trans (h.entries c hdata hc)
  data c hdata hc j hj := (h'.data c hdata hc j hj).trans (h.data c hdata hc j hj)

theorem rdirLoc_le_clusterAddr (vol : Vol) (c : Nat) :
    vol.rdirLoc * vol.bps ≤ vol.clusterAddr c :=
  (Nat.mul_le_mul_right _ (Nat.le_add_right _ _)).trans (vol.le_clusterAddr c)

/-- Setting an entry works on its cluster. -/
theorem EntrySet.frame {cln val : Nat} (h : EntrySet vol d cln val d') :
    Frame vol (· = cln) d d' where
  reserved a ha := h.outside a (Or.inl ha)
  root a hge _ := h.outside a (Or.inr hge)
  table i j hi hj hout := h.table i j hi hj (hout cln rfl)
  entries c hdata hc := h.entry_other hdata hc
  data c _ _ j _ := by
    have hloc := rdirLoc_le_clusterAddr vol c
    exact h.outside _ (Or.inr (by omega))

theorem entry_congr {c : Nat} (hc : vol.IsData c)
    (h : ∀ a, a < vol.rdirLoc * vol.bps → d' a = d a) : entry vol d' c = entry vol d c := by
  have hfits := offset_add_width_le hc
  have htable := tableAddr_add_le vol.afat_lt
  apply entryValue_congr
  intro j hj
  rw [h _ (by omega)]

/-- Writing inside a cluster works on that cluster. -/
theorem patch_frame (d : Disk) {cln ofs n : Nat} {data : Nat → UInt8} (hcln : vol.IsData cln)
    (hn : ofs + n ≤ vol.bpc) :
    Frame vol (· = cln) d (patch d (vol.clusterAddr cln + ofs) data n) := by
  have hstart := vol.le_clusterAddr cln
  have hroot : vol.rdirLoc * vol.bps ≤ vol.dataFsec * vol.bps :=
    Nat.mul_le_mul_right _ (Nat.le_add_right _ _)
  have hbefore : ∀ a, a < vol.dataFsec * vol.bps →
      patch d (vol.clusterAddr cln + ofs) data n a = d a :=
    fun a ha => patch_outside _ _ (by omega)
  have htables : ∀ i, i < vol.fats →
      vol.tableAddr i + vol.fatLength * vol.bps ≤ vol.rdirLoc * vol.bps :=
    fun i hi => tableAddr_add_le hi
  constructor
  · intro a ha
    have hfirst := htables vol.afat vol.afat_lt
    have hloc : vol.fatLoc * vol.bps ≤ vol.tableAddr vol.afat :=
      Nat.mul_le_mul_right _ (Nat.le_add_right _ _)
    exact hbefore a (by omega)
  · intro a _ hlt
    exact hbefore a hlt
  · intro i j hi hj _
    have hthis := htables i hi
    exact hbefore _ (by omega)
  · intro c hc _
    exact entry_congr hc fun a ha => hbefore a (by omega)
  · intro c hc hne j hj
    have hdisjoint := vol.clusterAddr_disjoint hc hcln hne
    exact patch_outside _ _ (by omega)

end Rtems.Fat
