import Mathlib.Data.List.Perm.Basic
import Mathlib.Data.List.Nodup

/-!
# One-to-one assignments of slots

Members occupy slots: every member has its own slot and every slot has a member as its
holder. A member can give its slot to a newcomer, either directly or by way of an
exchange in which the holder of another slot moves.
-/

namespace Rtems

open Function

/-- The members `A` and the slots are in one-to-one correspondence. -/
structure Assignment {C T : Type*} (slots : C → Prop) (slot : T → C) (holder : C → T)
    (A : T → Prop) : Prop where
  slot_mem : ∀ t, A t → slots (slot t)
  holder_slot : ∀ t, A t → holder (slot t) = t
  holder_mem : ∀ c, slots c → A (holder c)
  slot_holder : ∀ c, slots c → slot (holder c) = c

namespace Assignment

variable {C T : Type*} {slots : C → Prop} {slot slot' : T → C} {holder : C → T}
  {A A' : T → Prop} {c : C} {t victim new : T}

/-- Only the members and the slots of the members matter. -/
theorem congr (h : Assignment slots slot holder A) (hA : ∀ t, A' t ↔ A t)
    (hslot : ∀ t, A t → slot' t = slot t) : Assignment slots slot' holder A' where
  slot_mem t ht := by
    rw [hslot t ((hA t).mp ht)]
    exact h.slot_mem t ((hA t).mp ht)
  holder_slot t ht := by
    rw [hslot t ((hA t).mp ht)]
    exact h.holder_slot t ((hA t).mp ht)
  holder_mem c hc := (hA _).mpr (h.holder_mem c hc)
  slot_holder c hc := by
    rw [hslot _ (h.holder_mem c hc)]
    exact h.slot_holder c hc

/-- Members with one slot are equal. -/
theorem eq_of_slot_eq (h : Assignment slots slot holder A) (ht : A t) (hn : A new)
    (he : slot t = slot new) : t = new := by
  rw [← h.holder_slot t ht, he, h.holder_slot new hn]

variable [DecidableEq C]

omit [DecidableEq C] in
/-- Nobody occupies no slot. -/
theorem empty (slot : T → C) (holder : C → T) :
    Assignment (fun _ => False) slot holder fun _ => False :=
  ⟨fun _ => False.elim, fun _ => False.elim, fun _ => False.elim, fun _ => False.elim⟩

section

variable (h : Assignment slots slot holder A)
include h

/-- A newcomer occupies a slot that is added. -/
theorem extend {slots' : C → Prop} (hc : ¬slots c)
    (hn : ¬A new) (hslots : ∀ d, slots' d ↔ d = c ∨ slots d) (hA : ∀ u, A' u ↔ u = new ∨ A u)
    (hnew : slot' new = c) (hslot : ∀ u, u ≠ new → slot' u = slot u) :
    Assignment slots' slot' (update holder c new) A' := by
  have hne : ∀ u, A u → u ≠ new := by
    rintro u hu rfl
    exact hn hu
  have hnc : ∀ d, slots d → d ≠ c := by
    rintro d hd rfl
    exact hc hd
  refine ⟨?_, ?_, ?_, ?_⟩
  · intro t ht
    rcases (hA t).mp ht with rfl | ht
    · exact (hslots _).mpr (.inl hnew)
    · rw [hslot t (hne t ht)]
      exact (hslots _).mpr (.inr (h.slot_mem t ht))
  · intro t ht
    rcases (hA t).mp ht with rfl | ht
    · rw [hnew, update_self]
    · rw [hslot t (hne t ht), update_of_ne (hnc _ (h.slot_mem t ht))]
      exact h.holder_slot t ht
  · intro d hd
    rcases (hslots d).mp hd with rfl | hd
    · rw [update_self]
      exact (hA new).mpr (.inl rfl)
    · rw [update_of_ne (hnc d hd)]
      exact (hA _).mpr (.inr (h.holder_mem d hd))
  · intro d hd
    rcases (hslots d).mp hd with rfl | hd
    · rw [update_self, hnew]
    · rw [update_of_ne (hnc d hd), hslot _ (hne _ (h.holder_mem d hd))]
      exact h.slot_holder d hd

/-- A newcomer takes the slot of a member that leaves. -/
theorem replace (hv : A victim) (hn : ¬A new)
    (hA : ∀ u, A' u ↔ u = new ∨ u ≠ victim ∧ A u) (hnew : slot' new = slot victim)
    (hslot : ∀ u, u ≠ new → slot' u = slot u) :
    Assignment slots slot' (update holder (slot victim) new) A' := by
  have hne : ∀ u, A u → u ≠ new := by
    rintro u hu rfl
    exact hn hu
  refine ⟨?_, ?_, ?_, ?_⟩
  · intro t ht
    rcases (hA t).mp ht with rfl | ⟨-, ht⟩
    · rw [hnew]
      exact h.slot_mem victim hv
    · rw [hslot t (hne t ht)]
      exact h.slot_mem t ht
  · intro t ht
    rcases (hA t).mp ht with rfl | ⟨htv, ht⟩
    · rw [hnew, update_self]
    · have hsv : slot t ≠ slot victim := fun he => htv (h.eq_of_slot_eq ht hv he)
      rw [hslot t (hne t ht), update_of_ne hsv]
      exact h.holder_slot t ht
  · intro c hc
    by_cases hcv : c = slot victim
    · rw [hcv, update_self]
      exact (hA new).mpr (.inl rfl)
    · rw [update_of_ne hcv]
      refine (hA _).mpr (.inr ⟨?_, h.holder_mem c hc⟩)
      rintro rfl
      exact hcv (h.slot_holder c hc).symm
  · intro c hc
    by_cases hcv : c = slot victim
    · rw [hcv, update_self, hnew]
    · rw [update_of_ne hcv, hslot _ (hne _ (h.holder_mem c hc))]
      exact h.slot_holder c hc

/-- A newcomer takes the slot of another member, which moves to the slot of the member
that leaves. -/
theorem exchange (hv : A victim) (hn : ¬A new)
    (hc : slots c) (hcv : holder c ≠ victim) (hA : ∀ u, A' u ↔ u = new ∨ u ≠ victim ∧ A u)
    (hnew : slot' new = c) (hmoved : slot' (holder c) = slot victim)
    (hslot : ∀ u, u ≠ new → u ≠ holder c → slot' u = slot u) :
    Assignment slots slot'
      (update (update holder c new) (slot victim) (holder c)) A' := by
  have hne : ∀ u, A u → u ≠ new := by
    rintro u hu rfl
    exact hn hu
  have hcs : c ≠ slot victim := by
    rintro rfl
    exact hcv (h.holder_slot victim hv)
  refine ⟨?_, ?_, ?_, ?_⟩
  · intro t ht
    rcases (hA t).mp ht with rfl | ⟨-, ht⟩
    · rwa [hnew]
    · by_cases htc : t = holder c
      · rw [htc, hmoved]
        exact h.slot_mem victim hv
      · rw [hslot t (hne t ht) htc]
        exact h.slot_mem t ht
  · intro t ht
    rcases (hA t).mp ht with rfl | ⟨htv, ht⟩
    · rw [hnew, update_of_ne hcs, update_self]
    · by_cases htc : t = holder c
      · rw [htc, hmoved, update_self]
      · have hsv : slot t ≠ slot victim := fun he => htv (h.eq_of_slot_eq ht hv he)
        have hsc : slot t ≠ c := by
          rintro rfl
          exact htc (h.holder_slot t ht).symm
        rw [hslot t (hne t ht) htc, update_of_ne hsv, update_of_ne hsc]
        exact h.holder_slot t ht
  · intro d hd
    by_cases hdv : d = slot victim
    · rw [hdv, update_self]
      exact (hA _).mpr (.inr ⟨hcv, h.holder_mem c hc⟩)
    · rw [update_of_ne hdv]
      by_cases hdc : d = c
      · rw [hdc, update_self]
        exact (hA new).mpr (.inl rfl)
      · rw [update_of_ne hdc]
        refine (hA _).mpr (.inr ⟨?_, h.holder_mem d hd⟩)
        rintro rfl
        exact hdv (h.slot_holder d hd).symm
  · intro d hd
    by_cases hdv : d = slot victim
    · rw [hdv, update_self, hmoved]
    · rw [update_of_ne hdv]
      by_cases hdc : d = c
      · rw [hdc, update_self, hnew]
      · have hhc : holder d ≠ holder c := by
          intro he
          exact hdc (by rw [← h.slot_holder d hd, he, h.slot_holder c hc])
        rw [update_of_ne hdc, hslot _ (hne _ (h.holder_mem d hd)) hhc]
        exact h.slot_holder d hd

end

omit [DecidableEq C] in
/-- There are at most as many members as slots. -/
theorem length_le {cs : List C} {l : List T} (h : Assignment (· ∈ cs) slot holder A)
    (hl : l.Nodup) (hA : ∀ t ∈ l, A t) : l.length ≤ cs.length := by
  have hnodup : (l.map slot).Nodup := by
    refine hl.map_on ?_
    intro t ht u hu he
    exact h.eq_of_slot_eq (hA t ht) (hA u hu) he
  have hsub : l.map slot ⊆ cs := by
    intro c hc
    obtain ⟨t, ht, rfl⟩ := List.mem_map.mp hc
    exact h.slot_mem t (hA t ht)
  simpa using (List.subperm_of_subset hnodup hsub).length_le

omit [DecidableEq C] in
/-- Listed without repetition, there are as many members as slots. -/
theorem length_eq {cs : List C} {l : List T} (h : Assignment (· ∈ cs) slot holder (· ∈ l))
    (hcs : cs.Nodup) (hl : l.Nodup) : l.length = cs.length := by
  have hnodup : (l.map slot).Nodup := by
    refine hl.map_on ?_
    intro t ht u hu he
    exact h.eq_of_slot_eq ht hu he
  have hperm : (l.map slot).Perm cs := by
    refine (List.perm_ext_iff_of_nodup hnodup hcs).mpr ?_
    intro c
    constructor
    · intro hc
      obtain ⟨t, ht, rfl⟩ := List.mem_map.mp hc
      exact h.slot_mem t ht
    · intro hc
      exact List.mem_map.mpr ⟨holder c, h.holder_mem c hc, h.slot_holder c hc⟩
  simpa using hperm.length_eq

end Assignment

end Rtems
