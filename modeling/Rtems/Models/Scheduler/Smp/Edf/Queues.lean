import Rtems.Models.Scheduler.Smp.Edf.State
import Rtems.Models.Scheduler.Smp.Invariant

/-!
# Queues of the EDF SMP scheduler

The ready queues, the chain of affine queues and the processors agree, and no ready node
is better than a scheduled node that it could displace. A node with an affinity is
compared with the node on its processor, and with all nodes once that processor runs a
node without affinity.
-/

namespace Rtems.Scheduler.Smp.Edf

open Function

variable {T : Type*}

namespace Context

/-- The node could run on every processor, possibly after a move of another node. -/
def Free (r : Context T) (u : T) : Prop :=
  r.readyQueueIndex u = 0 ∨ r.readyQueueIndex (r.scheduled (r.readyQueueIndex u)) = 0

/-- No scheduled node that the node could displace has a lower priority. -/
def Bounded (r : Context T) (priority : T → Nat) (scheduled : T → Prop) (u : T) : Prop :=
  ∀ v, scheduled v → r.Free u ∨ v = r.scheduled (r.readyQueueIndex u) → priority v ≤ priority u

/-- The node waits in one of the queues that are searched for a successor of `n`. -/
def Eligible (r : Context T) (n u : T) : Prop :=
  r.readyQueueIndex u = 0 ∨ r.readyQueueIndex u = r.readyQueueIndex n ∨
    r.readyQueueIndex u ∈ r.affineQueues

end Context

/-- The queues of an instance. The chain of affine queues is complete but for the
`exempt` queues. -/
structure Holds (I : Instance T Nat) (exempt : Nat → Prop) (priority : T → Nat)
    (heir : Nat → T) (r : Context T) (ready scheduled : T → Prop) : Prop where
  index_mem : ∀ u, r.readyQueueIndex u ≠ 0 → r.readyQueueIndex u - 1 ∈ I.cpus
  idle : ∀ i ∈ I.idles, r.readyQueueIndex i = 0
  scheduled_eq : ∀ c ∈ I.cpus, r.scheduled (c + 1) = heir c
  placed : ∀ c ∈ I.cpus, r.readyQueueIndex (heir c) = 0 ∨ r.readyQueueIndex (heir c) = c + 1
  nodup : ∀ i, (r.queue i).Nodup
  mem_queue : ∀ i u, u ∈ r.queue i ↔ ready u ∧ r.readyQueueIndex u = i
  sorted : ∀ i, SortedBy priority (r.queue i)
  affine_nodup : r.affineQueues.Nodup
  affine_sound : ∀ i ∈ r.affineQueues,
    i ≠ 0 ∧ r.queue i ≠ [] ∧ r.readyQueueIndex (r.scheduled i) = 0
  affine_complete : ∀ i, ¬exempt i → i ≠ 0 → r.queue i ≠ [] →
    r.readyQueueIndex (r.scheduled i) = 0 → i ∈ r.affineQueues
  bounded : ∀ u, ready u → r.Bounded priority scheduled u

theorem exists_head {priority : T → Nat} {l : List T} (hl : SortedBy priority l)
    (hne : l ≠ []) : ∃ x, l.head? = some x ∧ x ∈ l ∧ ∀ u ∈ l, priority x ≤ priority u := by
  cases l with
  | nil => exact absurd rfl hne
  | cons x rest => exact ⟨x, rfl, by simp, fun u hu => hl.head_le hu⟩

namespace Holds

variable {I : Instance T Nat} {exempt : Nat → Prop} {priority : T → Nat} {heir : Nat → T}
  {r : Context T} {P S : T → Prop} {n : T}

section

variable (h : Holds I exempt priority heir r P S)
include h

theorem exists_cpu {u : T}
    (hu : r.readyQueueIndex u ≠ 0) : ∃ c ∈ I.cpus, r.readyQueueIndex u = c + 1 :=
  ⟨_, h.index_mem u hu, by omega⟩

theorem queue_ne_nil {u : T} (hu : P u) :
    r.queue (r.readyQueueIndex u) ≠ [] :=
  List.ne_nil_of_mem ((h.mem_queue _ u).mpr ⟨hu, rfl⟩)

end

theorem eligible_of_free (h : Holds I (fun _ => False) priority heir r P S) {u : T} (hu : P u)
    (hfree : r.Free u) (n : T) : r.Eligible n u := by
  by_cases hz : r.readyQueueIndex u = 0
  · exact .inl hz
  · rcases hfree with hz' | hs
    · exact absurd hz' hz
    · exact .inr (.inr (h.affine_complete _ id hz (h.queue_ne_nil hu) hs))

section

variable (h : Holds I exempt priority heir r P S)
include h

theorem weaken {exempt' : Nat → Prop}
    (he : ∀ i, exempt i → exempt' i) : Holds I exempt' priority heir r P S :=
  { h with affine_complete := fun i hi => h.affine_complete i fun hc => hi (he i hc) }

/-- A node becomes ready. -/
theorem insertReady [DecidableEq T] (he : ∀ i, exempt i → i = r.readyQueueIndex n) (hn : ¬P n)
    (hb : r.Bounded priority S n) (g : Fin 2) (before : Nat → Nat → Bool)
    (hbefore : ∀ {l : List T}, SortedBy priority l →
      SortedBy priority (insertBefore (fun u => before (priority n) (priority u)) n l)) :
    Holds I (fun _ => False) priority heir (r.insertReady priority n g before)
      (fun u => u = n ∨ P u) S where
  __ := h
  nodup i := by
    by_cases hi : i = r.readyQueueIndex n
    · subst hi
      have hmem : n ∉ r.queue (r.readyQueueIndex n) := by
        rw [h.mem_queue]
        exact fun hP => hn hP.1
      simpa [Context.insertReady] using nodup_insertBefore hmem (h.nodup _)
    · simpa [Context.insertReady, hi] using h.nodup i
  mem_queue i u := by
    by_cases hi : i = r.readyQueueIndex n
    · subst hi
      simp only [Context.insertReady, update_self, mem_insertBefore, h.mem_queue]
      by_cases hu : u = n
      · simp [hu]
      · simp [hu]
    · simp only [Context.insertReady, update_of_ne hi, h.mem_queue]
      by_cases hu : u = n
      · subst hu
        simp [Ne.symm hi]
      · simp [hu]
  sorted i := by
    by_cases hi : i = r.readyQueueIndex n
    · subst hi
      simpa [Context.insertReady] using hbefore (h.sorted _)
    · simpa [Context.insertReady, hi] using h.sorted i
  affine_nodup := by
    by_cases hc : r.readyQueueIndex n ≠ 0 ∧ r.readyQueueIndex n ∉ r.affineQueues ∧
        r.readyQueueIndex (r.scheduled (r.readyQueueIndex n)) = 0
    · simp only [Context.insertReady, if_pos hc]
      exact List.nodup_append.mpr ⟨h.affine_nodup, List.nodup_singleton _, fun a ha b hb => by
        rintro rfl
        rw [List.mem_singleton] at hb
        exact hc.2.1 (hb ▸ ha)⟩
    · simp only [Context.insertReady, if_neg hc]
      exact h.affine_nodup
  affine_sound i hi := by
    have hcases : i ∈ r.affineQueues ∨ i = r.readyQueueIndex n ∧ r.readyQueueIndex n ≠ 0 ∧
        r.readyQueueIndex (r.scheduled (r.readyQueueIndex n)) = 0 := by
      by_cases hc : r.readyQueueIndex n ≠ 0 ∧ r.readyQueueIndex n ∉ r.affineQueues ∧
          r.readyQueueIndex (r.scheduled (r.readyQueueIndex n)) = 0
      · simp only [Context.insertReady, if_pos hc, List.mem_append, List.mem_singleton] at hi
        exact hi.imp id fun hi => ⟨hi, hc.1, hc.2.2⟩
      · simp only [Context.insertReady, if_neg hc] at hi
        exact .inl hi
    have hqueue : r.queue i ≠ [] ∨ i = r.readyQueueIndex n →
        (r.insertReady priority n g before).queue i ≠ [] := by
      intro hq
      by_cases hin : i = r.readyQueueIndex n
      · subst hin
        simpa [Context.insertReady] using insertBefore_ne_nil
      · simpa [Context.insertReady, hin] using hq.resolve_right hin
    rcases hcases with hi | ⟨hi, hz, hs⟩
    · obtain ⟨hz, hne, hs⟩ := h.affine_sound i hi
      exact ⟨hz, hqueue (.inl hne), hs⟩
    · exact ⟨hi ▸ hz, hqueue (.inr hi), hi ▸ hs⟩
  affine_complete i _ hz hne hs := by
    change r.readyQueueIndex (r.scheduled i) = 0 at hs
    by_cases hin : i = r.readyQueueIndex n
    · subst hin
      by_cases hc : r.readyQueueIndex n ∈ r.affineQueues
      · simp [Context.insertReady, hc]
      · simp [Context.insertReady, hc, hz, hs]
    · have hmem : i ∈ r.affineQueues := by
        refine h.affine_complete i (fun hi => hin (he i hi)) hz ?_ hs
        simpa [Context.insertReady, hin] using hne
      simp only [Context.insertReady]
      split
      · exact List.mem_append_left _ hmem
      · exact hmem
  bounded u hu := by
    rcases hu with rfl | hu
    · exact hb
    · exact h.bounded u hu

/-- A node leaves the ready nodes. -/
theorem extractFromReady [DecidableEq T] :
    Holds I exempt priority heir (r.extractFromReady n) (fun u => u ≠ n ∧ P u) S where
  __ := h
  nodup i := by
    by_cases hi : i = r.readyQueueIndex n
    · subst hi
      simpa [Context.extractFromReady] using (h.nodup _).erase n
    · simpa [Context.extractFromReady, hi] using h.nodup i
  mem_queue i u := by
    by_cases hi : i = r.readyQueueIndex n
    · subst hi
      simp only [Context.extractFromReady, update_self, (h.nodup _).mem_erase_iff,
        h.mem_queue, and_assoc]
    · simp only [Context.extractFromReady, update_of_ne hi, h.mem_queue]
      constructor
      · rintro ⟨hu, rfl⟩
        refine ⟨⟨?_, hu⟩, rfl⟩
        rintro rfl
        exact hi rfl
      · exact fun hu => ⟨hu.1.2, hu.2⟩
  sorted i := by
    by_cases hi : i = r.readyQueueIndex n
    · subst hi
      simpa [Context.extractFromReady] using (h.sorted _).erase n
    · simpa [Context.extractFromReady, hi] using h.sorted i
  affine_nodup := by
    simp only [Context.extractFromReady]
    split
    · exact h.affine_nodup.erase _
    · exact h.affine_nodup
  affine_sound i hi := by
    have hcases : i ∈ r.affineQueues ∧
        (i = r.readyQueueIndex n → (r.queue (r.readyQueueIndex n)).erase n ≠ []) := by
      simp only [Context.extractFromReady] at hi
      split at hi
      · have hi' := (h.affine_nodup.mem_erase_iff).mp hi
        exact ⟨hi'.2, fun he => absurd he hi'.1⟩
      · next hc =>
        refine ⟨hi, ?_⟩
        rintro rfl hnil
        exact hc ⟨(h.affine_sound _ hi).1, hnil, hi⟩
    obtain ⟨hz, hne, hs⟩ := h.affine_sound i hcases.1
    refine ⟨hz, ?_, hs⟩
    by_cases hin : i = r.readyQueueIndex n
    · subst hin
      simpa [Context.extractFromReady] using hcases.2 rfl
    · simpa [Context.extractFromReady, hin] using hne
  affine_complete i hi hz hne hs := by
    have hne' : r.queue i ≠ [] ∧
        (i = r.readyQueueIndex n → (r.queue (r.readyQueueIndex n)).erase n ≠ []) := by
      by_cases hin : i = r.readyQueueIndex n
      · subst hin
        have herase : (r.queue (r.readyQueueIndex n)).erase n ≠ [] := by
          simpa [Context.extractFromReady] using hne
        refine ⟨?_, fun _ => herase⟩
        intro hnil
        rw [hnil] at herase
        exact herase rfl
      · exact ⟨by simpa [Context.extractFromReady, hin] using hne, fun he => absurd he hin⟩
    have hmem := h.affine_complete i hi hz hne'.1 hs
    simp only [Context.extractFromReady]
    split
    · next hc =>
      refine (h.affine_nodup.mem_erase_iff).mpr ⟨?_, hmem⟩
      rintro rfl
      exact hne'.2 rfl hc.2.1
    · exact hmem
  bounded u hu := h.bounded u hu.2

end

theorem mono (h : Holds I exempt priority heir r P S) {S' : T → Prop}
    (hS : ∀ u, S' u → S u) : Holds I exempt priority heir r P S' where
  __ := h
  bounded u hu v hv := h.bounded u hu v (hS v hv)

end Holds

namespace Context

/-- The processor that a node gets in the place of the victim's processor. -/
def target (r : Context T) (n : T) (victimCpu : Nat) : Nat :=
  if r.readyQueueIndex n = 0 then victimCpu else r.readyQueueIndex n - 1

/-- The context after the allocation of a processor. -/
def allocate (r : Context T) (n : T) (victimCpu : Nat) : Context T :=
  { r with
    affineQueues := r.affineQueues.erase (r.readyQueueIndex n)
    scheduled := Function.update
      (Function.update r.scheduled (victimCpu + 1) (r.scheduled (r.target n victimCpu + 1)))
      (r.target n victimCpu + 1) n }

variable {r : Context T} {n : T} {v : Nat}

theorem target_of_eq_zero (hz : r.readyQueueIndex n = 0) : r.target n v = v := if_pos hz

theorem target_add_one (hz : r.readyQueueIndex n ≠ 0) :
    r.target n v + 1 = r.readyQueueIndex n := by
  rw [target, if_neg hz]
  omega

theorem scheduled_allocate_target : (r.allocate n v).scheduled (r.target n v + 1) = n := by
  simp [allocate]

theorem scheduled_allocate_victim (hne : v ≠ r.target n v) :
    (r.allocate n v).scheduled (v + 1) = r.scheduled (r.target n v + 1) := by
  simp [allocate, hne]

theorem scheduled_allocate_of_ne {i : Nat} (ht : i ≠ r.target n v + 1) (hv : i ≠ v + 1) :
    (r.allocate n v).scheduled i = r.scheduled i := by
  simp [allocate, ht, hv]

/-- What a node could displace before, if its processor keeps its node. -/
theorem displaces_of_same {u x : T}
    (hsame : (r.allocate n v).scheduled (r.readyQueueIndex u) = r.scheduled (r.readyQueueIndex u))
    (hcase : (r.allocate n v).Free u ∨
      x = (r.allocate n v).scheduled ((r.allocate n v).readyQueueIndex u)) :
    r.Free u ∨ x = r.scheduled (r.readyQueueIndex u) := by
  rw [← hsame]
  refine hcase.imp ?_ id
  rintro (hz | hs)
  · exact .inl hz
  · change r.readyQueueIndex ((r.allocate n v).scheduled (r.readyQueueIndex u)) = 0 at hs
    rw [hsame] at hs
    exact .inr hs

/-- A node with the affinity of the newcomer could displace the newcomer only. -/
theorem displaces_of_taken {u x : T} (hz : r.readyQueueIndex n ≠ 0)
    (hun : r.readyQueueIndex u = r.readyQueueIndex n)
    (hcase : (r.allocate n v).Free u ∨
      x = (r.allocate n v).scheduled ((r.allocate n v).readyQueueIndex u)) : x = n := by
  have hs : (r.allocate n v).scheduled (r.readyQueueIndex u) = n := by
    rw [hun, ← target_add_one (v := v) hz, scheduled_allocate_target]
  rcases hcase with (hz' | hs') | hxs
  · exact absurd (hun.symm.trans hz') hz
  · change r.readyQueueIndex ((r.allocate n v).scheduled (r.readyQueueIndex u)) = 0 at hs'
    rw [hs] at hs'
    exact absurd hs' hz
  · exact hxs.trans hs

end Context

namespace Holds

variable {I : Instance T Nat} {exempt : Nat → Prop} {priority : T → Nat} {heir : Nat → T}
  {r : Context T} {P S S' : T → Prop} {n w : T} {v : Nat}

theorem target_mem (h : Holds I exempt priority heir r P S) (hv : v ∈ I.cpus) :
    r.target n v ∈ I.cpus := by
  by_cases hz : r.readyQueueIndex n = 0
  · rwa [Context.target_of_eq_zero hz]
  · rw [Context.target, if_neg hz]
    exact h.index_mem n hz

/-- The queues after an allocation. The queue of the victim is not put on the chain. -/
theorem allocate [DecidableEq T] (h : Holds I exempt priority heir r P S)
    (he : ∀ i, exempt i → i = r.readyQueueIndex n) (hv : v ∈ I.cpus)
    (hmoved : r.target n v ≠ v → r.readyQueueIndex (heir (r.target n v)) = 0)
    (hbounded : ∀ u, P u → (r.allocate n v).Bounded priority S' u) :
    Holds I (· = r.readyQueueIndex (heir v)) priority
      (update (update heir v (heir (r.target n v))) (r.target n v) n)
      (r.allocate n v) P S' where
  __ := h
  scheduled_eq c hc := by
    by_cases hct : c = r.target n v
    · subst hct
      rw [Context.scheduled_allocate_target, update_self]
    · rw [update_of_ne hct]
      by_cases hcv : c = v
      · subst hcv
        rw [Context.scheduled_allocate_victim hct, update_self]
        exact h.scheduled_eq _ (h.target_mem hc)
      · rw [Context.scheduled_allocate_of_ne (by omega) (by omega), update_of_ne hcv]
        exact h.scheduled_eq c hc
  placed c hc := by
    by_cases hct : c = r.target n v
    · subst hct
      rw [update_self]
      by_cases hz : r.readyQueueIndex n = 0
      · exact .inl hz
      · exact .inr (Context.target_add_one hz).symm
    · rw [update_of_ne hct]
      by_cases hcv : c = v
      · subst hcv
        rw [update_self]
        exact .inl (hmoved (Ne.symm hct))
      · rw [update_of_ne hcv]
        exact h.placed c hc
  affine_nodup := h.affine_nodup.erase _
  affine_sound i hi := by
    obtain ⟨hin, hi⟩ := (h.affine_nodup.mem_erase_iff).mp hi
    obtain ⟨hz, hne, hs⟩ := h.affine_sound i hi
    refine ⟨hz, hne, ?_⟩
    by_cases hit : i = r.target n v + 1
    · rw [hit, Context.scheduled_allocate_target]
      by_contra hnz
      exact hin (hit.trans (Context.target_add_one hnz))
    · by_cases hiv : i = v + 1
      · have hvt : v ≠ r.target n v := by omega
        rw [hiv, Context.scheduled_allocate_victim hvt, h.scheduled_eq _ (h.target_mem hv)]
        exact hmoved (Ne.symm hvt)
      · rwa [Context.scheduled_allocate_of_ne hit hiv]
  affine_complete i hi hz hne hs := by
    have hin : i ≠ r.readyQueueIndex n := by
      rintro rfl
      rw [← Context.target_add_one (v := v) hz, Context.scheduled_allocate_target] at hs
      exact hz hs
    refine (h.affine_nodup.mem_erase_iff).mpr ⟨hin, ?_⟩
    refine h.affine_complete i (fun hc => hin (he i hc)) hz hne ?_
    by_cases hiv : i = v + 1
    · subst hiv
      rw [h.scheduled_eq v hv]
      exact (h.placed v hv).resolve_right (Ne.symm hi)
    · by_cases hit : i = r.target n v + 1
      · have hnz : r.readyQueueIndex n ≠ 0 := by
          intro hz'
          rw [Context.target_of_eq_zero hz'] at hit
          exact hiv hit
        exact absurd (hit.trans (Context.target_add_one hnz)) hin
      · rwa [Context.scheduled_allocate_of_ne hit hiv] at hs
  bounded := hbounded

end Holds

/-- The policy's choice of a scheduled node: the last one, or the one on the processor of
the newcomer. -/
def Lowest (priority : T → Nat) (r : Context T) (scheduled : T → Prop) (n w : T) : Prop :=
  (r.Free n → ∀ u, scheduled u → priority u ≤ priority w) ∧
    (¬r.Free n → w = r.scheduled (r.readyQueueIndex n))

/-- The policy's choice of a ready node. -/
def Highest (priority : T → Nat) (r : Context T) (ready : T → Prop) (n q : T) : Prop :=
  r.getHighestReady priority n = some q ∧ r.Eligible n q ∧
    ∀ u, ready u → r.Eligible n u → priority q ≤ priority u

namespace Holds

variable {I : Instance T Nat} {exempt : Nat → Prop} {priority : T → Nat} {cpu : T → Nat}
  {heir : Nat → T} {r : Context T} {P S A : T → Prop} {n w q : T}

section

variable (h : Holds I exempt priority heir r P S) (hheirs : Assignment (· ∈ I.cpus) cpu heir A)
include h hheirs

theorem scheduled_ne (hn : ¬A n) {u : T}
    (hu : r.readyQueueIndex u ≠ 0) : n ≠ r.scheduled (r.readyQueueIndex u) := by
  obtain ⟨c, hc, he⟩ := h.exists_cpu hu
  rw [he, h.scheduled_eq c hc]
  rintro rfl
  exact hn (hheirs.holder_mem c hc)

theorem scheduled_cpu (hw : A w) : r.scheduled (cpu w + 1) = w := by
  rw [h.scheduled_eq _ (hheirs.slot_mem w hw), hheirs.holder_slot w hw]

end

section Replace

variable (h : Holds I exempt priority heir r P S)
  (hheirs : Assignment (· ∈ I.cpus) cpu heir S) (hn : ¬S n) (hw : S w)
  (hlow : Lowest priority r S n w)

include h hheirs hw hlow

omit hw in
/-- A node that competes for one processor only displaces the node there. -/
theorem target_of_not_free (hfree : ¬r.Free n) :
    r.readyQueueIndex n ≠ 0 ∧ r.target n (cpu w) = cpu w ∧
      r.readyQueueIndex w = r.readyQueueIndex n := by
  have hz : r.readyQueueIndex n ≠ 0 := fun hz => hfree (.inl hz)
  have hsw : r.readyQueueIndex (r.scheduled (r.readyQueueIndex n)) ≠ 0 :=
    fun hs => hfree (.inr hs)
  obtain ⟨c, hc, he⟩ := h.exists_cpu hz
  have hwc : w = heir c := by rw [hlow.2 hfree, he, h.scheduled_eq c hc]
  have hcpu : cpu w = c := by rw [hwc, hheirs.slot_holder c hc]
  refine ⟨hz, ?_, ?_⟩
  · rw [Context.target, if_neg hz, he, hcpu]
    rfl
  · rw [hlow.2 hfree, he]
    rw [he] at hsw
    have hplaced := h.placed c hc
    rw [← h.scheduled_eq c hc] at hplaced
    exact hplaced.resolve_left hsw

theorem moved_replace (ht : r.target n (cpu w) ≠ cpu w) :
    r.readyQueueIndex (heir (r.target n (cpu w))) = 0 := by
  have hfree : r.Free n := by
    by_contra hfree
    exact ht (h.target_of_not_free hheirs hlow hfree).2.1
  have hz : r.readyQueueIndex n ≠ 0 := fun hz => ht (Context.target_of_eq_zero hz)
  rw [← h.scheduled_eq _ (h.target_mem (hheirs.slot_mem w hw)), Context.target_add_one hz]
  exact hfree.resolve_left hz

include hn in
/-- The ready nodes are still bounded after a newcomer has displaced a scheduled node. -/
theorem bounded_replace [DecidableEq T] (hnw : priority n ≤ priority w) (u : T) (hu : P u) :
    (r.allocate n (cpu w)).Bounded priority (fun x => x = n ∨ x ≠ w ∧ S x) u := by
  have hb := h.bounded u hu
  have hne : r.readyQueueIndex u ≠ 0 → n ≠ r.scheduled (r.readyQueueIndex u) :=
    h.scheduled_ne hheirs hn
  intro x hx hcase
  by_cases hfree : r.Free n
  · have hxw : priority x ≤ priority w := by
      rcases hx with rfl | ⟨-, hx⟩
      · exact hnw
      · exact hlow.1 hfree x hx
    by_cases hfu : r.Free u
    · exact hxw.trans (hb w hw (.inl hfu))
    · have hz : r.readyQueueIndex u ≠ 0 := fun hz => hfu (.inl hz)
      by_cases huv : r.readyQueueIndex u = cpu w + 1
      · refine hxw.trans (hb w hw (.inr ?_))
        rw [huv, h.scheduled_cpu hheirs hw]
      · have hut : r.readyQueueIndex u ≠ r.target n (cpu w) + 1 := by
          intro hut
          by_cases hzn : r.readyQueueIndex n = 0
          · rw [Context.target_of_eq_zero hzn] at hut
            exact huv hut
          · rw [Context.target_add_one hzn] at hut
            exact hfu (.inr (hut ▸ hfree.resolve_left hzn))
        have hsame := Context.scheduled_allocate_of_ne hut huv
        rcases Context.displaces_of_same hsame hcase with hfu' | hxs
        · exact absurd hfu' hfu
        · rcases hx with rfl | ⟨-, hx⟩
          · exact absurd hxs (hne hz)
          · exact hb x hx (.inr hxs)
  · obtain ⟨hzn, ht, hwn⟩ := h.target_of_not_free hheirs hlow hfree
    have hta : cpu w + 1 = r.readyQueueIndex n := by
      rw [← Context.target_add_one (v := cpu w) hzn, ht]
    by_cases hun : r.readyQueueIndex u = r.readyQueueIndex n
    · have hwu : priority w ≤ priority u := by
        refine hb w hw (.inr ?_)
        rw [hun, ← hta, h.scheduled_cpu hheirs hw]
      rw [Context.displaces_of_taken hzn hun hcase]
      exact hnw.trans hwu
    · have hsame : (r.allocate n (cpu w)).scheduled (r.readyQueueIndex u) =
          r.scheduled (r.readyQueueIndex u) :=
        Context.scheduled_allocate_of_ne (by rwa [Context.target_add_one hzn]) (by rwa [hta])
      have hcase' := Context.displaces_of_same hsame hcase
      rcases hx with rfl | ⟨-, hx⟩
      · rcases hcase' with hfu | hxs
        · exact hnw.trans (hb w hw (.inl hfu))
        · by_cases hz : r.readyQueueIndex u = 0
          · exact hnw.trans (hb w hw (.inl (.inl hz)))
          · exact absurd hxs (hne hz)
      · exact hb x hx hcase'

omit hw in
/-- The displaced node is bounded. -/
theorem bounded_victim (hnw : priority n ≤ priority w) :
    (r.allocate n (cpu w)).Bounded priority (fun x => x = n ∨ x ≠ w ∧ S x) w := by
  intro x hx hcase
  by_cases hfree : r.Free n
  · rcases hx with rfl | ⟨-, hx⟩
    · exact hnw
    · exact hlow.1 hfree x hx
  · obtain ⟨hzn, ht, hwn⟩ := h.target_of_not_free hheirs hlow hfree
    rw [Context.displaces_of_taken hzn hwn hcase]
    exact hnw

end Replace

end Holds

namespace Holds

variable {I : Instance T Nat} {priority : T → Nat} {cpu : T → Nat} {heir : Nat → T}
  {r : Context T} {P S : T → Prop} {n q : T}

section Succeed

variable (h : Holds I (fun _ => False) priority heir r P S)
  (hheirs : Assignment (· ∈ I.cpus) cpu heir (fun u => u = n ∨ S u)) (hq : P q)
  (hqn : q ≠ n) (hqS : ¬S q) (hhigh : Highest priority r P n q)

include h hheirs

theorem index_leaving :
    r.readyQueueIndex n = 0 ∨ r.readyQueueIndex n = cpu n + 1 := by
  have hp := h.placed _ (hheirs.slot_mem n (.inl rfl))
  rwa [hheirs.holder_slot n (.inl rfl)] at hp

include hhigh

/-- A successor that competes for one processor only is in the queue of the node that
leaves. -/
theorem target_of_successor_not_free (hfree : ¬r.Free q) :
    r.readyQueueIndex q ≠ 0 ∧ r.readyQueueIndex q = r.readyQueueIndex n ∧
      r.readyQueueIndex q = cpu n + 1 ∧ r.target q (cpu n) = cpu n := by
  have hz : r.readyQueueIndex q ≠ 0 := fun hz => hfree (.inl hz)
  have hqidx : r.readyQueueIndex q = r.readyQueueIndex n := by
    rcases hhigh.2.1 with hz' | he | ha
    · exact absurd hz' hz
    · exact he
    · exact absurd (.inr (h.affine_sound _ ha).2.2) hfree
  have hcpu : r.readyQueueIndex q = cpu n + 1 :=
    hqidx.trans ((h.index_leaving hheirs).resolve_left (hqidx ▸ hz))
  refine ⟨hz, hqidx, hcpu, ?_⟩
  rw [Context.target, if_neg hz, hcpu]
  rfl

/-- Only a node without affinity moves to the processor of the node that leaves. -/
theorem moved_succeed (ht : r.target q (cpu n) ≠ cpu n) :
    r.readyQueueIndex (heir (r.target q (cpu n))) = 0 := by
  have hfree : r.Free q := by
    by_contra hfree
    exact ht (h.target_of_successor_not_free hheirs hhigh hfree).2.2.2
  have hz : r.readyQueueIndex q ≠ 0 := fun hz => ht (Context.target_of_eq_zero hz)
  rw [← h.scheduled_eq _ (h.target_mem (hheirs.slot_mem n (.inl rfl))),
    Context.target_add_one hz]
  exact hfree.resolve_left hz

include hq hqn hqS in
/-- The ready nodes are still bounded after the best one has taken a processor. -/
theorem bounded_succeed [DecidableEq T] (u : T) (hu : P u) :
    (r.allocate q (cpu n)).Bounded priority (fun x => x = q ∨ S x) u := by
  have hb := h.bounded u hu
  have hne : r.readyQueueIndex u ≠ 0 → q ≠ r.scheduled (r.readyQueueIndex u) :=
    h.scheduled_ne hheirs (fun hA => hA.elim hqn hqS)
  have hsn : r.scheduled (cpu n + 1) = n := h.scheduled_cpu hheirs (.inl rfl)
  intro x hx hcase
  by_cases hfree : r.Free q
  · have hxq : priority x ≤ priority q := by
      rcases hx with rfl | hx
      · exact le_rfl
      · exact h.bounded q hq x hx (.inl hfree)
    by_cases hel : r.Eligible n u
    · exact hxq.trans (hhigh.2.2 u hu hel)
    · have hfu : ¬r.Free u := fun hfu => hel (h.eligible_of_free hu hfu n)
      have hz : r.readyQueueIndex u ≠ 0 := fun hz => hel (.inl hz)
      have huv : r.readyQueueIndex u ≠ cpu n + 1 := by
        intro huv
        rcases h.index_leaving hheirs with hzn | hn
        · refine hfu (.inr ?_)
          rw [huv, hsn, hzn]
        · exact hel (.inr (.inl (huv.trans hn.symm)))
      have hut : r.readyQueueIndex u ≠ r.target q (cpu n) + 1 := by
        intro hut
        by_cases hzq : r.readyQueueIndex q = 0
        · rw [Context.target_of_eq_zero hzq] at hut
          exact huv hut
        · rw [Context.target_add_one hzq] at hut
          have helq := hhigh.2.1
          rw [Context.Eligible, ← hut] at helq
          exact hel helq
      have hsame := Context.scheduled_allocate_of_ne hut huv
      rcases Context.displaces_of_same hsame hcase with hfu' | hxs
      · exact absurd hfu' hfu
      · rcases hx with rfl | hx
        · exact absurd hxs (hne hz)
        · exact hb x hx (.inr hxs)
  · obtain ⟨hzq, hqidx, hcpu, ht⟩ := h.target_of_successor_not_free hheirs hhigh hfree
    by_cases huq : r.readyQueueIndex u = r.readyQueueIndex q
    · rw [Context.displaces_of_taken hzq huq hcase]
      exact hhigh.2.2 u hu (.inr (.inl (huq.trans hqidx)))
    · have hsame : (r.allocate q (cpu n)).scheduled (r.readyQueueIndex u) =
          r.scheduled (r.readyQueueIndex u) :=
        Context.scheduled_allocate_of_ne (by rwa [Context.target_add_one hzq])
          (by rwa [← hcpu])
      have hcase' := Context.displaces_of_same hsame hcase
      rcases hx with rfl | hx
      · have hfu : r.Free u := by
          rcases hcase' with hfu | hxs
          · exact hfu
          · by_contra hfu
            exact hne (fun hz => hfu (.inl hz)) hxs
        exact hhigh.2.2 u hu (h.eligible_of_free hu hfu n)
      · exact hb x hx hcase'

include hq in
/-- The node that left its processor to a better one is bounded. -/
theorem bounded_leaving (hqle : priority q ≤ priority n) :
    (r.allocate q (cpu n)).Bounded priority (fun x => x = q ∨ S x) n := by
  intro x hx hcase
  by_cases hfree : r.Free q
  · rcases hx with rfl | hx
    · exact hqle
    · exact (h.bounded q hq x hx (.inl hfree)).trans hqle
  · obtain ⟨hzq, hqidx, hcpu, ht⟩ := h.target_of_successor_not_free hheirs hhigh hfree
    rw [Context.displaces_of_taken hzq hqidx.symm hcase]
    exact hqle

end Succeed

end Holds

end Rtems.Scheduler.Smp.Edf
