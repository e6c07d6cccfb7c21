import Rtems.Models.ThreadQueue.Operations

/-!
# The surrender of a priority inheritance queue

A surrender takes the queue's node from the previous owner and gives it to the first
waiter, if somebody else still waits. Between the two the queue has no owner. Neither
owner is in the tree of a queue then, so no walk is needed.
-/

namespace Rtems.ThreadQueue

variable {T Q N : Type*} {own : T → N → Prop} {away : T → Prop} {s : State T Q N}
  {t : T} {q : Q}
  {f : Queue T → Queue T} {updates : List T}

section Surrender

variable [DecidableEq Q] {p first : T}

/-- The priorities of the nodes depend on the trees of the queues only. -/
theorem nodeKey_modifyQueue (hf : ∀ d, (f d).heads = d.heads) :
    (s.modifyQueue q f).nodeKey = s.nodeKey := by
  funext c
  cases c with
  | own node => rfl
  | queue r =>
    by_cases hr : r = q
    · subst hr
      rw [State.nodeKey, State.modifyQueue_self, hf]
      rfl
    · rw [State.nodeKey, s.modifyQueue_of_ne f hr]
      rfl

theorem waiters_modifyQueue (f : Queue T → Queue T) (hf : ∀ d, (f d).heads = d.heads) (r : Q) :
    (s.modifyQueue q f).waiters r = s.waiters r := by
  by_cases hr : r = q
  · subst hr
    rw [State.waiters, State.modifyQueue_self, hf]
    rfl
  · rw [State.waiters, s.modifyQueue_of_ne f hr]
    rfl

theorem frame_modifyQueue (hf : ∀ d, (f d).owner = d.owner) :
    Frame s (s.modifyQueue q f) := by
  refine ⟨rfl, funext fun r => ?_, rfl, fun _ => rfl, fun _ => rfl, fun _ => rfl, fun _ => rfl⟩
  by_cases hr : r = q
  · subst hr
    rw [State.owner, State.modifyQueue_self, hf]
    rfl
  · rw [State.owner, s.modifyQueue_of_ne f hr]
    rfl

variable [DecidableEq T]

theorem retree_modifyQueue (f : Queue T → Queue T) (a : Aggregation (Contributor N Q))
    (reported prependIt : Bool) :
    (s.modifyQueue q f).retree t a reported prependIt =
      (s.retree t a reported prependIt).modifyQueue q f := by
  cases reported <;> rfl

/-- What the new owner of a queue with waiters gets. -/
theorem surrenderInsert_eq (hne : (s.queue q).heads.isEmpty = false) :
    surrenderInsert s q first updates =
      let r := (s.thread first).waitPriority.nonEmptyInsert s.nodeKey (.queue q)
      ((s.modifyQueue q fun d => { d with schedulerNode := some first }).retree first r.1 r.2 false,
        if r.2 then updates ++ [first] else updates) := by
  have hkey : (s.modifyQueue q fun d => { d with schedulerNode := some first }).nodeKey =
      s.nodeKey := nodeKey_modifyQueue fun _ => rfl
  simp only [surrenderInsert, hne, Bool.false_eq_true, if_false, hkey]
  cases hr : ((s.thread first).waitPriority.nonEmptyInsert s.nodeKey (.queue q)).2 with
  | false => simp [State.modifyQueue, State.retree, hr]
  | true => simp [State.modifyQueue, State.retree, hr]

/-- Giving the queue's node to the new owner does not look at the queue's owner. -/
theorem surrenderInsert_owner (s : State T Q N) (q : Q) (first : T) (updates : List T) :
    surrenderInsert (s.modifyQueue q fun d => { d with owner := some first }) q first updates =
      ((surrenderInsert s q first updates).1.modifyQueue q
        fun d => { d with owner := some first }, (surrenderInsert s q first updates).2) := by
  cases hempty : (s.queue q).heads.isEmpty with
  | true => simp [surrenderInsert, hempty]
  | false =>
    have hkey : (s.modifyQueue q fun d => { d with owner := some first }).nodeKey = s.nodeKey :=
      nodeKey_modifyQueue fun _ => rfl
    rw [surrenderInsert_eq (by rw [State.modifyQueue_self]; exact hempty),
      surrenderInsert_eq hempty, hkey]
    refine Prod.ext ?_ rfl
    have hcomm : (s.modifyQueue q fun d => { d with owner := some first }).modifyQueue q
          (fun d => { d with schedulerNode := some first }) =
        (s.modifyQueue q fun d => { d with schedulerNode := some first }).modifyQueue q
          fun d => { d with owner := some first } := by
      rw [State.modifyQueue_modifyQueue, State.modifyQueue_modifyQueue]
      rfl
    simp only [hcomm]
    exact retree_modifyQueue _ _ _ _

variable [DecidableEq N]

/-- The previous owner loses the queue's node. -/
theorem surrenderRemove_spec (hothers : ∀ u, u ≠ p → ThreadOk own s u)
    (haction : Awaits own s p (.queue q) .remove)
    (hnode : (s.queue q).schedulerNode = some p) :
    ∃ s' updates, surrenderRemove s q p = some (s', updates) ∧ Retreed own s s' p ∧
      (s'.priority p = s.priority p ∨ p ∈ updates) := by
  obtain ⟨a, reported, prepend, hres, hok, hmem, hsame⟩ := applyAction_spec haction true
  obtain ⟨⟨a', reported'⟩, hextract, heq⟩ := Option.map_eq_some_iff.mp hres
  cases heq
  have hre := retreed true hothers hok hmem hsame
  refine ⟨s.retree p a reported true, if reported then [p] else [], ?_, hre, ?_⟩
  · rw [surrenderRemove, hnode]
    simp only [hextract]
    cases reported <;> rfl
  · cases reported with
    | false =>
      refine .inl ?_
      rw [State.priority, retree_self]
      exact hsame rfl
    | true => exact .inr (by simp)

/-- The new owner gets the node of a queue with waiters. -/
theorem surrenderInsert_spec (hne : (s.queue q).heads.isEmpty = false)
    (hpending : Pending own away (s.modifyQueue q fun d => { d with schedulerNode := some first })
      first (.queue q) .add) (hfirst : ∀ r, first ∉ s.waiters r) :
    Settled own away (surrenderInsert s q first updates).1 ∧
      Frame s (surrenderInsert s q first updates).1 ∧
      (∀ u, (surrenderInsert s q first updates).1.priority u = s.priority u ∨
        u ∈ (surrenderInsert s q first updates).2) ∧
      (∀ u ∈ updates, u ∈ (surrenderInsert s q first updates).2) ∧
      (Told s → Told (surrenderInsert s q first updates).1) := by
  obtain ⟨a, reported, prepend, hres, hok, hmem, hsame⟩ := applyAction_spec hpending.action false
  have hre := retreed false hpending.others hok hmem hsame
  have hkey : (s.modifyQueue q fun d => { d with schedulerNode := some first }).nodeKey =
      s.nodeKey := nodeKey_modifyQueue fun _ => rfl
  simp only [applyAction, hkey, Option.some.injEq, Prod.mk.injEq] at hres
  obtain ⟨rfl, rfl, -⟩ := hres
  rw [surrenderInsert_eq hne]
  refine ⟨⟨hre.threads, fun r => hre.queueOk (hpending.queues r) ?_⟩, ?_, ?_, ?_, ?_⟩
  · rw [waiters_modifyQueue _ (by simp)]
    exact hfirst r
  · exact (frame_modifyQueue (q := q) (by simp)).trans hre.keeps.toFrame
  · intro u
    by_cases hu : u = first
    · subst hu
      cases hr : ((s.thread u).waitPriority.nonEmptyInsert s.nodeKey (.queue q)).2 with
      | false =>
        refine .inl ?_
        rw [State.priority, retree_self]
        exact hsame hr
      | true => exact .inr (by simp [hr])
    · exact .inl (hre.priority u hu)
  · intro u hu
    dsimp only
    split
    · exact List.mem_append_left _ hu
    · exact hu
  · exact fun htold => hre.told htold

omit [DecidableEq T] in
/-- A queue that nobody owns any more: its node has to leave the previous owner's tree. -/
theorem Settled.awaits_remove (h : Settled own away s)
    (hown : ∃ node, own p node) (hp : s.owner q = some p) (hne : ∃ u, u ∈ s.waiters q) :
    Awaits own (s.modifyQueue q fun d => { d with owner := none }) p (.queue q) .remove := by
  have hkey : (s.modifyQueue q fun d => { d with owner := none }).nodeKey = s.nodeKey :=
    nodeKey_modifyQueue fun _ => rfl
  have hthread := h.threads p
  have hmem : .queue q ∈ (s.thread p).waitPriority.contributors := (hthread.mem _).mpr ⟨hp, hne⟩
  refine ⟨by rw [hkey]; exact hthread.ok, hmem, ?_, ?_⟩
  · obtain ⟨node, hnode⟩ := hown
    refine List.ne_nil_of_mem
      ((List.mem_erase_of_ne ?_).mpr ((hthread.mem (.own node)).mpr hnode))
    simp
  · intro c
    refine Iff.trans ?_ (and_congr_right fun _ => (hthread.mem c).symm)
    cases c with
    | own node => simp [Wanted]
    | queue r =>
      by_cases hr : r = q
      · subst hr
        simp [Wanted, State.owner]
      · simp [Wanted, State.owner, State.waiters, s.modifyQueue_of_ne _ hr, hr]

/-- The queue in the hands of its first waiter. -/
def handedOver (s : State T Q N) (q : Q) (first : T) (schedulerNode : Option T) : State T Q N :=
  s.modifyQueue q fun d =>
    { d with
      owner := some first
      heads := (d.heads.extract s.priority first).1
      schedulerNode := schedulerNode }

/-- A queue without an owner whose trees are right otherwise. -/
structure Orphaned (own : T → N → Prop) (s : State T Q N) (q : Q) : Prop where
  threads : ∀ u, ThreadOk own s u
  queues : ∀ r, r ≠ q → QueueOk nobody s r
  owner : s.owner q = none
  ok : (s.queue q).heads.Ok s.priority
  mem : ∀ u, u ∈ s.waiters q ↔ s.waits u = some q

variable {x : Option T}

section

variable (h : Orphaned own s q) (hfirst : first ∈ s.waiters q)
include h hfirst

omit [DecidableEq N] in
theorem handedOver_waiters : (handedOver s q first x).waiters q = (s.waiters q).erase first := by
  obtain ⟨-, herase, -, -⟩ := Aggregation.extract_spec h.ok hfirst
  rw [State.waiters, handedOver, State.modifyQueue_self]
  exact herase

omit [DecidableEq N] in
/-- The queues are right after the hand-over. -/
theorem Orphaned.queues_handedOver (hx : (s.waiters q).erase first ≠ [] → x = some first) (r : Q) :
    QueueOk (· = first) (handedOver s q first x) r := by
  have hfirst' := (h.mem first).mp hfirst
  by_cases hr : r = q
  · subst hr
    obtain ⟨hok, -, -, -⟩ := Aggregation.extract_spec h.ok hfirst
    refine ⟨?_, fun u => ?_, fun u hu => ?_⟩
    · rw [handedOver, State.modifyQueue_self]
      exact hok
    · have hnodup : (s.waiters r).Nodup := h.ok.nodup
      rw [handedOver_waiters h hfirst, hnodup.mem_erase_iff, h.mem]
      exact and_comm
    · rw [handedOver_waiters h hfirst] at hu
      refine ⟨first, ?_, ?_⟩
      · rw [State.owner, handedOver, State.modifyQueue_self]
      · rw [handedOver, State.modifyQueue_self]
        exact hx (List.ne_nil_of_mem hu)
  · obtain ⟨hok, hmem, howner⟩ := h.queues r hr
    have hsame : (handedOver s q first x).queue r = s.queue r := s.modifyQueue_of_ne _ hr
    refine ⟨by rw [hsame]; exact hok, fun u => ?_, ?_⟩
    · rw [State.waiters, hsame]
      refine (hmem u).trans (and_congr_right fun hu => ?_)
      refine ⟨fun _ heq => ?_, fun _ => id⟩
      rw [heq, hfirst'] at hu
      exact hr (Option.some.inj hu).symm
    · rw [State.waiters, State.owner, hsame]
      exact howner

omit [DecidableEq N] in
/-- The threads other than the new owner are right after the hand-over, and so is the new
owner if nobody waits any more. -/
theorem Orphaned.threads_handedOver {u : T} (hu : u ≠ first ∨ (s.waiters q).erase first = []) :
    ThreadOk own (handedOver s q first x) u := by
  refine (h.threads u).elsewhere rfl rfl (fun r hr => s.modifyQueue_of_ne _ hr) ?_ ?_
  · rintro ⟨howner, -⟩
    rw [h.owner] at howner
    cases howner
  · rintro ⟨howner, v, hv⟩
    rw [State.owner, handedOver, State.modifyQueue_self] at howner
    rw [handedOver_waiters h hfirst] at hv
    rcases hu with hu | hu
    · exact hu (Option.some.inj howner).symm
    · rw [hu] at hv
      exact List.not_mem_nil hv

/-- With waiters left the new owner has to get the queue's node. -/
theorem Orphaned.pending_handedOver
    (hown : ∃ node, own first node) (hne : (s.waiters q).erase first ≠ []) :
    Pending own (· = first) (handedOver s q first (some first)) first (.queue q) .add := by
  refine ⟨fun u hu => h.threads_handedOver hfirst (.inl hu),
    h.queues_handedOver hfirst fun _ => rfl, ?_⟩
  -- Compare with the new owner of a queue without waiters.
  let s₁ := s.modifyQueue q fun d => { d with owner := some first, heads := ⟨[], 0⟩ }
  have hempty : ∀ u, u ∉ s₁.waiters q := by
    intro u hu
    simp [s₁, State.waiters] at hu
  have hre : Requeued s₁ (handedOver s q first (some first)) q := by
    refine ⟨rfl, rfl, funext fun r => ?_, fun r hr => ?_⟩
    · by_cases hr : r = q
      · subst hr
        simp [s₁, State.owner, handedOver]
      · simp [s₁, State.owner, handedOver, s.modifyQueue_of_ne _ hr]
    · simp [s₁, handedOver, s.modifyQueue_of_ne _ hr]
  refine hre.awaits_add ?_ (by simp [s₁, State.owner]) hown hempty ?_
  · refine (h.threads first).elsewhere (q := q) rfl rfl (fun r hr => s.modifyQueue_of_ne _ hr) ?_ ?_
    · rintro ⟨howner, -⟩
      rw [h.owner] at howner
      cases howner
    · rintro ⟨-, u, hu⟩
      exact hempty u hu
  · rw [handedOver_waiters h hfirst]
    exact List.exists_mem_of_ne_nil _ hne

/-- The new owner gets the queue's node if it needs it. -/
theorem Orphaned.surrenderInsert (hown : ∃ node, own first node) (updates : List T) :
    Settled own (· = first) (surrenderInsert (handedOver s q first x) q first updates).1 ∧
      Frame (handedOver s q first x)
        (surrenderInsert (handedOver s q first x) q first updates).1 ∧
      (∀ u, (surrenderInsert (handedOver s q first x) q first updates).1.priority u =
          s.priority u ∨ u ∈ (surrenderInsert (handedOver s q first x) q first updates).2) ∧
      (∀ u ∈ updates, u ∈ (surrenderInsert (handedOver s q first x) q first updates).2) ∧
      (Told s → Told (surrenderInsert (handedOver s q first x) q first updates).1) := by
  have hwaiters := handedOver_waiters (x := x) h hfirst
  by_cases hlast : (s.waiters q).erase first = []
  · have hempty : ((handedOver s q first x).queue q).heads.isEmpty :=
      List.isEmpty_iff.mpr (hwaiters.trans hlast)
    have heq : ThreadQueue.surrenderInsert (handedOver s q first x) q first updates =
        (handedOver s q first x, updates) := by
      simp [ThreadQueue.surrenderInsert, hempty]
    rw [heq]
    exact ⟨⟨fun u => h.threads_handedOver hfirst (.inr hlast),
      h.queues_handedOver hfirst fun hne => absurd hlast hne⟩, .refl _, fun _ => .inl rfl,
      fun _ hu => hu, id⟩
  · have hne : ((handedOver s q first x).queue q).heads.isEmpty = false := by
      rw [Bool.eq_false_iff]
      exact fun hempty => hlast (hwaiters.symm.trans (List.isEmpty_iff.mp hempty))
    have hstate : (handedOver s q first x).modifyQueue q
        (fun d => { d with schedulerNode := some first }) =
        handedOver s q first (some first) := by
      rw [handedOver, State.modifyQueue_modifyQueue]
      rfl
    have hpending := h.pending_handedOver hfirst hown hlast
    refine surrenderInsert_spec hne (by rw [hstate]; exact hpending) ?_
    intro r hr
    rw [← waiters_modifyQueue (fun d => { d with schedulerNode := some first })
      (by simp), hstate] at hr
    exact (((hpending.queues r).mem first).mp hr).2 rfl

end

omit [DecidableEq N] in
theorem frame_handedOver {s' : State T Q N} (first : T) (x : Option T)
    (h : Frame (s.modifyQueue q fun d => { d with owner := none }) s') :
    Frame (s.modifyQueue q fun d => { d with owner := some first })
      (handedOver s' q first x) where
  __ := h
  owner := by
    funext r
    by_cases hr : r = q
    · subst hr
      simp [State.owner, handedOver]
    · have := congrFun h.owner r
      simpa [State.owner, handedOver, State.modifyQueue_of_ne _ _ hr] using this

/-- The previous owner gives the queue's node away; the trees are right but for the queue,
which has no owner. -/
theorem Settled.orphaned (h : Settled own nobody s) (hown : ∃ node, own p node)
    (hp : s.owner q = some p) (hwait : s.waits p = none) (hne : ∃ u, u ∈ s.waiters q) :
    ∃ s' updates,
      surrenderRemove (s.modifyQueue q fun d => { d with owner := none }) q p =
        some (s', updates) ∧
      Orphaned own s' q ∧ Keeps (s.modifyQueue q fun d => { d with owner := none }) s' ∧
      (s'.queue q).heads = (s.queue q).heads ∧
      (∀ u, s'.priority u = s.priority u ∨ u ∈ updates) ∧ (Told s → Told s') := by
  obtain ⟨v, hv⟩ := hne
  obtain ⟨o, ho, hnode⟩ := (h.queues q).owner v hv
  have hpo : o = p := Option.some.inj (ho.symm.trans hp)
  have hother : ∀ r, r ≠ q →
      (s.modifyQueue q fun d => { d with owner := none }).queue r = s.queue r :=
    fun r hr => s.modifyQueue_of_ne _ hr
  have hothers : ∀ u, u ≠ p →
      ThreadOk own (s.modifyQueue q fun d => { d with owner := none }) u := by
    intro u hu
    refine (h.threads u).elsewhere rfl rfl hother ?_ ?_
    · rintro ⟨howner, -⟩
      rw [hp] at howner
      exact hu (Option.some.inj howner).symm
    · rintro ⟨howner, -⟩
      simp [State.owner] at howner
  obtain ⟨s', updates, hres, hre, hchanged⟩ := surrenderRemove_spec hothers
    (h.awaits_remove hown hp ⟨v, hv⟩) (by rw [State.modifyQueue_self, ← hpo]; exact hnode)
  have hheads : (s'.queue q).heads = (s.queue q).heads := by
    rw [hre.heads, State.modifyQueue_self]
  have hnot : ∀ r, p ∉ s.waiters r := by
    intro r hmem
    have := ((h.queues r).mem p).mp hmem
    rw [hwait] at this
    cases this.1
  have hpriority : ∀ u, u ≠ p → s'.priority u = s.priority u := hre.priority
  refine ⟨s', updates, hres, ⟨hre.threads, fun r hr => hre.queueOk ?_ ?_, ?_, ?_, ?_⟩, hre.keeps,
    hheads, ?_, hre.told⟩
  · obtain ⟨hok, hmem, howner⟩ := h.queues r
    refine ⟨by rw [hother r hr]; exact hok, ?_, ?_⟩
    · rw [State.waiters, hother r hr]
      exact hmem
    · rw [State.waiters, State.owner, hother r hr]
      exact howner
  · rw [State.waiters, hother r hr]
    exact hnot r
  · rw [hre.keeps.owner]
    simp [State.owner]
  · rw [hheads]
    refine (h.queues q).ok.congr fun u hu => (hpriority u ?_).symm
    rintro rfl
    exact hnot q hu
  · intro u
    rw [State.waiters, hheads, hre.keeps.waits]
    exact ((h.queues q).mem u).trans (and_iff_left id)
  · intro u
    by_cases hu : u = p
    · subst hu
      exact hchanged
    · exact .inl (hpriority u hu)

/-- The first waiter becomes the owner; its wait is still announced. -/
theorem inheritSurrender_spec (h : Settled own nobody s) (hown : ∀ u, ∃ node, own u node)
    (hp : s.owner q = some p) (hwait : s.waits p = none) (hne : ∃ u, u ∈ s.waiters q) :
    ∃ s' first updates,
      inheritSurrender (s.modifyQueue q fun d => { d with owner := none }) q p =
        some (s', first, updates) ∧ s.waits first = some q ∧
      Settled own (· = first) (s'.modifyQueue q fun d => { d with owner := some first }) ∧
      Frame (s.modifyQueue q fun d => { d with owner := some first })
        (s'.modifyQueue q fun d => { d with owner := some first }) ∧
      (∀ u, s'.priority u = s.priority u ∨ u ∈ updates) ∧
      (Told s → Told (s'.modifyQueue q fun d => { d with owner := some first })) := by
  obtain ⟨s₁, updates, hremove, horphan, hkeeps, hheads, hchanged, htold⟩ :=
    h.orphaned (hown p) hp hwait hne
  obtain ⟨first, hmin⟩ : ∃ first, (s.queue q).heads.minimum = some first := by
    obtain ⟨v, hv⟩ := hne
    exact ⟨_, List.head?_eq_some_head (List.ne_nil_of_mem hv)⟩
  have hfirst : first ∈ s₁.waiters q := by
    rw [State.waiters, hheads]
    exact List.mem_of_mem_head? hmin
  have hgive : (s₁.setHeads q ((s₁.queue q).heads.extract s₁.priority first).1).modifyQueue q
      (fun d => { d with owner := some first }) =
      handedOver s₁ q first (s₁.queue q).schedulerNode := by
    rw [State.setHeads, State.modifyQueue_modifyQueue]
    exact s₁.modifyQueue_congr rfl
  have hinsert := surrenderInsert_owner
    (s₁.setHeads q ((s₁.queue q).heads.extract s₁.priority first).1) q first updates
  rw [hgive] at hinsert
  have hframe := frame_handedOver first (s₁.queue q).schedulerNode hkeeps.toFrame
  refine ⟨_, first, _, by simp only [inheritSurrender, State.modifyQueue_self, hmin, hremove]; rfl,
    (congrFun hkeeps.waits first).symm.trans ((horphan.mem first).mp hfirst), ?_⟩
  obtain ⟨hsettled, hframe', hchanged', hgrows, htold'⟩ :=
    horphan.surrenderInsert (x := (s₁.queue q).schedulerNode) hfirst (hown first) updates
  rw [hinsert] at hsettled hframe' hchanged' hgrows htold'
  refine ⟨hsettled, hframe.trans hframe', fun u => ?_, fun h => htold' (htold h)⟩
  rcases hchanged' u with hu | hu
  · rcases hchanged u with hu' | hu'
    · exact .inl (hu.trans hu')
    · exact .inr (hgrows u hu')
  · exact .inr hu

end Surrender

end Rtems.ThreadQueue
