import Rtems.Models.Events.Accounts

/-!
# Events are neither lost nor duplicated

In every interleaving of sends, receives and timeouts each sent event is pending, merged
with a later send or returned by one receive; every receive returns what it took; and the
owner is woken once for each wait.
-/

namespace Rtems.Events

open Ledger

/-- The receive returned the events, or is about to: its wait is decided and neither the
status nor the events change any more. -/
def Delivered (s : State) (call : Nat) (events : EventSet) : Prop :=
  (∃ r, s.returns[call]? = some r ∧ r.status = .successful ∧ r.eventOut = events) ∨
    (call = s.returns.length ∧ s.owner ≠ .outside ∧ s.IsDecided ∧
      s.returnCode = .successful ∧ s.eventOut = events)

/-- What became of an event that was sent. -/
def Fate (s : State) (later : List (Entry 32)) (event : Nat) : Prop :=
  match later.find? (Entry.mentions event) with
  | none => s.pendingEvents.getLsbD event = true
  | some (.post _) => True
  | some (.take call events) => takenBy call s.ledger = [events] ∧ Delivered s call events

/-- The steps that finish the sends and timeouts under way. -/
def WakerStep (op : Op) : Prop :=
  op = .updateFlags ∨ op = .finish 0

variable {s : State}

/-- A taking of events belongs to one receive, which took nothing else. -/
theorem Accounts.delivered_of_take (hs : Accounts s) {call : Nat} {events : EventSet}
    (hmem : .take call events ∈ s.ledger) :
    takenBy call s.ledger = [events] ∧ Delivered s call events := by
  have htaken : events ∈ takenBy call s.ledger := mem_takenBy.mpr hmem
  rcases Nat.lt_trichotomy call s.returns.length with hlt | heq | hgt
  · obtain ⟨r, hget⟩ : ∃ r, s.returns[call]? = some r := ⟨_, List.getElem?_eq_getElem hlt⟩
    obtain ⟨hsuccessful, hfailed, -⟩ := hs.settled call r hget
    by_cases hstatus : r.status = .successful
    · obtain ⟨hall, -⟩ := hsuccessful hstatus
      have hevents : events = r.eventOut := by simpa [hall] using htaken
      exact ⟨hevents ▸ hall, Or.inl ⟨r, hget, hstatus, hevents.symm⟩⟩
    · rw [hfailed hstatus] at htaken
      cases htaken
  · subst heq
    obtain ⟨houtside, hundecided, hdecided⟩ := hs.current
    by_cases howner : s.owner = .outside
    · rw [houtside howner] at htaken
      cases htaken
    · by_cases hwait : s.IsDecided
      · rcases hdecided howner hwait with ⟨hcode, hall, -⟩ | ⟨-, hnone⟩
        · have hevents : events = s.eventOut := by simpa [hall] using htaken
          exact ⟨hevents ▸ hall, Or.inr ⟨rfl, howner, hwait, hcode, hevents.symm⟩⟩
        · rw [hnone] at htaken
          cases htaken
      · rw [(hundecided howner hwait).1] at htaken
        cases htaken
  · rw [hs.later call hgt] at htaken
    cases htaken

/-- Every event that was sent is pending, merged or delivered. -/
theorem Accounts.fate (hs : Accounts s) {before later : List (Entry 32)}
    {events : EventSet} {event : Nat} (hledger : s.ledger = before ++ .post events :: later)
    (hevent : events.getLsbD event = true) : Fate s later event := by
  unfold Fate
  split
  next hnone => exact post_pending (hledger ▸ hs.replays) hevent hnone
  next => trivial
  next call taken hfind =>
    apply hs.delivered_of_take
    rw [hledger]
    exact List.mem_append_right _ (List.mem_cons_of_mem _ (List.mem_of_find?_eq_some hfind))

theorem wake_of_unblock {rest : List Unblocker} (h : s.unblockers = .unblock :: rest) :
    ∃ t, step s (.finish 0) = some t ∧ t.isBlocked = false := by
  refine ⟨_, by simp only [step, finish, h, List.getElem?_cons_zero]; rfl, rfl⟩

/-- The steps of a waker that left the locked section. -/
theorem wake_of_unblockers (hne : s.unblockers ≠ []) :
    ∃ ops t, (∀ op ∈ ops, WakerStep op) ∧ Run step (fun _ _ => True) s ops t ∧
      t.isBlocked = false := by
  cases h : s.unblockers with
  | nil => exact absurd h hne
  | cons first rest =>
    cases first with
    | unblock =>
      obtain ⟨t, hstep, hawake⟩ := wake_of_unblock h
      exact ⟨[.finish 0], t, by simp [WakerStep], .snoc .nil trivial hstep, hawake⟩
    | removeTimer =>
      obtain ⟨r, hr, hunblockers⟩ :
          ∃ r, step s (.finish 0) = some r ∧ r.unblockers = .unblock :: rest := by
        refine ⟨_, by simp only [step, finish, h, List.getElem?_cons_zero]; rfl, ?_⟩
        rfl
      obtain ⟨t, hstep, hawake⟩ := wake_of_unblock hunblockers
      exact ⟨[.finish 0, .finish 0], t, by simp [WakerStep],
        .snoc (.snoc .nil trivial hr) trivial hstep, hawake⟩

/-- The steps of a waker inside of the locked section that finds the owner blocked. -/
theorem wake_of_inSection {waker : Waker} {phase : SectionPhase}
    (h : s.inSection = some (waker, phase)) (hflags : s.flags = .blocked) :
    ∃ ops t, (∀ op ∈ ops, WakerStep op) ∧ Run step (fun _ _ => True) s ops t ∧
      t.isBlocked = false := by
  have hset : ∀ r : State, r.inSection = some (waker, .setFlags) →
      ∃ ops t, (∀ op ∈ ops, WakerStep op) ∧ Run step (fun _ _ => True) r ops t ∧
        t.isBlocked = false := by
    intro r hr
    obtain ⟨q, hq, hne⟩ : ∃ q, step r .updateFlags = some q ∧ q.unblockers ≠ [] := by
      refine ⟨_, by simp only [step, updateFlags, hr]; rfl, ?_⟩
      simp
    obtain ⟨ops, t, hops, hrun, hawake⟩ := wake_of_unblockers hne
    refine ⟨.updateFlags :: ops, t, ?_, (Run.snoc .nil trivial hq).append hrun, hawake⟩
    exact List.forall_mem_cons.mpr ⟨Or.inl rfl, hops⟩
  cases phase with
  | setFlags => exact hset s h
  | exchange =>
    obtain ⟨r, hr, hsection⟩ :
        ∃ r, step s .updateFlags = some r ∧ r.inSection = some (waker, .setFlags) := by
      refine ⟨_, by simp only [step, updateFlags, h, hflags, reduceCtorEq, if_false]; rfl, rfl⟩
    obtain ⟨ops, t, hops, hrun, hawake⟩ := hset r hsection
    refine ⟨.updateFlags :: ops, t, ?_, (Run.snoc .nil trivial hr).append hrun, hawake⟩
    exact List.forall_mem_cons.mpr ⟨Or.inl rfl, hops⟩

/-- A blocked owner whose wait is decided is woken by the wakers under way alone. -/
theorem Handshake.wakes (hs : Handshake s) (howner : s.owner = .dispatching)
    (hblocked : s.isBlocked = true) (hdecided : s.IsDecided) :
    ∃ ops t, (∀ op ∈ ops, WakerStep op) ∧ Run Events.step (fun _ _ => True) s ops t ∧
      t.isBlocked = false := by
  have hphase := hs.inPhase
  simp only [InPhase, howner, hblocked] at hphase
  rcases hphase with ⟨hflags, -⟩ | ⟨-, -, hlength, -⟩ | ⟨-, h, -⟩
  · cases hsection : s.inSection with
    | none =>
      rcases hdecided with hsome | hready
      · exact absurd hsection hsome
      · exact absurd (hready.symm.trans hflags) (by simp)
    | some waking => exact wake_of_inSection hsection hflags
  · exact wake_of_unblockers (List.ne_nil_of_length_eq_add_one hlength)
  · cases h

/-- While a wait lasts, at most one unblock is done or under way. -/
theorem Handshake.unblocked_le (hs : Handshake s) (howner : s.owner ≠ .outside) :
    s.unblocked + s.unblockers.length ≤ 1 := by
  have hphase := hs.inPhase
  cases hphaseOwner : s.owner with
  | outside => exact absurd hphaseOwner howner
  | dispatching =>
    simp only [InPhase, hphaseOwner] at hphase
    rcases hphase with ⟨-, -, hlist, hcount⟩ | ⟨-, -, hlist, hcount⟩ | ⟨-, -, hlist, hcount⟩ <;>
      simp [hlist, hcount]
  | announced | timed | stateSet | tooLate | timerRemoved => simp_all [InPhase]

theorem invariant_of_run {ops : List Op}
    (hrun : Run step (fun _ _ => True) start ops s) : Handshake s ∧ Accounts s := by
  refine hrun.invariant (fun s => Handshake s ∧ Accounts s) ⟨.start, .start⟩ ?_
  intro s op t hs _ hstep
  exact ⟨hs.1.step hstep, hs.2.step hs.1 hstep⟩

/-- What the step sends. -/
def Op.sent : Op → Option EventSet
  | .surrender eventIn => some eventIn
  | .seize _ | .proceed | .expire | .timeout | .updateFlags | .finish _ => none

/-- A step changes nothing in the ledger but that it adds lines, which post what the step sends. -/
theorem ledger_of_step {t : State} {op : Op} (h : step s op = some t) :
    ∃ lines, t.ledger = s.ledger ++ lines ∧ posts lines = op.sent.toList := by
  have hsame : t.ledger = s.ledger → op.sent = none →
      ∃ lines, t.ledger = s.ledger ++ lines ∧ posts lines = op.sent.toList :=
    fun hledger hsent => ⟨[], by rw [hledger, List.append_nil], by rw [hsent]; rfl⟩
  cases op with
  | seize request =>
    obtain ⟨r, hr, rfl⟩ := Option.map_eq_some_iff.mp h
    have hledger : r.ledger = s.ledger := by
      simp only [seize] at hr
      split_ifs at hr <;> cases hr <;> rfl
    refine ⟨takenAtOnce s r, by rw [← hledger]; rfl, ?_⟩
    unfold takenAtOnce
    split
    · split <;> rfl
    · rfl
  | proceed =>
    refine hsame ?_ rfl
    simp only [step, proceed] at h
    split at h
    any_goals split at h
    all_goals cases h
    all_goals rfl
  | surrender eventIn =>
    obtain ⟨r, hr, rfl⟩ := Option.map_eq_some_iff.mp h
    have hledger : r.ledger = s.ledger := by
      simp only [surrender] at hr
      split_ifs at hr <;> cases hr <;> rfl
    refine ⟨.post eventIn :: takenForOwner r, ?_, ?_⟩
    · rw [← hledger]
      exact List.append_assoc r.ledger [.post eventIn] (takenForOwner r)
    · unfold takenForOwner
      split <;> rfl
  | expire =>
    refine hsame ?_ rfl
    simp only [step, expire] at h
    split_ifs at h
    cases h
    rfl
  | timeout =>
    refine hsame ?_ rfl
    simp only [step, threadContinue] at h
    split_ifs at h <;> cases h <;> rfl
  | updateFlags =>
    refine hsame ?_ rfl
    simp only [step, updateFlags] at h
    split at h
    any_goals split at h
    all_goals cases h
    all_goals rfl
  | finish position =>
    refine hsame ?_ rfl
    simp only [step, finish] at h
    split at h
    all_goals cases h
    all_goals rfl

/-- The posts of the ledger are the sends of the run. -/
theorem posts_of_run {ops : List Op} (hrun : Run step (fun _ _ => True) start ops s) :
    posts s.ledger = ops.filterMap Op.sent := by
  induction hrun with
  | nil => rfl
  | @snoc ops s t op _ _ hstep ih =>
    obtain ⟨lines, hledger, hposts⟩ := ledger_of_step hstep
    have happend : posts (s.ledger ++ lines) = posts s.ledger ++ posts lines :=
      List.filterMap_append
    rw [hledger, happend, ih, hposts, List.filterMap_append]
    cases hsent : op.sent <;> simp [hsent]

/-- In every interleaving, the posts of the ledger are the sends, and each event that was sent is
pending, merged with a later send or delivered to one receive, and each taken event was sent and not taken
since. A receive that returned successfully took exactly what it returned, which answers its
request; any other took nothing; and one that waited was unblocked once. While a wait lasts it is
unblocked at most once, a wait whose condition the pending events satisfy is decided, and a
blocked owner whose wait is decided is woken by the sends and timeouts that are under way. -/
theorem events_neither_lost_nor_duplicated {ops : List Op} {s : State}
    (hrun : Run step (fun _ _ => True) start ops s) :
    posts s.ledger = ops.filterMap Op.sent ∧
    replay s.ledger = some s.pendingEvents ∧
    (∀ before events later event, s.ledger = before ++ .post events :: later →
      events.getLsbD event = true → Fate s later event) ∧
    (∀ before call events later event, s.ledger = before ++ .take call events :: later →
      events.getLsbD event = true → lastIsPost event before = true) ∧
    (∀ (call : Nat) (r : Return), s.returns[call]? = some r → r.Settled s.ledger call) ∧
    (s.owner ≠ .outside → s.unblocked + s.unblockers.length ≤ 1) ∧
    (s.owner ≠ .outside → isSatisfied s.wait s.pendingEvents = true → s.IsDecided) ∧
    (s.owner = .dispatching → s.isBlocked = true → s.IsDecided →
      ∃ wakerOps t, (∀ op ∈ wakerOps, WakerStep op) ∧
        Run step (fun _ _ => True) s wakerOps t ∧ t.isBlocked = false) := by
  obtain ⟨hshake, haccounts⟩ := invariant_of_run hrun
  refine ⟨posts_of_run hrun, haccounts.replays, ?_, ?_, haccounts.settled, hshake.unblocked_le, ?_,
    hshake.wakes⟩
  · intro before events later event hledger hevent
    exact haccounts.fate hledger hevent
  · intro before call events later event hledger hevent
    exact take_posted (hledger ▸ haccounts.replays) hevent
  · intro howner hsatisfied
    by_contra hundecided
    obtain ⟨-, -, hnot⟩ := haccounts.current.2.1 howner hundecided
    exact Bool.false_ne_true (hnot.symm.trans hsatisfied)

/-- A send decides a wait while the owner is about to block, and finds the owner blocked
when it updates the flags; a second wait times out. -/
private def lateSend : List Op :=
  [.surrender 1, .seize ⟨2, false, false, 5⟩, .proceed, .proceed, .surrender 6, .proceed,
    .updateFlags, .updateFlags, .finish 0, .finish 0, .proceed,
    .seize ⟨2, true, false, 1⟩, .proceed, .expire, .timeout, .updateFlags, .proceed, .proceed,
    .proceed, .proceed, .proceed]

/-- The first receive of the run returns its event, the second one times out, and the other
events stay pending. -/
theorem events_neither_lost_nor_duplicated_lateSend :
    ∃ s, Run step (fun _ _ => True) start lateSend s ∧ s.pendingEvents = 5 ∧
      takenBy 0 s.ledger = [2] ∧ takenBy 1 s.ledger = [] ∧ Fate s [.take 0 2] 2 := by
  obtain ⟨s, hrun, hledger, hreturns⟩ :
      ∃ s, Run step (fun _ _ => True) start lateSend s ∧
        s.ledger = [.post 1] ++ .post 6 :: [.take 0 2] ∧
        s.returns = [⟨⟨2, false, false, 5⟩, .successful, 2, some 1⟩,
          ⟨⟨2, true, false, 1⟩, .timeout, 2, some 1⟩] := ⟨_, .of_exec rfl, rfl, rfl⟩
  obtain ⟨-, hreplays, hfate, -, hsettled, -⟩ := events_neither_lost_nor_duplicated hrun
  refine ⟨s, hrun, ?_, ?_, ?_, hfate _ _ _ 2 hledger (by decide)⟩
  · rw [hledger] at hreplays
    exact (Option.some.inj hreplays).symm
  · exact ((hsettled 0 _ (by rw [hreturns]; rfl)).1 rfl).1
  · exact (hsettled 1 _ (by rw [hreturns]; rfl)).2.1 (by decide)

end Rtems.Events
