import Rtems.Models.Events.Handshake

/-!
# Accounts of sent and received events

The ledger of sends and takings replays to the pending events. A receive takes events
once, exactly those it returns, if it is successful, and takes none otherwise; a wait that
is not decided yet has taken none, and the pending events do not satisfy it.
-/

namespace Rtems.Events

open Ledger

/-- The events answer the request: some of those asked for, and all of them unless any is
enough. -/
def Answers (request : Request) (events : EventSet) : Prop :=
  events ≠ 0 ∧ events &&& request.eventIn = events ∧ (events = request.eventIn ∨ request.isAny)

/-- The wait of the owner is decided: a waker is in the locked section or was there. -/
def State.IsDecided (s : State) : Prop :=
  s.inSection ≠ none ∨ s.flags = .readyAgain

/-- What a receive that returned has taken. -/
def Return.Settled (ledger : List (Entry 32)) (call : Nat) (r : Return) : Prop :=
  (r.status = .successful → takenBy call ledger = [r.eventOut] ∧ Answers r.request r.eventOut) ∧
    (r.status ≠ .successful → takenBy call ledger = []) ∧
    (∀ times, r.unblocked = some times → times = 1)

/-- What the receive in progress has taken. -/
def CurrentCall (s : State) : Prop :=
  (s.owner = .outside → takenBy s.returns.length s.ledger = []) ∧
    (s.owner ≠ .outside → ¬ s.IsDecided →
      takenBy s.returns.length s.ledger = [] ∧ s.returnCode = .successful ∧
        isSatisfied s.wait s.pendingEvents = false) ∧
    (s.owner ≠ .outside → s.IsDecided →
      (s.returnCode = .successful ∧ takenBy s.returns.length s.ledger = [s.eventOut] ∧
        Answers s.wait s.eventOut) ∨
      (s.returnCode = .timeout ∧ takenBy s.returns.length s.ledger = []))

/-- The accounts of all sends and receives. -/
structure Accounts (s : State) : Prop where
  /-- The ledger gives the pending events. -/
  replays : replay s.ledger = some s.pendingEvents
  /-- The receives that returned. -/
  settled : ∀ (call : Nat) (r : Return), s.returns[call]? = some r → r.Settled s.ledger call
  /-- The receive in progress. -/
  current : CurrentCall s
  /-- A receive that was not made has taken nothing. -/
  later : ∀ call, s.returns.length < call → takenBy call s.ledger = []

theorem Accounts.start : Accounts start where
  replays := rfl
  settled := by intro call r h; cases h
  current := ⟨fun _ => rfl, fun h => absurd rfl h, fun h => absurd rfl h⟩
  later := fun _ _ => rfl

variable {request : Request} {ledger ledger' : List (Entry 32)} {r : Return}

theorem answers_of_isSatisfied {pendingEvents : EventSet}
    (h : isSatisfied request pendingEvents = true) :
    Answers request (pendingEvents &&& request.eventIn) := by
  simp only [isSatisfied, decide_eq_true_eq] at h
  exact ⟨h.1, by rw [BitVec.and_assoc, BitVec.and_self], h.2⟩

theorem apply_take (call : Nat) (pendingEvents eventIn : EventSet) :
    Entry.apply pendingEvents (.take call (pendingEvents &&& eventIn)) =
      some (pendingEvents &&& ~~~(pendingEvents &&& eventIn)) := by
  have hsub : pendingEvents &&& eventIn &&& pendingEvents = pendingEvents &&& eventIn := by
    rw [BitVec.and_comm, ← BitVec.and_assoc, BitVec.and_self]
  simp only [Entry.apply, if_pos hsub]

theorem takenBy_take_of_ne {call call' : Nat} (h : call' ≠ call) (ledger : List (Entry 32))
    (events : EventSet) : takenBy call (ledger ++ [.take call' events]) = takenBy call ledger := by
  rw [takenBy_take, if_neg h, List.append_nil]

theorem Return.Settled.congr {call : Nat}
    (h : r.Settled ledger call) (heq : takenBy call ledger' = takenBy call ledger) :
    r.Settled ledger' call := by
  unfold Return.Settled at h ⊢
  rwa [heq]

/-- One more receive returned. -/
theorem settled_concat {returns : List Return}
    (hold : ∀ (call : Nat) (r : Return), returns[call]? = some r → r.Settled ledger call)
    (hsame : ∀ call < returns.length, takenBy call ledger' = takenBy call ledger)
    (hnew : r.Settled ledger' returns.length) :
    ∀ (call : Nat) (r' : Return), (returns ++ [r])[call]? = some r' → r'.Settled ledger' call := by
  intro call r' hget
  by_cases hcall : call < returns.length
  · rw [List.getElem?_append_left hcall] at hget
    exact (hold call r' hget).congr (hsame call hcall)
  · rw [List.getElem?_append_right (Nat.le_of_not_lt hcall)] at hget
    obtain ⟨hindex, hr⟩ := List.getElem?_eq_some_iff.mp hget
    rw [List.length_singleton] at hindex
    have hcall : call = returns.length := by omega
    subst hcall
    have hr : r = r' := by simpa using hr
    exact hr ▸ hnew

variable {s t : State}

/-- A step that changes no account and keeps the owner in or out of its receive, decided or
not. -/
theorem Accounts.of_same (hs : Accounts s)
    (howner : t.owner = .outside ↔ s.owner = .outside) (hdecided : t.IsDecided ↔ s.IsDecided)
    (hpending : t.pendingEvents = s.pendingEvents) (hwait : t.wait = s.wait)
    (hcode : t.returnCode = s.returnCode) (hout : t.eventOut = s.eventOut)
    (hledger : t.ledger = s.ledger) (hreturns : t.returns = s.returns) : Accounts t := by
  obtain ⟨hreplays, hsettled, hcurrent, hlater⟩ := hs
  refine ⟨by rw [hledger, hpending]; exact hreplays, by rw [hledger, hreturns]; exact hsettled,
    ?_, by rw [hledger, hreturns]; exact hlater⟩
  simp only [CurrentCall, ne_eq, howner, hdecided, hpending, hwait, hcode, hout, hledger, hreturns]
  exact hcurrent

theorem State.record_nil (s : State) : s.record [] = s := by
  rw [State.record, List.append_nil]

theorem CurrentCall.outside {t : State} (howner : t.owner = .outside)
    (hnone : takenBy t.returns.length t.ledger = []) : CurrentCall t :=
  ⟨fun _ => hnone, fun h => absurd howner h, fun h => absurd howner h⟩

/-- Entering a receive. -/
theorem Accounts.seize (hs : Accounts s)
    (h : seize s request = some t) : Accounts (t.record (takenAtOnce s t)) := by
  simp only [Events.seize] at h
  split at h
  next => cases h
  next hfree =>
    push Not at hfree
    obtain ⟨howner, hsection⟩ := hfree
    have hnone := hs.current.1 howner
    have hnext := hs.later (s.returns.length + 1) (Nat.lt_succ_self _)
    split at h
    next hsatisfied =>
      cases h
      simp only [takenAtOnce, List.getElem?_concat_length, if_true, State.record]
      refine ⟨?_, settled_concat hs.settled ?_ ?_, .outside howner ?_, ?_⟩
      · rw [replay_concat, hs.replays, Option.bind_some, apply_take]
      · intro call hcall
        exact takenBy_take_of_ne (Nat.ne_of_gt hcall) _ _
      · refine ⟨fun _ => ⟨?_, answers_of_isSatisfied hsatisfied⟩, fun h => absurd rfl h, by simp⟩
        rw [takenBy_take, if_pos rfl, hnone, List.nil_append]
      · rw [List.length_append, List.length_singleton, takenBy_take_of_ne (by omega)]
        exact hnext
      · intro call hcall
        rw [List.length_append, List.length_singleton] at hcall
        rw [takenBy_take_of_ne (by omega)]
        exact hs.later call (by omega)
    next hunsatisfied =>
      split at h
      next =>
        cases h
        simp only [takenAtOnce, List.getElem?_concat_length, reduceCtorEq, if_false,
          State.record_nil]
        refine ⟨hs.replays, settled_concat hs.settled (fun _ _ => rfl) ?_,
          .outside howner ?_, ?_⟩
        · exact ⟨by simp, fun _ => hnone, by simp⟩
        · rw [List.length_append, List.length_singleton]
          exact hnext
        · intro call hcall
          rw [List.length_append, List.length_singleton] at hcall
          exact hs.later call (by omega)
      next =>
        cases h
        simp only [takenAtOnce, List.getElem?_eq_none (Nat.le_refl s.returns.length),
          State.record_nil]
        refine ⟨hs.replays, hs.settled, ⟨fun h => (by cases h), fun _ _ => ?_, ?_⟩, hs.later⟩
        · exact ⟨hnone, rfl, by simpa using hunsatisfied⟩
        · rintro - (hsome | hready)
          · exact absurd hsection hsome
          · cases hready

theorem Handshake.owner_ne_outside {s : State} (hs : Handshake s)
    (hflags : s.flags = .intendToBlock ∨ s.flags = .blocked) : s.owner ≠ .outside := by
  intro howner
  have hphase := hs.inPhase
  simp only [InPhase, howner] at hphase
  rcases hflags with hflags | hflags <;> simp [hflags] at hphase

theorem isBlockingOnEvent_iff (flags : WaitFlags) :
    isBlockingOnEvent flags = true ↔ flags = .intendToBlock ∨ flags = .blocked := by
  cases flags <;> simp [isBlockingOnEvent]

theorem Handshake.isBlocking_of_undecided {s : State} (hs : Handshake s)
    (howner : s.owner ≠ .outside) (hdecided : ¬ s.IsDecided) :
    isBlockingOnEvent s.flags = true := by
  have hnot : s.flags ≠ .readyAgain := fun h => hdecided (Or.inr h)
  have hphase := hs.inPhase
  rw [isBlockingOnEvent_iff]
  cases hphaseOwner : s.owner <;> simp_all [InPhase]

/-- An update of the flags by the waker inside of the locked section leaves the wait
decided. -/
theorem Accounts.updateFlags (hs : Accounts s) (h : updateFlags s = some t) :
    Accounts t := by
  simp only [Events.updateFlags] at h
  split at h
  next => cases h
  next waker hsection =>
    split at h
    next =>
      cases h
      refine hs.of_same Iff.rfl ?_ rfl rfl rfl rfl rfl rfl
      simp [State.IsDecided, hsection]
    next =>
      cases h
      refine hs.of_same Iff.rfl ?_ rfl rfl rfl rfl rfl rfl
      simp [State.IsDecided, hsection]
  next waker hsection =>
    cases h
    refine hs.of_same Iff.rfl ?_ rfl rfl rfl rfl rfl rfl
    simp [State.IsDecided, hsection]

section

variable (hs : Accounts s) (hshake : Handshake s)
include hs hshake

/-- The owner's next step. -/
theorem Accounts.proceed (h : proceed s = some t) : Accounts t := by
  have hphase := hshake.inPhase
  simp only [Events.proceed] at h
  cases howner : s.owner with
  | outside => simp [howner] at h
  | announced | timed | tooLate | timerRemoved =>
    simp only [howner, Option.some.injEq] at h
    subst h
    exact hs.of_same (by simp [howner]) Iff.rfl rfl rfl rfl rfl rfl rfl
  | stateSet =>
    simp only [howner] at h
    split at h
    next hintend =>
      cases h
      refine hs.of_same (by simp [howner]) ?_ rfl rfl rfl rfl rfl rfl
      simp [State.IsDecided, hintend]
    next =>
      cases h
      exact hs.of_same (by simp [howner]) Iff.rfl rfl rfl rfl rfl rfl rfl
  | dispatching =>
    simp only [howner] at h
    simp only [InPhase, howner] at hphase
    split at h
    next => cases h
    next hready =>
      cases h
      obtain ⟨hflags, hunblocked⟩ : s.flags = .readyAgain ∧ s.unblocked = 1 := by
        rcases hphase with ⟨-, hblocked, -⟩ | ⟨-, hblocked, -⟩ | ⟨hflags, -, -, hunblocked⟩
        · exact absurd hblocked hready
        · exact absurd hblocked hready
        · exact ⟨hflags, hunblocked⟩
      have hnext := hs.later (s.returns.length + 1) (Nat.lt_succ_self _)
      have hdecided := hs.current.2.2 (by simp [howner]) (Or.inr hflags)
      refine ⟨hs.replays, settled_concat hs.settled (fun _ _ => rfl) ?_,
        .outside rfl ?_, ?_⟩
      · refine ⟨?_, ?_, ?_⟩
        · intro hstatus
          rcases hdecided with ⟨-, htaken⟩ | ⟨htimeout, -⟩
          · exact htaken
          · exact absurd (hstatus.symm.trans htimeout) (by simp)
        · intro hstatus
          rcases hdecided with ⟨hsuccessful, -⟩ | ⟨-, hnone⟩
          · exact absurd hsuccessful hstatus
          · exact hnone
        · rintro times htimes
          exact Option.some.inj htimes ▸ hunblocked
      · rw [List.length_append, List.length_singleton]
        exact hnext
      · intro call hcall
        rw [List.length_append, List.length_singleton] at hcall
        exact hs.later call (by omega)

/-- A send up to its first update of the flags. -/
theorem Accounts.surrender
    {eventIn : EventSet} (h : surrender s eventIn = some t) :
    Accounts ((t.record [.post eventIn]).record (takenForOwner t)) := by
  simp only [Events.surrender] at h
  split at h
  next => cases h
  next hfree =>
    have hsection : s.inSection = none := Decidable.not_not.mp hfree
    have hposted : replay (s.ledger ++ [.post eventIn]) = some (s.pendingEvents ||| eventIn) := by
      rw [replay_concat, hs.replays]
      rfl
    split at h
    next hblocking =>
      cases h
      have hflags := (isBlockingOnEvent_iff _).mp hblocking.1
      have howner := hshake.owner_ne_outside hflags
      have hundecided : ¬ s.IsDecided := by
        rintro (hsome | hready)
        · exact hsome hsection
        · rcases hflags with hflags | hflags <;> simp [hflags] at hready
      obtain ⟨hnone, hcode, -⟩ := hs.current.2.1 howner hundecided
      simp only [takenForOwner, reduceCtorEq, if_false, State.record]
      refine ⟨?_, ?_, ⟨fun h => absurd h howner, ?_, fun _ _ => Or.inl ⟨hcode, ?_, ?_⟩⟩, ?_⟩
      · rw [replay_concat, hposted, Option.bind_some, apply_take]
      · intro call r hget
        have hcall := (List.getElem?_eq_some_iff.mp hget).1
        refine (hs.settled call r hget).congr ?_
        rw [takenBy_take_of_ne (Nat.ne_of_gt hcall), takenBy_post]
      · exact fun _ hnot => absurd (Or.inl (by simp)) hnot
      · rw [takenBy_take, if_pos rfl, takenBy_post, hnone, List.nil_append]
      · exact answers_of_isSatisfied hblocking.2
      · intro call hcall
        rw [takenBy_take_of_ne (Nat.ne_of_lt hcall), takenBy_post]
        exact hs.later call hcall
    next hnot =>
      cases h
      have hkept : takenForOwner { s with pendingEvents := s.pendingEvents ||| eventIn } = [] :=
        if_pos hsection
      rw [hkept, State.record_nil]
      simp only [State.record]
      refine ⟨hposted, ?_, ⟨?_, ?_, ?_⟩, ?_⟩
      · intro call r hget
        exact (hs.settled call r hget).congr (takenBy_post _ _ _)
      · intro howner
        rw [takenBy_post]
        exact hs.current.1 howner
      · intro howner hundecided
        obtain ⟨hnone, hcode, -⟩ := hs.current.2.1 howner hundecided
        refine ⟨by rw [takenBy_post]; exact hnone, hcode, ?_⟩
        have hblocking := hshake.isBlocking_of_undecided howner hundecided
        exact Bool.eq_false_iff.mpr fun hsatisfied => hnot ⟨hblocking, hsatisfied⟩
      · intro howner hdecided
        rw [takenBy_post]
        exact hs.current.2.2 howner hdecided
      · intro call hcall
        rw [takenBy_post]
        exact hs.later call hcall

/-- A timeout up to its first update of the flags. -/
theorem Accounts.threadContinue (h : threadContinue s = some t) : Accounts t := by
  simp only [Events.threadContinue] at h
  split at h
  next => cases h
  next hready =>
    push Not at hready
    split at h
    next hwaiting =>
      cases h
      have hstarted := hshake.timer (Or.inr hready.2)
      have hflags : s.flags = .intendToBlock ∨ s.flags = .blocked := by
        cases hflags : s.flags <;> simp_all
      have howner := hshake.owner_ne_outside hflags
      have hundecided : ¬ s.IsDecided := by
        rintro (hsome | hagain)
        · exact hsome hready.1
        · exact hwaiting hagain
      obtain ⟨hnone, -, -⟩ := hs.current.2.1 howner hundecided
      refine ⟨hs.replays, hs.settled, ⟨fun h => absurd h howner, ?_, ?_⟩, hs.later⟩
      · exact fun _ hnot => absurd (Or.inl (by simp)) hnot
      · exact fun _ _ => Or.inr ⟨rfl, hnone⟩
    next =>
      cases h
      exact hs.of_same Iff.rfl Iff.rfl rfl rfl rfl rfl rfl rfl

/-- Every step keeps the accounts. -/
theorem Accounts.step {op : Op}
    (h : step s op = some t) : Accounts t := by
  cases op with
  | seize request =>
    obtain ⟨r, hr, rfl⟩ := Option.map_eq_some_iff.mp h
    exact hs.seize hr
  | proceed => exact hs.proceed hshake h
  | surrender eventIn =>
    obtain ⟨r, hr, rfl⟩ := Option.map_eq_some_iff.mp h
    exact hs.surrender hshake hr
  | expire =>
    simp only [Events.step, Events.expire] at h
    split at h
    next =>
      cases h
      exact hs.of_same Iff.rfl Iff.rfl rfl rfl rfl rfl rfl rfl
    next => cases h
  | timeout => exact hs.threadContinue hshake h
  | updateFlags => exact hs.updateFlags h
  | finish position =>
    simp only [Events.step, Events.finish] at h
    split at h
    next => cases h
    next =>
      cases h
      exact hs.of_same Iff.rfl Iff.rfl rfl rfl rfl rfl rfl rfl
    next =>
      cases h
      exact hs.of_same Iff.rfl Iff.rfl rfl rfl rfl rfl rfl rfl

end

end Rtems.Events
