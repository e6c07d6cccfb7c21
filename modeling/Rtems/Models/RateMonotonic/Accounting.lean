import Rtems.Models.RateMonotonic.State

/-!
# Rate-monotonic periods count every job

The timer is armed, or its routine is about to run, exactly while the period is not inactive. A
deadline that does not find the owner waiting is paid for by one postponed job until a call
returns `timeout` for it, and deadlines follow each other at the length of the calls. All this
needs that no cancel comes between the expiry of the timer and its routine: the routine of a
cancelled period sets the timer again.
-/

namespace Rtems.RateMonotonic

/-- While all lengths are the same, the deadlines are its multiples after the activation. -/
def History.Regular (h : History) : Prop :=
  ∀ length, (∀ l ∈ h.lengths, l = length) →
    ∀ k deadline, h.deadlines[k]? = some deadline → deadline = h.activatedAt + (k + 1) * length

/-- Every missed deadline is a postponed job or a call that returned `timeout`. -/
def Balanced (s : State) : Prop :=
  s.history.saturated = false → s.history.missed = s.postponedJobs + s.history.timeouts

/-- What holds of a period at all times. -/
structure Kept (s : State) : Prop where
  /-- The timer is armed or due exactly while the period is not inactive. -/
  armed : s.timer.isSome = true ∨ s.due = true ↔ s.state ≠ .inactive
  /-- It is not both. -/
  once : s.due = true → s.timer = none
  /-- An expired period has a postponed job. -/
  expired : s.state = .expired → 1 ≤ s.postponedJobs
  /-- The count fits its type. -/
  bounded : s.postponedJobs ≤ uint32Max
  /-- A running timer ends at the last deadline, which lies ahead. -/
  timerRuns : ∀ expire, s.timer = some expire →
    s.now < expire ∧ s.history.deadlines.getLast? = some expire
  /-- A timer that is due has just reached the last deadline. -/
  dueNow : s.due = true → s.history.deadlines.getLast? = some s.now
  /-- The next deadline is to be as far from the last one as the last call said. -/
  nextLength : s.state ≠ .inactive →
    s.history.lengths.getLast? = some s.nextLength ∧ 1 ≤ s.nextLength
  /-- Missed deadlines are accounted for. -/
  balanced : Balanced s
  /-- The deadlines are regular. -/
  regular : s.history.Regular

/-- How far an owner is that waits. -/
def State.Waits (s : State) : Prop :=
  match s.owner with
  | .outside => False
  | .announced => s.flags = .intendToBlock
  | .stateSet => s.flags = .intendToBlock ∧ s.isBlocked = true
  | .tooLate => False
  | .dispatching => s.flags = .blocked ∧ s.isBlocked = true

/-- The period knows whether its owner waits. -/
structure Handshake (s : State) : Prop where
  /-- The owner's argument is the period exactly while it waits. -/
  waiting : s.isArgument = true ↔ s.IsWaiting
  /-- The flags and the thread state of a waiting owner agree with where it is. -/
  waits : s.isArgument = true → s.Waits
  /-- An owner that is to be unblocked does not wait for a deadline any more. -/
  unblocking : s.unblocking = true →
    s.owner = .dispatching ∧ s.isBlocked = true ∧ s.isArgument = false
  /-- The routine of a timer that is due has not run. -/
  idle : s.due = true → s.unblocking = false

theorem Kept.start (now : Nat) : Kept (start now) where
  armed := by simp [RateMonotonic.start]
  once := by intro h; cases h
  expired := by intro h; cases h
  bounded := Nat.zero_le _
  timerRuns := by intro expire h; cases h
  dueNow := by intro h; cases h
  nextLength := fun h => absurd rfl h
  balanced := fun _ => rfl
  regular := by intro length _ k deadline h; simp [RateMonotonic.start] at h

theorem Handshake.start (now : Nat) : Handshake (start now) where
  waiting := by simp [RateMonotonic.start, State.IsWaiting]
  waits := by intro h; cases h
  unblocking := by intro h; cases h
  idle := fun _ => rfl

theorem History.Regular.call {h : History} (hr : h.Regular) (length : Nat) :
    History.Regular { h with lengths := h.lengths ++ [length] } := by
  intro length' hall
  exact hr length' fun l hl => hall l (List.mem_append_left _ hl)

/-- The deadline after the last one, as far away as the last call said. -/
theorem History.Regular.deadline {h : History} (hr : h.Regular) {last length : Nat}
    (hlast : h.deadlines.getLast? = some last) (hlength : h.lengths.getLast? = some length) :
    History.Regular { h with deadlines := h.deadlines ++ [last + length] } := by
  intro length' hall k deadline hget
  have hlengthEq : length = length' := hall length (List.mem_of_getLast? hlength)
  have hne : 1 ≤ h.deadlines.length := by
    rcases Nat.eq_zero_or_pos h.deadlines.length with hzero | hpos
    · rw [List.eq_nil_of_length_eq_zero hzero] at hlast
      cases hlast
    · exact hpos
  have hlastEq : last = h.activatedAt + (h.deadlines.length - 1 + 1) * length' :=
    hr length' hall _ last (by rw [← List.getLast?_eq_getElem?]; exact hlast)
  by_cases hk : k < h.deadlines.length
  · exact hr length' hall k deadline (by rwa [List.getElem?_append_left hk] at hget)
  · obtain ⟨hlt, hdeadline⟩ := List.getElem?_eq_some_iff.mp hget
    have hkEq : k = h.deadlines.length := by
      rw [List.length_append, List.length_singleton] at hlt
      omega
    subst hkEq
    have hdeadline : deadline = last + length := by simpa using hdeadline.symm
    rw [hdeadline, hlastEq, hlengthEq, Nat.sub_add_cancel hne, Nat.succ_mul, Nat.add_assoc]

variable {s t : State} {length : Nat}

theorem postponedJobs_pred {postponedJobs : Nat} (hpos : 1 ≤ postponedJobs)
    (hle : postponedJobs ≤ uint32Max) :
    (postponedJobs + uint32Max) % (uint32Max + 1) = postponedJobs - 1 := by
  have hsplit : postponedJobs + uint32Max = (postponedJobs - 1) + (uint32Max + 1) := by omega
  rw [hsplit, Nat.add_mod_right, Nat.mod_eq_of_lt (by omega)]

/-- A call that returns `timeout` takes one off a positive count. -/
theorem Kept.blockWhileExpired_postponedJobs (hs : Kept s) (hpos : 1 ≤ s.postponedJobs)
    (length : Nat) : (blockWhileExpired s length).postponedJobs + 1 = s.postponedJobs := by
  show (s.postponedJobs + uint32Max) % (uint32Max + 1) + 1 = s.postponedJobs
  rw [postponedJobs_pred hpos hs.bounded]
  omega

/-- An activation, which finds no timer due. -/
theorem Kept.activate (hs : Kept s) (hstate : s.state = .inactive) (hlength : 1 ≤ length) :
    Kept (s.recordCall length (activate s length, some .successful)) := by
  have hnotDue : s.due = false := by
    rw [← Bool.not_eq_true]
    exact fun hdue => hs.armed.mp (.inr hdue) hstate
  have hdue : (RateMonotonic.activate s length).due ≠ true := by
    rw [show (RateMonotonic.activate s length).due = s.due from rfl, hnotDue]
    decide
  refine ⟨⟨fun _ h => (by cases h), fun _ => .inl rfl⟩, fun h => absurd h hdue,
    fun h => (by cases h), Nat.zero_le _, ?_, fun h => absurd h hdue, fun _ => ⟨rfl, hlength⟩,
    fun _ => rfl, ?_⟩
  · intro expire h
    have hexpire : s.now + length = expire := Option.some.inj h
    refine ⟨?_, congrArg some hexpire⟩
    rw [← hexpire]
    exact Nat.lt_add_of_pos_right hlength
  · intro length' hall k deadline hget
    have hlengthEq : length = length' := hall length (List.mem_singleton_self _)
    cases k with
    | zero =>
      have hdeadline : s.now + length = deadline := Option.some.inj hget
      rw [← hdeadline, ← hlengthEq, Nat.zero_add, Nat.one_mul]
      rfl
    | succ k => cases hget

section

variable (hs : Kept s) (hlength : 1 ≤ length)
include hs hlength

theorem Kept.blockWhileActive :
    Kept (s.recordCall length (blockWhileActive s length, none)) where
  __ := hs
  nextLength := fun _ => ⟨List.getLast?_concat, hlength⟩
  regular := hs.regular.call length

/-- A call that returns `timeout` takes one postponed job. -/
theorem Kept.blockWhileExpired (hstate : s.state ≠ .inactive) (hpos : 1 ≤ s.postponedJobs) :
    Kept (s.recordCall length (blockWhileExpired s length, some .timeout)) := by
  have hpred := hs.blockWhileExpired_postponedJobs hpos length
  have hle := hs.bounded
  refine ⟨⟨fun _ h => (by cases h), fun _ => hs.armed.mpr hstate⟩, hs.once, fun h => (by cases h),
    ?_, hs.timerRuns, hs.dueNow, fun _ => ⟨List.getLast?_concat, hlength⟩, ?_,
    hs.regular.call length⟩
  · show (RateMonotonic.blockWhileExpired s length).postponedJobs ≤ uint32Max
    omega
  · intro hsaturated
    have hbalance : s.history.missed = s.postponedJobs + s.history.timeouts :=
      hs.balanced hsaturated
    show s.history.missed =
      (RateMonotonic.blockWhileExpired s length).postponedJobs + (s.history.timeouts + 1)
    omega

/-- A call of the owner. -/
theorem Kept.period (h : step s (.period length) = some t) : Kept t := by
  simp only [step, RateMonotonic.period] at h
  cases hstate : s.state with
  | active =>
    simp only [hstate] at h
    split_ifs at h with hpos
    · exact Option.some.inj h ▸ hs.blockWhileExpired hlength (by simp [hstate]) hpos
    · exact Option.some.inj h ▸ hs.blockWhileActive hlength
  | inactive =>
    simp only [hstate] at h
    exact Option.some.inj h ▸ hs.activate hstate hlength
  | expired =>
    simp only [hstate] at h
    exact Option.some.inj h ▸
      hs.blockWhileExpired hlength (by simp [hstate]) (hs.expired hstate)

end

/-- The code's test for a waiting owner is right. -/
theorem Handshake.test_iff (hshake : Handshake s) :
    (s.flags.isPeriodClass = true ∧ s.isArgument = true) ↔ s.IsWaiting := by
  rw [← hshake.waiting]
  refine ⟨And.right, fun harg => ⟨?_, harg⟩⟩
  have hwaits := hshake.waits harg
  unfold State.Waits at hwaits
  cases howner : s.owner <;> simp only [howner] at hwaits
  · rw [hwaits]; rfl
  · rw [hwaits.1]; rfl
  · rw [hwaits.1]; rfl

section

variable (hs : Kept s)
include hs

/-- A step of the waiting owner does not touch the period. -/
theorem Kept.proceed (h : proceed s = some t) : Kept t := by
  simp only [RateMonotonic.proceed] at h
  cases howner : s.owner with
  | outside => simp [howner] at h
  | announced =>
    simp only [howner, Option.some.injEq] at h
    exact h ▸ { hs with }
  | stateSet =>
    simp only [howner] at h
    split at h <;>
    · cases h
      exact { hs with }
  | tooLate =>
    simp only [howner, Option.some.injEq] at h
    exact h ▸ { hs with }
  | dispatching =>
    simp only [howner] at h
    split at h
    next => cases h
    next =>
      cases h
      exact { hs with }

/-- A clock tick. -/
theorem Kept.tick (h : tick s = some t) : Kept t := by
  simp only [RateMonotonic.tick] at h
  split at h
  next => cases h
  next hidle =>
    have hnotDue : s.due ≠ true := fun hdue => hidle (.inl hdue)
    split at h
    next hnone =>
      cases h
      refine { hs with timerRuns := ?_, dueNow := fun hdue => absurd hdue hnotDue }
      intro expire h
      exact absurd (hnone.symm.trans h) (by simp)
    next expire htimer =>
      obtain ⟨hahead, hlast⟩ := hs.timerRuns expire htimer
      split at h
      next hreached =>
        cases h
        have hnow : s.now + 1 = expire := by omega
        have hstate : s.state ≠ .inactive := hs.armed.mp (.inl (by rw [htimer]; rfl))
        refine { hs with
          armed := ⟨fun _ => hstate, fun _ => .inr rfl⟩
          once := fun _ => rfl
          timerRuns := fun _ h => by cases h
          dueNow := fun _ => ?_ }
        rw [hlast, ← hnow]
      next hlater =>
        cases h
        refine { hs with timerRuns := ?_, dueNow := fun hdue => absurd hdue hnotDue }
        intro expire' h
        have hexpire : expire = expire' := Option.some.inj (htimer.symm.trans h)
        exact ⟨hexpire ▸ Nat.lt_of_not_le hlater, hexpire ▸ hlast⟩

/-- A timer that is set to the next deadline. -/
theorem Kept.rearm (hdue : s.due = true) {u : State} (hnow : u.now = s.now)
    (htimer : u.timer = some (s.now + s.nextLength)) (hnotDue : u.due = false)
    (hstate : u.state ≠ .inactive) (hexpired : u.state = .expired → 1 ≤ u.postponedJobs)
    (hbounded : u.postponedJobs ≤ uint32Max) (hlength : u.nextLength = s.nextLength)
    (hhistory : u.history.deadlines = s.history.deadlines ++ [s.now + s.nextLength] ∧
      u.history.lengths = s.history.lengths ∧ u.history.activatedAt = s.history.activatedAt)
    (hbalanced : Balanced u) : Kept u := by
  obtain ⟨hdeadlines, hlengths, hactivated⟩ := hhistory
  obtain ⟨hlast, hpos⟩ := hs.nextLength (hs.armed.mp (.inr hdue))
  have hregular := hs.regular.deadline (hs.dueNow hdue) hlast
  refine ⟨⟨fun _ => hstate, fun _ => .inl (by rw [htimer]; rfl)⟩, ?_, hexpired, hbounded, ?_, ?_,
    fun _ => ⟨by rw [hlengths, hlength, hlast], hlength ▸ hpos⟩, hbalanced, ?_⟩
  · exact fun h => absurd (hnotDue.symm.trans h) (by decide)
  · intro expire h
    have hexpire : s.now + s.nextLength = expire := Option.some.inj (htimer.symm.trans h)
    exact ⟨by omega, by rw [hdeadlines, List.getLast?_concat, hexpire]⟩
  · exact fun h => absurd (hnotDue.symm.trans h) (by decide)
  · intro length hall k deadline hget
    rw [hdeadlines] at hget
    rw [hactivated]
    exact hregular length (fun l hl => hall l (hlengths ▸ hl)) k deadline hget

/-- A deadline starts the next period if it finds the owner waiting, and postpones a job if it
does not. -/
theorem Kept.timeout (hshake : Handshake s) (h : step s .timeout = some t) : Kept t := by
  simp only [step] at h
  split at h
  swap
  · cases h
  next hdue =>
  have hstate : s.state ≠ .inactive := hs.armed.mp (.inr hdue)
  have hbound := hs.bounded
  cases Option.some.inj h
  unfold State.recordDeadline RateMonotonic.timeout State.deadline
  by_cases hwaiting : s.IsWaiting
  · rw [if_pos (hshake.test_iff.mpr hwaiting)]
    simp only [if_pos hwaiting]
    exact hs.rearm hdue rfl rfl rfl hstate hs.expired hs.bounded rfl ⟨rfl, rfl, rfl⟩ hs.balanced
  · rw [if_neg (fun htest => hwaiting (hshake.test_iff.mp htest))]
    simp only [if_neg hwaiting]
    refine hs.rearm hdue rfl rfl rfl (fun h => by cases h) (fun _ => ?_) ?_ rfl ⟨rfl, rfl, rfl⟩ ?_
    · show 1 ≤ if s.postponedJobs ≠ uint32Max then s.postponedJobs + 1 else s.postponedJobs
      split
      next => exact Nat.le_add_left 1 _
      next hfull =>
        rw [Decidable.not_not.mp hfull]
        decide
    · show (if s.postponedJobs ≠ uint32Max then s.postponedJobs + 1 else s.postponedJobs) ≤ uint32Max
      split <;> omega
    · intro hsaturated
      have hflags : (s.history.saturated || decide (s.postponedJobs = uint32Max)) = false :=
        hsaturated
      rw [Bool.or_eq_false_iff, decide_eq_false_iff_not] at hflags
      have hbalance : s.history.missed = s.postponedJobs + s.history.timeouts :=
        hs.balanced hflags.1
      show s.history.missed + 1 =
        (if s.postponedJobs ≠ uint32Max then s.postponedJobs + 1 else s.postponedJobs) +
          s.history.timeouts
      rw [if_pos hflags.2]
      omega

/-- A cancel that finds no timer due. -/
theorem Kept.cancel (hdue : s.due = false) : Kept (cancel s) := by
  refine { hs with
    armed := ?_
    once := fun _ => rfl
    expired := fun h => by cases h
    timerRuns := fun _ h => by cases h
    nextLength := fun h => absurd rfl h }
  show (none : Option Nat).isSome = true ∨ s.due = true ↔ _
  simp [hdue, RateMonotonic.cancel]

end

section

variable (hs : Handshake s)
include hs

/-- A call of the owner, which does not wait before it. -/
theorem Handshake.period (houtside : s.owner = .outside) (length : Nat) :
    Handshake (s.recordCall length (period s length)) := by
  have hfree : s.isArgument = false := by
    rw [← Bool.not_eq_true]
    exact fun harg => (hs.waiting.mp harg).1 houtside
  have hidle : s.unblocking ≠ true := by
    intro hu
    exact absurd (houtside.symm.trans (hs.unblocking hu).1) (by decide)
  -- A call that does not have to wait leaves the owner outside.
  have hreturns : ∀ u : State, u.owner = s.owner → u.isArgument = s.isArgument →
      u.unblocking = s.unblocking → Handshake u := by
    intro u howner hargument hunblocking
    refine ⟨iff_of_false ?_ ?_, fun h => ?_, fun h => absurd (hunblocking ▸ h) hidle,
      fun _ => hunblocking.trans (Bool.eq_false_iff.mpr hidle)⟩
    · rw [hargument, hfree]
      decide
    · exact fun hw => hw.1 (howner.trans houtside)
    · rw [hargument, hfree] at h
      cases h
  unfold RateMonotonic.period
  split
  · split
    · exact hreturns _ rfl rfl rfl
    · refine ⟨iff_of_true rfl ⟨fun h => (by cases h), rfl⟩, fun _ => rfl, fun h => absurd h hidle,
        fun _ => Bool.eq_false_iff.mpr hidle⟩
  · exact hreturns _ rfl rfl rfl
  · exact hreturns _ rfl rfl rfl

/-- A step of the owner in its call. -/
theorem Handshake.proceed (h : proceed s = some t) : Handshake t := by
  obtain ⟨hwaiting, hwaits, hunblocking, hidle⟩ := hs
  simp only [RateMonotonic.proceed] at h
  have hinside : s.owner ≠ .outside := fun howner => by simp [howner] at h
  have hstays : ∀ u : State, u.owner ≠ .outside → u.isArgument = s.isArgument →
      u.history = s.history → (u.isArgument = true ↔ u.IsWaiting) := by
    intro u howner hargument hhistory
    rw [hargument, hwaiting, State.IsWaiting, State.IsWaiting, hhistory]
    exact ⟨fun hw => ⟨howner, hw.2⟩, fun hw => ⟨hinside, hw.2⟩⟩
  have hlater : ∀ phase, s.owner = phase → phase ≠ .dispatching → s.unblocking ≠ true :=
    fun phase howner hne hu => hne (howner.symm.trans (hunblocking hu).1)
  unfold State.Waits at hwaits
  cases howner : s.owner with
  | outside => exact absurd howner hinside
  | announced =>
    simp only [howner, Option.some.injEq] at h hwaits
    subst h
    exact ⟨hstays _ (by simp) rfl rfl, fun harg => ⟨hwaits harg, rfl⟩,
      fun hu => absurd hu (hlater _ howner (by decide)), hidle⟩
  | stateSet =>
    simp only [howner] at h hwaits
    split at h
    next =>
      cases h
      exact ⟨hstays _ (by simp) rfl rfl, fun harg => ⟨rfl, (hwaits harg).2⟩,
        fun hu => absurd hu (hlater _ howner (by decide)), hidle⟩
    next hintend =>
      cases h
      exact ⟨hstays _ (by simp) rfl rfl, fun harg => hintend (hwaits harg).1,
        fun hu => absurd hu (hlater _ howner (by decide)), hidle⟩
  | tooLate =>
    simp only [howner, Option.some.injEq] at h hwaits
    subst h
    exact ⟨hstays _ (by simp) rfl rfl, fun harg => (hwaits harg).elim,
      fun hu => absurd hu (hlater _ howner (by decide)), hidle⟩
  | dispatching =>
    simp only [howner] at h hwaits
    split at h
    next => cases h
    next hready =>
      cases h
      have hfree : s.isArgument ≠ true := fun harg => hready (hwaits harg).2
      exact ⟨iff_of_false hfree fun hw => hw.1 rfl, fun harg => hfree harg,
        fun hu => absurd (hunblocking hu).2.1 hready, hidle⟩

/-- The routine of the timer ends the wait of an owner that it finds waiting. -/
theorem Handshake.timeout (h : RateMonotonic.step s .timeout = some t) : Handshake t := by
  simp only [RateMonotonic.step] at h
  split at h
  swap
  · cases h
  next hdue =>
  cases Option.some.inj h
  unfold State.recordDeadline RateMonotonic.timeout State.deadline
  by_cases hwaiting : s.IsWaiting
  · rw [if_pos (hs.test_iff.mpr hwaiting)]
    simp only [if_pos hwaiting]
    refine ⟨iff_of_false (by simp [restart, releaseJob]) (by simp [State.IsWaiting]),
      fun harg => (by cases harg), fun hu => ?_, fun hd => (by cases hd)⟩
    -- An owner that does not intend to block any more is blocked.
    have hblocked : s.flags ≠ .intendToBlock := of_decide_eq_true hu
    have hwaits := hs.waits (hs.waiting.mpr hwaiting)
    unfold State.Waits at hwaits
    cases howner : s.owner <;> simp only [howner] at hwaits
    · exact absurd hwaits hblocked
    · exact absurd hwaits.1 hblocked
    · exact ⟨rfl, hwaits.2, rfl⟩
  · rw [if_neg (fun htest => hwaiting (hs.test_iff.mp htest))]
    simp only [if_neg hwaiting]
    exact ⟨hs.waiting, hs.waits, fun hu => absurd ((hs.idle hdue).symm.trans hu) (by decide),
      fun _ => hs.idle hdue⟩

theorem Handshake.tick (h : tick s = some t) : Handshake t := by
  simp only [RateMonotonic.tick] at h
  split at h
  next => cases h
  next hfree =>
    have hidle : s.unblocking = false := Bool.eq_false_iff.mpr fun hu => hfree (.inr hu)
    split at h
    next =>
      cases h
      exact { hs with }
    next =>
      split at h
      next =>
        cases h
        exact { hs with idle := fun _ => hidle }
      next =>
        cases h
        exact { hs with }

theorem Handshake.unblock (h : RateMonotonic.step s .unblock = some t) : Handshake t := by
  simp only [RateMonotonic.step] at h
  split at h
  next hu =>
    cases h
    obtain ⟨-, -, harg⟩ := hs.unblocking hu
    exact ⟨hs.waiting, fun h => absurd (harg.symm.trans h) (by decide), fun h => (by cases h),
      fun _ => rfl⟩
  next => cases h

end

/-- No cancel comes between the expiry of the timer and its routine. -/
def SparesRoutine (s : State) : Op → Prop
  | .cancel => s.due = false
  | .period _ | .proceed | .waitElsewhere | .tick | .timeout | .unblock => True

instance (s : State) (op : Op) : Decidable (SparesRoutine s op) :=
  match op with
  | .cancel => inferInstanceAs (Decidable (s.due = false))
  | .period _ | .proceed | .waitElsewhere | .tick | .timeout | .unblock =>
    inferInstanceAs (Decidable True)

/-- Every legal operation that spares the routine keeps the accounts of the period. -/
theorem kept_step {op : Op} (hs : Kept s ∧ Handshake s) (hop : Legal s op ∧ SparesRoutine s op)
    (h : step s op = some t) : Kept t ∧ Handshake t := by
  obtain ⟨hkept, hshake⟩ := hs
  cases op with
  | period length =>
    exact ⟨hkept.period hop.1.2 h, Option.some.inj h ▸ hshake.period hop.1.1 length⟩
  | proceed => exact ⟨hkept.proceed h, hshake.proceed h⟩
  | waitElsewhere =>
    have houtside : s.owner = .outside := hop.1
    cases Option.some.inj h
    refine ⟨{ hkept with }, { hshake with waiting := ?_, waits := ?_, unblocking := ?_ }⟩
    · exact iff_of_false Bool.false_ne_true fun hw => hw.1 houtside
    · exact fun harg => (by cases harg)
    · exact fun hu => absurd (houtside.symm.trans (hshake.unblocking hu).1) (by decide)
  | tick => exact ⟨hkept.tick h, hshake.tick h⟩
  | timeout => exact ⟨hkept.timeout hshake h, hshake.timeout h⟩
  | unblock =>
    refine ⟨?_, hshake.unblock h⟩
    simp only [step] at h
    split at h
    next =>
      cases h
      exact { hkept with }
    next => cases h
  | cancel =>
    cases Option.some.inj h
    exact ⟨hkept.cancel hop.2, { hshake with }⟩

/-- In every run without a cancel between the expiry of the timer and its routine, the timer is
armed, or its routine is about to run, exactly while the period is not inactive; an expired period
has a postponed job, so a call that returns `timeout` takes one off a positive count; the
deadlines since the activation that did not find the owner waiting are the postponed jobs and the
calls that returned `timeout` unless the count was saturated; and the deadlines are the multiples
of the length after the activation as long as the length is the same. The timer runs to the last
deadline, and its routine runs in the tick of this deadline. -/
theorem rate_monotonic_counts_jobs {now : Nat} {ops : List Op} {s : State}
    (hrun : Run step (fun s op => Legal s op ∧ SparesRoutine s op) (start now) ops s) :
    (s.timer.isSome = true ∨ s.due = true ↔ s.state ≠ .inactive) ∧
    (s.due = true → s.timer = none) ∧
    (s.state = .expired → 1 ≤ s.postponedJobs) ∧
    (∀ length, (period s length).2 = some .timeout →
      (period s length).1.postponedJobs + 1 = s.postponedJobs) ∧
    (s.history.saturated = false →
      s.history.missed = s.postponedJobs + s.history.timeouts) ∧
    (∀ length, (∀ l ∈ s.history.lengths, l = length) →
      ∀ k deadline, s.history.deadlines[k]? = some deadline →
        deadline = s.history.activatedAt + (k + 1) * length) ∧
    (∀ expire, s.timer = some expire →
      s.now < expire ∧ s.history.deadlines.getLast? = some expire) ∧
    (s.due = true → s.history.deadlines.getLast? = some s.now) := by
  obtain ⟨hs, -⟩ := hrun.invariant (fun s => Kept s ∧ Handshake s) ⟨.start now, .start now⟩
    fun _ _ _ hs hop h => kept_step hs hop h
  refine ⟨hs.armed, hs.once, hs.expired, ?_, hs.balanced, hs.regular, hs.timerRuns, hs.dueNow⟩
  intro length
  unfold period
  split
  next =>
    split
    next hpos => exact fun _ => hs.blockWhileExpired_postponedJobs hpos length
    next => exact fun h => by cases h
  next => exact fun h => by cases h
  next hexpired => exact fun _ => hs.blockWhileExpired_postponedJobs (hs.expired hexpired) length

/-- A job of a period of two ticks ends late: two deadlines pass before the next call, and
the third one comes while the owner is about to block. -/
private def lateJob : List Op :=
  [.tick, .period 2, .tick, .tick, .timeout, .tick, .tick, .timeout, .period 2, .period 2,
    .period 2, .tick, .tick, .proceed, .timeout, .proceed, .proceed, .proceed]

/-- Both missed deadlines were paid for, and the fourth deadline is eight ticks after the
activation. -/
theorem rate_monotonic_counts_jobs_lateJob :
    ∃ s, Run step (fun s op => Legal s op ∧ SparesRoutine s op) (start 0) lateJob s ∧
      s.history.missed = 2 ∧ s.postponedJobs = 0 ∧ s.history.timeouts = 2 ∧
      s.timer = some (1 + 4 * 2) := by
  obtain ⟨s, hrun, hs⟩ : ∃ s,
      Run step (fun s op => Legal s op ∧ SparesRoutine s op) (start 0) lateJob s ∧
      (s.history.saturated = false ∧ s.postponedJobs = 0 ∧ s.history.timeouts = 2 ∧
        s.history.activatedAt = 1 ∧ s.history.lengths = [2, 2, 2, 2] ∧
        ∃ deadline, s.history.deadlines[3]? = some deadline ∧ s.timer = some deadline) :=
    ⟨_, .of_exec rfl, rfl, rfl, rfl, rfl, rfl, _, rfl, rfl⟩
  obtain ⟨hsaturated, hpostponed, htimeouts, hactivated, hlengths, deadline, hget, htimer⟩ := hs
  obtain ⟨-, -, -, -, hbalance, hregular, -⟩ := rate_monotonic_counts_jobs hrun
  refine ⟨s, hrun, ?_, hpostponed, htimeouts, ?_⟩
  · rw [hbalance hsaturated, hpostponed, htimeouts]
  · rw [htimer, hregular 2 (by rw [hlengths]; decide) 3 deadline hget, hactivated]

/-- A period of one tick is cancelled and activated again on another processor between the expiry
of the timer and its routine. The routine sets the timer, which is armed, once more: the second
deadline is one tick after the activation, like the first. -/
theorem cancel_before_routine :
    ∃ s, Run step Legal (start 0) [.period 1, .tick, .cancel, .period 1, .timeout] s ∧
      s.due = false ∧ s.history.activatedAt = 1 ∧ s.history.lengths = [1] ∧
      s.history.deadlines = [2, 2] :=
  ⟨_, .of_exec rfl, rfl, rfl, rfl, rfl⟩

end Rtems.RateMonotonic
