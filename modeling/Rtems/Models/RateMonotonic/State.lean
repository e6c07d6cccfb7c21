import Rtems.Core.Run

/-!
# Rate-monotonic periods

A period has a timer that runs from one deadline to the next. Its owner calls the period
at the end of each job; a deadline that does not find the owner waiting postpones a job.
The owner announces that it waits, releases the period's lock and blocks only then. A clock tick
takes a timer that is due off the watchdogs, releases the lock of these and calls the timer's
routine, so the owner may run on another processor before the routine has the period's lock, and
again before the routine unblocks it. A history since the last activation is recorded beside the
source's fields.
-/

namespace Rtems.RateMonotonic

/-- `rtems_rate_monotonic_period_states`. -/
inductive PeriodState where
  | inactive
  | active
  | expired
  deriving DecidableEq, Repr

/-- The wait flags of the owner: those of another wait class, and the three wait states of
the period class. -/
inductive WaitFlags where
  | other
  | intendToBlock
  | blocked
  | readyAgain
  deriving DecidableEq, Repr

/-- `THREAD_WAIT_CLASS_PERIOD` is set. -/
def WaitFlags.isPeriodClass : WaitFlags → Bool
  | .other => false
  | .intendToBlock => true
  | .blocked => true
  | .readyAgain => true

/-- Where the owner is in `_Rate_monotonic_Block_while_active`. -/
inductive OwnerPhase where
  /-- Outside of a call. -/
  | outside
  /-- The wait is announced; the thread state is to be set. -/
  | announced
  /-- The wait flags are to be changed to blocked. -/
  | stateSet
  /-- The change failed; the owner is to unblock itself. -/
  | tooLate
  /-- Dispatching is enabled; the call returns once the thread is not blocked. -/
  | dispatching
  deriving DecidableEq, Repr

/-- The status of a call. -/
inductive Status where
  | successful
  | timeout
  deriving DecidableEq, Repr

/-- What happened since the last activation. -/
structure History where
  /-- The tick of the activation. -/
  activatedAt : Nat
  /-- The lengths of the calls, the activation's first. -/
  lengths : List Nat
  /-- The deadlines, in order. -/
  deadlines : List Nat
  /-- The deadlines that did not find the owner waiting. -/
  missed : Nat
  /-- The calls that returned `timeout`. -/
  timeouts : Nat
  /-- A missed deadline found the count of postponed jobs at its limit. -/
  saturated : Bool
  /-- A deadline has come since the owner began to wait. -/
  released : Bool
  deriving DecidableEq, Repr

/-- `Rate_monotonic_Control` with the waits of its owner and the tick counter. -/
structure State where
  /-- `cpu->Watchdog.ticks`. -/
  now : Nat
  /-- The tick the scheduled timer expires at. -/
  timer : Option Nat
  /-- The timer has expired, and its routine does not yet have the period's lock. -/
  due : Bool
  /-- `state`. -/
  state : PeriodState
  /-- `next_length`. -/
  nextLength : Nat
  /-- `postponed_jobs`. -/
  postponedJobs : Nat
  /-- `latest_deadline`. -/
  latestDeadline : Nat
  /-- The deadline of the job that the scheduler was told of last. -/
  releasedJob : Option Nat
  /-- `Statistics.count`. -/
  count : Nat
  /-- `Statistics.missed_count`. -/
  missedCount : Nat
  /-- `owner->Wait.flags`. -/
  flags : WaitFlags
  /-- `owner->Wait.return_argument` is this period. -/
  isArgument : Bool
  /-- The owner's thread state has `STATES_WAITING_FOR_PERIOD`. -/
  isBlocked : Bool
  /-- Where the owner is. -/
  owner : OwnerPhase
  /-- The routine of the timer is to unblock the owner. -/
  unblocking : Bool
  /-- The history since the last activation. -/
  history : History
  deriving DecidableEq, Repr

/-- `UINT32_MAX`. -/
def uint32Max : Nat := 2 ^ 32 - 1

/-- A new period. -/
def start (now : Nat) : State :=
  { now
    timer := none
    due := false
    state := .inactive
    nextLength := 0
    postponedJobs := 0
    latestDeadline := 0
    releasedJob := none
    count := 0
    missedCount := 0
    flags := .other
    isArgument := false
    isBlocked := false
    owner := .outside
    unblocking := false
    history := ⟨0, [], [], 0, 0, false, false⟩ }

/-- `_Rate_monotonic_Release_job`: the timer runs to the next deadline, and the scheduler is
told of the job. -/
def releaseJob (s : State) (nextLength : Nat) : State :=
  let deadline := s.now + nextLength
  { s with
    timer := some deadline
    releasedJob := some deadline }

/-- `_Rate_monotonic_Restart`. -/
def restart (s : State) : State :=
  releaseJob s s.nextLength

/-- The counts of `_Rate_monotonic_Update_statistics`. -/
def updateStatistics (s : State) : State :=
  { s with
    count := s.count + 1
    missedCount := if s.state = .expired then s.missedCount + 1 else s.missedCount }

/-- `_Rate_monotonic_Activate`. -/
def activate (s : State) (length : Nat) : State :=
  restart { s with
    postponedJobs := 0
    state := .active
    nextLength := length }

/-- `_Rate_monotonic_Block_while_active` up to the release of the lock. -/
def blockWhileActive (s : State) (length : Nat) : State :=
  { updateStatistics s with
    nextLength := length
    isArgument := true
    flags := .intendToBlock
    owner := .announced }

/-- `_Rate_monotonic_Release_postponed_job`; the count is an unsigned 32-bit number. -/
def releasePostponedJob (s : State) : State :=
  { s with
    postponedJobs := (s.postponedJobs + uint32Max) % (uint32Max + 1)
    releasedJob := some s.latestDeadline }

/-- `_Rate_monotonic_Block_while_expired`. -/
def blockWhileExpired (s : State) (length : Nat) : State :=
  releasePostponedJob { updateStatistics { s with state := .expired } with
    state := .active
    nextLength := length }

/-- `rtems_rate_monotonic_period` of the owner with a length: the state, and the status
unless the owner has to wait. -/
def period (s : State) (length : Nat) : State × Option Status :=
  match s.state with
  | .active =>
    if s.postponedJobs > 0 then (blockWhileExpired s length, some .timeout)
    else (blockWhileActive s length, none)
  | .inactive => (activate s length, some .successful)
  | .expired => (blockWhileExpired s length, some .timeout)

/-- The steps of `_Rate_monotonic_Block_while_active` after the release of the lock. -/
def proceed (s : State) : Option State :=
  match s.owner with
  | .outside => none
  | .announced =>
    some { s with
      isBlocked := true
      owner := .stateSet }
  | .stateSet =>
    if s.flags = .intendToBlock then
      some { s with
        flags := .blocked
        owner := .dispatching }
    else some { s with owner := .tooLate }
  | .tooLate =>
    some { s with
      isBlocked := false
      owner := .dispatching }
  | .dispatching => if s.isBlocked then none else some { s with owner := .outside }

/-- `_Rate_monotonic_Renew_deadline`. -/
def renewDeadline (s : State) : State :=
  let deadline := s.now + s.nextLength
  { s with
    postponedJobs := if s.postponedJobs ≠ uint32Max then s.postponedJobs + 1 else s.postponedJobs
    state := .expired
    timer := some deadline
    latestDeadline := deadline }

/-- `_Rate_monotonic_Timeout` up to the release of the lock: an owner found blocked is to be
unblocked, and one about to block finds its flags changed. -/
def timeout (s : State) : State :=
  if s.flags.isPeriodClass ∧ s.isArgument then
    restart { s with
      isArgument := false
      flags := .readyAgain
      unblocking := s.flags ≠ .intendToBlock }
  else renewDeadline s

/-- `_Watchdog_Tick` up to the call of the timer's routine. The next tick of the processor comes
after the end of the routine. -/
def tick (s : State) : Option State :=
  if s.due ∨ s.unblocking then none
  else
    let now := s.now + 1
    match s.timer with
    | none => some { s with now }
    | some expire =>
      if expire ≤ now then
        some { s with
          now
          timer := none
          due := true }
      else some { s with now }

/-- `_Rate_monotonic_Cancel`. -/
def cancel (s : State) : State :=
  { s with
    timer := none
    state := .inactive
    releasedJob := none }

/-- The operations. -/
inductive Op where
  /-- The owner calls the period with a length. -/
  | period (length : Nat)
  /-- The owner takes its next step in the call. -/
  | proceed
  /-- The owner waits for something else. -/
  | waitElsewhere
  /-- A clock tick. -/
  | tick
  /-- The routine of the timer has the period's lock. -/
  | timeout
  /-- The routine of the timer unblocks the owner. -/
  | unblock
  /-- The owner cancels the period. -/
  | cancel
  deriving DecidableEq, Repr

/-- The owner makes calls from outside of a call, and lengths are positive. -/
def Legal (s : State) : Op → Prop
  | .period length => s.owner = .outside ∧ 1 ≤ length
  | .proceed => True
  | .waitElsewhere => s.owner = .outside
  | .tick => True
  | .timeout => True
  | .unblock => True
  | .cancel => s.owner = .outside

/-- The owner is in a call that waits for a deadline, and none has come since. -/
def State.IsWaiting (s : State) : Prop :=
  s.owner ≠ .outside ∧ s.history.released = false

instance (s : State) : Decidable s.IsWaiting :=
  inferInstanceAs (Decidable (_ ∧ _))

/-- The history after a call: one that returns at once with success is an activation. -/
def History.call (h : History) (now length : Nat) (timer : Option Nat) :
    Option Status → History
  | some .successful => ⟨now, [length], timer.toList, 0, 0, false, false⟩
  | some .timeout =>
    { h with
      lengths := h.lengths ++ [length]
      timeouts := h.timeouts + 1 }
  | none =>
    { h with
      lengths := h.lengths ++ [length]
      released := false }

/-- The history after a deadline, from the state before it and the timer set for the next. -/
def State.deadline (s : State) (timer : Option Nat) : History :=
  let h := { s.history with deadlines := s.history.deadlines ++ timer.toList }
  if s.IsWaiting then { h with released := true }
  else
    { h with
      missed := h.missed + 1
      saturated := h.saturated || s.postponedJobs = uint32Max }

/-- Record a call that leads to a state with a status. -/
def State.recordCall (s : State) (length : Nat) (result : State × Option Status) : State :=
  { result.1 with history := s.history.call s.now length result.1.timer result.2 }

/-- Record a deadline that leads to a state. -/
def State.recordDeadline (s t : State) : State :=
  { t with history := s.deadline t.timer }

/-- One operation; the calls and the deadlines are recorded. -/
def step (s : State) : Op → Option State
  | .period length => some (s.recordCall length (period s length))
  | .proceed => proceed s
  | .waitElsewhere =>
    some { s with
      flags := .other
      isArgument := false }
  | .tick => tick s
  | .timeout =>
    if s.due then some (s.recordDeadline (timeout { s with due := false })) else none
  | .unblock =>
    if s.unblocking then
      some { s with
        isBlocked := false
        unblocking := false }
    else none
  | .cancel => some (cancel s)

instance (s : State) (op : Op) : Decidable (Legal s op) :=
  match op with
  | .period length => inferInstanceAs (Decidable (s.owner = .outside ∧ 1 ≤ length))
  | .proceed => inferInstanceAs (Decidable True)
  | .waitElsewhere => inferInstanceAs (Decidable (s.owner = .outside))
  | .tick => inferInstanceAs (Decidable True)
  | .timeout => inferInstanceAs (Decidable True)
  | .unblock => inferInstanceAs (Decidable True)
  | .cancel => inferInstanceAs (Decidable (s.owner = .outside))

end Rtems.RateMonotonic
