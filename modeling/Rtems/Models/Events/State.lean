import Rtems.Core.Run
import Rtems.Core.Ledger

/-!
# Events of a thread

Other threads send events to the owner, who receives them and may wait for them with a
timeout. The owner announces that it intends to block, releases its wait lock and blocks
only then; a send or a timeout in that window, and one that comes later, decide through a
compare and exchange of the wait flags who has to unblock the owner.

A step of the model is a section under the owner's wait lock up to its first update of the
wait flags, one update of the wait flags, or one call after the lock is released. A send
or a timeout between two of its steps is part of the state: at most one is inside of the
locked section, and any number may have left it and still have to unblock the owner.
-/

namespace Rtems.Events

open Ledger

/-- `rtems_event_set`. -/
abbrev EventSet := BitVec 32

/-- The arguments of a receive. -/
structure Request where
  /-- The events the receive is about. -/
  eventIn : EventSet
  /-- `RTEMS_EVENT_ANY` instead of `RTEMS_EVENT_ALL`. -/
  isAny : Bool
  /-- `RTEMS_NO_WAIT` instead of `RTEMS_WAIT`. -/
  isNoWait : Bool
  /-- The timeout; zero waits forever. -/
  ticks : Nat
  deriving DecidableEq, Repr

/-- The wait flags of the owner: those of a thread that never waited, and the three wait
states of the event class. -/
inductive WaitFlags where
  | initial
  | intendToBlock
  | blocked
  | readyAgain
  deriving DecidableEq, Repr

/-- The status of a receive. -/
inductive Status where
  | successful
  | unsatisfied
  | timeout
  deriving DecidableEq, Repr

/-- Where the owner is in `_Event_Seize`. -/
inductive OwnerPhase where
  /-- Outside of a receive. -/
  | outside
  /-- The intention to block is announced; the timeout is to be added. -/
  | announced
  /-- The thread state is to be set. -/
  | timed
  /-- The wait flags are to be changed to blocked. -/
  | stateSet
  /-- The change failed; the timer is to be removed. -/
  | tooLate
  /-- The owner is to unblock itself. -/
  | timerRemoved
  /-- Dispatching is enabled; the receive returns once the thread is not blocked. -/
  | dispatching
  deriving DecidableEq, Repr

/-- Who is about to wake the owner. -/
inductive Waker where
  | sender
  | timeout
  deriving DecidableEq, Repr

/-- Where the waker inside of the locked section is. -/
inductive SectionPhase where
  /-- It is to change the wait flags from intend to block to ready again. -/
  | exchange
  /-- The change failed; it is to set the wait flags. -/
  | setFlags
  deriving DecidableEq, Repr

/-- What a waker that left the locked section still has to do. -/
inductive Unblocker where
  /-- The timer is to be removed, then the owner unblocked. -/
  | removeTimer
  /-- The owner is to be unblocked. -/
  | unblock
  deriving DecidableEq, Repr

/-- What a receive returned: the request, the status, the event set and how often the
thread was unblocked since it announced its wait, if it did. -/
structure Return where
  /-- The arguments. -/
  request : Request
  /-- The status. -/
  status : Status
  /-- The value of `*event_out`. -/
  eventOut : EventSet
  /-- The calls of `_Thread_Unblock` during the wait, if the receive had to wait. -/
  unblocked : Option Nat
  deriving DecidableEq, Repr

/-- The owner with its pending events, the wakers in progress and the history. -/
structure State where
  /-- `event->pending_events`. -/
  pendingEvents : EventSet
  /-- `Wait.flags`. -/
  flags : WaitFlags
  /-- `Wait.option` and `Wait.count`. -/
  wait : Request
  /-- `Wait.return_code`. -/
  returnCode : Status
  /-- `*Wait.return_argument`. -/
  eventOut : EventSet
  /-- The thread state has `STATES_WAITING_FOR_EVENT`. -/
  isBlocked : Bool
  /-- The timer is scheduled. -/
  timer : Bool
  /-- The timeouts whose routine has not yet entered the locked section. -/
  expired : Nat
  /-- Where the owner is. -/
  owner : OwnerPhase
  /-- The waker inside of the locked section. -/
  inSection : Option (Waker × SectionPhase)
  /-- The wakers that still have to unblock the owner. -/
  unblockers : List Unblocker
  /-- The calls of `_Thread_Unblock` since the owner announced its wait. -/
  unblocked : Nat
  /-- The sends and the takings of events; a receive is named by its number. -/
  ledger : List (Entry 32)
  /-- What the receives returned; their numbers are the positions. -/
  returns : List Return
  deriving DecidableEq, Repr

/-- A thread that never waited. -/
def start : State :=
  { pendingEvents := 0
    flags := .initial
    wait := ⟨0, false, false, 0⟩
    returnCode := .successful
    eventOut := 0
    isBlocked := false
    timer := false
    expired := 0
    owner := .outside
    inSection := none
    unblockers := []
    unblocked := 0
    ledger := []
    returns := [] }

/-- The test both sides make: some event of the condition is there, and all of them unless
any is enough. -/
def isSatisfied (request : Request) (pendingEvents : EventSet) : Bool :=
  let seizedEvents := pendingEvents &&& request.eventIn
  seizedEvents ≠ 0 ∧ (seizedEvents = request.eventIn ∨ request.isAny)

/-- `_Event_Is_blocking_on_event`. -/
def isBlockingOnEvent : WaitFlags → Bool
  | .initial => false
  | .intendToBlock => true
  | .blocked => true
  | .readyAgain => false

/-- The operations: each is one step of one of the parties. -/
inductive Op where
  /-- The owner enters `_Event_Seize`. -/
  | seize (request : Request)
  /-- The owner takes its next step in `_Event_Seize`. -/
  | proceed
  /-- A thread enters `_Event_Surrender`. -/
  | surrender (eventIn : EventSet)
  /-- The timer of the owner expires. -/
  | expire
  /-- The routine of an expired timer enters `_Thread_Continue`. -/
  | timeout
  /-- The waker inside of the locked section takes its next step. -/
  | updateFlags
  /-- A waker that left the locked section takes its next step. -/
  | finish (position : Nat)
  deriving DecidableEq, Repr

/-- `_Event_Seize` up to the release of the lock. -/
def seize (s : State) (request : Request) : Option State :=
  if s.owner ≠ .outside ∨ s.inSection ≠ none then none
  else
    let seizedEvents := s.pendingEvents &&& request.eventIn
    if isSatisfied request s.pendingEvents then
      some { s with
        pendingEvents := s.pendingEvents &&& ~~~seizedEvents
        returns := s.returns ++ [⟨request, .successful, seizedEvents, none⟩] }
    else if request.isNoWait then
      some { s with returns := s.returns ++ [⟨request, .unsatisfied, seizedEvents, none⟩] }
    else
      some { s with
        returnCode := .successful
        wait := request
        flags := .intendToBlock
        unblocked := 0
        owner := .announced }

/-- The steps of `_Event_Seize` after the release of the lock. -/
def proceed (s : State) : Option State :=
  match s.owner with
  | .outside => none
  | .announced =>
    some { s with
      timer := s.timer || s.wait.ticks ≠ 0
      owner := .timed }
  | .timed =>
    some { s with
      isBlocked := true
      owner := .stateSet }
  | .stateSet =>
    if s.flags = .intendToBlock then
      some { s with
        flags := .blocked
        owner := .dispatching }
    else some { s with owner := .tooLate }
  | .tooLate =>
    some { s with
      timer := false
      owner := .timerRemoved }
  | .timerRemoved =>
    some { s with
      isBlocked := false
      unblocked := s.unblocked + 1
      owner := .dispatching }
  | .dispatching =>
    if s.isBlocked then none
    else
      some { s with
        returns := s.returns ++ [⟨s.wait, s.returnCode, s.eventOut, some s.unblocked⟩]
        owner := .outside }

/-- `_Event_Surrender` up to the first update of the wait flags. -/
def surrender (s : State) (eventIn : EventSet) : Option State :=
  if s.inSection ≠ none then none
  else
    let pendingEvents := s.pendingEvents ||| eventIn
    if isBlockingOnEvent s.flags ∧ isSatisfied s.wait pendingEvents then
      let seizedEvents := pendingEvents &&& s.wait.eventIn
      some { s with
        pendingEvents := pendingEvents &&& ~~~seizedEvents
        eventOut := seizedEvents
        inSection := some (.sender, .exchange) }
    else some { s with pendingEvents }

/-- The timer is taken off the watchdog queue and its routine is to be called. -/
def expire (s : State) : Option State :=
  if s.timer then
    some { s with
      timer := false
      expired := s.expired + 1 }
  else none

/-- `_Thread_Continue` up to the first update of the wait flags. -/
def threadContinue (s : State) : Option State :=
  if s.inSection ≠ none ∨ s.expired = 0 then none
  else if s.flags ≠ .readyAgain then
    some { s with
      expired := s.expired - 1
      returnCode := .timeout
      inSection := some (.timeout, .exchange) }
  else some { s with expired := s.expired - 1 }

/-- What a waker has to do once it finds the owner blocked. -/
def Waker.unblocker : Waker → Unblocker
  | .sender => .removeTimer
  | .timeout => .unblock

/-- The updates of the wait flags that `_Event_Surrender` and `_Thread_Continue` share,
and the release of the lock. -/
def updateFlags (s : State) : Option State :=
  match s.inSection with
  | none => none
  | some (waker, .exchange) =>
    if s.flags = .intendToBlock then
      some { s with
        flags := .readyAgain
        inSection := none }
    else some { s with inSection := some (waker, .setFlags) }
  | some (waker, .setFlags) =>
    some { s with
      flags := .readyAgain
      inSection := none
      unblockers := s.unblockers ++ [waker.unblocker] }

/-- The steps after the release of the lock that both wakers share. -/
def finish (s : State) (position : Nat) : Option State :=
  match s.unblockers[position]? with
  | none => none
  | some .removeTimer =>
    some { s with
      timer := false
      unblockers := s.unblockers.set position .unblock }
  | some .unblock =>
    some { s with
      isBlocked := false
      unblocked := s.unblocked + 1
      unblockers := s.unblockers.eraseIdx position }

/-- Write lines into the ledger. -/
def State.record (s : State) (entries : List (Entry 32)) : State :=
  { s with ledger := s.ledger ++ entries }

/-- What a receive that just returned has taken. -/
def takenAtOnce (s t : State) : List (Entry 32) :=
  match t.returns[s.returns.length]? with
  | some r => if r.status = .successful then [.take s.returns.length r.eventOut] else []
  | none => []

/-- What a send that decided the owner's wait has taken for it. -/
def takenForOwner (t : State) : List (Entry 32) :=
  if t.inSection = none then [] else [.take t.returns.length t.eventOut]

/-- One step of one of the parties; it is not defined if the party cannot take it now. The sends
and what the receives are given are recorded. -/
def step (s : State) : Op → Option State
  | .seize request => (seize s request).map fun t => t.record (takenAtOnce s t)
  | .proceed => proceed s
  | .surrender eventIn =>
    (surrender s eventIn).map fun t => (t.record [.post eventIn]).record (takenForOwner t)
  | .expire => expire s
  | .timeout => threadContinue s
  | .updateFlags => updateFlags s
  | .finish position => finish s position

end Rtems.Events
