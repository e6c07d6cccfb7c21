import Rtems.Core.Run
import Rtems.Core.OrderedList

/-!
# Core message queue

The message buffers are on the pending or on the inactive chain. One thread queue holds
the threads that wait to send and those that wait to receive; the code does not record
which of the two a waiting thread does. A thread that waits to send leaves its message
in its own storage, with the size and the submit type in fields of 32 bits. The history
records the calls that returned, with the message if one was received.
-/

namespace Rtems.MessageQueue

variable {T B : Type} [DecidableEq T] [DecidableEq B]

/-- The `Thread_queue_Operations` of a discipline, by the threads in the queue. -/
structure Operations (T : Type) where
  Queue : Type
  empty : Queue
  enqueue : Queue → T → Queue
  extract : Queue → T → Queue
  first : Queue → Option T
  waits : Queue → T → Bool
  waits_empty : ∀ t, waits empty t = false
  waits_enqueue : ∀ q t u, waits (enqueue q t) u = true ↔ u = t ∨ waits q u = true
  waits_extract : ∀ q t u, waits (extract q t) u = true ↔ u ≠ t ∧ waits q u = true
  first_eq_none_iff : ∀ q, first q = none ↔ ∀ t, waits q t = false
  waits_first : ∀ q t, first q = some t → waits q t = true

/-- `_Thread_queue_Operations_FIFO` on one processor. -/
def fifo : Operations T where
  Queue := List T
  empty := []
  enqueue q t := q ++ [t]
  extract q t := q.filter (· ≠ t)
  first q := q.head?
  waits q t := decide (t ∈ q)
  waits_empty := by simp
  waits_enqueue := by simp [or_comm]
  waits_extract := by simp [and_comm]
  first_eq_none_iff q := by
    rw [List.head?_eq_none_iff, List.eq_nil_iff_forall_not_mem]
    simp
  waits_first q t h := by simpa using List.mem_of_mem_head? h

/-- The status codes of a send or a receive. -/
inductive Status
  | successful
  | timeout
  | unsatisfied
  | tooMany
  | messageInvalidSize
  | messageQueueWaitInIsr
  deriving DecidableEq

/-- `CORE_message_queue_Submit_types`: a priority or one of the two constants. -/
abbrev SubmitType := Int32

/-- `CORE_MESSAGE_QUEUE_SEND_REQUEST`. -/
def sendRequest : SubmitType := Int32.maxValue

/-- `CORE_MESSAGE_QUEUE_URGENT_REQUEST`. -/
def urgentRequest : SubmitType := Int32.minValue

/-- `CORE_message_queue_Buffer_control`. -/
structure Buffer where
  priority : SubmitType
  size : Nat
  buffer : List UInt8

/-- The `Wait` fields of a thread and what they point to. -/
structure Wait where
  returnCode : Status
  /-- The size at `return_argument`. -/
  size : Nat
  /-- The storage at `return_argument_second`. -/
  buffer : List UInt8
  option : UInt32
  count : UInt32

/-- `CORE_message_queue_Control` with the buffers and the threads. -/
@[ext]
structure State (ops : Operations T) (B : Type) where
  waitQueue : ops.Queue
  maximumPendingMessages : Nat
  numberOfPendingMessages : Nat
  maximumMessageSize : Nat
  pendingMessages : List B
  inactiveMessages : List B
  /-- A notification handler is set. -/
  notifyHandler : Bool
  message : B → Buffer
  wait : T → Wait

/-- What a call does besides the changes of the state. -/
structure Outcome (T : Type) where
  /-- The status it returns, if it does not block. -/
  status : Option Status
  /-- The thread it extracts from the thread queue. -/
  woken : Option T
  /-- It calls the notification handler. -/
  notified : Bool

variable {ops : Operations T}

/-- `_CORE_message_queue_Initialize` with the chain of its buffers. -/
def initialized (ops : Operations T) (buffers : List B) (maximumMessageSize : Nat)
    (message : B → Buffer) (wait : T → Wait) : State ops B where
  waitQueue := ops.empty
  maximumPendingMessages := buffers.length
  numberOfPendingMessages := 0
  maximumMessageSize
  pendingMessages := []
  inactiveMessages := buffers
  notifyHandler := false
  message
  wait

/-- `_CORE_message_queue_Copy_buffer`: the destination afterwards. -/
def copyBuffer (source destination : List UInt8) (size : Nat) : List UInt8 :=
  source.take size ++ destination.drop size

/-- `_CORE_message_queue_Insert_message`. -/
def insertMessage (s : State ops B) (theMessage : B) (contentSource : List UInt8)
    (contentSize : Nat) (submitType : SubmitType) : State ops B :=
  let message := Function.update s.message theMessage
    { priority := submitType
      size := contentSize
      buffer := copyBuffer contentSource (s.message theMessage).buffer contentSize }
  { s with
    message
    numberOfPendingMessages := s.numberOfPendingMessages + 1
    pendingMessages :=
      if submitType = sendRequest then s.pendingMessages ++ [theMessage]
      else if submitType ≠ urgentRequest then
        insertBefore (fun right => decide (submitType < (message right).priority)) theMessage
          s.pendingMessages
      else theMessage :: s.pendingMessages }

/-- `_Thread_queue_Extract_critical`. -/
def extractCritical (s : State ops B) (theThread : T) : State ops B :=
  { s with waitQueue := ops.extract s.waitQueue theThread }

/-- `_Thread_queue_Enqueue`. -/
def enqueue (s : State ops B) (executing : T) : State ops B :=
  { s with
    waitQueue := ops.enqueue s.waitQueue executing
    wait := Function.update s.wait executing
      { s.wait executing with
        returnCode := .successful } }

/-- `_CORE_message_queue_Dequeue_receiver`. -/
def dequeueReceiver (s : State ops B) (buffer : List UInt8) (size : Nat)
    (submitType : SubmitType) : Option (T × State ops B) :=
  if s.numberOfPendingMessages ≠ 0 then none
  else match ops.first s.waitQueue with
    | none => none
    | some theThread =>
      let wait := s.wait theThread
      let s := { s with
        wait := Function.update s.wait theThread
          { wait with
            size
            count := submitType.toUInt32
            buffer := copyBuffer buffer wait.buffer size } }
      some (theThread, extractCritical s theThread)

/-- `_CORE_message_queue_Submit`. -/
def submit (s : State ops B) (executing : T) (buffer : List UInt8) (size : Nat)
    (submitType : SubmitType) (wait isInIsr : Bool) : State ops B × Outcome T :=
  if s.maximumMessageSize < size then (s, ⟨some .messageInvalidSize, none, false⟩)
  else match dequeueReceiver s buffer size submitType with
    | some (theThread, s) => (s, ⟨some .successful, some theThread, false⟩)
    | none =>
      match s.inactiveMessages with
      | theMessage :: inactiveMessages =>
        let s := insertMessage { s with inactiveMessages } theMessage buffer size submitType
        (s, ⟨some .successful, none, s.numberOfPendingMessages == 1 && s.notifyHandler⟩)
      | [] =>
        if wait = false then (s, ⟨some .tooMany, none, false⟩)
        else if isInIsr = true then (s, ⟨some .messageQueueWaitInIsr, none, false⟩)
        else
          let s := { s with
            wait := Function.update s.wait executing
              { s.wait executing with
                buffer
                option := UInt32.ofNat size
                count := submitType.toUInt32 } }
          (enqueue s executing, ⟨none, none, false⟩)

/-- `_CORE_message_queue_Seize`. -/
def seize (s : State ops B) (executing : T) (buffer : List UInt8) (wait : Bool) :
    State ops B × Outcome T :=
  match s.pendingMessages with
  | theMessage :: pendingMessages =>
    let message := s.message theMessage
    let s := { s with
      pendingMessages
      numberOfPendingMessages := s.numberOfPendingMessages - 1
      wait := Function.update s.wait executing
        { s.wait executing with
          size := message.size
          count := message.priority.toUInt32
          buffer := copyBuffer message.buffer buffer message.size } }
    match ops.first s.waitQueue with
    | none =>
      ({ s with inactiveMessages := s.inactiveMessages ++ [theMessage] },
        ⟨some .successful, none, false⟩)
    | some theThread =>
      let sender := s.wait theThread
      let s := insertMessage s theMessage sender.buffer sender.option.toNat
        sender.count.toInt32
      (extractCritical s theThread, ⟨some .successful, some theThread, false⟩)
  | [] =>
    if wait = false then (s, ⟨some .unsatisfied, none, false⟩)
    else
      let s := { s with
        wait := Function.update s.wait executing
          { s.wait executing with
            buffer } }
      (enqueue s executing, ⟨none, none, false⟩)

/-- `_CORE_message_queue_Flush` with the count it returns. -/
def flush (s : State ops B) : State ops B × Nat :=
  if s.numberOfPendingMessages ≠ 0 then
    ({ s with
      numberOfPendingMessages := 0
      inactiveMessages := s.pendingMessages ++ s.inactiveMessages
      pendingMessages := [] }, s.numberOfPendingMessages)
  else (s, 0)

/-- The timeout of a waiting thread. -/
def timeout (s : State ops B) (theThread : T) : State ops B :=
  extractCritical
    { s with
      wait := Function.update s.wait theThread
        { s.wait theThread with
          returnCode := .timeout } }
    theThread

/-- A message as its sender gives it. -/
structure Message where
  contents : List UInt8
  priority : SubmitType
  deriving DecidableEq

/-- The message a receiver finds when its call returns. -/
def Wait.received (w : Wait) : Message := ⟨w.buffer.take w.size, w.count.toInt32⟩

/-- A call that returned. -/
structure Return (T μ : Type) where
  thread : T
  status : Status
  /-- The message of a successful receive. -/
  received : Option μ
  deriving DecidableEq

/-- The queue with the calls of its users. -/
structure System (ops : Operations T) (B : Type) where
  state : State ops B
  /-- The last call of the thread that blocked is a send. -/
  sending : T → Bool
  /-- The calls that returned, latest first. -/
  history : List (Return T Message)

/-- The calls of the users, the timeouts of waiting threads and the changes of their order. -/
inductive Op (ops : Operations T)
  | submit (executing : T) (message : Message) (wait isInIsr : Bool)
  | seize (executing : T) (buffer : List UInt8) (wait : Bool)
  | timeout (theThread : T)
  | flush
  | reorder (waitQueue : ops.Queue)
  | setNotify (handler : Bool)

/-- The return of the thread that a send hands its message to. -/
def wokenReceiver (s : State ops B) (theThread : T) : Return T Message :=
  ⟨theThread, (s.wait theThread).returnCode, some (s.wait theThread).received⟩

/-- The return of the thread whose message a receive inserts. -/
def wokenSender (s : State ops B) (theThread : T) : Return T Message :=
  ⟨theThread, (s.wait theThread).returnCode, none⟩

/-- One operation. -/
def step (s : System ops B) : Op ops → Option (System ops B)
  | .submit executing message wait isInIsr =>
    let (state, outcome) := MessageQueue.submit s.state executing message.contents
      message.contents.length message.priority wait isInIsr
    let history := (outcome.woken.map (wokenReceiver state)).toList ++ s.history
    match outcome.status with
    | some status => some { s with
        state
        history := ⟨executing, status, none⟩ :: history }
    | none => some { state, sending := Function.update s.sending executing true, history }
  | .seize executing buffer wait =>
    let (state, outcome) := MessageQueue.seize s.state executing buffer wait
    let history := (outcome.woken.map (wokenSender state)).toList ++ s.history
    match outcome.status with
    | some status => some { s with
        state
        history := ⟨executing, status,
          if status = .successful then some (state.wait executing).received else none⟩ ::
          history }
    | none => some { state, sending := Function.update s.sending executing false, history }
  | .timeout theThread =>
    let state := MessageQueue.timeout s.state theThread
    some { s with
      state
      history := ⟨theThread, (state.wait theThread).returnCode, none⟩ :: s.history }
  | .flush => some { s with state := (MessageQueue.flush s.state).1 }
  | .reorder waitQueue => some { s with state := { s.state with waitQueue } }
  | .setNotify notifyHandler => some { s with state := { s.state with notifyHandler } }

/-- A thread does not call while it waits, only waiting threads time out, a flush comes
when no sender waits, and the order of the waiting threads may change in any way. -/
def Legal (s : System ops B) : Op ops → Prop
  | .submit executing _ _ isInIsr =>
      isInIsr = true ∨ ops.waits s.state.waitQueue executing = false
  | .seize executing _ _ => ops.waits s.state.waitQueue executing = false
  | .timeout theThread => ops.waits s.state.waitQueue theThread = true
  | .flush => ∀ t, ops.waits s.state.waitQueue t = true → s.sending t = false
  | .reorder waitQueue => ∀ t, ops.waits waitQueue t = ops.waits s.state.waitQueue t
  | .setNotify _ => True

/-- A send that blocks has a size of 32 bits. -/
def Fits (s : System ops B) : Op ops → Prop
  | .submit _ message wait isInIsr =>
      s.state.inactiveMessages = [] → wait = true → isInIsr = false →
        message.contents.length < 2 ^ 32
  | _ => True

/-- The legal operations without a truncated size. -/
def Safe (s : System ops B) (op : Op ops) : Prop := Legal s op ∧ Fits s op

instance [Fintype T] (s : System ops B) : (op : Op ops) → Decidable (Legal s op)
  | .submit _ _ _ _ => inferInstanceAs (Decidable (_ ∨ _))
  | .seize _ _ _ => inferInstanceAs (Decidable (_ = _))
  | .timeout _ => inferInstanceAs (Decidable (_ = _))
  | .flush => inferInstanceAs (Decidable (∀ _, _ → _))
  | .reorder _ => inferInstanceAs (Decidable (∀ _, _ = _))
  | .setNotify _ => isTrue trivial

instance (s : System ops B) : (op : Op ops) → Decidable (Fits s op)
  | .submit _ _ _ _ => inferInstanceAs (Decidable (_ = _ → _ = _ → _ = _ → _ < _))
  | .seize _ _ _ | .timeout _ | .flush | .reorder _ | .setNotify _ => isTrue trivial

instance [Fintype T] (s : System ops B) (op : Op ops) : Decidable (Safe s op) :=
  inferInstanceAs (Decidable (_ ∧ _))

end Rtems.MessageQueue
