import Rtems.Core.Ring
import Rtems.Core.Run

/-!
# Pipes

The calls of a pipe run one after the other while they hold its lock. A call gives the lock up
only to wait, and a wait may end at any time, which covers every way in which the barriers
release the waiting threads; the counts of waiting threads, which only decide whether a barrier
is released, are not represented. `int` and `unsigned int` have 32 bits and `size_t` has `w`
bits; the places of the ring are below `PIPE_BUF` and fit into an `int`.
-/

namespace Rtems.Pipe

/-- `pipe_control_t`. -/
structure Control where
  /-- `Buffer`. -/
  buffer : Nat → UInt8
  /-- `Size`, which is `PIPE_BUF`. -/
  size : Nat
  /-- `Start`. -/
  start : Nat
  /-- `Length`. -/
  length : Nat
  /-- `Readers`. -/
  readers : Nat
  /-- `Writers`. -/
  writers : Nat

/-- `PIPE_SPACE`. -/
def Control.space (pipe : Control) : Nat :=
  pipe.size - pipe.length

/-- `PIPE_WSTART`. -/
def Control.wstart (pipe : Control) : Nat :=
  (pipe.start + pipe.length) % pipe.size

/-- `EINTR`. -/
def eintr : Int := 4

/-- `EAGAIN`. -/
def eagain : Int := 11

/-- `EPIPE`. -/
def epipe : Int := 32

/-- The conversion to `int`. -/
def toInt (n : Int) : Int :=
  (n + 2 ^ 31) % 2 ^ 32 - 2 ^ 31

/-- The conversion to an unsigned number of `w` bits. -/
def toUnsigned (w : Nat) (n : Int) : Nat :=
  (n % 2 ^ w).toNat

/-- A call. -/
inductive Op
  /-- `pipe_read` of a number of bytes. -/
  | read (count : Nat) (nodelay : Bool)
  /-- `pipe_write` of a number of bytes. -/
  | write (count : Nat) (nodelay : Bool) (data : Nat → UInt8)

/-- Where a call is after it released the lock. -/
inductive Phase
  /-- It waits, with its `written` and `chunk` if it writes. -/
  | waiting (written chunk : Int)
  /-- It has returned a value. -/
  | done (ret : Int)
  deriving DecidableEq, Repr

/-- What a call did while it held the lock. -/
structure Effect where
  /-- The pipe. -/
  pipe : Control
  /-- The pieces of data that were moved. -/
  moved : List (List UInt8)
  /-- Where the call is. -/
  phase : Phase

/-- The value that a call returns. -/
def result (moved ret : Int) : Int :=
  if moved > 0 then moved else ret

/-- The transfer of `pipe_read`. -/
def readChunk (pipe : Control) (count : Nat) : Effect :=
  let chunk := min count pipe.length
  let bytes := ringGet pipe.buffer pipe.size pipe.start chunk
  let start := (pipe.start + chunk) % pipe.size
  let length := pipe.length - chunk
  ⟨{ pipe with
    start := if length = 0 then 0 else start
    length }, [bytes], .done (result chunk 0)⟩

/-- `pipe_read` from the test for an empty pipe on. -/
def readLocked (pipe : Control) (count : Nat) (nodelay : Bool) : Effect :=
  if pipe.length = 0 then
    if pipe.writers = 0 then ⟨pipe, [], .done 0⟩
    else if nodelay then ⟨pipe, [], .done (-eagain)⟩
    else ⟨pipe, [], .waiting 0 0⟩
  else readChunk pipe count

/-- The loop of `pipe_write`, with a bound on the number of passes. -/
def writeLoop (w count : Nat) (nodelay : Bool) (data : Nat → UInt8) :
    Nat → Control → Int → Int → Option Effect
  | fuel, pipe, written, chunk =>
    if toUnsigned w written < count then
      if pipe.space < toUnsigned 32 chunk then
        if nodelay then some ⟨pipe, [], .done (result written (-eagain))⟩
        else some ⟨pipe, [], .waiting written chunk⟩
      else
        match fuel with
        | 0 => none
        | fuel + 1 =>
          let chunk := min (toUnsigned w (count - written)) pipe.space
          let bytes := fun j => data (toUnsigned w written + j)
          let buffer := ringPut pipe.buffer pipe.size pipe.wstart bytes chunk
          let pipe := { pipe with buffer, length := pipe.length + chunk }
          (writeLoop w count nodelay data fuel pipe (toInt (written + chunk)) 1).map fun effect =>
            { effect with moved := (List.range chunk).map bytes :: effect.moved }
    else some ⟨pipe, [], .done (result written 0)⟩

/-- A call that has the lock for the first time. -/
def enter (w : Nat) (pipe : Control) : Op → Option Effect
  | .read count nodelay => some (readLocked pipe count nodelay)
  | .write count nodelay data =>
    if pipe.readers = 0 then some ⟨pipe, [], .done (-epipe)⟩
    else
      writeLoop w count nodelay data count pipe 0
        (toInt (if count ≤ pipe.size then count else 1))

/-- A call that has the lock again after a wait that succeeded. -/
def resume (w : Nat) (pipe : Control) (written chunk : Int) : Op → Option Effect
  | .read count nodelay => some (readLocked pipe count nodelay)
  | .write count nodelay data =>
    if pipe.readers = 0 then some ⟨pipe, [], .done (result written (-epipe))⟩
    else writeLoop w count nodelay data count pipe written chunk

/-- A call and where it is. -/
structure Call where
  /-- The call. -/
  op : Op
  /-- Where it is. -/
  phase : Phase

/-- The pipe, its calls, and the data that they moved in the order of the lock. -/
structure State where
  /-- The pipe. -/
  pipe : Control
  /-- The calls, in the order in which they began. -/
  calls : List Call
  /-- The pieces that writes put into the pipe, with the number of the call. -/
  accepted : List (Nat × List UInt8)
  /-- The pieces that reads took from the pipe, with the number of the call. -/
  returned : List (Nat × List UInt8)

/-- What happens to the pipe. -/
inductive Action
  /-- A call begins; it may fail to get the lock. -/
  | begin (op : Op) (locked : Bool)
  /-- A wait ends, with success or not, and the call may fail to get the lock. -/
  | wake (call : Nat) (success locked : Bool)
  /-- Readers and writers open and close the pipe. -/
  | ends (readers writers : Nat)

/-- Record what a call did. -/
def State.record (s : State) (call : Nat) (op : Op) (effect : Effect) : State :=
  let pieces := effect.moved.map fun bytes => (call, bytes)
  { s with
    pipe := effect.pipe
    calls := s.calls.set call ⟨op, effect.phase⟩
    accepted := match op with
      | .read .. => s.accepted
      | .write .. => s.accepted ++ pieces
    returned := match op with
      | .read .. => s.returned ++ pieces
      | .write .. => s.returned }

/-- The value that a call returns if it gets no lock or its wait fails. -/
def interrupted (written : Int) : Phase :=
  .done (result written (-eintr))

/-- A call is there that has done nothing yet. -/
def State.arrive (s : State) (op : Op) : State :=
  { s with calls := s.calls ++ [⟨op, .waiting 0 0⟩] }

/-- A call begins. A write of nothing does not even take the lock. -/
def State.begin (w : Nat) (s : State) (op : Op) (locked : Bool) : Option State :=
  let call := s.calls.length
  let s := s.arrive op
  match op with
  | .write 0 _ _ => some (s.record call op ⟨s.pipe, [], .done 0⟩)
  | _ =>
    if locked then (enter w s.pipe op).map (s.record call op)
    else some (s.record call op ⟨s.pipe, [], interrupted 0⟩)

/-- A step of the system. -/
def step (w : Nat) (s : State) : Action → Option State
  | .begin op locked => s.begin w op locked
  | .wake call success locked =>
    match s.calls[call]? with
    | some ⟨op, .waiting written chunk⟩ =>
      if success ∧ locked then (resume w s.pipe written chunk op).map (s.record call op)
      else some (s.record call op ⟨s.pipe, [], interrupted written⟩)
    | _ => none
  | .ends readers writers => some { s with pipe := { s.pipe with readers, writers } }

/-- A new pipe. -/
def initialState (size : Nat) (buffer : Nat → UInt8) : State :=
  ⟨⟨buffer, size, 0, 0, 0, 0⟩, [], [], []⟩

end Rtems.Pipe
