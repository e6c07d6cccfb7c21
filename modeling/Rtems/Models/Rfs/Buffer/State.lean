import Rtems.Core.Run

/-!
# Buffers of the RTEMS file system

Buffer handles hold blocks. Handles that hold the same block share its buffer, which is on
the chain of attached buffers and counts its handles. With the local cache on, a buffer that
its last handle let go is kept on one of two release chains, one of them for modified
buffers, until it is requested again or handed over to the I/O layer. A buffer is named by
the block it was requested for, which the source keeps in `user`. Whether an I/O call
succeeds is an input of the operation. The I/O calls and the marks are recorded.
-/

namespace Rtems.Rfs.Buffer

/-- The options of a mounted file system. -/
structure Mount where
  /-- `RTEMS_RFS_FS_NO_LOCAL_CACHE`. -/
  noLocalCache : Bool
  /-- `max_held_buffers`. -/
  maxHeldBuffers : Nat
  held_pos : 1 ≤ maxHeldBuffers

/-- `rtems_rfs_buffer_handle`. -/
structure Handle where
  /-- The handle's user modified the block. -/
  dirty : Bool
  /-- The block number. -/
  bnum : Nat
  /-- The buffer, by its block. -/
  buffer : Option Nat
  deriving DecidableEq, Repr

/-- `rtems_rfs_buffer_handle_open`. -/
def Handle.closed : Handle :=
  ⟨false, 0, none⟩

/-- What is recorded. -/
inductive Event where
  /-- The I/O layer gave the buffer of a block. -/
  | obtained (block : Nat)
  /-- A handle was marked dirty while it held the block. -/
  | marked (block : Nat)
  /-- The buffer of a block went to the I/O layer, as modified or not. -/
  | handedOver (block : Nat) (modified : Bool)
  deriving DecidableEq, Repr

/-- The buffer chains of a file system, the handles and the history. -/
structure State where
  /-- `references` of each buffer. -/
  references : Nat → Nat
  /-- The attached buffers. -/
  buffers : List Nat
  /-- `buffers_count`. -/
  buffersCount : Nat
  /-- The released buffers. -/
  release : List Nat
  /-- `release_count`. -/
  releaseCount : Nat
  /-- The released and modified buffers. -/
  releaseModified : List Nat
  /-- `release_modified_count`. -/
  releaseModifiedCount : Nat
  /-- The handles. -/
  handles : List Handle
  /-- What happened, the latest first. -/
  events : List Event

/-- A file system just opened, with a number of closed handles. -/
def start (handles : Nat) : State :=
  { references := fun _ => 0
    buffers := []
    buffersCount := 0
    release := []
    releaseCount := 0
    releaseModified := []
    releaseModifiedCount := 0
    handles := List.replicate handles .closed
    events := [] }

/-- A successful `rtems_rfs_buffer_io_request`. -/
def ioRequest (s : State) (block : Nat) : State :=
  { s with events := .obtained block :: s.events }

/-- `rtems_rfs_buffer_io_release`. -/
def ioRelease (s : State) (block : Nat) (modified : Bool) : State :=
  { s with events := .handedOver block modified :: s.events }

/-- The search of `rtems_rfs_scan_chain` from the tail: the chain without the buffer. -/
def scanFrom : List Nat → Nat → Option (List Nat)
  | [], _ => none
  | node :: previous, block =>
    if node = block then some previous else (scanFrom previous block).map (node :: ·)

/-- `rtems_rfs_scan_chain`: the chain without the buffer, if it is there. -/
def scanChain (chain : List Nat) (block : Nat) : Option (List Nat) :=
  (scanFrom chain.reverse block).map List.reverse

/-- The local cache is full: one buffer of the longer release chain is handed over. The
chain is empty only if the counts are wrong; the source would use a null pointer then. -/
def evict (s : State) : Option State :=
  if s.releaseCount > s.releaseModifiedCount then
    match s.release with
    | [] => none
    | block :: rest =>
      some (ioRelease { s with
        release := rest
        releaseCount := s.releaseCount - 1 } block false)
  else
    match s.releaseModified with
    | [] => none
    | block :: rest =>
      some (ioRelease { s with
        releaseModified := rest
        releaseModifiedCount := s.releaseModifiedCount - 1 } block true)

/-- The part of `rtems_rfs_buffer_handle_release` for a buffer without references, and
whether its I/O was successful. -/
def letGo (m : Mount) (s : State) (block : Nat) (dirty ioOk : Bool) : Option (State × Bool) :=
  let s := { s with
    buffers := s.buffers.erase block
    buffersCount := s.buffersCount - 1 }
  if m.noLocalCache then some (ioRelease s block dirty, ioOk)
  else
    let room :=
      if s.releaseCount + s.releaseModifiedCount ≥ m.maxHeldBuffers then
        (evict s).map fun s => (s, ioOk)
      else some (s, true)
    room.map fun (s, ok) =>
      if dirty then
        ({ s with
            releaseModified := s.releaseModified ++ [block]
            releaseModifiedCount := s.releaseModifiedCount + 1 }, ok)
      else
        ({ s with
            release := s.release ++ [block]
            releaseCount := s.releaseCount + 1 }, ok)

/-- `rtems_rfs_buffer_handle_release`. -/
def handleRelease (m : Mount) (s : State) (i : Nat) (handle : Handle) (ioOk : Bool) :
    Option (State × Bool) :=
  match handle.buffer with
  | none => some (s, true)
  | some block =>
    let s := { s with
      references := Function.update s.references block (s.references block - 1) }
    let result := if s.references block = 0 then letGo m s block handle.dirty ioOk else some (s, true)
    result.map fun (s, ok) =>
      ({ s with handles := s.handles.set i { handle with buffer := none } }, ok)

/-- The search of a request through the chains: the state without the buffer, and whether the
handle is marked dirty; `none` if the buffer is on no chain that is searched. -/
def locate (m : Mount) (s : State) (block : Nat) (dirty : Bool) : Option (State × Bool) :=
  match if s.buffersCount ≠ 0 then scanChain s.buffers block else none with
  | some rest =>
    some ({ s with
      buffers := rest
      buffersCount := s.buffersCount - 1 }, dirty)
  | none =>
    if m.noLocalCache then none
    else
      match if s.releaseCount ≠ 0 then scanChain s.release block else none with
      | some rest =>
        some ({ s with
          release := rest
          releaseCount := s.releaseCount - 1 }, dirty)
      | none =>
        match if s.releaseModifiedCount ≠ 0 then scanChain s.releaseModified block else none with
        | some rest =>
          some ({ s with
            releaseModified := rest
            releaseModifiedCount := s.releaseModifiedCount - 1 }, true)
        | none => none

/-- The end of a request: the buffer is attached to the handle. -/
def attach (s : State) (i : Nat) (block : Nat) (dirty : Bool) : State :=
  { s with
    references := Function.update s.references block (s.references block + 1)
    buffers := s.buffers ++ [block]
    buffersCount := s.buffersCount + 1
    handles := s.handles.set i ⟨dirty, block, some block⟩ }

/-- A request by a handle without a buffer. -/
def requestFree (m : Mount) (s : State) (i : Nat) (handle : Handle) (block : Nat)
    (requestOk : Bool) : State × Bool :=
  match locate m s block handle.dirty with
  | some (s, dirty) => (attach s i block dirty, true)
  | none =>
    if requestOk then (attach (ioRequest s block) i block handle.dirty, true) else (s, false)

/-- `rtems_rfs_buffer_handle_request`. -/
def handleRequest (m : Mount) (s : State) (i : Nat) (handle : Handle) (block : Nat)
    (releaseOk requestOk : Bool) : Option (State × Bool) :=
  match handle.buffer with
  | some _ =>
    if block ≠ 0 ∧ handle.bnum = block then some (s, true)
    else
      (handleRelease m s i handle releaseOk).map fun (s, ok) =>
        if ok then
          requestFree m { s with handles := s.handles.set i .closed } i .closed block requestOk
        else (s, false)
  | none => some (requestFree m s i handle block requestOk)

/-- `rtems_rfs_release_chain`. -/
def releaseChain (s : State) (modified : Bool) (chain : List Nat) : State :=
  chain.foldl (fun s block => ioRelease s block modified) s

/-- `rtems_rfs_buffers_release`. -/
def buffersRelease (s : State) : State :=
  let s := { releaseChain s false s.release with
    release := []
    releaseCount := s.releaseCount - s.release.length }
  { releaseChain s true s.releaseModified with
    releaseModified := []
    releaseModifiedCount := s.releaseModifiedCount - s.releaseModified.length }

/-- `rtems_rfs_buffer_mark_dirty`. -/
def markDirty (s : State) (i : Nat) (handle : Handle) : State :=
  { s with handles := s.handles.set i { handle with dirty := true } }

/-- The operations; handles are named by their position. -/
inductive Op where
  /-- A handle requests a block. -/
  | request (handle block : Nat) (releaseOk requestOk : Bool)
  /-- A handle is marked dirty. -/
  | markDirty (handle : Nat)
  /-- A handle lets its block go. -/
  | release (handle : Nat) (releaseOk : Bool)
  /-- The released buffers are handed over. -/
  | buffersRelease
  deriving DecidableEq, Repr

/-- One operation. -/
def step (m : Mount) (s : State) : Op → Option State
  | .request i block releaseOk requestOk =>
    s.handles[i]?.bind fun handle =>
      (handleRequest m s i handle block releaseOk requestOk).map (·.1)
  | .markDirty i =>
    s.handles[i]?.map fun handle =>
      { markDirty s i handle with
        events := (handle.buffer.toList.map .marked) ++ s.events }
  | .release i releaseOk =>
    s.handles[i]?.bind fun handle => (handleRelease m s i handle releaseOk).map (·.1)
  | .buffersRelease => some (buffersRelease s)

/-- The handle exists. -/
def Legal (s : State) : Op → Prop
  | .request i _ _ _ => i < s.handles.length
  | .markDirty i => i < s.handles.length
  | .release i _ => i < s.handles.length
  | .buffersRelease => True

instance (s : State) (op : Op) : Decidable (Legal s op) :=
  match op with
  | .request i _ _ _ => inferInstanceAs (Decidable (i < s.handles.length))
  | .markDirty i => inferInstanceAs (Decidable (i < s.handles.length))
  | .release i _ => inferInstanceAs (Decidable (i < s.handles.length))
  | .buffersRelease => inferInstanceAs (Decidable True)

end Rtems.Rfs.Buffer
