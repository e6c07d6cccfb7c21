import Rtems.Core.Run
import Rtems.Core.SearchTree

/-!
# Watchdogs of one header

A watchdog header is a red-black tree of the scheduled watchdogs, ordered by expiration
time, and a pointer to its first node. The rotations and colours are those of
`sys/tree.h` and are assumed to keep the order. The loop of a tickle is cut where it
releases the lock to call a service routine, so that insertions and removals may come
between two of its iterations. The history records what happened, with a number for
each insertion.
-/

namespace Rtems.Watchdog

open SearchTree

variable {W : Type*} [DecidableEq W]

/-- `_RBTree_Insert_color` and `_RBTree_Extract`, assumed to keep the order of the nodes. -/
structure RedBlack (W : Type*) [DecidableEq W] where
  insertColor : BinaryTree W → BinaryTree W
  extract : BinaryTree W → W → BinaryTree W
  inorder_insertColor : ∀ t, inorder (insertColor t) = inorder t
  inorder_extract : ∀ t w, w ∈ inorder t → inorder (extract t w) = (inorder t).erase w

/-- `Watchdog_Header`. -/
structure Header (W : Type*) where
  watchdogs : BinaryTree W
  first : Option W

/-- A header and the fields of the watchdogs. -/
structure State (W : Type*) where
  header : Header W
  expire : W → Nat
  /-- `_Watchdog_Is_scheduled`. -/
  isScheduled : W → Bool

/-- `_Watchdog_Header_initialize`, with all watchdogs inactive. -/
def initialized : State W where
  header := ⟨.nil, none⟩
  expire _ := 0
  isScheduled _ := false

variable (rb : RedBlack W)

/-- `_Watchdog_Insert`. -/
def watchdogInsert (s : State W) (w : W) (expire : Nat) : State W :=
  let (watchdogs, first) := addLeaf (fun parent => decide (expire < s.expire parent)) w
    s.header.first s.header.watchdogs (some w)
  { header := ⟨rb.insertColor watchdogs, first⟩
    expire := Function.update s.expire w expire
    isScheduled := Function.update s.isScheduled w true }

/-- `_Watchdog_Next_first`. -/
def watchdogNextFirst (header : Header W) (w : W) : Header W :=
  { header with first := nextFirst none header.watchdogs w }

/-- `_RBTree_Extract` and the inactive state. -/
def deactivate (s : State W) (w : W) : State W :=
  { s with
    header := { s.header with watchdogs := rb.extract s.header.watchdogs w }
    isScheduled := Function.update s.isScheduled w false }

/-- `_Watchdog_Remove`. -/
def watchdogRemove (s : State W) (w : W) : State W :=
  if s.isScheduled w then
    let header := if s.header.first = some w then watchdogNextFirst s.header w else s.header
    deactivate rb { s with header } w
  else s

/-- One iteration of the loop of `_Watchdog_Do_tickle` up to the call of the service
routine; nothing if the loop ends. -/
def tickleIteration (s : State W) (now : Nat) : Option (W × State W) :=
  match s.header.first with
  | none => none
  | some w =>
    if s.expire w ≤ now then
      some (w, deactivate rb { s with header := watchdogNextFirst s.header w } w)
    else none

/-- What the history records. -/
inductive Event (W : Type*)
  | inserted (n : Nat) (w : W) (expire : Nat)
  | removed (n : Nat) (w : W)
  | began (now : Nat)
  | fired (n : Nat) (w : W) (now : Nat)
  | ended (now : Nat)
  deriving DecidableEq

/-- The header with the tickle in progress and the history, latest event first. -/
structure System (W : Type*) where
  state : State W
  /-- The time of the tickle in progress. -/
  tickling : Option Nat
  /-- The number of insertions so far. -/
  count : Nat
  /-- The number of the last insertion of each watchdog. -/
  number : W → Nat
  history : List (Event W)

/-- Nothing has happened. -/
def System.initialized : System W := ⟨Watchdog.initialized, none, 0, fun _ => 0, []⟩

/-- The operations on a header, by service routines or others. -/
inductive Op (W : Type*)
  | insert (w : W) (expire : Nat)
  | remove (w : W)
  | tickle (now : Nat)
  /-- The next iteration of the tickle in progress. -/
  | iterate

/-- One operation. -/
def step (s : System W) : Op W → Option (System W)
  | .insert w expire => some
      { s with
        state := watchdogInsert rb s.state w expire
        count := s.count + 1
        number := Function.update s.number w s.count
        history := .inserted s.count w expire :: s.history }
  | .remove w => some
      { s with
        state := watchdogRemove rb s.state w
        history :=
          if s.state.isScheduled w then .removed (s.number w) w :: s.history else s.history }
  | .tickle now => some { s with tickling := some now, history := .began now :: s.history }
  | .iterate => s.tickling.map fun now =>
      match tickleIteration rb s.state now with
      | some (w, state) =>
        { s with state := state, history := .fired (s.number w) w now :: s.history }
      | none => { s with tickling := none, history := .ended now :: s.history }

/-- Only inactive watchdogs are inserted, and a tickle ends before the next one. -/
def Legal (s : System W) : Op W → Prop
  | .insert w _ => s.state.isScheduled w = false
  | .remove _ => True
  | .tickle _ => s.tickling = none
  | .iterate => s.tickling ≠ none

instance (s : System W) : (op : Op W) → Decidable (Legal s op)
  | .insert _ _ => inferInstanceAs (Decidable (_ = _))
  | .remove _ => isTrue trivial
  | .tickle _ => inferInstanceAs (Decidable (_ = _))
  | .iterate => inferInstanceAs (Decidable (_ ≠ _))

end Rtems.Watchdog
