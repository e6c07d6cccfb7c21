import Rtems.Core.OrderedList
import Rtems.Core.Run

/-!
# Asynchronous requests of one descriptor

The requests of a descriptor wait on a chain ordered by `aio_reqprio`. The insertion reads the
priority of the next node before it tests for the end of the chain, also that of the tail.
-/

namespace Rtems.Aio

/-- `rtems_aio_request`: the address of its control block and the priority there. -/
structure Request where
  aiocbp : Nat
  aioReqprio : Int
  deriving DecidableEq, Repr

/-- The loop of `rtems_aio_insert_prio`: the chain with the request, and the nodes whose
priority was read. The tail of the chain, which is no request, is none. -/
def insertPrioLoop (req : Request) : List Request → List Request × List (Option Request)
  | [] => ([req], [none])
  | node :: rest =>
    if req.aioReqprio > node.aioReqprio then
      let (chain, compared) := insertPrioLoop req rest
      (node :: chain, some node :: compared)
    else (req :: node :: rest, [some node])

/-- `rtems_aio_insert_prio`. -/
def insertPrio (chain : List Request) (req : Request) : List Request × List (Option Request) :=
  if chain.isEmpty then ([req], []) else insertPrioLoop req chain

inductive CancelResult
  | allDone
  | notCanceled
  | canceled
  deriving DecidableEq, Repr

/-- The loop of `rtems_aio_remove_req`: the chain without the request it finds. -/
def removeReqLoop (aiocbp : Nat) : List Request → Option (List Request)
  | [] => none
  | node :: rest =>
    if node.aiocbp ≠ aiocbp then (removeReqLoop aiocbp rest).map (node :: ·) else some rest

/-- `rtems_aio_remove_req`. -/
def removeReq (chain : List Request) (aiocbp : Nat) : List Request × CancelResult :=
  if chain.isEmpty then (chain, .allDone)
  else match removeReqLoop aiocbp chain with
    | none => (chain, .notCanceled)
    | some chain => (chain, .canceled)

/-- The chain, the accepted requests that were not cancelled in the order of submission, and
the nodes that requests were compared with. -/
structure State where
  chain : List Request
  pending : List Request
  compared : List (Option Request)
  deriving DecidableEq, Repr

inductive Op
  | enqueue (req : Request)
  | cancel (aiocbp : Nat)

def start : State := ⟨[], [], []⟩

/-- `rtems_aio_enqueue` or `aio_cancel` for the descriptor; a new chain is an empty one. -/
def step (s : State) : Op → Option State
  | .enqueue req =>
    let (chain, compared) := insertPrio s.chain req
    some ⟨chain, s.pending ++ [req], s.compared ++ compared⟩
  | .cancel aiocbp =>
    some { s with
      chain := (removeReq s.chain aiocbp).1
      pending := (s.chain.find? (·.aiocbp = aiocbp)).elim s.pending s.pending.erase }

/-- A request is before some other one, and none has its priority. -/
def Fits (s : State) : Op → Prop
  | .enqueue req => s.chain = [] ∨ (∃ r ∈ s.chain, req.aioReqprio < r.aioReqprio) ∧
      ∀ r ∈ s.chain, r.aioReqprio ≠ req.aioReqprio
  | .cancel _ => True

/-- The request is put before the first one whose priority is not less. -/
theorem insertPrio_fst (chain : List Request) (req : Request) : (insertPrio chain req).1 =
    insertBefore (fun r => decide (req.aioReqprio ≤ r.aioReqprio)) req chain := by
  have hloop : (insertPrioLoop req chain).1 =
      insertBefore (fun r => decide (req.aioReqprio ≤ r.aioReqprio)) req chain := by
    induction chain with
    | nil => rfl
    | cons node rest ih =>
      by_cases hlt : req.aioReqprio > node.aioReqprio
      · simp [insertPrioLoop, insertBefore, hlt, Int.not_le.mpr hlt, ih]
      · simp [insertPrioLoop, insertBefore, hlt, Int.not_lt.mp hlt]
  cases chain with
  | nil => rfl
  | cons node rest => exact hloop

/-- The tail is not read if the request is before another one. -/
theorem insertPrioLoop_snd {req r : Request} {chain : List Request} (hr : r ∈ chain)
    (hlt : req.aioReqprio < r.aioReqprio) : none ∉ (insertPrioLoop req chain).2 := by
  induction chain with
  | nil => cases hr
  | cons node rest ih =>
    rw [insertPrioLoop]
    split
    next hgt =>
      rcases List.mem_cons.mp hr with rfl | hr
      · omega
      · simpa using ih hr
    next => simp

/-- Cancelling takes out the first request with the control block, if there is one. -/
theorem removeReq_cases (chain : List Request) (aiocbp : Nat) :
    (∃ r ∈ chain.find? (·.aiocbp = aiocbp), removeReq chain aiocbp = (chain.erase r, .canceled)) ∨
      chain.find? (·.aiocbp = aiocbp) = none ∧ (removeReq chain aiocbp).1 = chain := by
  have hloop : removeReqLoop aiocbp chain =
      (chain.find? (·.aiocbp = aiocbp)).map chain.erase := by
    induction chain with
    | nil => rfl
    | cons node rest ih =>
      by_cases hnode : node.aiocbp = aiocbp
      · simp [removeReqLoop, hnode]
      · rw [removeReqLoop, if_pos hnode, ih, List.find?_cons_of_neg (by simpa using hnode),
          Option.map_map]
        refine Option.map_congr fun r hr => ?_
        have hne : node ≠ r := by
          rintro rfl
          exact hnode (by simpa using List.find?_some hr)
        simp [hne]
  cases hfind : chain.find? (·.aiocbp = aiocbp) with
  | none =>
    rw [removeReq, hloop, hfind]
    exact .inr ⟨rfl, by split <;> rfl⟩
  | some r =>
    have hne : chain ≠ [] := List.ne_nil_of_mem (List.mem_of_find?_eq_some hfind)
    exact .inl ⟨r, rfl, by simp [removeReq, hloop, hfind, hne]⟩

/-- The chain is sorted and stable, and requests were compared with requests only. -/
structure Ordered (s : State) : Prop where
  sorted : SortedBy Request.aioReqprio s.chain
  stable (prio : Int) : s.chain.filter (fun r => r.aioReqprio = prio) =
    s.pending.filter (fun r => r.aioReqprio = prio)
  compared : none ∉ s.compared

theorem Ordered.enqueue {s t : State} {req : Request} (h : Ordered s)
    (hfits : Fits s (.enqueue req)) (hstep : step s (.enqueue req) = some t) : Ordered t := by
  obtain rfl := Option.some.inj hstep
  have hinsert := insertPrio_fst s.chain req
  constructor
  · exact hinsert ▸ h.sorted.insert_lifo
  · intro prio
    change (insertPrio s.chain req).1.filter _ = (s.pending ++ [req]).filter _
    rw [hinsert, List.filter_append, ← h.stable, filter_insert_lifo h.sorted]
    by_cases hprio : req.aioReqprio = prio
    · have hnil : s.chain.filter (fun r => r.aioReqprio = prio) = [] := by
        rw [List.filter_eq_nil_iff]
        intro r hr heq
        rcases hfits with hempty | ⟨-, hother⟩
        · exact List.ne_nil_of_mem hr hempty
        · exact hother r hr ((of_decide_eq_true heq).trans hprio.symm)
      simp [hnil, hprio]
    · simp [hprio]
  · have hread : none ∉ (insertPrio s.chain req).2 := by
      rcases hfits with hempty | ⟨⟨r, hr, hlt⟩, -⟩
      · simp [hempty, insertPrio]
      · rw [insertPrio, if_neg (by simpa using List.ne_nil_of_mem hr)]
        exact insertPrioLoop_snd hr hlt
    exact List.mem_append.not.mpr (not_or.mpr ⟨h.compared, hread⟩)

theorem Ordered.cancel {s t : State} {aiocbp : Nat} (h : Ordered s)
    (hstep : step s (.cancel aiocbp) = some t) : Ordered t := by
  obtain rfl := Option.some.inj hstep
  rcases removeReq_cases s.chain aiocbp with ⟨r, hr, heq⟩ | ⟨hnone, heq⟩
  · rw [heq, Option.mem_def.mp hr]
    refine ⟨h.sorted.erase r, fun prio => ?_, h.compared⟩
    change (s.chain.erase r).filter _ = (s.pending.erase r).filter _
    rw [← List.erase_filter, h.stable, List.erase_filter]
  · rwa [heq, hnone]

/-- In every run of calls whose requests fit, the chain is sorted by priority, requests of one
priority are in the order of submission, no request was compared with the tail, and cancelling
removes one request with the control block and keeps the others in order. -/
theorem requests_keep_order {ops : List Op} {s : State} (hrun : Run step Fits start ops s) :
    Ordered s ∧ ∀ aiocbp : Nat,
      (∃ before r after, s.chain = before ++ r :: after ∧ r.aiocbp = aiocbp ∧
        removeReq s.chain aiocbp = (before ++ after, .canceled)) ∨
      (∀ r ∈ s.chain, r.aiocbp ≠ aiocbp) ∧ (removeReq s.chain aiocbp).1 = s.chain := by
  constructor
  · refine hrun.invariant Ordered ⟨sortedBy_nil, fun _ => rfl, by simp [start]⟩ ?_
    intro s op t h hfits hstep
    cases op with
    | enqueue req => exact h.enqueue hfits hstep
    | cancel aiocbp => exact h.cancel hstep
  · intro aiocbp
    rcases removeReq_cases s.chain aiocbp with ⟨r, hr, heq⟩ | ⟨hnone, heq⟩
    · obtain ⟨before, after, -, hsplit, herase⟩ :=
        List.exists_erase_eq (List.mem_of_find?_eq_some hr)
      exact .inl ⟨before, r, after, hsplit, by simpa using List.find?_some hr, herase ▸ heq⟩
    · exact .inr ⟨by simpa using hnone, heq⟩

/-- A request is put before one of lower urgency, which is then cancelled. -/
theorem requests_keep_order_two : Ordered ⟨[⟨2, 3⟩], [⟨2, 3⟩], [some ⟨1, 5⟩]⟩ :=
  have hrun : Run step Fits start [.enqueue ⟨1, 5⟩, .enqueue ⟨2, 3⟩, .cancel 1]
      ⟨[⟨2, 3⟩], [⟨2, 3⟩], [some ⟨1, 5⟩]⟩ :=
    .snoc (.snoc (.snoc .nil (.inl rfl) rfl) (.inr ⟨⟨_, .head _, by decide⟩, by decide⟩) rfl)
      trivial rfl
  (requests_keep_order hrun).1

/-- A second request of equal priority goes before the first one, and a request of greater
priority is compared with the tail. -/
theorem requests_out_of_order :
    (insertPrio [⟨1, 0⟩] ⟨2, 0⟩).1 = [⟨2, 0⟩, ⟨1, 0⟩] ∧
      (insertPrio [⟨1, 0⟩] ⟨2, 1⟩).2 = [some ⟨1, 0⟩, none] := by
  decide

end Rtems.Aio
