import Rtems.Models.MessageQueue.Operations

/-!
# Every run of the message queue has a book

A run whose blocking sends have sizes of 32 bits is a trace of the abstract queue, from
an empty queue with at least one buffer. A blocking send of a larger message is
truncated, because the size goes through a field of 32 bits.
-/

namespace Rtems.MessageQueue

variable {T B : Type} [DecidableEq T] [DecidableEq B] {ops : Operations T}

/-- The calls on a queue that was just initialized. -/
def System.initialized (ops : Operations T) (buffers : List B) (maximumMessageSize : Nat)
    (message : B → Buffer) (wait : T → Wait) : System ops B where
  state := MessageQueue.initialized ops buffers maximumMessageSize message wait
  sending _ := false
  history := []

/-- A receive that frees a buffer while threads wait to send inserts the message of the
first one, whose send returns successfully. -/
def RefillsFrom (s : System ops B) (op : Op ops) (u : T) : Prop :=
  ∃ s' b, step s op = some s' ∧ b ∈ s'.state.pendingMessages ∧
    (s'.state.message b).contents = (s.state.wait u).sent ∧
    ops.waits s'.state.waitQueue u = false ∧ ⟨u, .successful, none⟩ ∈ s'.history

theorem refillsFrom {s : System ops B} {a : Book.State ops} {number : B → Nat}
    (hc : Consistent s) (h : Refines s a number) {t u : T}
    (ht : ops.waits s.state.waitQueue t = false) (hpending : s.state.pendingMessages ≠ [])
    (hfirst : ops.first s.state.waitQueue = some u) (buffer : List UInt8) (wait : Bool) :
    RefillsFrom s (.seize t buffer wait) u := by
  obtain ⟨b, rest, hcons⟩ := List.exists_cons_of_ne_nil hpending
  have hwaits : ops.waits s.state.waitQueue u = true := ops.waits_first _ _ hfirst
  have hut : u ≠ t := by
    rintro rfl
    simp [ht] at hwaits
  have hnodup := hc.nodup
  rw [hcons] at hnodup
  have hb : b ∉ rest := fun hmem =>
    (List.nodup_cons.mp hnodup).1 (List.mem_append_left _ hmem)
  have hgiven := h.given u hwaits (hc.sending_of_pending hwaits hpending)
  have hstep : step s (.seize t buffer wait) = some { s with
      state := stored (extractCritical (taken s.state t b rest buffer) u) b
        (s.state.wait u).buffer (s.state.wait u).option.toNat (s.state.wait u).count.toInt32
      history := ⟨t, .successful, some ((taken s.state t b rest buffer).wait t).received⟩ ::
        ⟨u, .successful, none⟩ :: s.history } := by
    simp only [step, seize_eq_of_some hcons hb hut hfirst]
    simp [wokenSender, stored, extractCritical, taken, hut, h.returnCode u hwaits]
  refine ⟨_, b, hstep, mem_insertBefore.mpr (.inl rfl), ?_, ?_, by simp⟩
  · simp [stored, Buffer.contents, Wait.sent, take_copyBuffer _ _ hgiven]
  · have hextract := ops.waits_extract s.state.waitQueue u u
    simpa [stored, extractCritical, taken] using hextract

/-- Every run without a truncated size, from a queue with at least one buffer, is a trace
of the abstract queue with the same calls returning the same messages. -/
theorem message_queue_refines_book {buffers : List B} (hbuffers : buffers ≠ [])
    (hnodup : buffers.Nodup) (maximumMessageSize : Nat) (message : B → Buffer) (wait : T → Wait)
    {actions : List (Op ops)} {s : System ops B}
    (hrun : Run step Safe (System.initialized ops buffers maximumMessageSize message wait)
      actions s) :
    Consistent s ∧
    (∃ a number, Trace Book.Step (Book.initialized ops buffers.length maximumMessageSize)
        actions a ∧ Refines s a number ∧ Book.Accounted a) ∧
    (∀ op, Safe s op → (step s op).isSome = true) ∧
    ∀ t u buffer wait, ops.waits s.state.waitQueue t = false → s.state.pendingMessages ≠ [] →
      ops.first s.state.waitQueue = some u → RefillsFrom s (.seize t buffer wait) u := by
  obtain ⟨a, htrace, hc, number, h⟩ := hrun.trace
    (fun s a => Consistent s ∧ ∃ number : B → Nat, Refines s a number)
    ⟨consistent_initialized hbuffers hnodup _ _ _ _, fun _ => 0,
      refines_initialized _ _ _ _ _ _⟩ (by
        intro s a op s' ⟨hc, number, h⟩ hsafe hstep
        obtain ⟨t', a', number', hstep', hc', hbook, h'⟩ := Simulated.step hc h hsafe
        rw [hstep, Option.some_inj] at hstep'
        exact ⟨a', hbook, hstep' ▸ hc', number', hstep' ▸ h'⟩)
  have haccounted : Book.Accounted a := htrace.invariant Book.Accounted
    ⟨by simp [Book.initialized], by simp [Book.initialized], by simp [Book.initialized],
      List.nodup_nil⟩ fun _ _ _ ha hstep => ha.step hstep
  refine ⟨hc, ⟨a, number, htrace, h, haccounted⟩, ?_, ?_⟩
  · intro op hsafe
    obtain ⟨s', -, -, hstep, -⟩ := Simulated.step hc h hsafe
    rw [hstep]
    rfl
  · intro t u buffer wait ht hpending hfirst
    exact refillsFrom hc h ht hpending hfirst buffer wait

/-- A queue with one buffer for messages of a given size. -/
def oneBuffer (maximumMessageSize : Nat) : System (fifo : Operations (Fin 3)) (Fin 1) :=
  .initialized fifo [0] maximumMessageSize (fun _ => ⟨0, 0, []⟩) fun _ => ⟨.successful, 0, [], 0, 0⟩

theorem message_queue_refines_book_oneBuffer :
    ∃ s, Run step Safe (oneBuffer 4)
        [.submit 0 ⟨[1, 2], sendRequest⟩ true false, .submit 1 ⟨[3], urgentRequest⟩ true false,
          .seize 2 [] true, .seize 2 [] true, .seize 2 [] true, .submit 0 ⟨[4], 7⟩ false false] s ∧
      s.history.filterMap Return.received = [⟨[4], 7⟩, ⟨[3], urgentRequest⟩, ⟨[1, 2], sendRequest⟩] ∧
      Consistent s := by
  refine Run.exists_of_exec ⟨_, rfl, fun hrun => ⟨by decide, ?_⟩⟩
  exact (message_queue_refines_book (by decide) (by decide) 4 _ _ hrun).1

/-- A message of `2 ^ 32` bytes whose send blocks is received as the empty message. -/
theorem message_queue_truncates :
    ∃ contents : List UInt8, contents.length = 2 ^ 32 ∧
      ∃ s, Run step Legal (oneBuffer (2 ^ 32))
          [.submit 0 ⟨[], sendRequest⟩ true false, .submit 1 ⟨contents, sendRequest⟩ true false,
            .seize 2 [] true, .seize 2 [] true] s ∧
        s.history = [⟨2, .successful, some ⟨[], sendRequest⟩⟩,
          ⟨2, .successful, some ⟨[], sendRequest⟩⟩, ⟨1, .successful, none⟩,
          ⟨0, .successful, none⟩] := by
  obtain ⟨contents, hlength⟩ : ∃ contents : List UInt8, contents.length = 2 ^ 32 :=
    ⟨List.replicate (2 ^ 32) 0, List.length_replicate⟩
  obtain ⟨s₁, hs₁, hfull⟩ : ∃ s₁, step (oneBuffer (2 ^ 32)) (.submit 0 ⟨[], sendRequest⟩ true false) =
      some s₁ ∧ s₁ = { oneBuffer (2 ^ 32) with
        state := { (oneBuffer (2 ^ 32)).state with
          numberOfPendingMessages := 1
          pendingMessages := [0]
          inactiveMessages := []
          message := Function.update (fun _ => ⟨0, 0, []⟩) 0 ⟨sendRequest, 0, []⟩ }
        history := [⟨0, .successful, none⟩] } := ⟨_, rfl, rfl⟩
  have hs₂ : step s₁ (.submit 1 ⟨contents, sendRequest⟩ true false) = some _ :=
    step_submit_of_nil (by rw [hfull]; exact hlength.le) (by rw [hfull]; rfl) (by rw [hfull])
  simp only [hlength] at hs₂
  subst hfull
  refine ⟨contents, hlength, _, ((((Run.nil.snoc ?_ hs₁).snoc ?_ hs₂).snoc ?_ rfl).snoc ?_ rfl), rfl⟩
  · exact Or.inr rfl
  · exact Or.inr rfl
  · exact (rfl : _ = false)
  · exact (rfl : _ = false)

end Rtems.MessageQueue
