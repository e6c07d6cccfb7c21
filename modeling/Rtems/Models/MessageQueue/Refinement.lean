import Rtems.Models.MessageQueue.Book
import Rtems.Models.MessageQueue.Consistent

/-!
# The code refines the book

Each pending buffer holds one pending submission and each waiting sender one that waits.
The operations are composed of small changes of both sides: a submission is accepted, a
buffer is filled or emptied, a thread starts or stops to wait, a call returns.
-/

namespace Rtems.MessageQueue

open Function SearchTree

variable {T B : Type} {ops : Operations T}

/-- The message in a buffer. -/
def Buffer.contents (buffer : Buffer) : Message :=
  ⟨buffer.buffer.take buffer.size, buffer.priority⟩

/-- The message of a waiting sender. -/
def Wait.sent (w : Wait) : Message := ⟨w.buffer.take w.option.toNat, w.count.toInt32⟩

/-- A return with the message in place of its number. -/
def Return.translate (message : Nat → Message) (r : Return T Nat) : Return T Message :=
  ⟨r.thread, r.status, r.received.map message⟩

/-- The buffers and the threads hold the submissions of the book. -/
structure Refines (s : System ops B) (a : Book.State ops) (number : B → Nat) : Prop where
  waitQueue : a.waitQueue = s.state.waitQueue
  capacity : a.capacity = s.state.maximumPendingMessages
  size : a.maximumMessageSize = s.state.maximumMessageSize
  fresh : ∀ n, a.count ≤ n → a.fate n = none
  turn_lt : ∀ n turn, a.fate n = some (.pending turn) → turn < a.turn
  pending : ∀ n, n ∈ a.pending ↔ n ∈ s.state.pendingMessages.map number
  ordered : (s.state.pendingMessages.map number).Pairwise a.Precedes
  contents : ∀ b ∈ s.state.pendingMessages, (s.state.message b).contents = a.message (number b)
  filled : ∀ b ∈ s.state.pendingMessages,
    (s.state.message b).size ≤ (s.state.message b).buffer.length
  sender : ∀ t, ops.waits s.state.waitQueue t = true → s.sending t = true → a.Sends t
  given : ∀ t, ops.waits s.state.waitQueue t = true → s.sending t = true →
    (s.state.wait t).option.toNat ≤ (s.state.wait t).buffer.length
  waiting : ∀ n t, a.fate n = some (.waiting t) →
    ops.waits s.state.waitQueue t = true ∧ s.sending t = true ∧
      (s.state.wait t).sent = a.message n ∧ ∀ m, a.fate m = some (.waiting t) → m = n
  returnCode : ∀ t, ops.waits s.state.waitQueue t = true →
    (s.state.wait t).returnCode = .successful
  numbered : ∀ r ∈ a.history, ∀ n ∈ r.received, n < a.count
  history : s.history = a.history.map (Return.translate a.message)

theorem refines_initialized (buffers : List B) (maximumMessageSize : Nat) (message : B → Buffer)
    (wait : T → Wait) (sending : T → Bool) (number : B → Nat) :
    Refines ⟨initialized ops buffers maximumMessageSize message wait, sending, []⟩
      (Book.initialized ops buffers.length maximumMessageSize) number where
  waitQueue := rfl
  capacity := rfl
  size := rfl
  fresh _ _ := rfl
  turn_lt n turn h := by simp [Book.initialized] at h
  pending n := by simp [Book.initialized, initialized, Book.State.pending]
  ordered := List.Pairwise.nil
  contents b h := by simp [initialized] at h
  filled b h := by simp [initialized] at h
  sender t h := by simp [initialized, ops.waits_empty] at h
  given t h := by simp [initialized, ops.waits_empty] at h
  waiting n t h := by simp [Book.initialized] at h
  returnCode t h := by simp [initialized, ops.waits_empty] at h
  numbered r h := by simp [Book.initialized] at h
  history := rfl

variable {s : System ops B} {a : Book.State ops} {number : B → Nat} {n m : Nat}

theorem precedes_congr {a a' : Book.State ops} (h : a.Precedes n m)
    (hn : a'.message n = a.message n) (hm : a'.message m = a.message m)
    (hfn : ∀ i, a.fate n = some (.pending i) → a'.fate n = some (.pending i))
    (hfm : ∀ i, a.fate m = some (.pending i) → a'.fate m = some (.pending i)) :
    a'.Precedes n m := by
  rw [Book.State.Precedes, hn, hm]
  exact h.imp_right fun ⟨heq, i, j, hi, hj, hij⟩ => ⟨heq, i, j, hfn i hi, hfm j hj, hij⟩

variable {t : T} {b : B} {rest : List B} {old : Book.Fate T} {u : T} {w : Wait}

section

variable (h : Refines s a number)
include h

theorem Refines.pending_lt {n : Nat} (hn : n ∈ a.pending) : n < a.count := by
  by_contra hle
  obtain ⟨turn, hturn⟩ := hn
  simp [h.fresh n (by omega)] at hturn

theorem Refines.waiting_lt {n : Nat} (hn : a.fate n = some (.waiting t)) : n < a.count := by
  by_contra hle
  simp [h.fresh n (by omega)] at hn

theorem Refines.nodup : (s.state.pendingMessages.map number).Nodup := by
  refine h.ordered.imp ?_
  rintro n m hnm rfl
  obtain hlt | ⟨-, i, j, hi, hj, hij⟩ := hnm
  · exact absurd hlt (lt_irrefl _)
  · obtain rfl : i = j := by simpa [hi] using hj
    split at hij <;> omega

theorem Refines.ncard_pending : a.pending.ncard = s.state.pendingMessages.length := by
  have heq : a.pending = ((s.state.pendingMessages.map number).toFinset : Set Nat) := by
    ext n
    rw [h.pending]
    simp
  rw [heq, Set.ncard_coe_finset, List.toFinset_card_of_nodup h.nodup, List.length_map]

/-- A waiting thread that does not send receives. -/
theorem Refines.receives_iff :
    a.Receives t ↔ ops.waits s.state.waitQueue t = true ∧ s.sending t = false := by
  rw [Book.State.Receives, h.waitQueue]
  refine and_congr_right fun hwaits => ⟨fun hnot => ?_, fun hsending => ?_⟩
  · by_contra hsending
    exact hnot (h.sender t hwaits (by simpa using hsending))
  · rintro ⟨n, hn⟩
    have := (h.waiting n t hn).2.1
    simp [hsending] at this

theorem Refines.next (hpending : s.state.pendingMessages = b :: rest) : a.Next (number b) := by
  have hordered := h.ordered
  rw [hpending, List.map_cons, List.pairwise_cons] at hordered
  refine ⟨(h.pending _).mpr (by simp [hpending]), fun m hm hne => ?_⟩
  have hmem := (h.pending m).mp hm
  rw [hpending, List.map_cons, List.mem_cons] at hmem
  exact hordered.1 m (hmem.resolve_left hne)

/-- A call returns on both sides. -/
theorem Refines.returns (t : T) (status : Status)
    (received : Option Nat) (hreceived : ∀ n ∈ received, n < a.count) :
    Refines { s with history := ⟨t, status, received.map a.message⟩ :: s.history }
      (a.returns t status received) number where
  __ := h
  numbered := List.forall_mem_cons.mpr ⟨hreceived, h.numbered⟩
  history := by
    simp only [Book.State.returns, List.map_cons, h.history]
    rfl

end

/-- A fate that holds neither a buffer nor a thread. -/
def Book.Fate.IsClosed (fate : Fate T) : Prop :=
  (∀ turn, fate ≠ .pending turn) ∧ ∀ t, fate ≠ .waiting t

variable {fate : Book.Fate T}

/-- A submission is accepted that needs neither a buffer nor a thread. -/
theorem Refines.accept (h : Refines s a number) (message : Message)
    (hfate : fate.IsClosed) : Refines s (a.accept message fate) number := by
  have hmessage {n : Nat} (hn : n < a.count) :
      (a.accept message fate).message n = a.message n :=
    update_of_ne hn.ne ..
  have hother {n : Nat} (hn : n < a.count) :
      (a.accept message fate).fate n = a.fate n :=
    a.accept_fate_of_ne message fate hn.ne
  have hwaiting (n : Nat) (t : T) (hn : (a.accept message fate).fate n = some (.waiting t)) :
      a.fate n = some (.waiting t) := by
    by_cases hcount : n = a.count
    · subst hcount
      exact absurd (by simpa using hn) (hfate.2 t)
    · rwa [a.accept_fate_of_ne message fate hcount] at hn
  have hpending (n turn : Nat) : (a.accept message fate).fate n = some (.pending turn) ↔
      a.fate n = some (.pending turn) := by
    by_cases hcount : n = a.count
    · subst hcount
      simp [hfate.1, h.fresh a.count le_rfl]
    · rw [a.accept_fate_of_ne message fate hcount]
  have hlt {n : Nat} (hn : n ∈ s.state.pendingMessages.map number) : n < a.count :=
    h.pending_lt ((h.pending n).mpr hn)
  refine ⟨h.waitQueue, h.capacity, h.size, ?_, ?_, ?_, ?_, ?_, h.filled, ?_, h.given, ?_,
    h.returnCode, ?_, ?_⟩
  · intro n hn
    have hlt : a.count < n := hn
    rw [a.accept_fate_of_ne message fate hlt.ne']
    exact h.fresh n hlt.le
  · intro n turn hn
    exact h.turn_lt n turn ((hpending n turn).mp hn)
  · intro n
    rw [← h.pending n]
    exact exists_congr (hpending n)
  · refine h.ordered.imp_of_mem fun hn hm hnm => ?_
    exact precedes_congr hnm (hmessage (hlt hn)) (hmessage (hlt hm))
      (fun i => (hpending _ i).mpr) fun i => (hpending _ i).mpr
  · intro b hb
    rw [h.contents b hb, hmessage (hlt (List.mem_map_of_mem hb))]
  · intro t hwaits hsending
    obtain ⟨n, hn⟩ := h.sender t hwaits hsending
    exact ⟨n, (hother (h.waiting_lt hn)).trans hn⟩
  · intro n t hn
    have hold := hwaiting n t hn
    obtain ⟨hwaits, hsending, hsent, hunique⟩ := h.waiting n t hold
    exact ⟨hwaits, hsending, hsent.trans (hmessage (h.waiting_lt hold)).symm,
      fun m hm => hunique m (hwaiting m t hm)⟩
  · intro r hr n hn
    exact Nat.lt_succ_of_lt (h.numbered r hr n hn)
  · rw [h.history]
    refine List.map_congr_left fun r hr => ?_
    cases hreceived : r.received with
    | none => simp [Return.translate, hreceived]
    | some n =>
      simp [Return.translate, hreceived, hmessage (h.numbered r hr n hreceived)]

theorem Book.State.assign_fate_eq (a : Book.State ops) {old fate other : Book.Fate T}
    (hn : a.fate n = some old) (hold : old ≠ other) (hfate : fate ≠ other) :
    (a.assign n fate).fate m = some other ↔ a.fate m = some other := by
  by_cases hm : m = n
  · subst hm
    simp [hn, hold, hfate]
  · rw [a.assign_fate_of_ne fate hm]

section

variable (h : Refines s a number)
include h

theorem Refines.fresh_assign (hn : a.fate n = some old) (fate : Book.Fate T) (hm : a.count ≤ m) :
    (a.assign n fate).fate m = none := by
  have hmn : m ≠ n := by
    rintro rfl
    simp [h.fresh m hm] at hn
  rw [a.assign_fate_of_ne fate hmn]
  exact h.fresh m hm

/-- The first pending buffer is emptied. -/
theorem Refines.unpend (hpending : s.state.pendingMessages = b :: rest) (hfate : fate.IsClosed) :
    Refines { s with state := { s.state with pendingMessages := rest } }
      (a.assign (number b) fate) number := by
  obtain ⟨turn, hturn⟩ := (h.pending (number b)).mpr (by simp [hpending])
  have hnodup := h.nodup
  rw [hpending, List.map_cons, List.nodup_cons] at hnodup
  have hwaiting (m : Nat) (t : T) : (a.assign (number b) fate).fate m = some (.waiting t) ↔
      a.fate m = some (.waiting t) := a.assign_fate_eq hturn (by simp) (hfate.2 t)
  have hrest {m : Nat} (hm : m ∈ rest.map number) : m ≠ number b := fun heq =>
    hnodup.1 (heq ▸ hm)
  refine ⟨h.waitQueue, h.capacity, h.size, fun m hm => h.fresh_assign hturn fate hm, ?_, ?_, ?_,
    ?_, ?_, ?_, h.given, ?_, h.returnCode, h.numbered, h.history⟩
  · intro m i hm
    by_cases hmb : m = number b
    · subst hmb
      exact absurd (by simpa using hm) (hfate.1 i)
    · rw [a.assign_fate_of_ne fate hmb] at hm
      exact h.turn_lt m i hm
  · intro m
    have hm := h.pending m
    by_cases hmb : m = number b
    · subst hmb
      have hnot : number b ∉ (a.assign (number b) fate).pending := by
        rintro ⟨i, hi⟩
        exact hfate.1 i (by simpa using hi)
      exact iff_of_false hnot hnodup.1
    · rw [hpending, List.map_cons, List.mem_cons, or_iff_right hmb] at hm
      rw [← hm]
      exact exists_congr fun i => by rw [a.assign_fate_of_ne fate hmb]
  · have hordered := h.ordered
    rw [hpending, List.map_cons, List.pairwise_cons] at hordered
    refine hordered.2.imp_of_mem fun hi hj hij => ?_
    exact precedes_congr hij rfl rfl (fun k => (a.assign_fate_of_ne fate (hrest hi)).trans)
      fun k => (a.assign_fate_of_ne fate (hrest hj)).trans
  · intro c hc
    exact h.contents c (by simp [hpending, show c ∈ rest from hc])
  · intro c hc
    exact h.filled c (by simp [hpending, show c ∈ rest from hc])
  · intro t hwaits hsending
    exact (h.sender t hwaits hsending).imp fun m hm => (hwaiting m t).mpr hm
  · intro m t hm
    simpa only [hwaiting, Book.State.assign_message] using h.waiting m t ((hwaiting m t).mp hm)

/-- A waiting sender stops to wait. -/
theorem Refines.withdraw {n : Nat}
    (hn : a.fate n = some (.waiting u)) (hfate : fate.IsClosed) :
    Refines { s with state := extractCritical s.state u } ((a.assign n fate).extract u)
      number := by
  have hpending (m turn : Nat) : (a.assign n fate).fate m = some (.pending turn) ↔
      a.fate m = some (.pending turn) := a.assign_fate_eq hn (by simp) (hfate.1 turn)
  have hother {m : Nat} {t : T} (ht : t ≠ u) : (a.assign n fate).fate m = some (.waiting t) ↔
      a.fate m = some (.waiting t) := a.assign_fate_eq hn (by simpa using ht.symm) (hfate.2 t)
  have hgone (m : Nat) : (a.assign n fate).fate m ≠ some (.waiting u) := by
    intro hm
    by_cases hmn : m = n
    · subst hmn
      exact hfate.2 u (by simpa using hm)
    · rw [a.assign_fate_of_ne fate hmn] at hm
      exact hmn ((h.waiting n u hn).2.2.2 m hm)
  refine ⟨by simp [extractCritical, Book.State.extract, Book.State.assign, h.waitQueue],
    h.capacity, h.size, fun m hm => h.fresh_assign hn fate hm, ?_, ?_, ?_, h.contents, h.filled, ?_,
    ?_, ?_, ?_, h.numbered, h.history⟩
  · intro m turn hm
    exact h.turn_lt m turn ((hpending m turn).mp hm)
  · intro m
    refine Iff.trans ?_ (h.pending m)
    exact exists_congr (hpending m)
  · refine h.ordered.imp fun {i j} hij => ?_
    exact precedes_congr hij rfl rfl (fun k => (hpending _ k).mpr) fun k => (hpending _ k).mpr
  · intro t hwaits hsending
    obtain ⟨ht, hwaits⟩ := (ops.waits_extract _ _ _).mp hwaits
    exact (h.sender t hwaits hsending).imp fun m hm => (hother ht).mpr hm
  · intro t hwaits hsending
    exact h.given t ((ops.waits_extract _ _ _).mp hwaits).2 hsending
  · intro m t hm
    have ht : t ≠ u := by
      rintro rfl
      exact hgone m hm
    obtain ⟨hwaits, hsending, hsent, hunique⟩ := h.waiting m t ((hother ht).mp hm)
    exact ⟨(ops.waits_extract _ _ _).mpr ⟨ht, hwaits⟩, hsending, hsent,
      fun k hk => hunique k ((hother ht).mp hk)⟩
  · intro t hwaits
    exact h.returnCode t ((ops.waits_extract _ _ _).mp hwaits).2

/-- A waiting receiver stops to wait. -/
theorem Refines.leave (hu : a.Receives u) :
    Refines { s with state := extractCritical s.state u } (a.extract u) number := by
  refine { h with
    waitQueue := by simp [extractCritical, Book.State.extract, h.waitQueue]
    sender := ?_, given := ?_, waiting := ?_, returnCode := ?_ }
  · intro t hwaits hsending
    exact h.sender t ((ops.waits_extract _ _ _).mp hwaits).2 hsending
  · intro t hwaits hsending
    exact h.given t ((ops.waits_extract _ _ _).mp hwaits).2 hsending
  · intro n t hn
    obtain ⟨hwaits, hrest⟩ := h.waiting n t hn
    have ht : t ≠ u := by
      rintro rfl
      exact hu.2 ⟨n, hn⟩
    exact ⟨(ops.waits_extract _ _ _).mpr ⟨ht, hwaits⟩, hrest⟩
  · intro t hwaits
    exact h.returnCode t ((ops.waits_extract _ _ _).mp hwaits).2

/-- The fields that the book does not see, and threads that do not wait to send. -/
theorem Refines.frame {s' : System ops B} (hwaitQueue : s'.state.waitQueue = s.state.waitQueue)
    (hmaximum : s'.state.maximumPendingMessages = s.state.maximumPendingMessages)
    (hsize : s'.state.maximumMessageSize = s.state.maximumMessageSize)
    (hpending : s'.state.pendingMessages = s.state.pendingMessages)
    (hmessage : s'.state.message = s.state.message)
    (hsending : ∀ t, ops.waits s.state.waitQueue t = true → s'.sending t = s.sending t)
    (hwait : ∀ t, ops.waits s.state.waitQueue t = true → s.sending t = true →
      s'.state.wait t = s.state.wait t)
    (hreturnCode : ∀ t, ops.waits s.state.waitQueue t = true →
      (s'.state.wait t).returnCode = (s.state.wait t).returnCode)
    (hhistory : s'.history = s.history) : Refines s' a number := by
  refine ⟨?_, ?_, ?_, h.fresh, h.turn_lt, ?_, ?_, ?_, ?_, ?_, ?_, ?_, ?_, h.numbered, ?_⟩
  · rw [hwaitQueue, h.waitQueue]
  · rw [hmaximum, h.capacity]
  · rw [hsize, h.size]
  · rw [hpending]
    exact h.pending
  · rw [hpending]
    exact h.ordered
  · rw [hpending, hmessage]
    exact h.contents
  · rw [hpending, hmessage]
    exact h.filled
  · rw [hwaitQueue]
    intro t hwaits ht
    rw [hsending t hwaits] at ht
    exact h.sender t hwaits ht
  · rw [hwaitQueue]
    intro t hwaits ht
    rw [hsending t hwaits] at ht
    rw [hwait t hwaits ht]
    exact h.given t hwaits ht
  · rw [hwaitQueue]
    intro n t hn
    obtain ⟨hwaits, ht, hmsg, hunique⟩ := h.waiting n t hn
    exact ⟨hwaits, (hsending t hwaits).trans ht, (hwait t hwaits ht).symm ▸ hmsg, hunique⟩
  · rw [hwaitQueue]
    intro t hwaits
    rw [hreturnCode t hwaits, h.returnCode t hwaits]
  · rw [hhistory, h.history]

end

theorem take_copyBuffer (source destination : List UInt8) {size : Nat} (h : size ≤ source.length) :
    (copyBuffer source destination size).take size = source.take size := by
  rw [copyBuffer, List.take_append_of_le_length (by simpa using h), List.take_take, min_self]

theorem Book.State.Precedes.priority_le (h : a.Precedes n m) :
    (a.message n).priority.toInt ≤ (a.message m).priority.toInt := by
  rcases h with hlt | ⟨heq, -⟩
  · exact hlt.le
  · rw [heq]

section

variable {i j : Nat} (hn : a.fate n = some (.pending i)) (hm : a.fate m = some (.pending j))
  (hlt : j < i)
include hn hm hlt

/-- The latest message precedes those it is inserted before. -/
theorem precedes_of_comesBefore
    (hbefore : comesBefore (a.message n).priority (a.message m).priority = true) :
    a.Precedes n m := by
  simp only [comesBefore, decide_eq_true_eq, Int32.lt_iff_toInt_lt] at hbefore
  rcases hbefore with hurgent | hless
  · have hle : (a.message n).priority.toInt ≤ (a.message m).priority.toInt := by
      rw [hurgent]
      exact Int32.minValue_le_toInt _
    rcases hle.lt_or_eq with hless | heq
    · exact .inl hless
    · exact .inr ⟨Int32.toInt_inj.mp heq, i, j, hn, hm, by rwa [if_pos hurgent]⟩
  · exact .inl hless

/-- The messages before the latest one precede it. -/
theorem precedes_of_not_comesBefore
    (hbefore : comesBefore (a.message n).priority (a.message m).priority = false) :
    a.Precedes m n := by
  simp only [comesBefore, decide_eq_false_iff_not, not_or, Int32.lt_iff_toInt_lt, not_lt]
    at hbefore
  obtain ⟨hurgent, hle⟩ := hbefore
  rcases hle.lt_or_eq with hless | heq
  · exact .inl hless
  · have heq := Int32.toInt_inj.mp heq
    exact .inr ⟨heq, j, i, hm, hn, by rwa [heq, if_neg hurgent]⟩

end

section Store

variable [DecidableEq B]

/-- A buffer is filled with a message and becomes pending. -/
theorem Refines.store (h : Refines s a number) {n : Nat}
    (contentSource : List UInt8) (contentSize : Nat) (submitType : SubmitType)
    (hb : b ∉ s.state.pendingMessages) (hn : a.fate n = some old) (hold : old.IsClosed)
    (hsize : contentSize ≤ contentSource.length)
    (hmessage : a.message n = ⟨contentSource.take contentSize, submitType⟩) :
    Refines { s with state := stored s.state b contentSource contentSize submitType }
      (a.assign n (.pending a.turn)).advance (update number b n) := by
  have hwaiting (m : Nat) (t : T) : (a.assign n (.pending a.turn)).fate m = some (.waiting t) ↔
      a.fate m = some (.waiting t) := a.assign_fate_eq hn (hold.2 t) (by simp)
  have hnumber {c : B} (hc : c ∈ s.state.pendingMessages) :
      update number b n c = number c :=
    update_of_ne (fun heq : c = b => hb (heq ▸ hc)) _ _
  have hmem {c : B} (hc : c ∈ s.state.pendingMessages) : number c ∈ a.pending :=
    (h.pending _).mpr (List.mem_map_of_mem hc)
  have hne {c : B} (hc : c ∈ s.state.pendingMessages) : number c ≠ n := by
    obtain ⟨i, hi⟩ := hmem hc
    intro heq
    rw [heq, hn, Option.some_inj] at hi
    exact hold.1 i hi
  have hfate {c : B} (hc : c ∈ s.state.pendingMessages) :
      (a.assign n (.pending a.turn)).advance.fate (number c) = a.fate (number c) :=
    a.assign_fate_of_ne _ (hne hc)
  have hpriority {c : B} (hc : c ∈ s.state.pendingMessages) :
      (a.message (number c)).priority = (s.state.message c).priority := by
    rw [← h.contents c hc]
    rfl
  refine ⟨h.waitQueue, h.capacity, h.size, fun m hm => h.fresh_assign hn _ hm, ?_, ?_, ?_, ?_, ?_,
    ?_, h.given, ?_, h.returnCode, h.numbered, h.history⟩
  · intro m i hm
    by_cases hmn : m = n
    · subst hmn
      have hi : a.turn = i := by simpa [Book.State.advance] using hm
      exact hi ▸ Nat.lt_succ_self _
    · exact Nat.lt_succ_of_lt (h.turn_lt m i ((a.assign_fate_of_ne _ hmn).symm.trans hm))
  · intro m
    have hmap : ((stored s.state b contentSource contentSize submitType).pendingMessages.map
        (update number b n)).Perm (n :: s.state.pendingMessages.map number) := by
      refine ((insertBefore_perm _ _ _).map _).trans ?_
      rw [List.map_cons, update_self, List.map_congr_left fun c hc => hnumber hc]
    refine Iff.trans ?_ hmap.mem_iff.symm
    rw [List.mem_cons, ← h.pending m]
    by_cases hmn : m = n
    · subst hmn
      simp [Book.State.pending, Book.State.advance]
    · rw [or_iff_right hmn]
      exact exists_congr fun i => by
        rw [Book.State.advance, a.assign_fate_of_ne _ hmn]
  · rw [List.pairwise_map]
    refine pairwise_insertBefore ?_ ?_ ?_ ?_
    · have hordered := List.pairwise_map.mp h.ordered
      refine hordered.imp_of_mem fun hc hd hcd => ?_
      rw [hnumber hc, hnumber hd]
      exact precedes_congr hcd rfl rfl (fun k => (hfate hc).trans) fun k => (hfate hd).trans
    · have hordered := List.pairwise_map.mp h.ordered
      refine hordered.imp_of_mem fun {c d} hc hd hcd hbefore => ?_
      have hle := hcd.priority_le
      rw [hpriority hc, hpriority hd] at hle
      simp only [comesBefore, decide_eq_true_eq, Int32.lt_iff_toInt_lt] at hbefore ⊢
      exact hbefore.imp_right fun hlt => hlt.trans_le hle
    · intro c hc hbefore
      obtain ⟨i, hi⟩ := hmem hc
      rw [hnumber hc, update_self]
      refine precedes_of_comesBefore (by simp [Book.State.advance]) ((hfate hc).trans hi)
        (h.turn_lt _ _ hi) ?_
      simpa [Book.State.advance, hmessage, hpriority hc] using hbefore
    · intro c hc hbefore
      obtain ⟨i, hi⟩ := hmem hc
      rw [hnumber hc, update_self]
      refine precedes_of_not_comesBefore (by simp [Book.State.advance]) ((hfate hc).trans hi)
        (h.turn_lt _ _ hi) ?_
      simpa [Book.State.advance, hmessage, hpriority hc] using hbefore
  · intro c hc
    rcases mem_insertBefore.mp hc with rfl | hc
    · simp [stored, Buffer.contents, take_copyBuffer _ _ hsize, Book.State.advance, hmessage]
    · have hcb : c ≠ b := fun heq => hb (heq ▸ hc)
      simpa [stored, hcb, Book.State.advance] using h.contents c hc
  · intro c hc
    rcases mem_insertBefore.mp hc with rfl | hc
    · simp [stored, copyBuffer, hsize]
    · have hcb : c ≠ b := fun heq => hb (heq ▸ hc)
      simpa [stored, hcb] using h.filled c hc
  · intro t hwaits hsending
    exact (h.sender t hwaits hsending).imp fun m hm => (hwaiting m t).mpr hm
  · intro m t hm
    obtain ⟨hwaits, hsending, hsent, hunique⟩ := h.waiting m t ((hwaiting m t).mp hm)
    exact ⟨hwaits, hsending, hsent, fun k hk => hunique k ((hwaiting k t).mp hk)⟩

end Store

variable [DecidableEq T]

section

variable (h : Refines s a number) (ht : ops.waits s.state.waitQueue t = false)
include h ht

/-- A thread starts to wait with its message. -/
theorem Refines.waitToSend {n : Nat} (hn : a.fate n = some old)
    (hold : old.IsClosed) (hsent : w.sent = a.message n)
    (hgiven : w.option.toNat ≤ w.buffer.length) (hw : w.returnCode = .successful) :
    Refines
      { s with
        state := { s.state with
          waitQueue := ops.enqueue s.state.waitQueue t
          wait := update s.state.wait t w }
        sending := update s.sending t true }
      ((a.assign n (.waiting t)).enqueue t) number := by
  have hpending (m turn : Nat) : (a.assign n (.waiting t)).fate m = some (.pending turn) ↔
      a.fate m = some (.pending turn) := a.assign_fate_eq hn (hold.1 turn) (by simp)
  have hne {u : T} (hu : ops.waits s.state.waitQueue u = true) : u ≠ t := by
    rintro rfl
    simp [ht] at hu
  have hother {m : Nat} {u : T} (hu : u ≠ t) :
      (a.assign n (.waiting t)).fate m = some (.waiting u) ↔ a.fate m = some (.waiting u) :=
    a.assign_fate_eq hn (hold.2 u) (by simpa using hu.symm)
  have hself {m : Nat} (hm : (a.assign n (.waiting t)).fate m = some (.waiting t)) : m = n := by
    by_contra hmn
    rw [a.assign_fate_of_ne _ hmn] at hm
    exact hne (h.waiting m t hm).1 rfl
  refine ⟨by simp [Book.State.enqueue, Book.State.assign, h.waitQueue], h.capacity, h.size,
    fun m hm => h.fresh_assign hn _ hm, ?_, ?_, ?_, h.contents, h.filled, ?_, ?_, ?_, ?_,
    h.numbered, h.history⟩
  · intro m turn hm
    exact h.turn_lt m turn ((hpending m turn).mp hm)
  · intro m
    refine Iff.trans ?_ (h.pending m)
    exact exists_congr (hpending m)
  · refine h.ordered.imp fun {i j} hij => ?_
    exact precedes_congr hij rfl rfl (fun k => (hpending _ k).mpr) fun k => (hpending _ k).mpr
  · intro u hwaits hsending
    rcases (ops.waits_enqueue _ _ _).mp hwaits with rfl | hwaits
    · exact ⟨n, a.assign_fate_self n _⟩
    · have hu := hne hwaits
      have hsending : s.sending u = true := by simpa [hu] using hsending
      exact (h.sender u hwaits hsending).imp fun m hm => (hother hu).mpr hm
  · intro u hwaits hsending
    by_cases hu : u = t
    · subst hu
      simpa using hgiven
    · have hwaits := ((ops.waits_enqueue _ _ _).mp hwaits).resolve_left hu
      simpa [hu] using h.given u hwaits (by simpa [hu] using hsending)
  · intro m u hm
    by_cases hu : u = t
    · subst hu
      obtain rfl := hself hm
      exact ⟨(ops.waits_enqueue _ _ _).mpr (.inl rfl), by simp,
        by simpa [Book.State.enqueue] using hsent, fun k hk => hself hk⟩
    · obtain ⟨hwaits, hsending, hmsg, hunique⟩ := h.waiting m u ((hother hu).mp hm)
      exact ⟨(ops.waits_enqueue _ _ _).mpr (.inr hwaits), by simpa [hu] using hsending,
        by simpa [hu, Book.State.enqueue] using hmsg, fun k hk => hunique k ((hother hu).mp hk)⟩
  · intro u hwaits
    by_cases hu : u = t
    · subst hu
      simpa using hw
    · simpa [hu] using h.returnCode u (((ops.waits_enqueue _ _ _).mp hwaits).resolve_left hu)

/-- A thread starts to wait for a message. -/
theorem Refines.waitToReceive (hw : w.returnCode = .successful) :
    Refines
      { s with
        state := { s.state with
          waitQueue := ops.enqueue s.state.waitQueue t
          wait := update s.state.wait t w }
        sending := update s.sending t false }
      (a.enqueue t) number := by
  have hne {u : T} (hu : ops.waits s.state.waitQueue u = true) : u ≠ t := by
    rintro rfl
    simp [ht] at hu
  refine { h with
    waitQueue := by simp [Book.State.enqueue, h.waitQueue]
    sender := ?_, given := ?_, waiting := ?_, returnCode := ?_ }
  · intro u hwaits hsending
    rcases (ops.waits_enqueue _ _ _).mp hwaits with rfl | hwaits
    · simp at hsending
    · exact h.sender u hwaits (by simpa [hne hwaits] using hsending)
  · intro u hwaits hsending
    rcases (ops.waits_enqueue _ _ _).mp hwaits with rfl | hwaits
    · simp at hsending
    · simpa [hne hwaits] using h.given u hwaits (by simpa [hne hwaits] using hsending)
  · intro m u hm
    obtain ⟨hwaits, hsending, hmsg, hunique⟩ := h.waiting m u hm
    have hu := hne hwaits
    exact ⟨(ops.waits_enqueue _ _ _).mpr (.inr hwaits), by simpa [hu] using hsending,
      by simpa [hu, Book.State.enqueue] using hmsg, hunique⟩
  · intro u hwaits
    by_cases hu : u = t
    · subst hu
      simpa using hw
    · simpa [hu] using h.returnCode u (((ops.waits_enqueue _ _ _).mp hwaits).resolve_left hu)

end

end Rtems.MessageQueue
