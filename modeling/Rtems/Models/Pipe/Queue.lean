import Rtems.Models.Pipe.Calls

/-!
# A pipe is a byte queue

The bytes that writes put into the pipe are the bytes that reads took from it followed by the
bytes in the ring, in the order in which the calls held the lock.
-/

namespace Rtems.Pipe

/-- The bytes of a log. -/
def logBytes (log : List (Nat × List UInt8)) : List UInt8 :=
  (log.map Prod.snd).flatten

/-- The pieces of one call in a log. -/
def logPieces (log : List (Nat × List UInt8)) (call : Nat) : List (List UInt8) :=
  (log.filter fun piece => piece.1 == call).map Prod.snd

/-- The pieces that a call moved. -/
def State.moved (s : State) (call : Nat) (op : Op) : List (List UInt8) :=
  match op with
  | .read .. => logPieces s.returned call
  | .write .. => logPieces s.accepted call

/-- Whether a call writes. -/
def Op.writes : Op → Bool
  | .read .. => false
  | .write .. => true

/-- Every piece of a log belongs to a call of a kind. -/
def LogOf (calls : List Call) (writes : Bool) (log : List (Nat × List UInt8)) : Prop :=
  ∀ piece ∈ log, ∃ call, calls[piece.1]? = some call ∧ call.op.writes = writes

/-- The pipe, its calls and what they moved. -/
structure Consistent (size : Nat) (s : State) : Prop where
  /-- The size is the one of the new pipe. -/
  size_eq : s.pipe.size = size
  /-- The places are in order. -/
  sound : s.pipe.Sound
  /-- What was accepted was returned or is in the ring. -/
  queue : logBytes s.accepted = logBytes s.returned ++ s.pipe.queue
  /-- Every call is where its pieces say. -/
  calls : ∀ i call, s.calls[i]? = some call →
    CallFits size call.op call.phase (s.moved i call.op)
  /-- Writes put the accepted pieces into the pipe. -/
  accepted : LogOf s.calls true s.accepted
  /-- Reads took the returned pieces from the pipe. -/
  returned : LogOf s.calls false s.returned

theorem logBytes_append (log : List (Nat × List UInt8)) (call : Nat)
    (pieces : List (List UInt8)) :
    logBytes (log ++ pieces.map fun bytes => (call, bytes)) =
      logBytes log ++ pieces.flatten := by
  simp [logBytes, Function.comp_def]

/-- The pieces of a call in a log that goes on with pieces of a call. -/
theorem logPieces_append (log : List (Nat × List UInt8)) (i call : Nat)
    (pieces : List (List UInt8)) :
    logPieces (log ++ pieces.map fun bytes => (call, bytes)) i =
      logPieces log i ++ if i = call then pieces else [] := by
  unfold logPieces
  split
  · next h =>
    subst h
    simp [List.filter_map, Function.comp_def]
  · next h =>
    have hne : ¬call = i := fun he => h he.symm
    simp [List.filter_map, Function.comp_def, hne]

variable {log : List (Nat × List UInt8)} {calls : List Call} {writes : Bool}

theorem LogOf.fresh (h : LogOf calls writes log) : logPieces log calls.length = [] := by
  simp only [logPieces, List.map_eq_nil_iff, List.filter_eq_nil_iff, beq_iff_eq]
  intro piece hmem heq
  obtain ⟨call, hcall, -⟩ := h piece hmem
  rw [heq, List.getElem?_length] at hcall
  cases hcall

theorem LogOf.congr {calls calls' : List Call} (h : LogOf calls writes log)
    (hkeep : ∀ (i : Nat) (c : Call), calls[i]? = some c →
      ∃ c', calls'[i]? = some c' ∧ c'.op = c.op) :
    LogOf calls' writes log := by
  intro piece hmem
  obtain ⟨call, hcall, hwrites⟩ := h piece hmem
  obtain ⟨call', hcall', hop⟩ := hkeep _ _ hcall
  exact ⟨call', hcall', by rw [hop, hwrites]⟩

/-- A log goes on with pieces of a call. -/
theorem LogOf.append
    (h : LogOf calls writes log) {i : Nat} {call : Call} (hcall : calls[i]? = some call)
    (hwrites : call.op.writes = writes) (pieces : List (List UInt8)) :
    LogOf calls writes (log ++ pieces.map fun bytes => (i, bytes)) := by
  intro piece hmem
  rcases List.mem_append.mp hmem with hold | hnew
  · exact h piece hold
  · obtain ⟨bytes, -, rfl⟩ := List.mem_map.mp hnew
    exact ⟨call, hcall, hwrites⟩

variable {j : Nat} {pieces : List (List UInt8)}

section Record

variable {size i : Nat} {s : State} {op : Op} {phase : Phase} {effect : Effect}

theorem record_calls (hcall : s.calls[i]? = some ⟨op, phase⟩) :
    (s.record i op effect).calls[i]? = some ⟨op, effect.phase⟩ := by
  obtain ⟨hlt, -⟩ := List.getElem?_eq_some_iff.mp hcall
  exact List.getElem?_set_self hlt

theorem record_calls_ne (hne : j ≠ i) :
    (s.record i op effect).calls[j]? = s.calls[j]? :=
  List.getElem?_set_ne (Ne.symm hne)

/-- No call changes into another one. -/
theorem record_keeps (hcall : s.calls[i]? = some ⟨op, phase⟩) {c : Call}
    (hc : s.calls[j]? = some c) :
    ∃ c', (s.record i op effect).calls[j]? = some c' ∧ c'.op = c.op := by
  by_cases hj : j = i
  · subst hj
    rw [hcall] at hc
    cases hc
    exact ⟨_, record_calls hcall, rfl⟩
  · exact ⟨c, (record_calls_ne hj).trans hc, rfl⟩

/-- The pieces of a call after a call was recorded. -/
theorem record_moved (i j : Nat) (op op' : Op) (hop : j = i → op' = op) :
    (s.record i op effect).moved j op' =
      s.moved j op' ++ if j = i then effect.moved else [] := by
  by_cases hj : j = i
  · have := hop hj
    subst hj this
    cases op' with
    | read count nodelay => exact logPieces_append ..
    | write count nodelay data => exact logPieces_append ..
  · have hskip : ∀ log, logPieces (log ++ effect.moved.map fun bytes => (i, bytes)) j =
        logPieces log j := by
      intro log
      rw [logPieces_append, if_neg hj, List.append_nil]
    rw [if_neg hj, List.append_nil]
    cases op' with
    | read =>
      cases op with
      | read => exact hskip _
      | write => rfl
    | write =>
      cases op with
      | read => rfl
      | write => exact hskip _

/-- What was accepted is still what was returned and what is in the ring. -/
theorem QueueEffect.queue_record (hq : QueueEffect op s.pipe effect)
    (h : logBytes s.accepted = logBytes s.returned ++ s.pipe.queue) :
    logBytes (s.record i op effect).accepted =
      logBytes (s.record i op effect).returned ++ (s.record i op effect).pipe.queue := by
  have hqueue := hq.queue
  cases op with
  | read count nodelay =>
    simp only [State.record, logBytes_append]
    rw [h, hqueue, List.append_assoc]
  | write count nodelay data =>
    simp only [State.record, logBytes_append]
    rw [h, hqueue, List.append_assoc]

/-- Recording what a call did keeps the state consistent. -/
theorem Consistent.record (h : Consistent size s) (hcall : calls[i]? = some ⟨op, phase⟩)
    (hothers : ∀ j c, j ≠ i → calls[j]? = some c → s.calls[j]? = some c)
    (hkeep : ∀ (j : Nat) (c : Call), s.calls[j]? = some c →
      ∃ c', calls[j]? = some c' ∧ c'.op = c.op)
    (hq : QueueEffect op s.pipe effect)
    (hfits : CallFits size op effect.phase (s.moved i op ++ effect.moved)) :
    Consistent size ({ s with calls }.record i op effect) := by
  have haccepted : LogOf ({ s with calls }.record i op effect).calls true s.accepted :=
    (h.accepted.congr hkeep).congr fun _ _ hc => record_keeps hcall hc
  have hreturned : LogOf ({ s with calls }.record i op effect).calls false s.returned :=
    (h.returned.congr hkeep).congr fun _ _ hc => record_keeps hcall hc
  refine ⟨hq.size.trans h.size_eq, hq.sound, QueueEffect.queue_record hq h.queue, ?_, ?_, ?_⟩
  · intro j c hc
    by_cases hj : j = i
    · subst hj
      rw [record_calls hcall] at hc
      cases hc
      rw [record_moved j j op op fun _ => rfl, if_pos rfl]
      exact hfits
    · rw [record_calls_ne hj] at hc
      rw [record_moved i j op c.op fun he => absurd he hj, if_neg hj, List.append_nil]
      exact h.calls j c (hothers j c hj hc)
  · cases op with
    | read count nodelay => exact haccepted
    | write count nodelay data => exact haccepted.append (record_calls hcall) rfl _
  · cases op with
    | read count nodelay => exact hreturned.append (record_calls hcall) rfl _
    | write count nodelay data => exact hreturned

end Record

section Steps

variable {w size : Nat} {s : State}

/-- The chunk of a call that begins. -/
def Op.firstChunk (size : Nat) : Op → Int
  | .read .. => 0
  | .write count _ _ => if count ≤ size then (count : Int) else 1

variable {op : Op} {written chunk : Int} {pipe : Control}

/-- What a call does after a wait. -/
theorem resume_spec (hw : 31 ≤ w) (hpipe : pipe.Sound)
    (h : CallFits pipe.size op (.waiting written chunk) pieces) :
    ∃ effect, resume w pipe written chunk op = some effect ∧ QueueEffect op pipe effect ∧
      CallFits pipe.size op effect.phase (pieces ++ effect.moved) := by
  cases op with
  | read count nodelay =>
    obtain ⟨hq, hcall⟩ := readLocked_spec hpipe count nodelay
    rw [(ReadCall.waiting h _ _ rfl).1]
    exact ⟨_, rfl, hq, hcall⟩
  | write count nodelay data =>
    simp only [resume]
    split
    · refine ⟨_, rfl, .nothing hpipe _ _, ?_⟩
      rw [List.append_nil]
      exact WriteCall.stop h (by decide)
    · exact writeLoop_spec hw hpipe h

/-- A call that ends because it was interrupted. -/
theorem interrupted_spec (hpipe : pipe.Sound)
    (h : CallFits pipe.size op (.waiting written chunk) pieces) :
    QueueEffect op pipe ⟨pipe, [], interrupted written⟩ ∧
      CallFits pipe.size op (interrupted written) (pieces ++ []) := by
  refine ⟨.nothing hpipe _ _, ?_⟩
  rw [List.append_nil]
  cases op with
  | read count nodelay =>
    obtain ⟨rfl, rfl⟩ := ReadCall.waiting h _ _ rfl
    exact .ends _ (by decide)
  | write count nodelay data => exact WriteCall.stop h (by decide)

section

variable (hsmall : ∀ count nodelay data, op = .write count nodelay data → count < 2 ^ 31)
include hsmall

/-- A call begins as if it had waited before it did anything. -/
theorem enter_eq :
    enter w pipe op = resume w pipe 0 (op.firstChunk pipe.size) op := by
  cases op with
  | read count nodelay => rfl
  | write count nodelay data =>
    have hint : toInt (if count ≤ pipe.size then (count : Int) else 1) =
        if count ≤ pipe.size then (count : Int) else 1 := by
      split
      · exact toInt_of_lt (hsmall _ _ _ rfl)
      · rfl
    simp only [enter, resume, Op.firstChunk, hint]
    rfl

/-- A call that begins has moved nothing. -/
theorem CallFits.first (hpos : ∀ nodelay data, op ≠ .write 0 nodelay data) :
    CallFits size op (.waiting 0 (op.firstChunk size)) [] := by
  cases op with
  | read count nodelay => exact .waits _ _
  | write count nodelay data =>
    have hcount : 0 < count := by
      rcases Nat.eq_zero_or_pos count with rfl | hpos'
      · exact absurd rfl (hpos nodelay data)
      · exact hpos'
    refine ⟨hsmall _ _ _ rfl, rfl, Nat.zero_le _, ?_, ?_, fun _ => .inl rfl⟩
    · intro written chunk h
      cases h
      exact ⟨rfl, hcount, rfl, fun _ => rfl⟩
    · intro ret h
      cases h

end

/-- A new call is recorded. -/
theorem Consistent.record_new (h : Consistent size s) {effect : Effect}
    (hq : QueueEffect op s.pipe effect) (hfits : CallFits size op effect.phase effect.moved) :
    Consistent size ((s.arrive op).record s.calls.length op effect) := by
  have hnone : s.moved s.calls.length op = [] := by
    cases op with
    | read count nodelay => exact h.returned.fresh
    | write count nodelay data => exact h.accepted.fresh
  apply h.record (List.getElem?_concat_length ..)
  · intro j c hj hc
    have hlt : j < s.calls.length := by
      have := (List.getElem?_eq_some_iff.mp hc).1
      rw [List.length_append, List.length_singleton] at this
      omega
    rwa [List.getElem?_append_left hlt] at hc
  · intro j c hc
    have hlt := (List.getElem?_eq_some_iff.mp hc).1
    exact ⟨c, by rwa [List.getElem?_append_left hlt], rfl⟩
  · exact hq
  · rwa [hnone]

/-- A call begins and the state stays consistent. -/
theorem Consistent.begin (hw : 31 ≤ w) (h : Consistent size s)
    (hsmall : ∀ count nodelay data, op = .write count nodelay data → count < 2 ^ 31)
    (locked : Bool) : ∃ t, s.begin w op locked = some t ∧ Consistent size t := by
  by_cases hzero : ∃ nodelay data, op = .write 0 nodelay data
  · obtain ⟨nodelay, data, rfl⟩ := hzero
    refine ⟨_, rfl, h.record_new (.nothing h.sound _ _) ?_⟩
    refine ⟨by decide, rfl, Nat.zero_le _, ?_, ?_, fun _ => .inl rfl⟩
    · intro written chunk hphase
      cases hphase
    · intro ret h
      cases h
      exact reports_zero le_rfl
  · have hpos : ∀ nodelay data, op ≠ .write 0 nodelay data :=
      fun nodelay data he => hzero ⟨nodelay, data, he⟩
    have hfirst : CallFits size op (.waiting 0 (op.firstChunk size)) [] :=
      .first hsmall hpos
    have hbegin : s.begin w op locked =
        if locked then (enter w s.pipe op).map ((s.arrive op).record s.calls.length op)
        else some ((s.arrive op).record s.calls.length op ⟨s.pipe, [], interrupted 0⟩) := by
      unfold State.begin
      split
      · next nodelay data => exact absurd rfl (hpos nodelay data)
      · rfl
    rw [hbegin]
    rw [← h.size_eq] at hfirst
    cases locked with
    | true =>
      obtain ⟨effect, hresume, hq, hfits⟩ := resume_spec hw h.sound hfirst
      rw [if_pos rfl, enter_eq hsmall, hresume]
      rw [h.size_eq] at hfits
      exact ⟨_, rfl, h.record_new hq hfits⟩
    | false =>
      obtain ⟨hq, hfits⟩ := interrupted_spec h.sound hfirst
      rw [h.size_eq] at hfits
      exact ⟨_, rfl, h.record_new hq hfits⟩

/-- A wait ends and the state stays consistent. -/
theorem Consistent.wake (hw : 31 ≤ w) (h : Consistent size s) {i : Nat}
    (hcall : s.calls[i]? = some ⟨op, .waiting written chunk⟩)
    (success locked : Bool) :
    ∃ t, step w s (.wake i success locked) = some t ∧ Consistent size t := by
  have hwait := h.calls i _ hcall
  rw [← h.size_eq] at hwait
  have hrecord : ∀ {effect : Effect}, QueueEffect op s.pipe effect →
      CallFits s.pipe.size op effect.phase (s.moved i op ++ effect.moved) →
      Consistent size (s.record i op effect) := by
    intro effect hq hfits
    rw [h.size_eq] at hfits
    exact h.record hcall (fun _ _ _ hc => hc) (fun _ c hc => ⟨c, hc, rfl⟩) hq hfits
  by_cases hgo : success = true ∧ locked = true
  · obtain ⟨effect, hresume, hq, hfits⟩ := resume_spec hw h.sound hwait
    refine ⟨s.record i op effect, ?_, hrecord hq hfits⟩
    simp only [step, hcall, hgo, and_self, if_true, hresume, Option.map_some]
  · obtain ⟨hq, hfits⟩ := interrupted_spec h.sound hwait
    refine ⟨s.record i op ⟨s.pipe, [], interrupted written⟩, ?_, hrecord hq hfits⟩
    simp only [step, hcall, if_neg hgo]

theorem Consistent.ends (h : Consistent size s) (readers writers : Nat) :
    Consistent size { s with pipe := { s.pipe with readers, writers } } :=
  { h with sound := { h.sound with } }

end Steps

end Rtems.Pipe
