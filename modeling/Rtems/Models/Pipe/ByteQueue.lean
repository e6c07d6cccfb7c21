import Rtems.Models.Pipe.Queue

/-!
# The runs of a pipe

In every run whose writes are of fewer than `2 ^ 31` bytes, reads return what writes accepted in
order, small writes are accepted as a whole or not at all, and every call returns what it moved.
A write counts what it has written in an `int`, so a longer one can return something else.
-/

namespace Rtems.Pipe

/-- The number of bytes of a write fits into an `int`. -/
def Action.Small : Action → Prop
  | .begin (.write count _ _) _ => count < 2 ^ 31
  | _ => True

instance (a : Action) : Decidable a.Small :=
  match a with
  | .begin (.write count _ _) _ => inferInstanceAs (Decidable (count < 2 ^ 31))
  | .begin (.read _ _) _ => .isTrue trivial
  | .wake _ _ _ => .isTrue trivial
  | .ends _ _ => .isTrue trivial

/-- What can happen: every call can begin and every wait can end. -/
def Action.Enabled (s : State) : Action → Prop
  | .wake call _ _ => ∃ op written chunk, s.calls[call]? = some ⟨op, .waiting written chunk⟩
  | _ => True

section Runs

variable {w size : Nat} {s : State}

/-- A step has a result, and the state stays consistent. -/
theorem Consistent.step (hw : 31 ≤ w) (h : Consistent size s) {a : Action} (hsmall : a.Small)
    (henabled : a.Enabled s) : ∃ t, Pipe.step w s a = some t ∧ Consistent size t := by
  cases a with
  | begin op locked =>
    apply h.begin hw
    intro count nodelay data he
    subst he
    exact hsmall
  | wake call success locked =>
    obtain ⟨op, written, chunk, hcall⟩ := henabled
    exact h.wake hw hcall success locked
  | ends readers writers => exact ⟨_, rfl, h.ends readers writers⟩

/-- An action with a result was enabled. -/
theorem Action.enabled_of_step {a : Action} {t : State} (h : Pipe.step w s a = some t) :
    a.Enabled s := by
  cases a with
  | begin op locked => trivial
  | wake call success locked =>
    simp only [Pipe.step] at h
    split at h
    · next op written chunk hcall => exact ⟨op, written, chunk, hcall⟩
    · cases h
  | ends readers writers => trivial

/-- Every state of a run of small writes is consistent. -/
theorem run_consistent (hw : 31 ≤ w) (hsize : 0 < size) {buffer : Nat → UInt8}
    {actions : List Action}
    (run : Run (step w) (fun _ a => a.Small) (initialState size buffer) actions s) :
    Consistent size s := by
  apply run.invariant _ ⟨rfl, ⟨hsize, Nat.zero_le _⟩, rfl, nofun, nofun, nofun⟩
  intro s a t h hsmall hstep
  obtain ⟨t', hstep', ht⟩ := h.step hw hsmall (Action.enabled_of_step hstep)
  rw [hstep] at hstep'
  cases hstep'
  exact ht

theorem CallFits.returns {op : Op} {ret : Int} {pieces : List (List UInt8)}
    (h : CallFits size op (.done ret) pieces) : Reports pieces.flatten.length ret := by
  cases op with
  | read count nodelay => exact ReadCall.returns h ret rfl
  | write count nodelay data => exact WriteCall.returns h ret rfl

/-- A pipe is a byte queue with atomic small writes. -/
theorem pipe_is_byte_queue (hw : 32 ≤ w) (hsize : 0 < size) {buffer : Nat → UInt8}
    {actions : List Action}
    (run : Run (step w) (fun _ a => a.Small) (initialState size buffer) actions s) :
    -- reads return what writes accepted, in the order of the lock
    logBytes s.returned <+: logBytes s.accepted ∧
    LogOf s.calls true s.accepted ∧ LogOf s.calls false s.returned ∧
    -- the length counts what was not read yet
    s.pipe.length + (logBytes s.returned).length = (logBytes s.accepted).length ∧
    s.pipe.size = size ∧ s.pipe.length ≤ s.pipe.size ∧ s.pipe.start < s.pipe.size ∧
    -- small writes are accepted at once or not at all, every write from its own data
    (∀ (i count : Nat) (nodelay : Bool) (data : Nat → UInt8) (phase : Phase),
      s.calls[i]? = some ⟨.write count nodelay data, phase⟩ →
      (logPieces s.accepted i).flatten =
        segment data 0 (logPieces s.accepted i).flatten.length ∧
      (count ≤ size →
        logPieces s.accepted i = [] ∨ logPieces s.accepted i = [segment data 0 count])) ∧
    -- a call that moved something returns how much, and another one nothing positive
    (∀ (i : Nat) (op : Op) (ret : Int), s.calls[i]? = some ⟨op, .done ret⟩ →
      (0 < (s.moved i op).flatten.length → ret = (s.moved i op).flatten.length) ∧
      ((s.moved i op).flatten.length = 0 → ret ≤ 0)) ∧
    -- and nothing gets stuck
    (∀ a : Action, a.Small → a.Enabled s → ∃ t, step w s a = some t) := by
  have hw' : 31 ≤ w := Nat.le_of_succ_le hw
  have h := run_consistent hw' hsize run
  have hlen := congrArg List.length h.queue
  rw [List.length_append, Control.length_queue] at hlen
  refine ⟨⟨_, h.queue.symm⟩, h.accepted, h.returned, by omega, h.size_eq, h.sound.length_le,
    h.sound.start_lt, ?_, ?_, ?_⟩
  · intro i count nodelay data phase hcall
    have hfits : WriteCall size count data phase (logPieces s.accepted i) :=
      h.calls i _ hcall
    exact ⟨hfits.bytes, hfits.whole⟩
  · intro i op ret hcall
    have hreports := (h.calls i _ hcall).returns
    exact ⟨hreports.moved, hreports.nothing⟩
  · intro a hsmall henabled
    obtain ⟨t, ht, -⟩ := h.step hw' hsmall henabled
    exact ⟨t, ht⟩

end Runs

/-- Two writers and a reader of a small ring; the second write waits until there is space. -/
private def twoWriters : List Action :=
  [.ends 1 2, .begin (.write 3 false fun j => j.toUInt8) true,
    .begin (.write 2 false fun j => (10 + j).toUInt8) true, .begin (.read 2 false) true,
    .wake 1 true true, .begin (.read 4 true) true]

theorem pipe_is_byte_queue_twoWriters :
    ∃ s, Run (step 32) (fun _ a => a.Small) (initialState 4 fun _ => 0) twoWriters s ∧
      logBytes s.returned = [0, 1, 2, 10, 11] ∧
      logBytes s.returned <+: logBytes s.accepted := by
  refine Run.exists_of_exec ⟨_, rfl, fun hrun => ⟨rfl, ?_⟩⟩
  exact (pipe_is_byte_queue (by decide) (by decide) hrun).1

section Wrap

variable {w count m fuel : Nat} {nodelay : Bool} {data : Nat → UInt8} {pipe : Control}

/-- The smallest `int` is a large unsigned number. -/
theorem toUnsigned_min (hw : 32 ≤ w) : ¬toUnsigned w (-2 ^ 31) < 2 ^ 31 := by
  have hpow : (2 : Int) ^ 32 ≤ 2 ^ w := by
    exact_mod_cast Nat.pow_le_pow_right Nat.zero_lt_two hw
  unfold toUnsigned
  generalize (2 : Int) ^ w = n at hpow
  have hmod : (-2 ^ 31 : Int) % n = -2 ^ 31 + n := by
    rw [← Int.add_emod_right]
    apply Int.emod_eq_of_lt
    · omega
    · omega
  omega

/-- A write whose count reaches `2 ^ 31` returns zero. -/
theorem writeLoop_wrap (hw : 32 ≤ w) (hcount : count = 2 ^ 31) (hm : m < count)
    (hspace : count - m ≤ pipe.space) :
    writeLoop w count nodelay data (fuel + 1) pipe m 1 =
      some ⟨pipe.put (fun j => data (m + j)) (count - m),
        [(List.range (count - m)).map fun j => data (m + j)], .done 0⟩ := by
  have hfit : ∀ n ≤ count, toUnsigned w n = n := by
    intro n hn
    have hlt : n < 2 ^ 32 := by omega
    exact toUnsigned_of_lt (hlt.trans_le (Nat.pow_le_pow_right Nat.zero_lt_two hw))
  have hm' : toUnsigned w m = m := hfit m hm.le
  have hone : ¬pipe.space < toUnsigned 32 1 := by
    rw [show toUnsigned 32 1 = 1 from rfl]
    omega
  have hrest : toUnsigned w ((count : Int) - m) = count - m := by
    rw [← Int.ofNat_sub hm.le]
    exact hfit _ (Nat.sub_le ..)
  have hnext : toInt ((m : Int) + (count - m : Nat)) = -2 ^ 31 := by
    rw [← Int.natCast_add, Nat.add_sub_cancel' hm.le, hcount]
    rfl
  have hend : ¬toUnsigned w (-2 ^ 31) < count := by
    rw [hcount]
    exact toUnsigned_min hw
  have hstop : ∀ pipe', writeLoop w count nodelay data fuel pipe' (-2 ^ 31) 1 =
      some ⟨pipe', [], .done 0⟩ := by
    intro pipe'
    rw [writeLoop.eq_def]
    simp only [hend, if_false]
    rfl
  rw [writeLoop.eq_def]
  simp only [hm', hm, if_true, hone, if_false, hrest, Nat.min_eq_left hspace, hnext]
  exact congrArg (Option.map _) (hstop _)

end Wrap

section Long

variable {count k : Nat} {s : State}

/-- The write of a number of zeros. -/
def zeros (count : Nat) : Op :=
  .write count false fun _ => 0

/-- A write has filled a ring of 512 bytes a number of times and waits. -/
structure Filled (count k : Nat) (s : State) : Prop where
  /-- The write waits. -/
  call : s.calls[0]? = some ⟨zeros count, .waiting (512 * k : Nat) 1⟩
  /-- The size of the ring. -/
  size_eq : s.pipe.size = 512
  /-- The ring is full. -/
  length_eq : s.pipe.length = 512
  /-- There is a reader. -/
  readers : s.pipe.readers ≠ 0
  /-- What the write moved. -/
  moved : (logPieces s.accepted 0).flatten.length = 512 * k

/-- A read empties the ring. -/
theorem Filled.drain (h : Filled count k s) :
    ∃ t, step 64 s (.begin (.read 512 false) true) = some t ∧
      t.calls[0]? = some ⟨zeros count, .waiting (512 * k : Nat) 1⟩ ∧ t.pipe.space = 512 ∧
      t.pipe.size = 512 ∧ t.pipe.readers ≠ 0 ∧ t.accepted = s.accepted := by
  have hlen : ¬s.pipe.length = 0 := by
    rw [h.length_eq]
    decide
  have hread : readLocked s.pipe 512 false = readChunk s.pipe 512 := if_neg hlen
  have hcalls : 0 < s.calls.length := (List.getElem?_eq_some_iff.mp h.call).1
  refine ⟨(s.arrive (.read 512 false)).record s.calls.length (.read 512 false)
    (readChunk s.pipe 512), ?_, ?_, ?_, h.size_eq, h.readers, rfl⟩
  · rw [← hread]
    rfl
  · rw [record_calls_ne hcalls.ne]
    exact (List.getElem?_append_left hcalls).trans h.call
  · show s.pipe.size - (s.pipe.length - min 512 s.pipe.length) = 512
    rw [h.size_eq, h.length_eq]
    rfl

theorem wake_zeros {effect : Effect}
    (hcall : s.calls[0]? = some ⟨zeros count, .waiting (512 * k : Nat) 1⟩)
    (hreaders : s.pipe.readers ≠ 0)
    (hloop : writeLoop 64 count false (fun _ => 0) count s.pipe (512 * k : Nat) 1 =
      some effect) :
    step 64 s (.wake 0 true true) = some (s.record 0 (zeros count) effect) := by
  simp only [step, hcall, and_self, if_true, zeros, resume, if_neg hreaders, hloop,
    Option.map_some]

/-- A pass of the long write over an empty ring. -/
theorem writeLoop_fill {pipe : Control} (hcount : count = 2 ^ 31) (hk : 512 * (k + 1) < 2 ^ 31)
    (hspace : pipe.space = 512) :
    writeLoop 64 count false (fun _ => 0) count pipe (512 * k : Nat) 1 =
      some ⟨pipe.put (fun _ => 0) 512, [(List.range 512).map fun _ => 0],
        .waiting (512 * (k + 1) : Nat) 1⟩ := by
  have hmin : min (count - 512 * k) pipe.space = 512 := by omega
  have hne : ¬512 * k + 512 = count := by omega
  have hbound : count < 2 ^ 64 := by omega
  obtain ⟨fuel, hfuel⟩ : ∃ fuel, count = fuel + 1 := ⟨count - 1, by omega⟩
  have hpass := @writeLoop_pass pipe 64 count fuel (512 * k) 1 false (fun _ => 0) hbound
    (by omega) (by omega) (by omega) (by omega)
  rw [hmin, if_neg hne, ← hfuel] at hpass
  exact hpass

theorem length_moved_record {t : State} {effect : Effect} {bytes : List UInt8}
    (haccepted : t.accepted = s.accepted) (heffect : effect.moved = [bytes]) :
    (logPieces (t.record 0 (zeros count) effect).accepted 0).flatten.length =
      (logPieces s.accepted 0).flatten.length + bytes.length := by
  have happend := logPieces_append t.accepted 0 0 effect.moved
  rw [if_pos rfl, heffect, haccepted] at happend
  simp only [State.record, zeros, heffect, haccepted, happend, List.flatten_append,
    List.flatten_singleton, List.length_append]

/-- The write fills the ring once more. -/
theorem Filled.round (hcount : count = 2 ^ 31) (h : Filled count k s)
    (hk : 512 * (k + 1) < 2 ^ 31) :
    ∃ t, Run (step 64) (fun _ _ => True) s
      [.begin (.read 512 false) true, .wake 0 true true] t ∧ Filled count (k + 1) t := by
  obtain ⟨t, hdrain, hcall, hspace, hsize, hreaders, haccepted⟩ := h.drain
  have hwake := wake_zeros hcall hreaders (writeLoop_fill hcount hk hspace)
  refine ⟨_, .snoc (.snoc .nil trivial hdrain) trivial hwake, ?_⟩
  refine ⟨record_calls hcall, hsize, ?_, hreaders, ?_⟩
  · show t.pipe.length + 512 = 512
    have hlength : t.pipe.size - t.pipe.length = 512 := hspace
    omega
  · rw [length_moved_record haccepted rfl, h.moved, List.length_map, List.length_range]
    omega

/-- The write begins when the ring is empty. -/
theorem begin_zeros {effect : Effect} (hcount : s.pipe.size < count)
    (hreaders : s.pipe.readers ≠ 0)
    (hloop : writeLoop 64 count false (fun _ => 0) count s.pipe 0 1 = some effect) :
    step 64 s (.begin (zeros count) true) =
      some ((s.arrive (zeros count)).record s.calls.length (zeros count) effect) := by
  have henter : enter 64 s.pipe (zeros count) = some effect := by
    simp only [enter, zeros, if_neg hreaders, if_neg (Nat.not_le_of_lt hcount)]
    exact hloop
  obtain ⟨fuel, rfl⟩ : ∃ fuel, count = fuel + 1 := ⟨count - 1, by omega⟩
  exact congrArg (Option.map _) henter

/-- The first pass of the write. -/
theorem filled_one (hcount : count = 2 ^ 31) :
    ∃ t, Run (step 64) (fun _ _ => True) (initialState 512 fun _ => 0)
      [.ends 1 1, .begin (zeros count) true] t ∧ Filled count 1 t := by
  have hsize : 512 < count := by omega
  have hloop := @writeLoop_fill count 0 ⟨fun _ => 0, 512, 0, 0, 1, 1⟩ hcount (by decide) rfl
  have hbegin := @begin_zeros count ⟨⟨fun _ => 0, 512, 0, 0, 1, 1⟩, [], [], []⟩ _ hsize
    Nat.one_ne_zero hloop
  refine ⟨_, .snoc (.snoc .nil trivial rfl) trivial hbegin, ?_⟩
  refine ⟨rfl, rfl, rfl, Nat.one_ne_zero, ?_⟩
  refine (@length_moved_record count (initialState 512 fun _ => 0) _
    ⟨_, [(List.range 512).map fun _ => 0], _⟩ _ rfl rfl).trans ?_
  rw [List.length_map, List.length_range]
  rfl

/-- The write fills the ring as often as its count fits into an `int`. -/
theorem filled_run (hcount : count = 2 ^ 31) (hk : 512 * (k + 1) < 2 ^ 31) :
    ∃ actions t, Run (step 64) (fun _ _ => True) (initialState 512 fun _ => 0) actions t ∧
      Filled count (k + 1) t := by
  induction k with
  | zero =>
    obtain ⟨t, run, h⟩ := filled_one hcount
    exact ⟨_, t, run, h⟩
  | succ k ih =>
    obtain ⟨actions, s, run, h⟩ := ih (by omega)
    obtain ⟨t, hround, ht⟩ := h.round hcount hk
    exact ⟨_, t, run.append hround, ht⟩

end Long

/-- A write of `2 ^ 31` bytes moves them all and returns zero. -/
theorem long_write_returns_zero :
    ∃ actions s, Run (step 64) (fun _ _ => True) (initialState 512 fun _ => 0) actions s ∧
      s.calls[0]? = some ⟨zeros (2 ^ 31), .done 0⟩ ∧
      (s.moved 0 (zeros (2 ^ 31))).flatten.length = 2 ^ 31 := by
  obtain ⟨count, hcount⟩ := @exists_eq _ (2 ^ 31)
  rw [← hcount]
  obtain ⟨actions, s, run, h⟩ := @filled_run count 4194302 hcount (by decide)
  obtain ⟨t, hdrain, hcall, hspace, hsize, hreaders, haccepted⟩ := h.drain
  have hrest : count - 512 * (4194302 + 1) = 512 := by omega
  obtain ⟨fuel, hfuel⟩ : ∃ fuel, count = fuel + 1 := ⟨count - 1, by omega⟩
  have hloop := @writeLoop_wrap 64 count (512 * (4194302 + 1)) fuel false (fun _ => 0) t.pipe
    (by decide) hcount (by omega) (by omega)
  rw [hrest, ← hfuel] at hloop
  have hwake := wake_zeros hcall hreaders hloop
  refine ⟨_, _, .snoc (.snoc run trivial hdrain) trivial hwake, record_calls hcall, ?_⟩
  show (logPieces (t.record 0 (zeros count) _).accepted 0).flatten.length = count
  rw [length_moved_record haccepted rfl, h.moved, List.length_map, List.length_range]
  omega

end Rtems.Pipe
