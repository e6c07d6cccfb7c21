import Rtems.Core.Ring
import Rtems.Core.Run

/-!
# Received terminal characters

`rtems_termios_enqueue_raw_characters` puts received characters into the raw buffer, from which
a reader takes them. A flow control character sets a flag that stays set for the rest of the call.
The characters of a call and those of a reader are handled one by one under the lock of the
device. What the code tells the remote side and the writer is not represented.
-/

namespace Rtems.Termios

/-- `rtems_termios_rawbuf`: the characters are behind the head up to the tail. -/
structure RawBuf where
  /-- `theBuf`. -/
  theBuf : Nat → UInt8
  /-- `Head`. -/
  head : Nat
  /-- `Tail`. -/
  tail : Nat
  /-- `Size`. -/
  size : Nat
  /-- The head is a place of the buffer. -/
  head_lt : head < size
  /-- The tail is a place of the buffer. -/
  tail_lt : tail < size

namespace RawBuf

variable (b : RawBuf)

/-- Put a character into the next place, unless that is the head. -/
def put (c : UInt8) : Option RawBuf :=
  let newTail := (b.tail + 1) % b.size
  if newTail ≠ b.head then
    some { b with
      theBuf := Function.update b.theBuf newTail c
      tail := newTail
      tail_lt := Nat.mod_lt _ (Nat.zero_lt_of_lt b.tail_lt) }
  else none

/-- Take the character behind the head, if there is one. -/
def take : Option (UInt8 × RawBuf) :=
  if b.head ≠ b.tail then
    let newHead := (b.head + 1) % b.size
    some (b.theBuf newHead, { b with
      head := newHead
      head_lt := Nat.mod_lt _ (Nat.zero_lt_of_lt b.head_lt) })
  else none

/-- The characters in the buffer, oldest first. -/
def chars : List UInt8 :=
  ring b.theBuf b.size ((b.head + 1) % b.size) (ringDist b.size b.head b.tail)

variable {b} {b' : RawBuf} {c : UInt8}

theorem length_chars : b.chars.length = ringDist b.size b.head b.tail :=
  length_ring ..

/-- Only a buffer with one free place refuses a character. -/
theorem put_eq_none : b.put c = none ↔ b.chars.length + 1 = b.size := by
  rw [length_chars, ← succ_tail_eq_head_iff b.head_lt b.tail_lt]
  simp [put]

/-- A character that is put into the buffer is the newest one. -/
theorem chars_put (h : b.put c = some b') : b'.chars = b.chars ++ [c] ∧ b'.size = b.size := by
  have hne : (b.tail + 1) % b.size ≠ b.head := by
    intro heq
    rw [put, if_neg (not_not.mpr heq)] at h
    cases h
  rw [put, if_pos hne] at h
  obtain rfl := Option.some.inj h
  exact ⟨ring_push b.head_lt b.tail_lt hne c, rfl⟩

/-- A character that is taken was the oldest one. -/
theorem chars_take (h : b.take = some (c, b')) : b.chars = c :: b'.chars ∧ b'.size = b.size := by
  have hne : b.head ≠ b.tail := by
    intro heq
    rw [take, if_neg (not_not.mpr heq)] at h
    cases h
  rw [take, if_pos hne] at h
  obtain ⟨rfl, rfl⟩ := Prod.mk.inj (Option.some.inj h)
  exact ⟨ring_pop b.head_lt b.tail_lt _ hne, rfl⟩

end RawBuf

/-- Whether `char` is signed, `FL_MDXON`, the control characters and the input flags. -/
structure Tty where
  charIsSigned : Bool
  mdxon : Bool
  vstop : UInt8
  vstart : UInt8
  istrip : Bool
  iuclc : Bool
  icrnl : Bool
  inlcr : Bool
  igncr : Bool

/-- What a call uses of the terminal, and its local variables. -/
structure State where
  /-- `rawInBuf`. -/
  rawInBuf : RawBuf
  /-- `rawInBufDropped`. -/
  rawInBufDropped : UInt32
  /-- `FL_ORCVXOF`. -/
  orcvxof : Bool
  /-- `flow_rcv`. -/
  flowRcv : Bool
  /-- `dropped`. -/
  dropped : Nat

/-- The terminal, the ordinary characters that arrived and were taken, and the results of the
calls. -/
structure Session where
  state : State
  arrived : List UInt8
  taken : List UInt8
  returned : List Nat

/-- An empty buffer over a memory with some contents. -/
def start (size : Nat) (hsize : 0 < size) (memory : Nat → UInt8) : Session :=
  ⟨⟨⟨memory, 0, 0, size, hsize, hsize⟩, 0, false, false, 0⟩, [], [], []⟩

/-- A call begins, handles one character and returns; a reader takes a character. -/
inductive Op
  | call
  | char (c : UInt8)
  | done
  | read

variable (tty : Tty)

/-- `iprocEarly`. -/
def iprocEarly (c : UInt8) : UInt8 :=
  let c := if tty.istrip then c &&& 0x7f else c
  let c := if tty.iuclc ∧ 65 ≤ c ∧ c ≤ 90 then c + 32 else c
  if c = 13 then if tty.icrnl then 10 else c
  else if c = 10 ∧ tty.inlcr then 13 else c

/-- A `char` is compared with an `unsigned char`. -/
def isCc (c cc : UInt8) : Bool :=
  c = cc ∧ (tty.charIsSigned → c < 128)

/-- A start or stop character in XON mode. -/
def isFlow (c : UInt8) : Bool :=
  tty.mdxon && (isCc tty c tty.vstop || isCc tty c tty.vstart)

def isIgnored (c : UInt8) : Bool :=
  c = 13 ∧ tty.igncr

/-- The body of the loop. -/
def receive (s : State) (c : UInt8) : State :=
  let s := if isFlow tty c then
      { s with
        orcvxof := isCc tty c tty.vstop && !(isCc tty c tty.vstart && s.orcvxof)
        flowRcv := true }
    else s
  if s.flowRcv ∨ isIgnored tty c then s
  else
    match s.rawInBuf.put (iprocEarly tty c) with
    | some rawInBuf => { s with rawInBuf }
    | none => { s with dropped := s.dropped + 1 }

/-- Neither a flow control character nor an ignored one. -/
def ordinary (c : UInt8) : Bool :=
  !isFlow tty c && !isIgnored tty c

/-- A reader takes a character of the buffer. -/
def Session.take (s : Session) : Session :=
  match s.state.rawInBuf.take with
  | some (c, rawInBuf) =>
    { s with
      state := { s.state with rawInBuf }
      taken := s.taken ++ [c] }
  | none => s

/-- A return clears the count of the call, so that each call starts with none. -/
def step (s : Session) : Op → Option Session
  | .call => some { s with state := { s.state with flowRcv := false } }
  | .char c =>
    some { s with
      state := receive tty s.state c
      arrived := s.arrived ++ if ordinary tty c then [iprocEarly tty c] else [] }
  | .done =>
    some { s with
      state := { s.state with
        rawInBufDropped := s.state.rawInBufDropped + .ofNat s.state.dropped
        dropped := 0 }
      returned := s.returned ++ [s.state.dropped] }
  | .read => some s.take

/-- No ordinary character follows a flow control character in its call, and the count of all
dropped characters fits its type. -/
def Clear (s : Session) : Op → Prop
  | .char c => s.state.flowRcv = true → ordinary tty c = false
  | .done => s.state.rawInBufDropped.toNat + s.state.dropped < 2 ^ 32
  | _ => True

instance (s : Session) (op : Op) : Decidable (Clear tty s op) :=
  match op with
  | .char _ => inferInstanceAs (Decidable (_ → _))
  | .done => inferInstanceAs (Decidable (_ < _))
  | .call => isTrue trivial
  | .read => isTrue trivial

/-- What arrived was taken or is in the buffer, in order, or it was counted. -/
structure Accounted (size : Nat) (s : Session) : Prop where
  /-- The buffer has its size. -/
  size_eq : s.state.rawInBuf.size = size
  /-- The characters that were put into the buffer are in order. -/
  sublist : (s.taken ++ s.state.rawInBuf.chars).Sublist s.arrived
  /-- The others are counted by the calls. -/
  length_eq : s.arrived.length =
    (s.taken ++ s.state.rawInBuf.chars).length + s.returned.sum + s.state.dropped
  /-- They are counted by the terminal. -/
  total : s.state.rawInBufDropped.toNat = s.returned.sum

variable {tty}

/-- What a character does: it is not for the buffer, it is put into it or it is dropped. -/
theorem receive_cases (s : State) (c : UInt8) :
    (receive tty s c).rawInBufDropped = s.rawInBufDropped ∧
      ((ordinary tty c = false ∨ s.flowRcv = true) ∧
          (receive tty s c).rawInBuf = s.rawInBuf ∧ (receive tty s c).dropped = s.dropped ∨
        ordinary tty c = true ∧ s.rawInBuf.put (iprocEarly tty c) =
          some (receive tty s c).rawInBuf ∧ (receive tty s c).dropped = s.dropped ∨
        ordinary tty c = true ∧ s.rawInBuf.put (iprocEarly tty c) = none ∧
          (receive tty s c).rawInBuf = s.rawInBuf ∧
          (receive tty s c).dropped = s.dropped + 1) := by
  cases hflow : isFlow tty c with
  | true => simp [receive, ordinary, hflow]
  | false =>
    by_cases hkept : s.flowRcv = true ∨ isIgnored tty c = true
    · have hcase : ordinary tty c = false ∨ s.flowRcv = true := by
        rcases hkept with hset | hignored
        · exact .inr hset
        · exact .inl (by simp [ordinary, hignored])
      simp [receive, hflow, hkept, hcase]
    · have hordinary : ordinary tty c = true := by
        simp [ordinary, hflow, (not_or.mp hkept).2]
      simp only [receive, hflow, Bool.false_eq_true, if_false, if_neg hkept, hordinary]
      cases s.rawInBuf.put (iprocEarly tty c) with
      | some b => exact ⟨rfl, .inr (.inl ⟨trivial, rfl, rfl⟩)⟩
      | none => exact ⟨rfl, .inr (.inr ⟨trivial, rfl, rfl, rfl⟩)⟩

section

variable {size : Nat} {s t : Session} (h : Accounted size s)
include h

theorem Accounted.char {c : UInt8} (hop : s.state.flowRcv = true → ordinary tty c = false) :
    Accounted size { s with
      state := receive tty s.state c
      arrived := s.arrived ++ if ordinary tty c then [iprocEarly tty c] else [] } := by
  obtain ⟨htotal, ⟨hout, hbuf, hdropped⟩ | ⟨hordinary, hput, hdropped⟩ |
    ⟨hordinary, -, hbuf, hdropped⟩⟩ := @receive_cases tty s.state c
  · have hordinary : ordinary tty c = false := hout.elim id hop
    constructor <;> simp only [hbuf, hdropped, htotal, hordinary, Bool.false_eq_true, if_false,
      List.append_nil]
    · exact h.size_eq
    · exact h.sublist
    · exact h.length_eq
    · exact h.total
  · obtain ⟨hchars, hsize⟩ := RawBuf.chars_put hput
    constructor <;> simp only [hchars, hdropped, htotal, hsize, hordinary, if_true]
    · exact h.size_eq
    · rw [← List.append_assoc]
      exact h.sublist.append (.refl _)
    · have hlength := h.length_eq
      simp only [List.length_append, List.length_singleton] at hlength ⊢
      omega
    · exact h.total
  · constructor <;> simp only [hbuf, hdropped, htotal, hordinary, if_true]
    · exact h.size_eq
    · exact h.sublist.trans (List.sublist_append_left ..)
    · have hlength := h.length_eq
      simp only [List.length_append, List.length_singleton] at hlength ⊢
      omega
    · exact h.total

theorem Accounted.take : Accounted size s.take := by
  unfold Session.take
  split
  · next c b htake =>
    obtain ⟨hchars, hsize⟩ := RawBuf.chars_take htake
    have hall : s.taken ++ [c] ++ b.chars = s.taken ++ s.state.rawInBuf.chars := by
      rw [hchars, List.append_assoc, List.singleton_append]
    exact ⟨hsize.trans h.size_eq, hall ▸ h.sublist, hall ▸ h.length_eq, h.total⟩
  · exact h

theorem Accounted.step {op : Op} (hop : Clear tty s op)
    (hstep : Termios.step tty s op = some t) : Accounted size t := by
  cases op <;> obtain rfl := Option.some.inj hstep
  case call => exact ⟨h.size_eq, h.sublist, h.length_eq, h.total⟩
  case char c => exact h.char hop
  case done =>
    have hfits : s.state.rawInBufDropped.toNat + s.state.dropped < 2 ^ 32 := hop
    have hdropped : s.state.dropped < 2 ^ 32 := by omega
    refine ⟨h.size_eq, h.sublist, ?_, ?_⟩
    · simpa [Nat.add_assoc] using h.length_eq
    · show (s.state.rawInBufDropped + .ofNat s.state.dropped).toNat = _
      rw [UInt32.toNat_add, UInt32.toNat_ofNat_of_lt' hdropped, Nat.mod_eq_of_lt hfits, h.total,
        List.sum_append, List.sum_singleton]
  case read => exact h.take

end

/-- In every run in which no ordinary character follows a flow control character in its call and
the count of all dropped characters fits its type, each ordinary character was put into the
buffer in order after early processing or is counted in the results of the calls and in the
total, and one is dropped only when the buffer is full. -/
theorem received_characters_accounted {size : Nat} (hsize : 0 < size) (memory : Nat → UInt8)
    {ops : List Op} {s : Session}
    (hrun : Run (step tty) (Clear tty) (start size hsize memory) ops s) : Accounted size s ∧
      ∀ c, (receive tty s.state c).dropped ≠ s.state.dropped →
        s.state.rawInBuf.chars.length = size - 1 := by
  have hstart : Accounted size (start size hsize memory) := by
    have hempty : (start size hsize memory).state.rawInBuf.chars = [] := by
      simp [start, RawBuf.chars, ring, ringDist]
    exact ⟨rfl, by rw [hempty]; exact .refl _, by rw [hempty]; rfl, rfl⟩
  have haccounted := hrun.invariant (Accounted size) hstart fun _ _ _ h hop hstep =>
    h.step hop hstep
  refine ⟨haccounted, fun c hdropped => ?_⟩
  obtain ⟨-, ⟨-, -, hsame⟩ | ⟨-, -, hsame⟩ | ⟨-, hfull, -⟩⟩ := @receive_cases tty s.state c
  · exact absurd hsame hdropped
  · exact absurd hsame hdropped
  · have hlength := RawBuf.put_eq_none.mp hfull
    rw [haccounted.size_eq] at hlength
    omega

/-- XON mode with Control-S and Control-Q. -/
private def xonMode : Tty := ⟨false, true, 19, 17, false, false, false, false, false⟩

/-- The second of two ordinary characters is dropped by a buffer of two places, and the first one
is taken. -/
theorem received_characters_accounted_xonMode :
    ∃ s, Run (step xonMode) (Clear xonMode) (start 2 (by decide) fun _ => 0)
        [.call, .char 97, .char 98, .char 19, .done, .read] s ∧
      s.taken = [97] ∧ s.state.rawInBufDropped = 1 ∧ Accounted 2 s :=
  Run.exists_of_exec ⟨_, rfl, fun hrun =>
    ⟨rfl, rfl, (received_characters_accounted _ _ hrun).1⟩⟩

/-- A character behind a stop character is neither stored nor counted. -/
theorem character_lost_behind_stop :
    ∃ s, Run (step xonMode) (fun _ _ => True) (start 2 (by decide) fun _ => 0)
        [.call, .char 19, .char 97, .done] s ∧
      ordinary xonMode 97 = true ∧ s.state.rawInBuf.chars = [] ∧ s.returned = [0] :=
  ⟨_, .of_exec rfl, rfl, rfl, rfl⟩

end Rtems.Termios
