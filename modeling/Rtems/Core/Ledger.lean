import Mathlib.Data.List.Basic
import Mathlib.Data.List.Induction

/-!
# A ledger of posted and taken flags

Flags are posted into a set and taken out of it. Posting a flag that is in the set merges
the two posts. The ledger lists the posts and the takings in order; replaying it gives the
set, and fails if something is taken that is not there. From a ledger that replays, the
fate of every post and the origin of every taken flag can be read off.
-/

namespace Rtems.Ledger

/-- A line of the ledger; a taking names who took the flags. -/
inductive Entry (w : Nat) where
  /-- Flags were posted. -/
  | post (flags : BitVec w)
  /-- Flags were taken. -/
  | take (taker : Nat) (flags : BitVec w)
  deriving DecidableEq, Repr

variable {w : Nat}

/-- The flags a line is about. -/
def Entry.flags : Entry w → BitVec w
  | .post flags => flags
  | .take _ flags => flags

/-- The line is about flag `i`. -/
def Entry.mentions (i : Nat) (entry : Entry w) : Bool :=
  entry.flags.getLsbD i

/-- The effect of one line on the set. -/
def Entry.apply (set : BitVec w) : Entry w → Option (BitVec w)
  | .post flags => some (set ||| flags)
  | .take _ flags => if flags &&& set = flags then some (set &&& ~~~flags) else none

/-- The set after all lines. -/
def replay (lines : List (Entry w)) : Option (BitVec w) :=
  lines.foldlM Entry.apply 0

/-- What one taker took, in order. -/
def takenBy (taker : Nat) (lines : List (Entry w)) : List (BitVec w) :=
  lines.filterMap fun
    | .post _ => none
    | .take by' flags => if by' = taker then some flags else none

/-- What was posted, in order. -/
def posts (lines : List (Entry w)) : List (BitVec w) :=
  lines.filterMap fun
    | .post flags => some flags
    | .take _ _ => none

/-- The last line about flag `i` is a post. -/
def lastIsPost (i : Nat) (lines : List (Entry w)) : Bool :=
  match lines.reverse.find? (Entry.mentions i) with
  | some (.post _) => true
  | some (.take _ _) => false
  | none => false

/-- Replaying one more line. -/
theorem replay_concat (lines : List (Entry w)) (entry : Entry w) :
    replay (lines ++ [entry]) = (replay lines).bind (Entry.apply · entry) := by
  simp only [replay, List.foldlM_append, List.foldlM_cons, List.foldlM_nil, bind_pure]
  rfl

/-- A beginning of a ledger that replays replays. -/
theorem replay_append_left {lines rest : List (Entry w)} {set : BitVec w}
    (h : replay (lines ++ rest) = some set) : ∃ set', replay lines = some set' := by
  simp only [replay, List.foldlM_append, Option.bind_eq_bind, Option.bind_eq_some_iff] at h
  obtain ⟨set', hset', -⟩ := h
  exact ⟨set', hset'⟩

/-- A line that does not mention a flag is skipped in the search for its last mention. -/
theorem lastIsPost_concat (i : Nat) (lines : List (Entry w)) (entry : Entry w) :
    lastIsPost i (lines ++ [entry]) =
      if entry.mentions i then
        match entry with
        | .post _ => true
        | .take _ _ => false
      else lastIsPost i lines := by
  cases h : entry.mentions i with
  | true => cases entry <;> simp [lastIsPost, h]
  | false => simp [lastIsPost, h]

variable {lines : List (Entry w)} {before after : List (Entry w)} {flags set : BitVec w} {i : Nat}
  {taker : Nat}

/-- A flag is in the set exactly if its last mention is a post. -/
theorem getLsbD_replay {set : BitVec w} (h : replay lines = some set)
    (i : Nat) : set.getLsbD i = lastIsPost i lines := by
  induction lines using List.reverseRecOn generalizing set with
  | nil =>
    have hzero : (0 : BitVec w) = set := Option.some.inj h
    simp [← hzero, lastIsPost]
  | append_singleton lines entry ih =>
    rw [replay_concat, Option.bind_eq_some_iff] at h
    obtain ⟨before, hbefore, happly⟩ := h
    rw [lastIsPost_concat, ← ih hbefore]
    cases entry with
    | post flags =>
      have heq : before ||| flags = set := Option.some.inj happly
      rw [← heq, BitVec.getLsbD_or]
      cases hflag : flags.getLsbD i <;> simp [Entry.mentions, Entry.flags, hflag]
    | take taker flags =>
      simp only [Entry.apply] at happly
      split at happly
      next =>
        have heq : before &&& ~~~flags = set := Option.some.inj happly
        rw [← heq, BitVec.getLsbD_and, BitVec.getLsbD_not]
        cases hflag : flags.getLsbD i with
        | true => simp [Entry.mentions, Entry.flags, hflag]
        | false =>
          simp only [Entry.mentions, Entry.flags, hflag, Bool.not_false, Bool.and_true,
            Bool.false_eq_true, if_false]
          cases hin : before.getLsbD i with
          | true => simp [BitVec.lt_of_getLsbD hin]
          | false => rfl
      next => cases happly

/-- A post that no later line mentions is still in the set. -/
theorem post_pending
    (h : replay (before ++ .post flags :: after) = some set) (hi : flags.getLsbD i = true)
    (hnone : after.find? (Entry.mentions i) = none) : set.getLsbD i = true := by
  rw [getLsbD_replay h i, lastIsPost]
  have hafter : after.reverse.find? (Entry.mentions i) = none := by
    simpa [List.find?_eq_none] using hnone
  have hmentions : Entry.mentions i (.post flags) = true := hi
  simp [hafter, hmentions]

/-- A taken flag was posted before, and not taken since. -/
theorem take_posted
    (h : replay (before ++ .take taker flags :: after) = some set) (hi : flags.getLsbD i = true) :
    lastIsPost i before = true := by
  have hsplit : before ++ .take taker flags :: after =
      (before ++ [.take taker flags]) ++ after := by simp
  rw [hsplit] at h
  obtain ⟨taken, htaken⟩ := replay_append_left h
  rw [replay_concat, Option.bind_eq_some_iff] at htaken
  obtain ⟨there, hthere, happly⟩ := htaken
  rw [← getLsbD_replay hthere i]
  simp only [Entry.apply] at happly
  split at happly
  next hsub =>
    have hbit := congrArg (·.getLsbD i) hsub
    simpa [hi] using hbit
  next => cases happly

/-- What a taker has taken after one more post. -/
@[simp] theorem takenBy_post (taker : Nat) (lines : List (Entry w)) (flags : BitVec w) :
    takenBy taker (lines ++ [.post flags]) = takenBy taker lines := by
  simp [takenBy]

/-- What a taker has taken after one more taking. -/
theorem takenBy_take (taker taker' : Nat) (lines : List (Entry w)) (flags : BitVec w) :
    takenBy taker (lines ++ [.take taker' flags]) =
      takenBy taker lines ++ if taker' = taker then [flags] else [] := by
  by_cases h : taker' = taker <;> simp [takenBy, h]

/-- The takers of a ledger are those with something taken. -/
theorem mem_takenBy {flags : BitVec w} :
    flags ∈ takenBy taker lines ↔ .take taker flags ∈ lines := by
  rw [takenBy, List.mem_filterMap]
  constructor
  · rintro ⟨entry, hmem, hentry⟩
    cases entry with
    | post _ => cases hentry
    | take by' flags' =>
      by_cases h : by' = taker
      · subst h
        simp only [if_true, Option.some.injEq] at hentry
        exact hentry ▸ hmem
      · simp [h] at hentry
  · intro hmem
    exact ⟨_, hmem, by simp⟩

end Rtems.Ledger
