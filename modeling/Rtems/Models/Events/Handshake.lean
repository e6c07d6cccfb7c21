import Rtems.Models.Events.State

/-!
# The wait flag handshake

The wait flags decide who unblocks the owner. The invariant says, for each point the owner
can be at, which flags it can have there, whether its thread state is set and how many
unblocks are under way or done.
-/

namespace Rtems.Events

/-- What the owner's position says about the flags, the thread state and the unblocks. -/
def InPhase (s : State) : Prop :=
  match s.owner with
  | .outside =>
    (s.flags = .initial ∨ s.flags = .readyAgain) ∧ s.isBlocked = false ∧ s.unblockers = []
  | .announced | .timed =>
    (s.flags = .intendToBlock ∨ s.flags = .readyAgain) ∧ s.isBlocked = false ∧
      s.unblockers = [] ∧ s.unblocked = 0
  | .stateSet =>
    (s.flags = .intendToBlock ∨ s.flags = .readyAgain) ∧ s.isBlocked = true ∧
      s.unblockers = [] ∧ s.unblocked = 0
  | .tooLate | .timerRemoved =>
    s.flags = .readyAgain ∧ s.isBlocked = true ∧ s.unblockers = [] ∧ s.unblocked = 0
  | .dispatching =>
    (s.flags = .blocked ∧ s.isBlocked = true ∧ s.unblockers = [] ∧ s.unblocked = 0) ∨
      (s.flags = .readyAgain ∧ s.isBlocked = true ∧ s.unblockers.length = 1 ∧ s.unblocked = 0) ∨
      (s.flags = .readyAgain ∧ s.isBlocked = false ∧ s.unblockers = [] ∧ s.unblocked = 1)

/-- The invariant of the handshake. -/
structure Handshake (s : State) : Prop where
  /-- The owner's position agrees with the rest. -/
  inPhase : InPhase s
  /-- A waker inside of the locked section finds the owner waiting, and blocked once its
  exchange failed. -/
  inSection : ∀ waker phase, s.inSection = some (waker, phase) →
    s.flags = .blocked ∨ (phase = .exchange ∧ s.flags = .intendToBlock)
  /-- A timer is only used by a thread that waits or waited. -/
  timer : s.timer = true ∨ s.expired ≠ 0 → s.flags ≠ .initial

theorem Handshake.start : Handshake start where
  inPhase := ⟨Or.inl rfl, rfl, rfl⟩
  inSection := by intro waker phase h; cases h
  timer := by rintro (h | h) <;> simp [Events.start] at h

section

variable {s t : State} (hs : Handshake s)
include hs

/-- Entering a receive. -/
theorem Handshake.seize {request : Request} (h : seize s request = some t) : Handshake t := by
  simp only [Events.seize] at h
  split at h
  next => cases h
  next hfree =>
    push Not at hfree
    obtain ⟨howner, hsection⟩ := hfree
    have hphase := hs.inPhase
    simp only [InPhase, howner] at hphase
    split at h
    next =>
      cases h
      exact ⟨by simpa only [InPhase, howner] using hphase, hs.inSection, hs.timer⟩
    next =>
      split at h
      next =>
        cases h
        exact ⟨by simpa only [InPhase, howner] using hphase, hs.inSection, hs.timer⟩
      next =>
        cases h
        refine ⟨⟨Or.inl rfl, hphase.2.1, hphase.2.2, rfl⟩, ?_, by simp⟩
        intro waker phase hwaker
        simp [hsection] at hwaker

/-- The owner's next step. -/
theorem Handshake.proceed (h : proceed s = some t) :
    Handshake t := by
  have hphase := hs.inPhase
  simp only [Events.proceed] at h
  cases howner : s.owner with
  | outside => simp [howner] at h
  | announced =>
    simp only [howner, Option.some.injEq] at h
    simp only [InPhase, howner] at hphase
    subst h
    refine ⟨hphase, hs.inSection, ?_⟩
    intro _
    rcases hphase.1 with hflags | hflags <;> simp [hflags]
  | timed =>
    simp only [howner, Option.some.injEq] at h
    simp only [InPhase, howner] at hphase
    subst h
    exact ⟨⟨hphase.1, rfl, hphase.2.2⟩, hs.inSection, hs.timer⟩
  | stateSet =>
    simp only [howner] at h
    simp only [InPhase, howner] at hphase
    split at h
    next =>
      cases h
      refine ⟨Or.inl ⟨rfl, hphase.2⟩, ?_, by simp⟩
      intro waker phase _
      exact Or.inl rfl
    next hlate =>
      cases h
      exact ⟨⟨hphase.1.resolve_left hlate, hphase.2⟩, hs.inSection, hs.timer⟩
  | tooLate =>
    simp only [howner, Option.some.injEq] at h
    simp only [InPhase, howner] at hphase
    subst h
    refine ⟨hphase, hs.inSection, ?_⟩
    simp [hphase.1]
  | timerRemoved =>
    simp only [howner, Option.some.injEq] at h
    simp only [InPhase, howner] at hphase
    subst h
    obtain ⟨hflags, -, hunblockers, hunblocked⟩ := hphase
    refine ⟨Or.inr (Or.inr ⟨hflags, rfl, hunblockers, ?_⟩), hs.inSection, hs.timer⟩
    exact congrArg (· + 1) hunblocked
  | dispatching =>
    simp only [howner] at h
    simp only [InPhase, howner] at hphase
    split at h
    next => cases h
    next hready =>
      cases h
      rcases hphase with ⟨-, hblocked, -⟩ | ⟨-, hblocked, -⟩ | ⟨hflags, hblocked, hnone, -⟩
      · exact absurd hblocked hready
      · exact absurd hblocked hready
      · exact ⟨⟨Or.inr hflags, hblocked, hnone⟩, hs.inSection, hs.timer⟩

/-- A send up to its first update of the flags. -/
theorem Handshake.surrender {eventIn : EventSet}
    (h : surrender s eventIn = some t) : Handshake t := by
  simp only [Events.surrender] at h
  split at h
  next => cases h
  next =>
    split at h
    next hblocking =>
      cases h
      refine ⟨hs.inPhase, ?_, hs.timer⟩
      intro waker phase hwaker
      cases hwaker
      cases hflags : s.flags <;> simp [hflags, isBlockingOnEvent] at hblocking
      · exact Or.inr ⟨rfl, rfl⟩
      · exact Or.inl rfl
    next =>
      cases h
      exact { hs with }

theorem Handshake.expire (h : expire s = some t) :
    Handshake t := by
  simp only [Events.expire] at h
  split at h
  next htimer =>
    cases h
    exact { hs with timer := fun _ => hs.timer (Or.inl htimer) }
  next => cases h

/-- A timeout up to its first update of the flags. -/
theorem Handshake.threadContinue (h : threadContinue s = some t) : Handshake t := by
  simp only [Events.threadContinue] at h
  split at h
  next => cases h
  next hready =>
    push Not at hready
    have hstarted := hs.timer (Or.inr hready.2)
    split at h
    next hwaiting =>
      cases h
      refine ⟨hs.inPhase, ?_, fun _ => hstarted⟩
      intro waker phase hwaker
      cases hwaker
      cases hflags : s.flags with
      | initial => exact absurd hflags hstarted
      | intendToBlock => exact Or.inr ⟨rfl, rfl⟩
      | blocked => exact Or.inl rfl
      | readyAgain => exact absurd hflags hwaiting
    next =>
      cases h
      exact { hs with timer := fun _ => hstarted }

end

theorem InPhase.of_blocked {s : State} (hs : InPhase s) (hflags : s.flags = .blocked) :
    s.owner = .dispatching ∧ s.isBlocked = true ∧ s.unblockers = [] ∧ s.unblocked = 0 := by
  cases howner : s.owner <;> simp_all [InPhase]

theorem InPhase.of_unblockers {s : State} (hs : InPhase s) (hne : s.unblockers ≠ []) :
    s.owner = .dispatching ∧ s.flags = .readyAgain ∧ s.isBlocked = true ∧
      s.unblockers.length = 1 ∧ s.unblocked = 0 := by
  cases howner : s.owner <;> simp_all [InPhase]

theorem InPhase.readyAgain {s : State} (hs : InPhase s) (hflags : s.flags = .intendToBlock)
    (inSection : Option (Waker × SectionPhase)) :
    InPhase { s with flags := .readyAgain, inSection := inSection } := by
  cases howner : s.owner <;> simp_all [InPhase]

variable {s t : State}

/-- An update of the flags by the waker inside of the locked section. -/
theorem Handshake.updateFlags (hs : Handshake s) (h : updateFlags s = some t) :
    Handshake t := by
  simp only [Events.updateFlags] at h
  split at h
  next => cases h
  next waker hsection =>
    split at h
    next hintend =>
      cases h
      refine ⟨hs.inPhase.readyAgain hintend none, ?_, by simp⟩
      intro waker phase hwaker
      cases hwaker
    next hnot =>
      cases h
      refine ⟨hs.inPhase, ?_, hs.timer⟩
      intro waker' phase hwaker
      cases hwaker
      rcases hs.inSection _ _ hsection with hblocked | ⟨-, hintend⟩
      · exact Or.inl hblocked
      · exact absurd hintend hnot
  next waker hsection =>
    cases h
    have hblocked : s.flags = .blocked := by
      rcases hs.inSection _ _ hsection with hblocked | ⟨hphase, -⟩
      · exact hblocked
      · cases hphase
    obtain ⟨howner, hblockedState, hunblockers, hunblocked⟩ := hs.inPhase.of_blocked hblocked
    refine ⟨?_, ?_, by simp⟩
    · simp only [InPhase, howner]
      exact Or.inr (Or.inl ⟨trivial, hblockedState, by simp [hunblockers], hunblocked⟩)
    · intro waker phase hwaker
      cases hwaker

/-- A step of a waker that left the locked section. -/
theorem Handshake.finish (hs : Handshake s) {position : Nat}
    (h : finish s position = some t) : Handshake t := by
  simp only [Events.finish] at h
  split at h
  next => cases h
  next hget =>
    cases h
    obtain ⟨howner, hflags, hblocked, hlength, hunblocked⟩ :=
      hs.inPhase.of_unblockers (List.ne_nil_of_mem (List.mem_of_getElem? hget))
    refine ⟨?_, hs.inSection, by simp [hflags]⟩
    simp only [InPhase, howner]
    exact Or.inr (Or.inl ⟨hflags, hblocked, by simpa using hlength, hunblocked⟩)
  next hget =>
    cases h
    obtain ⟨howner, hflags, hblocked, hlength, hunblocked⟩ :=
      hs.inPhase.of_unblockers (List.ne_nil_of_mem (List.mem_of_getElem? hget))
    obtain ⟨hposition, -⟩ := List.getElem?_eq_some_iff.mp hget
    have hnone : s.unblockers.eraseIdx position = [] := by
      apply List.eq_nil_of_length_eq_zero
      rw [List.length_eraseIdx_of_lt hposition, hlength]
    refine ⟨?_, hs.inSection, hs.timer⟩
    simp only [InPhase, howner]
    exact Or.inr (Or.inr ⟨hflags, trivial, hnone, congrArg (· + 1) hunblocked⟩)

/-- The handshake does not look at the ledger. -/
theorem Handshake.record (hs : Handshake s) (entries : List (Ledger.Entry 32)) :
    Handshake (s.record entries) :=
  ⟨hs.inPhase, hs.inSection, hs.timer⟩

/-- Every step keeps the handshake. -/
theorem Handshake.step {op : Op} (hs : Handshake s) (h : step s op = some t) :
    Handshake t := by
  cases op with
  | seize request =>
    obtain ⟨r, hr, rfl⟩ := Option.map_eq_some_iff.mp h
    exact (hs.seize hr).record _
  | proceed => exact hs.proceed h
  | surrender eventIn =>
    obtain ⟨r, hr, rfl⟩ := Option.map_eq_some_iff.mp h
    exact ((hs.surrender hr).record _).record _
  | expire => exact hs.expire h
  | timeout => exact hs.threadContinue h
  | updateFlags => exact hs.updateFlags h
  | finish position => exact hs.finish h

end Rtems.Events
