import Mathlib.Data.BitVec

/-!
# Guarded runs of a partial transition function

A system is a step function that may be undefined. A run lists the actions taken
from a start state; each one satisfies a guard in the state in which it is taken.
An invariant that one guarded step preserves holds after every run, and a relation
between two systems that one pair of steps preserves holds after every pair of runs.
A trace is the same for a step relation, as an abstract system has one.
-/

namespace Rtems

/-- The finite runs whose every action meets the guard and has a defined result. -/
inductive Run {σ α : Type*} (step : σ → α → Option σ) (guard : σ → α → Prop) (start : σ) :
    List α → σ → Prop
  | nil : Run step guard start [] start
  | snoc {actions : List α} {s t : σ} {a : α} :
      Run step guard start actions s → guard s a → step s a = some t →
      Run step guard start (actions ++ [a]) t

/-- The finite traces of a step relation. -/
inductive Trace {σ α : Type*} (step : σ → α → σ → Prop) (start : σ) : List α → σ → Prop
  | nil : Trace step start [] start
  | snoc {actions : List α} {s t : σ} {a : α} :
      Trace step start actions s → step s a t → Trace step start (actions ++ [a]) t

/-- Execute a list of actions, checking the guard before each one. -/
def exec {σ α : Type*} (step : σ → α → Option σ) (guard : σ → α → Prop)
    [∀ s a, Decidable (guard s a)] (start : σ) (actions : List α) : Option σ :=
  actions.foldlM (fun s a => if guard s a then step s a else none) start

namespace Run

variable {σ τ α : Type*} {step : σ → α → Option σ} {guard : σ → α → Prop} {start s : σ}
  {actions : List α}

/-- One-step preservation gives the invariant after every run. -/
theorem invariant (h : Run step guard start actions s) (inv : σ → Prop) (h0 : inv start)
    (hstep : ∀ s a t, inv s → guard s a → step s a = some t → inv t) : inv s := by
  induction h with
  | nil => exact h0
  | snoc _ hguard hs ih => exact hstep _ _ _ ih hguard hs

/-- Weakening the guard keeps a run. -/
theorem mono {guard' : σ → α → Prop} (hg : ∀ s a, guard s a → guard' s a)
    (h : Run step guard start actions s) : Run step guard' start actions s := by
  induction h with
  | nil => exact .nil
  | snoc _ hguard hs ih => exact .snoc ih (hg _ _ hguard) hs

/-- A run from the end of a run goes on with it. -/
theorem append {t : σ} {rest : List α} (h : Run step guard start actions s)
    (hrest : Run step guard s rest t) : Run step guard start (actions ++ rest) t := by
  induction hrest with
  | nil => rwa [List.append_nil]
  | snoc _ hguard hs ih =>
    rw [← List.append_assoc]
    exact .snoc ih hguard hs

section

variable {start' : τ} (R : σ → τ → Prop) (h : Run step guard start actions s) (h0 : R start start')
include R h h0

/-- A second system that matches every guarded step of the first has a matching
run over the same actions, and the relation holds at its end. -/
theorem simulate {step' : τ → α → Option τ} {guard' : τ → α → Prop}
    (hstep : ∀ s s' a t, R s s' → guard s a → step s a = some t →
      guard' s' a ∧ ∃ t', step' s' a = some t' ∧ R t t') :
    ∃ s', Run step' guard' start' actions s' ∧ R s s' := by
  induction h with
  | nil => exact ⟨start', .nil, h0⟩
  | snoc _ hguard hs ih =>
    obtain ⟨s', hrun, hR⟩ := ih
    obtain ⟨hguard', t', hs', hR'⟩ := hstep _ _ _ _ hR hguard hs
    exact ⟨t', .snoc hrun hguard' hs', hR'⟩

/-- A step relation that matches every guarded step has a matching trace over the same
actions, and the relation holds at its end. -/
theorem trace {step' : τ → α → τ → Prop}
    (hstep : ∀ s s' a t, R s s' → guard s a → step s a = some t → ∃ t', step' s' a t' ∧ R t t') :
    ∃ s', Trace step' start' actions s' ∧ R s s' := by
  induction h with
  | nil => exact ⟨start', .nil, h0⟩
  | snoc _ hguard hs ih =>
    obtain ⟨s', htrace, hR⟩ := ih
    obtain ⟨t', hs', hR'⟩ := hstep _ _ _ _ hR hguard hs
    exact ⟨t', .snoc htrace hs', hR'⟩

end

/-- An execution that succeeds is a run. -/
theorem of_exec [∀ s a, Decidable (guard s a)]
    (h : exec step guard start actions = some s) : Run step guard start actions s := by
  induction actions using List.reverseRecOn generalizing s with
  | nil =>
    have hs : start = s := by simpa [exec] using h
    exact hs ▸ .nil
  | append_singleton as a ih =>
    simp only [exec, List.foldlM_append, Option.bind_eq_bind, Option.bind_eq_some_iff] at h
    obtain ⟨r, hr, hstep⟩ := h
    by_cases hg : guard r a
    · exact .snoc (ih hr) hg (by simpa [hg] using hstep)
    · simp [hg] at hstep

/-- What holds at the end of an execution that succeeds holds at the end of a run. -/
theorem exists_of_exec [∀ s a, Decidable (guard s a)] {P : σ → Prop}
    (h : ∃ s, exec step guard start actions = some s ∧ (Run step guard start actions s → P s)) :
    ∃ s, Run step guard start actions s ∧ P s := by
  obtain ⟨s, hexec, hP⟩ := h
  exact ⟨s, .of_exec hexec, hP (.of_exec hexec)⟩

/-- The same for a part of the state that is easier to compute. -/
theorem exists_of_map_exec [∀ s a, Decidable (guard s a)] {β : Type*} {P : σ → Prop} (f : σ → β)
    (b : β) (h : (exec step guard start actions).map f = some b)
    (hP : ∀ s, Run step guard start actions s → f s = b → P s) :
    ∃ s, Run step guard start actions s ∧ P s := by
  obtain ⟨s, hexec, hb⟩ := Option.map_eq_some_iff.mp h
  exact ⟨s, .of_exec hexec, hP s (.of_exec hexec) hb⟩

end Run

/-- One-step preservation gives the invariant after every trace. -/
theorem Trace.invariant {σ α : Type*} {step : σ → α → σ → Prop} {start s : σ} {actions : List α}
    (h : Trace step start actions s) (inv : σ → Prop) (h0 : inv start)
    (hstep : ∀ s a t, inv s → step s a t → inv t) : inv s := by
  induction h with
  | nil => exact h0
  | snoc _ hs ih => exact hstep _ _ _ ih hs

end Rtems
