import Mathlib.Order.WellFoundedSet

/-!
# Wait-for graphs with one outgoing edge

Every agent waits on at most one resource and every resource has at most one holder.
The graph is acyclic if following the holders ends from every agent. A new wait keeps
it acyclic if the agent cannot be reached from the resource; an end of a wait and a
hand-over to an agent that does not wait always keep it acyclic.
-/

namespace Rtems

open Function

variable {T Q : Type*}

/-- The first agent waits on a resource that the second one holds. -/
def WaitsFor (waits : T → Option Q) (holder : Q → Option T) (t u : T) : Prop :=
  ∃ q, waits t = some q ∧ holder q = some u

/-- The agent is met on the way from the resource along holders and waits. -/
inductive Reaches (waits : T → Option Q) (holder : Q → Option T) : Q → T → Prop
  | holder {q : Q} {t : T} : holder q = some t → Reaches waits holder q t
  | step {q q' : Q} {t u : T} : holder q = some u → waits u = some q' →
      Reaches waits holder q' t → Reaches waits holder q t

/-- Following the holders ends from every agent. -/
def Acyclic (waits : T → Option Q) (holder : Q → Option T) : Prop :=
  WellFounded fun u t => WaitsFor waits holder t u

variable {waits : T → Option Q} {holder : Q → Option T} {q : Q} {t u : T}

/-- What is met from a resource is its holder or somebody the holder waits for. -/
theorem reaches_iff :
    Reaches waits holder q t ↔
      ∃ u, holder q = some u ∧ Relation.ReflTransGen (WaitsFor waits holder) u t := by
  constructor
  · intro h
    induction h with
    | holder hq => exact ⟨_, hq, .refl⟩
    | step hq hw _ ih =>
      obtain ⟨v, hv, hpath⟩ := ih
      exact ⟨_, hq, .head ⟨_, hw, hv⟩ hpath⟩
  · rintro ⟨u, hq, hpath⟩
    induction hpath using Relation.ReflTransGen.head_induction_on generalizing q with
    | refl => exact .holder hq
    | head hedge _ ih =>
      obtain ⟨q', hw, hq'⟩ := hedge
      exact .step hq hw (ih hq')

/-- Nobody is met on the way from a resource without a holder. -/
theorem not_reaches_of_free (hq : holder q = none) : ¬ Reaches waits holder q t := by
  intro hreach
  obtain ⟨u, hu, -⟩ := reaches_iff.mp hreach
  rw [hq] at hu
  cases hu

/-- Whether an agent other than the holder is met depends on the holder's wait. -/
theorem reaches_iff_of_ne (hq : holder q = some u) (hu : u ≠ t) :
    Reaches waits holder q t ↔ ∃ r, waits u = some r ∧ Reaches waits holder r t := by
  constructor
  · intro hreach
    cases hreach with
    | holder h => exact absurd (Option.some.inj (hq.symm.trans h)) hu
    | step h hw hrest =>
      cases hq.symm.trans h
      exact ⟨_, hw, hrest⟩
  · rintro ⟨r, hw, hrest⟩
    exact .step hq hw hrest

/-- In an acyclic graph nobody waits for itself. -/
theorem Acyclic.irrefl (h : Acyclic waits holder) (t : T) :
    ¬ Relation.TransGen (WaitsFor waits holder) t t := by
  intro hcycle
  have hwf := WellFounded.transGen h
  exact hwf.irrefl.irrefl t (Relation.transGen_swap.mpr hcycle)

/-- Nobody is met on the way from a resource it waits on. -/
theorem Acyclic.not_reaches (h : Acyclic waits holder) (hw : waits t = some q) :
    ¬ Reaches waits holder q t := by
  intro hreach
  obtain ⟨u, hq, hpath⟩ := reaches_iff.mp hreach
  exact h.irrefl t (.head' ⟨q, hw, hq⟩ hpath)

/-- If finitely many agents wait then the chains of waiters end as well. -/
theorem Acyclic.wellFounded_waiters (h : Acyclic waits holder)
    (hfinite : {t | waits t ≠ none}.Finite) : WellFounded (WaitsFor waits holder) := by
  have horder : IsStrictOrder T (Relation.TransGen (WaitsFor waits holder)) :=
    { irrefl := h.irrefl, trans := fun _ _ _ => .trans }
  have hmem : ∀ {v u}, WaitsFor waits holder v u → v ∈ {t | waits t ≠ none} := by
    rintro v u ⟨q, hq, -⟩
    rw [Set.mem_ofPred_eq, hq]
    simp
  have hwaiting : ∀ v ∈ {t | waits t ≠ none}, Acc (WaitsFor waits holder) v := by
    intro v hv
    refine hfinite.wellFoundedOn.induction (r := Relation.TransGen (WaitsFor waits holder)) hv ?_
    exact fun u _ ih => .intro u fun z hz => ih z (hmem hz) (.single hz)
  exact ⟨fun u => .intro u fun v hv => hwaiting v (hmem hv)⟩

/-- One wait more or less keeps the waiting agents finitely many. -/
theorem finite_update_waits [DecidableEq T] (hfinite : {t | waits t ≠ none}.Finite) (t : T)
    (x : Option Q) : {u | update waits t x u ≠ none}.Finite := by
  refine (hfinite.insert t).subset fun u hu => ?_
  by_cases hut : u = t
  · exact .inl hut
  · rw [Set.mem_ofPred_eq, update_of_ne hut] at hu
    exact .inr hu

/-- Ending a wait leaves no new one. -/
theorem WaitsFor.of_stop [DecidableEq T] {v w : T}
    (h : WaitsFor (update waits w none) holder u v) : WaitsFor waits holder u v := by
  obtain ⟨q, hw, hq⟩ := h
  by_cases hu : u = w
  · simp [hu] at hw
  · exact ⟨q, by rwa [update_of_ne hu] at hw, hq⟩

/-- Without waits there is no cycle. -/
theorem acyclic_of_forall_none (h : ∀ t, waits t = none) : Acyclic waits holder := by
  refine ⟨fun t => .intro t ?_⟩
  rintro u ⟨q, hw, _⟩
  rw [h t] at hw
  cases hw

section

variable (h : Acyclic waits holder)
include h

/-- A wait that ends keeps the graph acyclic. -/
theorem Acyclic.stop [DecidableEq T] (t : T) :
    Acyclic (update waits t none) holder := by
  exact Subrelation.wf (r := fun u t => WaitsFor waits holder t u) WaitsFor.of_stop h

/-- A resource may go to an agent that does not wait. -/
theorem Acyclic.take [DecidableEq Q] (ht : waits t = none) (q : Q) :
    Acyclic waits (update holder q (some t)) := by
  have hend : Acc (fun v u => WaitsFor waits (update holder q (some t)) u v) t := by
    refine .intro t ?_
    rintro u ⟨q', hw, _⟩
    rw [ht] at hw
    cases hw
  refine ⟨fun x => ?_⟩
  induction h.apply x with
  | intro x _ ih =>
    refine .intro x ?_
    rintro u ⟨q', hw, hq'⟩
    by_cases hq : q' = q
    · subst hq
      rw [update_self] at hq'
      cases hq'
      exact hend
    · rw [update_of_ne hq] at hq'
      exact ih u ⟨q', hw, hq'⟩

/-- A resource that nobody holds any more keeps the graph acyclic. -/
theorem Acyclic.release [DecidableEq Q] (q : Q) :
    Acyclic waits (update holder q none) := by
  refine Subrelation.wf (r := fun u t => WaitsFor waits holder t u) ?_ h
  rintro v u ⟨q', hw, hq'⟩
  by_cases hq : q' = q
  · subst hq
    simp at hq'
  · rw [update_of_ne hq] at hq'
    exact ⟨q', hw, hq'⟩

/-- A new wait of an agent that cannot be reached from the resource. -/
theorem Acyclic.wait [DecidableEq T] (hreach : ¬ Reaches waits holder q t) :
    Acyclic (update waits t (some q)) holder := by
  -- An agent from which `t` cannot be met follows the same path as before.
  have hbelow : ∀ u, ¬ Relation.ReflTransGen (WaitsFor waits holder) u t →
      Acc (fun v u => WaitsFor (update waits t (some q)) holder u v) u := by
    intro u
    induction h.apply u with
    | intro u _ ih =>
      intro hpath
      have hne : u ≠ t := fun heq => hpath (heq ▸ .refl)
      refine .intro u ?_
      rintro v ⟨q', hw, hq'⟩
      rw [update_of_ne hne] at hw
      have hedge : WaitsFor waits holder u v := ⟨q', hw, hq'⟩
      exact ih v hedge fun hv => hpath (.head hedge hv)
  have ht : Acc (fun v u => WaitsFor (update waits t (some q)) holder u v) t := by
    refine .intro t ?_
    rintro v ⟨q', hw, hq'⟩
    rw [update_self] at hw
    cases hw
    exact hbelow v fun hpath => hreach (reaches_iff.mpr ⟨v, hq', hpath⟩)
  refine ⟨fun x => ?_⟩
  induction h.apply x with
  | intro x _ ih =>
    by_cases hx : x = t
    · rw [hx]
      exact ht
    · refine .intro x ?_
      rintro v ⟨q', hw, hq'⟩
      rw [update_of_ne hx] at hw
      exact ih v ⟨q', hw, hq'⟩

end

section Paths

variable {w : T}

/-- A path that does not meet the agent is not concerned by the end of its wait. -/
theorem path_stop [DecidableEq T] (hpath : Relation.ReflTransGen (WaitsFor waits holder) t u)
    (hw : ¬ Relation.ReflTransGen (WaitsFor waits holder) t w) :
    Relation.ReflTransGen (WaitsFor (update waits w none) holder) t u := by
  induction hpath using Relation.ReflTransGen.head_induction_on with
  | refl => exact .refl
  | @head x y hedge _ ih =>
    have hx : x ≠ w := fun heq => hw (heq ▸ .refl)
    obtain ⟨q, hq, ho⟩ := hedge
    refine .head ⟨q, by rwa [update_of_ne hx], ho⟩ (ih fun hpath => ?_)
    exact hw (.head ⟨q, hq, ho⟩ hpath)

/-- Ending a wait leaves no new path. -/
theorem path_of_stop [DecidableEq T]
    (hpath : Relation.ReflTransGen (WaitsFor (update waits w none) holder) t u) :
    Relation.ReflTransGen (WaitsFor waits holder) t u := by
  exact Relation.ReflTransGen.mono (fun _ _ => WaitsFor.of_stop) _ _ hpath

/-- On the way from an agent that waits for two others, the one that does not wait comes
last. -/
theorem transGen_of_paths (hw : Relation.ReflTransGen (WaitsFor waits holder) t w)
    (hu : Relation.ReflTransGen (WaitsFor waits holder) t u) (hend : waits u = none)
    (hne : u ≠ w) : Relation.TransGen (WaitsFor waits holder) w u := by
  have hunique : Relator.RightUnique (WaitsFor waits holder) := by
    rintro x y z ⟨q, hq, ho⟩ ⟨q', hq', ho'⟩
    cases hq.symm.trans hq'
    exact Option.some.inj (ho.symm.trans ho')
  rcases Relation.ReflTransGen.total_of_right_unique hunique hw hu with hpath | hpath
  · rcases Relation.reflTransGen_iff_eq_or_transGen.mp hpath with heq | hpath
    · exact absurd heq hne
    · exact hpath
  · rcases Relation.ReflTransGen.cases_head hpath with heq | ⟨v, ⟨q, hq, -⟩, -⟩
    · exact absurd heq hne
    · rw [hend] at hq
      cases hq

end Paths

end Rtems
