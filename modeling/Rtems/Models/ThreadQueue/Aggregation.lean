import Rtems.Core.OrderedList
import Mathlib.Data.BitVec
import Mathlib.Order.Nat
import Mathlib.Order.Bounds.Basic

/-!
# Priority aggregations

A priority aggregation is a tree of contributing priority nodes together with one
priority node of its own, whose priority is to be the least of the contributors'.
The operations report whether the own node changed, so that the caller can pass the
change on. The priority of a contributor is read through `key` at the time of the
operation, as the source reads the node's field.
-/

namespace Rtems.ThreadQueue

/-- `Priority_Aggregation`: the contributors in tree order and the own node's priority. -/
structure Aggregation (κ : Type*) where
  /-- The nodes of the tree `Contributors`, least first. -/
  contributors : List κ
  /-- `Node.priority`. -/
  priority : Nat
  deriving DecidableEq, Repr

/-- What `_Priority_Extract` tells its caller. -/
inductive Extracted
  | nothing
  | removed
  | changed
  deriving DecidableEq, Repr

namespace Aggregation

variable {κ : Type*} [DecidableEq κ] (key : κ → Nat)

/-- `_Priority_Is_empty`. -/
def isEmpty (a : Aggregation κ) : Bool := a.contributors.isEmpty

/-- `_Priority_Get_minimum_node`. -/
def minimum (a : Aggregation κ) : Option κ := a.contributors.head?

/-- `_Priority_Initialize_one`. -/
def initializedOne (node : κ) : Aggregation κ := ⟨[node], key node⟩

/-- `_Priority_Plain_insert`: after the nodes of equal priority; tells if the node is
the new minimum. -/
def plainInsert (a : Aggregation κ) (node : κ) : Aggregation κ × Bool :=
  ({ a with contributors := insertBefore (fun y => decide (key node < key y)) node a.contributors },
    a.contributors.head?.all fun y => decide (key node < key y))

/-- `_Priority_Plain_extract`. -/
def plainExtract (a : Aggregation κ) (node : κ) : Aggregation κ :=
  { a with contributors := a.contributors.erase node }

/-- `_Priority_Plain_changed`. -/
def plainChanged (a : Aggregation κ) (node : κ) : Aggregation κ :=
  (plainInsert key (a.plainExtract node) node).1

/-- `_Priority_Non_empty_insert`; the second component tells if `change` was called. -/
def nonEmptyInsert (a : Aggregation κ) (node : κ) : Aggregation κ × Bool :=
  let (a, isNewMinimum) := plainInsert key a node
  if isNewMinimum then ({ a with priority := key node }, true) else (a, false)

/-- `_Priority_Extract`; the second component tells which handler was called. -/
def extract (a : Aggregation κ) (node : κ) : Aggregation κ × Extracted :=
  let a := a.plainExtract node
  match a.minimum with
  | none => (a, .removed)
  | some min =>
    if key node < key min then ({ a with priority := key min }, .changed) else (a, .nothing)

/-- `_Priority_Extract_non_empty`: undefined if no contributor is left. -/
def extractNonEmpty (a : Aggregation κ) (node : κ) : Option (Aggregation κ × Bool) :=
  let a := a.plainExtract node
  a.minimum.map fun min =>
    if key node < key min then ({ a with priority := key min }, true) else (a, false)

/-- `_Priority_Changed`: the node has got a new priority. -/
def changed (a : Aggregation κ) (node : κ) : Option (Aggregation κ × Bool) :=
  let a := a.plainChanged key node
  a.minimum.map fun min =>
    if key min ≠ a.priority then ({ a with priority := key min }, true) else (a, false)

/-- The tree holds every node once, in order, and the own node has the least priority. -/
structure Ok (a : Aggregation κ) : Prop where
  nodup : a.contributors.Nodup
  sorted : SortedBy key a.contributors
  least : ∀ min, a.minimum = some min → a.priority = key min

variable {key} {a b : Aggregation κ} {node : κ}

omit [DecidableEq κ] in
/-- The own priority is the least of the contributors'. -/
theorem Ok.isLeast (h : a.Ok key) (hne : a.contributors ≠ []) :
    IsLeast {p | ∃ c ∈ a.contributors, key c = p} a.priority := by
  cases hc : a.contributors with
  | nil => exact absurd hc hne
  | cons min rest =>
    have hmin : a.priority = key min := h.least min (by rw [minimum, hc]; rfl)
    refine ⟨⟨min, by simp, hmin.symm⟩, ?_⟩
    rintro p ⟨c, hmem, rfl⟩
    rw [hmin]
    exact SortedBy.head_le (hc ▸ h.sorted) hmem

omit [DecidableEq κ] in
/-- Only the priorities of the contributors matter. -/
theorem Ok.congr {key' : κ → Nat} (h : a.Ok key) (hk : ∀ c ∈ a.contributors, key c = key' c) :
    a.Ok key' where
  nodup := h.nodup
  sorted := h.sorted.congr hk
  least min hmin := by
    rw [h.least min hmin]
    exact hk min (List.mem_of_mem_head? hmin)

omit [DecidableEq κ] in
/-- A tree of one node. -/
theorem ok_initializedOne (node : κ) : (initializedOne key node).Ok key where
  nodup := List.pairwise_singleton _ _
  sorted := List.pairwise_singleton _ _
  least min hmin := by
    cases hmin
    rfl

omit [DecidableEq κ] in
/-- What an insertion does: the tree gains the node and stays in order; without a
report the own priority stays. -/
theorem nonEmptyInsert_spec (h : a.Ok key) (hnode : node ∉ a.contributors)
    (hne : a.contributors ≠ []) :
    (nonEmptyInsert key a node).1.Ok key ∧
      (∀ c, c ∈ (nonEmptyInsert key a node).1.contributors ↔ c = node ∨ c ∈ a.contributors) ∧
      ((nonEmptyInsert key a node).2 = false →
        (nonEmptyInsert key a node).1.priority = a.priority) := by
  obtain ⟨min, rest, hc⟩ := List.exists_cons_of_ne_nil hne
  have hnodup : (insertBefore (fun y => decide (key node < key y)) node a.contributors).Nodup :=
    nodup_insertBefore hnode h.nodup
  have hsorted := h.sorted.insert_fifo (x := node)
  have hleast : a.priority = key min := h.least min (by rw [minimum, hc]; rfl)
  by_cases hlt : key node < key min
  · have hres : nonEmptyInsert key a node =
        (⟨insertBefore (fun y => decide (key node < key y)) node a.contributors, key node⟩,
          true) := by
      simp [nonEmptyInsert, plainInsert, hc, hlt]
    rw [hres]
    refine ⟨⟨hnodup, hsorted, ?_⟩, fun c => mem_insertBefore, by simp⟩
    intro m hm
    have hm : node = m := by simpa [minimum, hc, insertBefore, hlt] using hm
    rw [hm]
  · have hres : nonEmptyInsert key a node =
        (⟨insertBefore (fun y => decide (key node < key y)) node a.contributors, a.priority⟩,
          false) := by
      simp [nonEmptyInsert, plainInsert, hc, hlt]
    rw [hres]
    refine ⟨⟨hnodup, hsorted, ?_⟩, fun c => mem_insertBefore, fun _ => rfl⟩
    intro m hm
    have hm : min = m := by simpa [minimum, hc, insertBefore, hlt] using hm
    rw [← hm]
    exact hleast

/-- After an extraction the first node decides if the own priority is still right. -/
theorem least_plainExtract (h : a.Ok key) (hnode : node ∈ a.contributors) {min : κ}
    (hmin : (a.plainExtract node).minimum = some min) (hle : ¬ key node < key min) :
    a.priority = key min := by
  have hmem : min ∈ a.contributors := List.mem_of_mem_erase (List.mem_of_mem_head? hmin)
  have hne : a.contributors ≠ [] := List.ne_nil_of_mem hnode
  obtain ⟨⟨c, hc, hkey⟩, hlower⟩ := h.isLeast hne
  have hmin_le : a.priority ≤ key min := hlower ⟨min, hmem, rfl⟩
  by_cases hcn : c = node
  · subst hcn
    omega
  · have hc' : c ∈ (a.plainExtract node).contributors := (List.mem_erase_of_ne hcn).mpr hc
    have hsorted : SortedBy key (a.plainExtract node).contributors := h.sorted.erase node
    cases hl : (a.plainExtract node).contributors with
    | nil =>
      rw [hl] at hc'
      exact absurd hc' List.not_mem_nil
    | cons m rest =>
      have hm : m = min := by simpa [minimum, hl] using hmin
      rw [hl] at hsorted hc'
      have := hsorted.head_le hc'
      rw [hm] at this
      omega

theorem ok_plainExtract (h : a.Ok key) {p : Nat}
    (hp : ∀ min, (a.plainExtract node).minimum = some min → p = key min) :
    Ok key { a.plainExtract node with priority := p } where
  nodup := h.nodup.erase node
  sorted := h.sorted.erase node
  least min hmin := hp min hmin

/-- What an extraction does: exactly the node leaves; it reports the last departure and
every change of the own priority. -/
theorem extract_spec (h : a.Ok key) (hnode : node ∈ a.contributors) :
    (extract key a node).1.Ok key ∧
      (extract key a node).1.contributors = a.contributors.erase node ∧
      ((extract key a node).2 = .removed ↔ a.contributors.erase node = []) ∧
      ((extract key a node).2 ≠ .changed → (extract key a node).1.priority = a.priority) := by
  cases hmin : (a.plainExtract node).minimum with
  | none =>
    have hres : extract key a node = (a.plainExtract node, .removed) := by
      simp [extract, hmin]
    rw [hres]
    refine ⟨ok_plainExtract h (p := a.priority) (by simp [hmin]), rfl, ?_, fun _ => rfl⟩
    simpa [minimum, plainExtract] using hmin
  | some min =>
    have hne : a.contributors.erase node ≠ [] := by
      intro hnil
      simp [minimum, plainExtract, hnil] at hmin
    by_cases hlt : key node < key min
    · have hres : extract key a node =
          ({ a.plainExtract node with priority := key min }, .changed) := by
        simp [extract, hmin, hlt]
      rw [hres]
      refine ⟨ok_plainExtract h ?_, rfl, by simpa using hne, by simp⟩
      intro m hm
      rw [hmin] at hm
      cases hm
      rfl
    · have hres : extract key a node = (a.plainExtract node, .nothing) := by
        simp [extract, hmin, hlt]
      rw [hres]
      refine ⟨ok_plainExtract h (p := a.priority) ?_, rfl, by simpa using hne, fun _ => rfl⟩
      intro m hm
      rw [hmin] at hm
      cases hm
      exact least_plainExtract h hnode hmin hlt

theorem extractNonEmpty_eq (hne : a.contributors.erase node ≠ []) :
    extractNonEmpty key a node =
      some ((extract key a node).1, decide ((extract key a node).2 = .changed)) := by
  cases hmin : (a.plainExtract node).minimum with
  | none => exact absurd (by simpa [minimum, plainExtract] using hmin) hne
  | some min =>
    by_cases hlt : key node < key min <;> simp [extractNonEmpty, extract, hmin, hlt]

theorem mem_plainChanged (key : κ → Nat) (hnode : node ∈ a.contributors) (c : κ) :
    c ∈ (a.plainChanged key node).contributors ↔ c ∈ a.contributors := by
  by_cases hc : c = node
  · subst hc
    simp [plainChanged, plainInsert, hnode]
  · simp [plainChanged, plainInsert, plainExtract, hc, List.mem_erase_of_ne]

theorem nodup_plainChanged (hnodup : a.contributors.Nodup) :
    (a.plainChanged key node).contributors.Nodup :=
  nodup_insertBefore hnodup.not_mem_erase (hnodup.erase node)

/-- A change of a contributor takes over the least priority and reports a difference. -/
theorem changed_eq (key : κ → Nat) (hnode : node ∈ a.contributors) :
    ∃ min, (a.plainChanged key node).minimum = some min ∧ changed key a node =
      some ({ a.plainChanged key node with priority := key min },
        decide (key min ≠ a.priority)) := by
  obtain ⟨min, rest, hl⟩ :=
    List.exists_cons_of_ne_nil (List.ne_nil_of_mem ((mem_plainChanged key hnode node).mpr hnode))
  have hmin : (a.plainChanged key node).minimum = some min := by rw [minimum, hl]; rfl
  have hpriority : (a.plainChanged key node).priority = a.priority := rfl
  refine ⟨min, hmin, ?_⟩
  by_cases heq : key min = a.priority
  · simp only [changed, hmin, Option.map_some, heq, hpriority, ne_eq, not_true, if_false,
      decide_false]
    rfl
  · simp [changed, hmin, hpriority, heq]

/-- What a change does: the node moves to its place; without a report the own priority
stays. -/
theorem changed_spec (hnodup : a.contributors.Nodup)
    (hsorted : SortedBy key (a.contributors.erase node)) (hnode : node ∈ a.contributors) :
    ∃ b reported, changed key a node = some (b, reported) ∧ b.Ok key ∧
      (∀ c, c ∈ b.contributors ↔ c ∈ a.contributors) ∧
      (reported = false → b.priority = a.priority) := by
  obtain ⟨min, hmin, hchanged⟩ := changed_eq key hnode
  refine ⟨_, _, hchanged, ⟨nodup_plainChanged hnodup, hsorted.insert_fifo, ?_⟩,
    mem_plainChanged key hnode, by simp⟩
  intro m hm
  exact congrArg key (Option.some.inj (hmin.symm.trans hm))

omit [DecidableEq κ] in
/-- The contributors after an insertion, whatever it reports. -/
theorem contributors_nonEmptyInsert :
    (nonEmptyInsert key a node).1.contributors =
      insertBefore (fun y => decide (key node < key y)) node a.contributors := by
  simp only [nonEmptyInsert]
  split <;> rfl

/-- The contributors after an extraction; the last departure is reported. -/
theorem contributors_extract (key : κ → Nat) (a : Aggregation κ) (node : κ) :
    (extract key a node).1.contributors = a.contributors.erase node ∧
      ((extract key a node).2 = .removed ↔ a.contributors.erase node = []) := by
  cases hmin : (a.plainExtract node).minimum with
  | none =>
    have hnil : a.contributors.erase node = [] := by simpa [minimum, plainExtract] using hmin
    simp only [extract, hmin]
    exact ⟨rfl, by simp [hnil]⟩
  | some min =>
    have hne : a.contributors.erase node ≠ [] := by
      intro hnil
      simp [minimum, plainExtract, hnil] at hmin
    by_cases hlt : key node < key min
    · simp only [extract, hmin, if_pos hlt]
      exact ⟨rfl, iff_of_false (by simp) hne⟩
    · simp only [extract, hmin, if_neg hlt]
      exact ⟨rfl, iff_of_false (by simp) hne⟩

end Aggregation

end Rtems.ThreadQueue
