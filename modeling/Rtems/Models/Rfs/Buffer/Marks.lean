import Rtems.Models.Rfs.Buffer.Requests

/-!
# Marks of shared buffers

The mark that a block is modified is kept in the handle. A handle that lets a block go
which other handles hold takes its mark along, so the block is handed over as unmodified if
no other handle was marked. In every run in which this does not happen no update is lost.
-/

namespace Rtems.Rfs.Buffer

/-- A legal operation that does not take along the only mark of a block that other handles
hold. -/
def KeepsMarks (s : State) (op : Op) : Prop :=
  Legal s op ∧
    match op with
    | .request i block _ _ => ∀ handle ∈ s.handles[i]?, ∀ held ∈ handle.buffer,
        ¬ (block ≠ 0 ∧ handle.bnum = block) → MarkShared s.handles i handle held
    | .markDirty _ => True
    | .release i _ => ∀ handle ∈ s.handles[i]?, ∀ held ∈ handle.buffer,
        MarkShared s.handles i handle held
    | .buffersRelease => True

instance (handles : List Handle) (i : Nat) (handle : Handle) (block : Nat) :
    Decidable (MarkShared handles i handle block) :=
  inferInstanceAs (Decidable (_ → _ → _))

instance (s : State) (op : Op) : Decidable (KeepsMarks s op) :=
  match op with
  | .request i block _ _ =>
    inferInstanceAs (Decidable (_ ∧ ∀ handle ∈ s.handles[i]?, ∀ held ∈ handle.buffer,
      ¬ (block ≠ 0 ∧ handle.bnum = block) → MarkShared s.handles i handle held))
  | .markDirty _ => inferInstanceAs (Decidable (_ ∧ True))
  | .release i _ =>
    inferInstanceAs (Decidable (_ ∧ ∀ handle ∈ s.handles[i]?, ∀ held ∈ handle.buffer,
      MarkShared s.handles i handle held))
  | .buffersRelease => inferInstanceAs (Decidable (_ ∧ True))

variable {m : Mount} {s : State}

/-- An operation that keeps the marks is defined and keeps the invariant. -/
theorem Consistent.step (hs : Consistent m s) {op : Op} (hop : KeepsMarks s op) :
    ∃ t, step m s op = some t ∧ Consistent m t := by
  cases op with
  | request i block releaseOk requestOk =>
    have hi := List.getElem?_eq_getElem hop.1
    obtain ⟨t, ok, heq, ht⟩ := hs.handleRequest hi (hop.2 _ hi) releaseOk requestOk
    exact ⟨t, by simp only [Buffer.step, hi, Option.bind_some, heq, Option.map_some], ht⟩
  | markDirty i =>
    have hi := List.getElem?_eq_getElem hop.1
    exact ⟨_, by simp only [Buffer.step, hi, Option.map_some], hs.markDirty hi⟩
  | release i releaseOk =>
    have hi := List.getElem?_eq_getElem hop.1
    obtain ⟨t, ok, heq, ht, -⟩ := hs.handleRelease hi (hop.2 _ hi) releaseOk
    exact ⟨t, by simp only [Buffer.step, hi, Option.bind_some, heq, Option.map_some], ht⟩
  | buffersRelease => exact ⟨_, rfl, hs.buffersRelease⟩

/-- In every run in which no handle takes along the only mark of a block that other handles
hold, every block that was marked since its last hand-over is handed over as modified; until then
a marked handle holds it or it is on the chain of modified buffers. The references of each block
are the handles that hold it, and a block is attached exactly while it has references. A buffer
that was obtained and not handed over is on exactly one chain, another is on none, and the
counters are the lengths of the chains. Every further operation that keeps the marks returns. -/
theorem buffer_updates_not_lost {n : Nat} {ops : List Op}
    (hrun : Run (step m) KeepsMarks (start n) ops s) :
    NoneLost s.events ∧
    (∀ block, isMarked s.events block = true →
      (∃ handle ∈ s.handles, handle.buffer = some block ∧ handle.dirty = true) ∨
        block ∈ s.releaseModified) ∧
    (∀ block, s.references block = s.handles.countP (·.buffer = some block)) ∧
    (∀ block, s.buffers.count block = 0 ↔ s.references block = 0) ∧
    (∀ block, s.buffers.count block + s.release.count block + s.releaseModified.count block =
      if isOut s.events block then 1 else 0) ∧
    s.buffersCount = s.buffers.length ∧ s.releaseCount = s.release.length ∧
    s.releaseModifiedCount = s.releaseModified.length ∧
    ∀ op, KeepsMarks s op → ∃ t, step m s op = some t := by
  have hs : Consistent m s := by
    refine hrun.invariant (Consistent m) (Consistent.start m n) ?_
    intro s op t hs hop hstep
    obtain ⟨t', hstep', ht'⟩ := hs.step hop
    exact Option.some.inj (hstep'.symm.trans hstep) ▸ ht'
  refine ⟨hs.noneLost, ?_, hs.references, hs.attached, hs.onChain, hs.counts.1, hs.counts.2.1,
    hs.counts.2.2, ?_⟩
  · intro block hmarked
    exact (hs.carried block hmarked).imp_right fun h => List.count_pos_iff.mp (Nat.pos_of_ne_zero h)
  · intro op hop
    obtain ⟨t, hstep, -⟩ := hs.step hop
    exact ⟨t, hstep⟩

/-- A mount with a local cache for two buffers. -/
private def cached : Mount := ⟨false, 2, by decide⟩

/-- Two handles share a block; the one without a mark lets it go first. Then a third block
overflows the local cache. -/
private def sharing : List Op :=
  [.request 0 5 true true, .request 1 5 true true, .markDirty 0, .release 1 true,
    .release 0 true, .request 0 6 true true, .request 0 7 true true, .release 0 true]

/-- The shared block is handed over as modified. -/
theorem buffer_updates_not_lost_sharing :
    ∃ s, Run (step cached) KeepsMarks (start 2) sharing s ∧
      s.events = [.handedOver 5 true, .obtained 7, .obtained 6, .marked 5, .obtained 5] ∧
      NoneLost s.events ∧ s.releaseModified = [6] ∧ s.release = [7] :=
  Run.exists_of_exec ⟨_, rfl, fun hrun => ⟨rfl, (buffer_updates_not_lost hrun).1, rfl, rfl⟩⟩

/-- Two handles share a block and the marked one lets it go first: the block is handed over
as unmodified. -/
theorem buffer_update_lost_with_shared_block :
    ∃ s, Run (step cached) Legal (start 2)
        [.request 0 5 true true, .request 1 5 true true, .markDirty 0, .release 0 true,
          .release 1 true, .buffersRelease] s ∧
      s.events = [.handedOver 5 false, .marked 5, .obtained 5] ∧ ¬ NoneLost s.events :=
  ⟨_, .of_exec rfl, rfl, fun h => absurd (h [] 5 false _ rfl rfl) (by decide)⟩

end Rtems.Rfs.Buffer
