import Rtems.Models.ThreadQueue.Smp.State

/-!
# Directories stay exact

An aggregation is linked exactly if it has contributors. Each operation on one
aggregation either links, unlinks or leaves the chain as the contributors ask, and a
report of an added or removed aggregation tells exactly a change of the chain. A loop
over distinct schedulers adds these effects up.
-/

namespace Rtems.ThreadQueue.Smp.Directory

variable {κ S : Type} [DecidableEq S] {d d' : Directory κ S} {i : S} {node : κ}
  {type : ActionType}

/-- The contributors of the aggregation of a scheduler. -/
def nodes (d : Directory κ S) (i : S) : List κ := (d.queue i).contributors

/-- The chain lists the aggregations with contributors, and no contributor occurs twice. -/
structure Ok (d : Directory κ S) : Prop where
  indexes : Indexes d.chain d.nodes
  nodup : ∀ i, (d.nodes i).Nodup

/-- One action on one aggregation was performed, with the chain brought up to date. -/
structure Performed (d d' : Directory κ S) (i : S) (type : ActionType) (node : κ) : Prop where
  ok : d'.Ok
  mem : node ∈ d'.nodes i ↔ type ≠ .remove
  same : ∀ c, c ≠ node → (c ∈ d'.nodes i ↔ c ∈ d.nodes i)
  other : ∀ j, j ≠ i → d'.queue j = d.queue j

/-- The report says how the chain changed. -/
structure Reported (d d' : Directory κ S) (i : S) (report : Option ActionType) : Prop where
  add : report = some .add ↔ i ∉ d.chain ∧ i ∈ d'.chain
  remove : report = some .remove ↔ i ∈ d.chain ∧ i ∉ d'.chain
  change : report = some .change → i ∈ d.chain ∧ i ∈ d'.chain

@[simp] theorem setQueue_queue_self (d : Directory κ S) (i : S) (a : Aggregation κ) :
    (d.setQueue i a).queue i = a := by
  simp [setQueue]

@[simp] theorem setQueue_queue_of_ne (d : Directory κ S) {j : S} (a : Aggregation κ)
    (h : j ≠ i) : (d.setQueue i a).queue j = d.queue j := by
  simp [setQueue, h]

@[simp] theorem setQueue_chain (d : Directory κ S) (i : S) (a : Aggregation κ) :
    (d.setQueue i a).chain = d.chain := rfl

theorem nodes_setQueue_self (d : Directory κ S) (i : S) (a : Aggregation κ) :
    (d.setQueue i a).nodes i = a.contributors := by
  simp [nodes]

theorem nodes_setQueue_of_ne (d : Directory κ S) {j : S} (a : Aggregation κ) (h : j ≠ i) :
    (d.setQueue i a).nodes j = d.nodes j := by
  simp [nodes, h]

section

variable (h : d.Ok)
include h

omit [DecidableEq S] in
theorem Ok.mem_chain : i ∈ d.chain ↔ d.nodes i ≠ [] := h.indexes.mem_iff i

variable {a : Aggregation κ}

theorem ok_setQueue {chain : List S}
    (hchain : Indexes chain (d.setQueue i a).nodes) (ha : a.contributors.Nodup) :
    ({ d.setQueue i a with chain } : Directory κ S).Ok := by
  refine ⟨hchain, fun j => ?_⟩
  by_cases hj : j = i
  · subst hj
    exact (nodes_setQueue_self d j a).symm ▸ ha
  · exact (nodes_setQueue_of_ne d a hj).symm ▸ h.nodup j

/-- A change of contributors that leaves the aggregation empty or non-empty as it was. -/
theorem performed_setQueue (ha : a.contributors.Nodup)
    (hempty : a.contributors = [] ↔ d.nodes i = [])
    (hmem : node ∈ a.contributors ↔ type ≠ .remove)
    (hsame : ∀ c, c ≠ node → (c ∈ a.contributors ↔ c ∈ d.nodes i)) :
    Performed d (d.setQueue i a) i type node := by
  refine ⟨ok_setQueue h (h.indexes.congr fun j => ?_) ha, ?_, ?_, fun j hj => by simp [hj]⟩
  · by_cases hj : j = i
    · subst hj
      rw [nodes_setQueue_self, hempty]
    · rw [nodes_setQueue_of_ne d a hj]
  · rw [nodes_setQueue_self, hmem]
  · intro c hc
    rw [nodes_setQueue_self, hsame c hc]

/-- The first contributor links the aggregation. -/
theorem performed_link (key : κ → Nat) (node : κ) (hempty : d.nodes i = []) :
    link d.chain i = some (d.chain ++ [i]) ∧
      Performed d { d.setQueue i (Aggregation.initializedOne key node) with
        chain := d.chain ++ [i] } i .add node := by
  obtain ⟨hlink, hindexes⟩ := h.indexes.link hempty
    (d.setQueue i (Aggregation.initializedOne key node)).nodes
    (by simp [nodes_setQueue_self, Aggregation.initializedOne])
    (fun j hj => nodes_setQueue_of_ne d _ hj)
  refine ⟨hlink, ok_setQueue h hindexes (List.nodup_singleton node), ?_, ?_, ?_⟩
  · exact iff_of_true (by simp [nodes, Aggregation.initializedOne]) (by simp)
  · intro c hc
    simp [nodes, Aggregation.initializedOne, hc, show (d.queue i).contributors = [] from hempty]
  · intro j hj
    exact setQueue_queue_of_ne d _ hj

theorem reported_link (hempty : d.nodes i = []) :
    Reported d { d.setQueue i a with chain := d.chain ++ [i] } i (some .add) := by
  have hnot : i ∉ d.chain := fun hmem => h.mem_chain.mp hmem hempty
  exact ⟨by simp [hnot], by simp [hnot], by simp⟩

/-- The last contributor unlinks the aggregation. -/
theorem performed_unlink [DecidableEq κ] (hnode : node ∈ d.nodes i)
    (ha : a.contributors = (d.nodes i).erase node) (hempty : a.contributors = []) :
    unlink d.chain i = some (d.chain.erase i) ∧
      Performed d { d.setQueue i a with chain := d.chain.erase i } i .remove node := by
  obtain ⟨hunlink, hindexes⟩ := h.indexes.unlink (List.ne_nil_of_mem hnode)
    (d.setQueue i a).nodes (by rw [nodes_setQueue_self, hempty])
    (fun j hj => nodes_setQueue_of_ne d _ hj)
  refine ⟨hunlink, ok_setQueue h hindexes (by simp [hempty]), ?_, ?_, ?_⟩
  · simp [nodes, hempty]
  · intro c hc
    have hmem : c ∈ (d.nodes i).erase node ↔ c ∈ d.nodes i := List.mem_erase_of_ne hc
    have hi : Directory.nodes { d.setQueue i a with chain := d.chain.erase i } i =
        (d.nodes i).erase node := (nodes_setQueue_self d i a).trans ha
    rw [hi, hmem]
  · intro j hj
    exact setQueue_queue_of_ne d _ hj

theorem reported_unlink (hnode : node ∈ d.nodes i) :
    Reported d { d.setQueue i a with chain := d.chain.erase i } i (some .remove) := by
  have hmem : i ∈ d.chain := h.mem_chain.mpr (List.ne_nil_of_mem hnode)
  have herase : i ∉ d.chain.erase i := h.indexes.nodup.not_mem_erase
  exact ⟨by simp [hmem], by simp [hmem, herase], by simp⟩

theorem reported_setQueue (hne : d.nodes i ≠ []) (isChanged : Bool) :
    Reported d (d.setQueue i a) i (if isChanged then some .change else none) := by
  have hmem : i ∈ d.chain := h.mem_chain.mpr hne
  cases isChanged <;> exact ⟨by simp [hmem], by simp [hmem], by simp [hmem]⟩

section

variable (key : S → κ → Nat)
include key

/-- An insertion of a new contributor. -/
theorem insert_spec (hnode : node ∉ d.nodes i) :
    ∃ d' report, d.insert key i node = some (d', report) ∧ Performed d d' i .add node ∧
      Reported d d' i report := by
  by_cases hempty : d.nodes i = []
  · obtain ⟨hlink, hperformed⟩ := performed_link h (key i) node hempty
    refine ⟨_, _, ?_, hperformed, reported_link h hempty⟩
    have hisEmpty : (d.queue i).isEmpty = true := by simpa [nodes, Aggregation.isEmpty] using hempty
    simp [insert, hisEmpty, hlink]
  · have hisEmpty : (d.queue i).isEmpty = false := by
      simpa [nodes, Aggregation.isEmpty] using hempty
    refine ⟨d.setQueue i (Aggregation.nonEmptyInsert (key i) (d.queue i) node).1, _,
      by simp only [insert, hisEmpty]; rfl, ?_, reported_setQueue h hempty _⟩
    apply performed_setQueue h
    · rw [Aggregation.contributors_nonEmptyInsert]
      exact nodup_insertBefore hnode (h.nodup i)
    · rw [Aggregation.contributors_nonEmptyInsert]
      exact iff_of_false insertBefore_ne_nil hempty
    · simp [Aggregation.contributors_nonEmptyInsert]
    · intro c hc
      simp [Aggregation.contributors_nonEmptyInsert, hc, nodes]

/-- An extraction of a contributor. -/
theorem extract_spec [DecidableEq κ] (hnode : node ∈ d.nodes i) :
    ∃ d' report, d.extract key i node = some (d', report) ∧ Performed d d' i .remove node ∧
      Reported d d' i report := by
  obtain ⟨hcontributors, hremoved⟩ :=
    Aggregation.contributors_extract (key i) (d.queue i) node
  have hkeep (hne : (d.nodes i).erase node ≠ []) (a : Aggregation κ)
      (ha : a.contributors = (d.nodes i).erase node) :
      Performed d (d.setQueue i a) i .remove node := by
    refine performed_setQueue h (ha ▸ (h.nodup i).erase node) ?_ ?_ ?_
    · exact iff_of_false (ha ▸ hne) (List.ne_nil_of_mem hnode)
    · rw [ha]
      exact iff_of_false (h.nodup i).not_mem_erase (by simp)
    · intro c hc
      rw [ha]
      exact List.mem_erase_of_ne hc
  cases hres : Aggregation.extract (key i) (d.queue i) node with
  | mk a extracted =>
    rw [hres] at hcontributors hremoved
    cases extracted with
    | nothing =>
      have hne : (d.nodes i).erase node ≠ [] := fun hnil => by simpa using hremoved.mpr hnil
      exact ⟨_, _, by simp [extract, hres], hkeep hne a hcontributors,
        reported_setQueue h (List.ne_nil_of_mem hnode) false⟩
    | changed =>
      have hne : (d.nodes i).erase node ≠ [] := fun hnil => by simpa using hremoved.mpr hnil
      exact ⟨_, _, by simp [extract, hres], hkeep hne a hcontributors,
        reported_setQueue h (List.ne_nil_of_mem hnode) true⟩
    | removed =>
      obtain ⟨hunlink, hperformed⟩ := performed_unlink h hnode hcontributors
        (hcontributors.trans (hremoved.mp rfl))
      exact ⟨_, _, by simp [extract, hres, hunlink], hperformed, reported_unlink h hnode⟩

/-- A change of a contributor. -/
theorem changed_spec [DecidableEq κ] (hnode : node ∈ d.nodes i) :
    ∃ d' report, d.changed key i node = some (d', report) ∧ Performed d d' i .change node ∧
      Reported d d' i report := by
  obtain ⟨min, -, hres⟩ := Aggregation.changed_eq (key i) hnode
  have hmem := Aggregation.mem_plainChanged (key i) hnode
  refine ⟨_, _, by rw [changed, hres]; rfl, ?_, reported_setQueue h (List.ne_nil_of_mem hnode) _⟩
  apply performed_setQueue h
  · exact Aggregation.nodup_plainChanged (h.nodup i)
  · exact iff_of_false (List.ne_nil_of_mem ((hmem node).mpr hnode)) (List.ne_nil_of_mem hnode)
  · exact iff_of_true ((hmem node).mpr hnode) (by simp)
  · exact fun c _ => hmem c

theorem perform_spec [DecidableEq κ] (hnode : node ∈ d.nodes i ↔ type ≠ .add) :
    ∃ d' report, d.perform key i type node = some (d', report) ∧ Performed d d' i type node ∧
      Reported d d' i report := by
  cases type with
  | add => exact insert_spec h key (by simpa using hnode)
  | change => exact changed_spec h key (by simpa using hnode)
  | remove => exact extract_spec h key (by simpa using hnode)

/-- The plain insertion of the loop that enqueues. -/
theorem plainEnqueue_spec (hnode : node ∉ d.nodes i) :
    ∃ d' report, d.plainEnqueue key i node = some (d', report) ∧ Performed d d' i .add node := by
  by_cases hempty : d.nodes i = []
  · obtain ⟨hlink, hperformed⟩ := performed_link h (key i) node hempty
    refine ⟨_, none, ?_, hperformed⟩
    have hisEmpty : (d.queue i).isEmpty = true := by simpa [nodes, Aggregation.isEmpty] using hempty
    simp [plainEnqueue, hisEmpty, hlink]
  · have hisEmpty : (d.queue i).isEmpty = false := by
      simpa [nodes, Aggregation.isEmpty] using hempty
    refine ⟨_, none, by simp only [plainEnqueue, hisEmpty]; rfl, ?_⟩
    exact performed_setQueue h (nodup_insertBefore hnode (h.nodup i))
      (iff_of_false insertBefore_ne_nil hempty) (by simp [Aggregation.plainInsert])
      (fun c hc => by simp [Aggregation.plainInsert, hc, nodes])

end

/-- The plain extraction of the loop that extracts. -/
theorem plainExtract_spec [DecidableEq κ] (hnode : node ∈ d.nodes i) :
    ∃ d' report, d.plainExtract i node = some (d', report) ∧ Performed d d' i .remove node := by
  by_cases hempty : (d.nodes i).erase node = []
  · obtain ⟨hunlink, hperformed⟩ :=
      performed_unlink h hnode (a := (d.queue i).plainExtract node) rfl hempty
    refine ⟨_, none, ?_, hperformed⟩
    have hisEmpty : ((d.queue i).plainExtract node).isEmpty = true := by
      simpa [nodes, Aggregation.isEmpty, Aggregation.plainExtract] using hempty
    simp [plainExtract, hisEmpty, hunlink]
  · have hisEmpty : ((d.queue i).plainExtract node).isEmpty = false := by
      simpa [nodes, Aggregation.isEmpty, Aggregation.plainExtract] using hempty
    refine ⟨_, none, by simp [plainExtract, hisEmpty]; rfl, ?_⟩
    exact performed_setQueue h ((h.nodup i).erase node)
      (iff_of_false hempty (List.ne_nil_of_mem hnode))
      (iff_of_false (h.nodup i).not_mem_erase (by simp))
      (fun c hc => List.mem_erase_of_ne hc)

/-- An action on the aggregation alone, if it needs no change of the chain. -/
theorem plainPerform_spec [DecidableEq κ] (key : S → κ → Nat)
    (hnode : node ∈ d.nodes i ↔ type ≠ .add)
    (hadd : type = .add → d.nodes i ≠ []) (hremove : type = .remove → ∃ c ∈ d.nodes i, c ≠ node) :
    Performed d (d.plainPerform key i type node) i type node := by
  cases type with
  | add =>
    exact performed_setQueue h (nodup_insertBefore (by simpa [nodes] using hnode) (h.nodup i))
      (iff_of_false insertBefore_ne_nil (hadd rfl)) (by simp [Aggregation.plainInsert])
      (fun c hc => by simp [Aggregation.plainInsert, hc, nodes])
  | change =>
    have hnode : node ∈ d.nodes i := hnode.mpr (by simp)
    have hmem := Aggregation.mem_plainChanged (key i) hnode
    exact performed_setQueue h (Aggregation.nodup_plainChanged (h.nodup i))
      (iff_of_false (List.ne_nil_of_mem ((hmem node).mpr hnode)) (List.ne_nil_of_mem hnode))
      (iff_of_true ((hmem node).mpr hnode) (by simp)) (fun c _ => hmem c)
  | remove =>
    obtain ⟨c, hmem, hc⟩ := hremove rfl
    have hrest : c ∈ (d.nodes i).erase node := (List.mem_erase_of_ne hc).mpr hmem
    exact performed_setQueue h ((h.nodup i).erase node)
      (iff_of_false (List.ne_nil_of_mem hrest) (List.ne_nil_of_mem hmem))
      (iff_of_false (h.nodup i).not_mem_erase (by simp)) (fun c hc => List.mem_erase_of_ne hc)

end

/-! ### Loops over distinct schedulers -/

section loops

variable {ι : Type} {index : ι → S} {action : ι → ActionType × κ}

/-- The actions of all items were performed. -/
structure PerformedAll (index : ι → S) (action : ι → ActionType × κ) (d d' : Directory κ S)
    (items : List ι) : Prop where
  ok : d'.Ok
  mem : ∀ item ∈ items, (action item).2 ∈ d'.nodes (index item) ↔ (action item).1 ≠ .remove
  same : ∀ item ∈ items, ∀ c, c ≠ (action item).2 →
    (c ∈ d'.nodes (index item) ↔ c ∈ d.nodes (index item))
  other : ∀ j, j ∉ items.map index → d'.queue j = d.queue j

/-- The reported actions say how the chain changed. -/
structure ReportedAll (d d' : Directory κ S) (indices : List S)
    (reported : List (S × ActionType)) : Prop where
  add : ∀ i, (i, .add) ∈ reported ↔ i ∉ d.chain ∧ i ∈ d'.chain
  remove : ∀ i, (i, .remove) ∈ reported ↔ i ∈ d.chain ∧ i ∉ d'.chain
  change : ∀ i, (i, .change) ∈ reported → i ∈ d.chain ∧ i ∈ d'.chain
  nodup : (reported.map Prod.fst).Nodup
  subset : ∀ i ∈ reported.map Prod.fst, i ∈ indices

section

omit [DecidableEq S]

theorem mem_chain_iff {j : S} (h : d.Ok) (h' : d'.Ok) (hj : d'.queue j = d.queue j) :
    j ∈ d'.chain ↔ j ∈ d.chain := by
  rw [h.mem_chain, h'.mem_chain, nodes, nodes, hj]

theorem PerformedAll.nil (h : d.Ok) : PerformedAll index action d d [] :=
  ⟨h, by simp, by simp, fun _ _ => rfl⟩

theorem PerformedAll.cons {d₁ : Directory κ S} {item : ι} {items : List ι}
    (hfirst : Performed d d₁ (index item) (action item).1 (action item).2)
    (hrest : PerformedAll index action d₁ d' items) (hnew : index item ∉ items.map index) :
    PerformedAll index action d d' (item :: items) := by
  have hqueue : d'.queue (index item) = d₁.queue (index item) := hrest.other _ hnew
  have hnodes : d'.nodes (index item) = d₁.nodes (index item) := by rw [nodes, nodes, hqueue]
  have hne (other : ι) (hother : other ∈ items) : index other ≠ index item := by
    intro he
    exact hnew (he ▸ List.mem_map_of_mem hother)
  refine ⟨hrest.ok, ?_, ?_, ?_⟩
  · intro other hother
    rcases List.mem_cons.mp hother with rfl | hother
    · rw [hnodes, hfirst.mem]
    · exact hrest.mem other hother
  · intro other hother c hc
    rcases List.mem_cons.mp hother with rfl | hother
    · rw [hnodes, hfirst.same c hc]
    · rw [hrest.same other hother c hc, nodes, nodes, hfirst.other _ (hne other hother)]
  · intro j hj
    rw [List.map_cons, List.mem_cons, not_or] at hj
    rw [hrest.other j hj.2, hfirst.other j hj.1]

theorem PerformedAll.mem_of_ne {items : List S} {c : κ}
    (h : PerformedAll id (fun _ => (type, node)) d d' items) (hc : c ≠ node) (i : S) :
    c ∈ d'.nodes i ↔ c ∈ d.nodes i := by
  by_cases hi : i ∈ items
  · exact h.same i hi c hc
  · rw [nodes, nodes, h.other i (by simpa using hi)]

/-- Extractions link nothing. -/
theorem PerformedAll.chain_subset {items : List S} (hok : d.Ok)
    (h : PerformedAll id (fun _ => (.remove, node)) d d' items) (hi : i ∈ d'.chain) :
    i ∈ d.chain := by
  obtain ⟨c, hc⟩ := List.exists_mem_of_ne_nil _ (h.ok.mem_chain.mp hi)
  by_cases hitem : i ∈ items
  · have hne : c ≠ node := by
      rintro rfl
      exact (h.mem i hitem).mp hc rfl
    exact hok.mem_chain.mpr (List.ne_nil_of_mem ((h.same i hitem c hne).mp hc))
  · exact (mem_chain_iff hok h.ok (h.other i (by simpa using hitem))).mp hi

theorem ReportedAll.nil : ReportedAll d d [] [] :=
  ⟨by simp, by simp, by simp, List.nodup_nil, by simp⟩

end

theorem ReportedAll.cons {d₁ : Directory κ S} {indices : List S}
    {reported : List (S × ActionType)} {report : Option ActionType} (hok : d.Ok) (hok₁ : d₁.Ok)
    (hok' : d'.Ok) (hfirst : Reported d d₁ i report) (hrest : ReportedAll d₁ d' indices reported)
    (hother : ∀ j, j ≠ i → d₁.queue j = d.queue j) (hqueue : d'.queue i = d₁.queue i)
    (hnew : i ∉ indices) :
    ReportedAll d d' (i :: indices) (reported ++ report.toList.map fun type => (i, type)) := by
  have hnot (type : ActionType) : (i, type) ∉ reported := fun hmem =>
    hnew (hrest.subset i (List.mem_map_of_mem (f := Prod.fst) hmem))
  have hmem (j : S) (type : ActionType) :
      (j, type) ∈ reported ++ report.toList.map (fun type => (i, type)) ↔
        if j = i then report = some type else (j, type) ∈ reported := by
    by_cases hj : j = i
    · subst hj
      simp [hnot, Option.mem_toList]
    · simp [hj, Ne.symm hj]
  have hchain' : i ∈ d'.chain ↔ i ∈ d₁.chain := mem_chain_iff hok₁ hok' hqueue
  refine ⟨fun j => ?_, fun j => ?_, fun j hj => ?_, ?_, ?_⟩
  · rw [hmem]
    split
    next he => rw [he, hfirst.add, hchain']
    next hne => rw [hrest.add, mem_chain_iff hok hok₁ (hother j hne)]
  · rw [hmem]
    split
    next he => rw [he, hfirst.remove, hchain']
    next hne => rw [hrest.remove, mem_chain_iff hok hok₁ (hother j hne)]
  · rw [hmem] at hj
    split at hj
    next he => rw [he, hchain']; exact hfirst.change hj
    next hne => rw [← mem_chain_iff hok hok₁ (hother j hne)]; exact hrest.change j hj
  · have hnodup : ((report.toList.map fun type => (i, type)).map Prod.fst).Nodup := by
      cases report <;> simp
    rw [List.map_append]
    refine List.Nodup.append hrest.nodup hnodup ?_
    intro j hj hj'
    obtain rfl : i = j := by cases report <;> simp_all
    exact hnew (hrest.subset i hj)
  · intro j hj
    rw [List.map_append, List.mem_append] at hj
    rcases hj with hj | hj
    · exact List.mem_cons_of_mem i (hrest.subset j hj)
    · have hi : i = j := by cases report <;> simp_all
      exact hi ▸ List.mem_cons_self

/-- A loop over distinct schedulers returns and performs the action of every item. -/
theorem loop_spec (tells : Prop) (index : ι → S) (action : ι → ActionType × κ)
    (pre : Aggregation κ → ι → Prop)
    (body : Directory κ S → ι → Option (Directory κ S × Option ActionType))
    (hbody : ∀ (d : Directory κ S) (item : ι), d.Ok → pre (d.queue (index item)) item →
      ∃ d' report, body d item = some (d', report) ∧
        Performed d d' (index item) (action item).1 (action item).2 ∧
        (tells → Reported d d' (index item) report))
    {items : List ι} (hnodup : (items.map index).Nodup) (hok : d.Ok)
    (hpre : ∀ item ∈ items, pre (d.queue (index item)) item) (actions : List (S × ActionType)) :
    ∃ d' reported, loop index body d actions items = some (d', reported ++ actions) ∧
      PerformedAll index action d d' items ∧
      (tells → ReportedAll d d' (items.map index) reported) := by
  induction items generalizing d actions with
  | nil => exact ⟨d, [], rfl, .nil hok, fun _ => .nil⟩
  | cons item items ih =>
    obtain ⟨hnew, hnodup⟩ := List.nodup_cons.mp hnodup
    obtain ⟨d₁, report, hres, hfirst, htells⟩ := hbody d item hok (hpre item (by simp))
    have hpre' : ∀ other ∈ items, pre (d₁.queue (index other)) other := by
      intro other hother
      rw [hfirst.other _ fun he => hnew (he ▸ List.mem_map_of_mem hother)]
      exact hpre other (List.mem_cons_of_mem item hother)
    obtain ⟨d', reported, hloop, hrest, hreported⟩ := ih hnodup hfirst.ok hpre'
      (report.toList.map (fun type => (index item, type)) ++ actions)
    refine ⟨d', reported ++ report.toList.map fun type => (index item, type), ?_,
      .cons hfirst hrest hnew, fun ht => ?_⟩
    · simp only [loop, hres, Option.bind_eq_bind, Option.bind_some, hloop, List.append_assoc]
    · exact .cons hok hfirst.ok hrest.ok (htells ht) (hreported ht) hfirst.other
        (hrest.other _ hnew) hnew

omit [DecidableEq S] in
/-- A loop whose body always returns without a report. -/
theorem loop_eq_foldl (index : ι → S) (f : Directory κ S → ι → Directory κ S)
    (actions : List (S × ActionType)) (items : List ι) :
    loop index (fun d item => some (f d item, none)) d actions items =
      some (items.foldl f d, actions) := by
  induction items generalizing d with
  | nil => rfl
  | cons item items ih => exact ih

end loops

end Rtems.ThreadQueue.Smp.Directory
