import Rtems.Models.Rfs.Dir.Read
import Rtems.Models.Rfs.Dir.Update

/-!
# A directory is a finite map

The entries that were added and not deleted are recorded beside the directory. As long as all
added entries pass the checks for valid entries, a look-up of a name that no recorded name can
be taken for gives the recorded inode, and reading the directory gives all recorded entries. The
offset that a look-up hands to a deletion has 32 bits.
-/

namespace Rtems.Rfs.Dir

variable {fs : FileSystem}

/-- A directory with the record of its entries. -/
structure State where
  /-- The blocks of the directory. -/
  dir : List Block
  /-- The names that were added and not deleted, with their inodes. -/
  stored : List (List UInt8 × UInt32)

/-- An empty directory. -/
def start : State := ⟨[], []⟩

/-- The operations; a deletion looks the name up first. -/
inductive Op
  | add (name : List UInt8) (ino : UInt32) (space : Nat)
  | del (name : List UInt8) (behind : Nat → Nat → UInt8)
  | lookup (name : List UInt8) (behind : Nat → Nat → UInt8)

/-- One successful operation. -/
def step (fs : FileSystem) (s : State) : Op → Option State
  | .add name ino space =>
    match addEntry fs name ino.toNat space s.dir with
    | some (.ok dir) => some ⟨dir, (name, ino) :: s.stored⟩
    | _ => none
  | .del name behind =>
    match lookupIno fs behind s.dir name with
    | some (.ok (ino, offset)) =>
      match delEntry fs s.dir ino offset with
      | some (.ok dir) => some ⟨dir, s.stored.filter fun entry => entry.1 ≠ name⟩
      | _ => none
    | _ => none
  | .lookup name behind => (lookupIno fs behind s.dir name).map fun _ => s

/-- The name is not present when it is added. -/
def Legal (s : State) : Op → Prop
  | .add name _ _ => name ∉ s.stored.map Prod.fst
  | .del _ _ => True
  | .lookup _ _ => True

instance (s : State) (op : Op) : Decidable (Legal s op) :=
  match op with
  | .add name _ _ => inferInstanceAs (Decidable (name ∉ s.stored.map Prod.fst))
  | .del _ _ => inferInstanceAs (Decidable True)
  | .lookup _ _ => inferInstanceAs (Decidable True)

/-- No recorded name can be taken for the name. -/
def Distinguished (fs : FileSystem) (s : State) (name : List UInt8) : Prop :=
  ∀ entry ∈ s.stored, ¬ Clash fs name entry.1

instance (fs : FileSystem) (s : State) (name : List UInt8) :
    Decidable (Distinguished fs s name) :=
  inferInstanceAs (Decidable (∀ entry ∈ s.stored, ¬ Clash fs name entry.1))

/-- The offsets in the directory have 32 bits. -/
def Addressable (fs : FileSystem) (s : State) : Prop :=
  s.dir.length * fs.blockSize ≤ 2 ^ 32

instance (fs : FileSystem) (s : State) : Decidable (Addressable fs s) :=
  inferInstanceAs (Decidable (_ ≤ _))

/-- A new name is not present and passes the checks for valid entries; no recorded name can be
taken for a deleted one, and the offsets in the directory have 32 bits. -/
def KeepsMap (fs : FileSystem) (s : State) : Op → Prop
  | .add name ino _ => name ∉ s.stored.map Prod.fst ∧ Accepted fs name ino
  | .del name _ => Distinguished fs s name ∧ Addressable fs s
  | .lookup _ _ => True

instance (fs : FileSystem) (s : State) (op : Op) : Decidable (KeepsMap fs s op) :=
  match op with
  | .add name ino _ =>
    inferInstanceAs (Decidable (name ∉ s.stored.map Prod.fst ∧ Accepted fs name ino))
  | .del name _ => inferInstanceAs (Decidable (Distinguished fs s name ∧ Addressable fs s))
  | .lookup _ _ => inferInstanceAs (Decidable True)

/-- The record of an entry. -/
def Entry.record (e : Entry fs) : List UInt8 × UInt32 :=
  (e.name, e.ino)

/-- The directory holds the recorded entries, with different names. -/
structure Holds (fs : FileSystem) (pages : List (Page fs)) (s : State) : Prop where
  /-- The blocks are those of the pages. -/
  dir : s.dir = blocks pages
  /-- The entries are the recorded ones. -/
  perm : ((allEntries pages).map Entry.record).Perm s.stored
  /-- The names are different. -/
  nodup : (s.stored.map Prod.fst).Nodup

namespace Holds

variable {pages : List (Page fs)} {s : State}
  {ino : UInt32}

section

variable (h : Holds fs pages s)
include h

theorem mem_stored {e : Entry fs} (he : e ∈ allEntries pages) : e.record ∈ s.stored :=
  h.perm.mem_iff.mp (List.mem_map_of_mem he)

theorem nodup_names : ((allEntries pages).map Entry.name).Nodup := by
  have hperm := h.perm.map Prod.fst
  rw [List.map_map] at hperm
  exact hperm.nodup_iff.mpr h.nodup

section

variable {name : List UInt8} (hname : Distinguished fs s name)
include hname

theorem not_clash :
    ∀ e ∈ allEntries pages, ¬ Clash fs name e.name :=
  fun e he => hname e.record (h.mem_stored he)

/-- A recorded name is found, with its place. -/
theorem lookup_stored (hmem : (name, ino) ∈ s.stored) (behind : Nat → Nat → UInt8) :
    ∃ (before after : List (Page fs)) (p : Page fs) (es es' : List (Entry fs)) (e : Entry fs),
      pages = before ++ p :: after ∧ p.entries = es ++ e :: es' ∧ e.record = (name, ino) ∧
      lookupIno fs behind s.dir name =
        some (.ok (ino.toNat, .ofNat (before.length * fs.blockSize + total es))) := by
  obtain ⟨e, he, hrecord⟩ := List.mem_map.mp (h.perm.mem_iff.mpr hmem)
  obtain ⟨p, hp, hep⟩ := List.mem_flatMap.mp he
  obtain ⟨before, after, hpages⟩ := List.append_of_mem hp
  obtain ⟨es, es', hentries⟩ := List.append_of_mem hep
  obtain ⟨rfl, rfl⟩ : e.name = name ∧ e.ino = ino := Prod.mk.inj hrecord
  -- The names before the entry differ from its name.
  have hnodup := h.nodup_names
  have hall : allEntries pages =
      (allEntries before ++ es) ++ e :: (es' ++ allEntries after) := by
    simp [allEntries, hpages, hentries]
  rw [hall, List.map_append, List.map_cons] at hnodup
  have hdisjoint := (List.nodup_append.mp hnodup).2.2
  have hother : ∀ d ∈ allEntries before ++ es, d.name ≠ e.name := fun d hd =>
    hdisjoint d.name (List.mem_map_of_mem hd) e.name (List.mem_cons_self ..)
  refine ⟨before, after, p, es, es', e, hpages, hentries, rfl, ?_⟩
  rw [h.dir, hpages]
  exact lookupIno_found behind hentries (hpages ▸ h.not_clash hname)
    (fun d hd => hother d (List.mem_append_left _ hd))
    (fun d hd => hother d (List.mem_append_right _ hd))

theorem lookup_absent (habsent : ∀ ino, (name, ino) ∉ s.stored) (behind : Nat → Nat → UInt8) :
    lookupIno fs behind s.dir name = some (.error .enoent) := by
  rw [h.dir]
  apply lookupIno_absent behind (h.not_clash hname)
  rintro e he rfl
  exact habsent e.ino (h.mem_stored he)

end

/-- A new entry, or no space for it. -/
theorem add {name : List UInt8}
    (hnew : name ∉ s.stored.map Prod.fst) (haccepted : Accepted fs name ino) (space : Nat) :
    (∃ t pages', step fs s (.add name ino space) = some t ∧ Holds fs pages' t) ∨
      (step fs s (.add name ino space) = none ∧
        (space = 0 ∨ fs.blockSize ≤ entrySize + name.length)) := by
  rcases addEntry_spec ⟨name, ino, haccepted⟩ space pages with ⟨pages', hadd, hperm⟩ | ⟨hadd, hfull⟩
  · left
    refine ⟨⟨blocks pages', (name, ino) :: s.stored⟩, pages', ?_, rfl, ?_, ?_⟩
    · simp only [step, h.dir, hadd]
    · exact (hperm.map Entry.record).trans (h.perm.cons _)
    · exact List.nodup_cons.mpr ⟨hnew, h.nodup⟩
  · right
    refine ⟨?_, hfull⟩
    simp only [step, h.dir, hadd]

/-- A deleted entry. -/
theorem del {name : List UInt8}
    (hname : Distinguished fs s name) (hsmall : Addressable fs s) (hmem : (name, ino) ∈ s.stored)
    (behind : Nat → Nat → UInt8) :
    ∃ t pages', step fs s (.del name behind) = some t ∧ Holds fs pages' t := by
  obtain ⟨before, after, p, es, es', e, hpages, hentries, hrecord, hlookup⟩ :=
    h.lookup_stored hname hmem behind
  obtain ⟨rfl, rfl⟩ : e.name = name ∧ e.ino = ino := Prod.mk.inj hrecord
  have hdel : delEntry fs s.dir e.ino.toNat (.ofNat (before.length * fs.blockSize + total es)) =
      some (.ok (blocks (delPages before after (p.del hentries)))) := by
    unfold Addressable at hsmall
    rw [h.dir, hpages] at hsmall ⊢
    exact delEntry_spec hentries (by rwa [blocks, List.length_map] at hsmall)
  have hperm : (e.record :: (allEntries (delPages before after (p.del hentries))).map
      Entry.record).Perm s.stored := by
    have hentry : (allEntries (before ++ p :: after)).Perm
        (e :: allEntries (delPages before after (p.del hentries))) := allEntries_del hentries
    rw [← hpages] at hentry
    exact (hentry.map Entry.record).symm.trans h.perm
  have hfilter := hperm.filter fun entry => decide (entry.1 ≠ e.name)
  have hnodup := (hperm.map Prod.fst).nodup_iff.mpr h.nodup
  refine ⟨⟨blocks (delPages before after (p.del hentries)),
    s.stored.filter fun entry => decide (entry.1 ≠ e.name)⟩, _, ?_, rfl, ?_, ?_⟩
  · simp only [step, hlookup, hdel]
  · refine List.Perm.trans (List.Perm.of_eq ?_) hfilter
    rw [List.map_cons, List.nodup_cons] at hnodup
    rw [List.filter_cons_of_neg (by simp [Entry.record]), List.filter_eq_self.mpr]
    intro entry hentry
    rw [decide_eq_true_eq]
    intro heq
    have hmem := List.mem_map_of_mem (f := Prod.fst) hentry
    rw [heq] at hmem
    exact hnodup.1 hmem
  · exact (List.filter_sublist.map Prod.fst).nodup h.nodup

/-- Reading the directory from its start on. -/
theorem readAll :
    ∃ ds, (∀ fuel, s.stored.length < fuel → Dir.readAll fs s.dir fuel 0 = some (.ok ds)) ∧
      (ds.map fun d => (d.name, d.ino)).Perm
        (s.stored.map fun entry => (entry.1.take fs.nameMax, entry.2.toNat)) := by
  have hstart : At pages 0 (allEntries pages) := by
    have hat : At ([] ++ pages) (([] : List (Page fs)).length * fs.blockSize) (allEntries pages) :=
      At.start [] pages
    rwa [List.length_nil, Nat.zero_mul] at hat
  have hlength : s.stored.length = (allEntries pages).length := by
    rw [← h.perm.length_eq, List.length_map]
  obtain ⟨ds, hread, hall⟩ := hstart.readAll
  refine ⟨ds, fun fuel hfuel => ?_, ?_⟩
  · rw [h.dir]
    exact hread fuel (hlength ▸ hfuel)
  · have hperm := h.perm.map fun entry => (entry.1.take fs.nameMax, entry.2.toNat)
    rw [List.map_map] at hperm
    rw [hall]
    exact hperm

end

end Holds

/-- An operation that keeps the map leads to a directory with the recorded entries. -/
theorem exists_holds_of_step {pages : List (Page fs)} {s t : State} {op : Op}
    (h : Holds fs pages s) (hop : KeepsMap fs s op) (hstep : step fs s op = some t) :
    ∃ pages', Holds fs pages' t := by
  cases op with
  | add name ino space =>
    rcases h.add hop.1 hop.2 space with ⟨t', pages', hstep', ht'⟩ | ⟨hnone, -⟩
    · exact ⟨pages', Option.some.inj (hstep'.symm.trans hstep) ▸ ht'⟩
    · rw [hnone] at hstep
      cases hstep
  | del name behind =>
    by_cases hmem : ∃ ino, (name, ino) ∈ s.stored
    · obtain ⟨ino, hmem⟩ := hmem
      obtain ⟨t', pages', hstep', ht'⟩ := h.del hop.1 hop.2 hmem behind
      exact ⟨pages', Option.some.inj (hstep'.symm.trans hstep) ▸ ht'⟩
    · have habsent := h.lookup_absent hop.1 (fun ino hino => hmem ⟨ino, hino⟩) behind
      simp only [step, habsent] at hstep
      cases hstep
  | lookup name behind =>
    obtain ⟨-, -, rfl⟩ := Option.map_eq_some_iff.mp hstep
    exact ⟨pages, h⟩

/-- In a run whose new entries pass the checks for valid entries, and whose deleted names no
recorded name can be taken for and lie in a directory of at most 4 GiB, a directory is a finite
map: such a name is found with its inode exactly if it is recorded, reading the directory gives
every recorded entry once, and a further operation of this kind succeeds if there is space. -/
theorem directory_is_finite_map {ops : List Op} {s : State}
    (hrun : Run (step fs) (KeepsMap fs) start ops s) :
    (∀ behind name, Distinguished fs s name →
      (∀ ino, (name, ino) ∈ s.stored →
        ∃ offset, lookupIno fs behind s.dir name = some (.ok (ino.toNat, offset))) ∧
      ((∀ ino, (name, ino) ∉ s.stored) →
        lookupIno fs behind s.dir name = some (.error .enoent))) ∧
    (∃ ds, (∀ fuel, s.stored.length < fuel → readAll fs s.dir fuel 0 = some (.ok ds)) ∧
      (ds.map fun d => (d.name, d.ino)).Perm
        (s.stored.map fun entry => (entry.1.take fs.nameMax, entry.2.toNat))) ∧
    (s.stored.map Prod.fst).Nodup ∧
    (∀ name ino space, name ∉ s.stored.map Prod.fst → Accepted fs name ino →
      entrySize + name.length < fs.blockSize → 0 < space →
      ∃ t, step fs s (.add name ino space) = some t) ∧
    ∀ name ino behind, Distinguished fs s name → Addressable fs s → (name, ino) ∈ s.stored →
      ∃ t, step fs s (.del name behind) = some t := by
  obtain ⟨pages, h⟩ : ∃ pages, Holds fs pages s := by
    refine hrun.invariant (fun s => ∃ pages, Holds fs pages s)
      ⟨[], rfl, .nil, List.nodup_nil⟩ ?_
    rintro s op t ⟨pages, hs⟩ hop hstep
    exact exists_holds_of_step hs hop hstep
  refine ⟨?_, ?_, h.nodup, ?_, ?_⟩
  · intro behind name hname
    refine ⟨fun ino hmem => ?_, fun habsent => h.lookup_absent hname habsent behind⟩
    obtain ⟨before, -, -, es, -, -, -, -, -, hlookup⟩ := h.lookup_stored hname hmem behind
    exact ⟨_, hlookup⟩
  · exact h.readAll
  · intro name ino space hnew haccepted hfits hspace
    rcases h.add hnew haccepted space with ⟨t, -, hstep, -⟩ | ⟨-, hfull⟩
    · exact ⟨t, hstep⟩
    · omega
  · intro name ino behind hname hsmall hmem
    obtain ⟨t, -, hstep, -⟩ := h.del hname hsmall hmem behind
    exact ⟨t, hstep⟩

/-- A file system with blocks of 512 bytes and names up to 64 bytes, whose hash does not tell
names apart. -/
private def constantHash : FileSystem :=
  ⟨512, 64, 100, 255, fun _ => 7, by decide⟩

/-- The zero bytes behind a buffer. -/
private def zeros : Nat → Nat → UInt8 := fun _ _ => 0

/-- Two names with the same hash are added, and the first one is deleted. -/
private def twoNames : List Op :=
  [.add [97, 98] 2 1, .add [99] 3 0, .lookup [97, 98] zeros, .del [97, 98] zeros]

/-- The second name is still found, and the first one is not. -/
theorem directory_is_finite_map_twoNames :
    ∃ s, Run (step constantHash) (KeepsMap constantHash) start twoNames s ∧
      s.stored = [([99], 3)] ∧
      (∃ offset, lookupIno constantHash zeros s.dir [99] = some (.ok (3, offset))) ∧
      lookupIno constantHash zeros s.dir [97, 98] = some (.error .enoent) := by
  obtain ⟨s, hrun, hstored⟩ :
      ∃ s, Run (step constantHash) (KeepsMap constantHash) start twoNames s ∧
        s.stored = [([99], 3)] :=
    ⟨_, .of_exec rfl, rfl⟩
  obtain ⟨hlookup, -⟩ := directory_is_finite_map hrun
  have hfirst : Distinguished constantHash s [97, 98] := by
    rw [Distinguished, hstored]
    decide
  have hsecond : Distinguished constantHash s [99] := by
    rw [Distinguished, hstored]
    decide
  refine ⟨s, hrun, hstored, (hlookup zeros [99] hsecond).1 3 (by simp [hstored]), ?_⟩
  exact (hlookup zeros [97, 98] hfirst).2 (fun ino => by simp [hstored])

/-- A name of 60 bytes, below the maximum of 64, is added, and then the look-up of this name
fails with an I/O error. -/
theorem lookup_of_long_name_fails :
    ∃ s, Run (step constantHash) Legal start [.add (List.replicate 60 97) 2 1] s ∧
      s.stored = [(List.replicate 60 97, 2)] ∧
      lookupIno constantHash zeros s.dir (List.replicate 60 97) = some (.error .eio) :=
  ⟨_, .of_exec rfl, rfl, rfl⟩

end Rtems.Rfs.Dir
