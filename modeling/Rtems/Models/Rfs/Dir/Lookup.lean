import Rtems.Models.Rfs.Dir.Layout

/-!
# Look-ups

A look-up compares the hash and then only as many bytes as the name has that is looked up. It
finds the entry with the name if no entry with another name and the same hash has a name that
is a beginning of the name, or the other way round.
-/

namespace Rtems.Rfs.Dir

variable {fs : FileSystem}

/-- A look-up of the name may take an entry with another name for its own. -/
def Clash (fs : FileSystem) (name other : List UInt8) : Prop :=
  other ≠ name ∧ fs.hash other = fs.hash name ∧ (other <+: name ∨ name <+: other)

instance (fs : FileSystem) (name other : List UInt8) : Decidable (Clash fs name other) :=
  inferInstanceAs (Decidable (_ ∧ _ ∧ _))

theorem byteAt_name (e : Entry fs) (rest : List UInt8) (behind : Nat → UInt8) {j : Nat}
    (hj : j < e.name.length) :
    byteAt (e.bytes ++ rest) behind (entrySize + j) = e.name[j] := by
  have hget : (e.bytes ++ rest)[entrySize + j]? = some e.name[j] := by
    rw [← List.getElem?_drop, e.name_bytes, List.getElem?_append_left hj,
      List.getElem?_eq_getElem hj]
  rw [byteAt, hget]
  rfl

theorem nameMatches_self (e : Entry fs) (rest : List UInt8) (behind : Nat → UInt8) :
    nameMatches (e.bytes ++ rest) behind e.name = true := by
  rw [nameMatches, decide_eq_true_iff]
  apply List.ext_getElem
  · simp
  · intro j h₁ h₂
    rw [List.getElem_map, List.getElem_range]
    exact byteAt_name e rest behind h₂

/-- If the comparison succeeds, one of the names is a beginning of the other one. -/
theorem prefix_of_nameMatches {e : Entry fs} {rest : List UInt8} {behind : Nat → UInt8}
    {name : List UInt8} (h : nameMatches (e.bytes ++ rest) behind name = true) :
    e.name <+: name ∨ name <+: e.name := by
  rw [nameMatches, decide_eq_true_iff] at h
  have hget : ∀ j (h₁ : j < name.length) (h₂ : j < e.name.length), name[j] = e.name[j] := by
    intro j h₁ h₂
    rw [← byteAt_name e rest behind h₂]
    have hj : name[j]? = some (byteAt (e.bytes ++ rest) behind (entrySize + j)) := by
      rw [← h]
      simp [h₁]
    rw [List.getElem?_eq_getElem h₁] at hj
    exact Option.some.inj hj
  rcases Nat.le_total e.name.length name.length with hle | hle
  · left
    rw [List.prefix_iff_getElem]
    exact ⟨hle, fun j hj => (hget j (Nat.lt_of_lt_of_le hj hle) hj).symm⟩
  · right
    rw [List.prefix_iff_getElem]
    exact ⟨hle, fun j hj => hget j hj (Nat.lt_of_lt_of_le hj hle)⟩

/-- What a look-up does at an entry that it cannot take for another one. -/
theorem lookupVisit_entry (e : Entry fs) (rest : List UInt8) (behind : Nat → UInt8)
    {name : List UInt8} (hclash : ¬ Clash fs name e.name) (offset : Nat) :
    lookupVisit fs behind name (e.bytes ++ rest) offset e.size =
      if e.name = name then some (e.ino.toNat, offset) else none := by
  rw [lookupVisit, e.hash_bytes, e.ino_bytes]
  by_cases hname : e.name = name
  · subst hname
    rw [if_pos rfl, if_pos (nameMatches_self e rest behind), if_pos rfl]
  · rw [if_neg hname]
    split
    next hhash =>
      rw [if_neg]
      intro hmatch
      have hhash : fs.hash e.name = fs.hash name := UInt32.toNat_inj.mp hhash
      exact hclash ⟨hname, hhash, prefix_of_nameMatches hmatch⟩
    next => rfl

section

variable {ρ : Type} {visit : List UInt8 → Nat → Nat → Option ρ} {es : List (Entry fs)}
  (hskip : ∀ e ∈ es, ∀ rest offset, visit (e.bytes ++ rest) offset e.size = none)
include hskip

theorem scanEntries_append (es' : List (Entry fs)) (offset : Nat) :
    scanEntries fs visit (es ++ es') offset = scanEntries fs visit es' (offset + total es) := by
  induction es generalizing offset with
  | nil => rfl
  | cons e es ih =>
    have hhead := hskip e (List.mem_cons_self ..)
    rw [List.cons_append, scanEntries, hhead, total_cons, ← Nat.add_assoc]
    exact ih (fun e he => hskip e (List.mem_cons_of_mem _ he)) _

theorem scanEntries_none (offset : Nat) :
    scanEntries fs visit es offset =
      if offset + total es < fs.blockSize - entrySize then .empty (offset + total es) else .full := by
  have h := scanEntries_append hskip [] offset
  rwa [List.append_nil] at h

end

/-- All entries of a directory. -/
def allEntries (pages : List (Page fs)) : List (Entry fs) :=
  pages.flatMap Page.entries

section

variable (behind : Nat → Nat → UInt8) {name : List UInt8} {pages : List (Page fs)}
  (hclash : ∀ e ∈ allEntries pages, ¬ Clash fs name e.name)
  (habsent : ∀ e ∈ allEntries pages, e.name ≠ name)
include behind hclash habsent

/-- A look-up goes on behind pages without the name. -/
theorem lookupLoop_append (pages' : List (Page fs)) (bno : Nat) :
    lookupLoop fs behind name (blocks (pages ++ pages')) bno =
      lookupLoop fs behind name (blocks pages') (bno + pages.length) := by
  induction pages generalizing bno with
  | nil => rfl
  | cons p pages ih =>
    have hmem : ∀ e ∈ p.entries, e ∈ allEntries (p :: pages) :=
      fun e he => List.mem_append_left _ he
    have hskip : ∀ e ∈ p.entries, ∀ rest offset,
        lookupVisit fs (behind bno) name (e.bytes ++ rest) offset e.size = none := by
      intro e he rest offset
      rw [lookupVisit_entry e rest _ (hclash e (hmem e he)), if_neg (habsent e (hmem e he))]
    have hrest := ih (fun e he => hclash e (List.mem_append_right _ he))
      (fun e he => habsent e (List.mem_append_right _ he)) (bno + 1)
    have hbno : bno + (p :: pages).length = bno + 1 + pages.length := by
      rw [List.length_cons]
      omega
    rw [hbno, ← hrest]
    simp only [List.cons_append, blocks, List.map_cons, lookupLoop, scan_block, Option.bind_some,
      scanEntries_none hskip]
    by_cases hroom : 0 + total p.entries < fs.blockSize - entrySize
    · simp only [if_pos hroom]
    · simp only [if_neg hroom]

theorem lookupIno_absent :
    lookupIno fs behind (blocks pages) name = some (.error .enoent) := by
  have h := lookupLoop_append behind hclash habsent [] 0
  rw [List.append_nil] at h
  exact h

end

/-- A look-up of the name of the first entry that has it. -/
theorem lookupIno_found (behind : Nat → Nat → UInt8) {before after : List (Page fs)} {p : Page fs}
    {es es' : List (Entry fs)} {e : Entry fs} (hp : p.entries = es ++ e :: es')
    (hclash : ∀ d ∈ allEntries (before ++ p :: after), ¬ Clash fs e.name d.name)
    (hbefore : ∀ d ∈ allEntries before, d.name ≠ e.name) (hes : ∀ d ∈ es, d.name ≠ e.name) :
    lookupIno fs behind (blocks (before ++ p :: after)) e.name =
      some (.ok (e.ino.toNat, .ofNat (before.length * fs.blockSize + total es))) := by
  have hall : allEntries (before ++ p :: after) =
      allEntries before ++ ((es ++ e :: es') ++ allEntries after) := by
    simp [allEntries, hp]
  rw [hall] at hclash
  rw [lookupIno, lookupLoop_append behind (fun d hd => hclash d (List.mem_append_left _ hd)) hbefore,
    Nat.zero_add]
  have hskip : ∀ d ∈ es, ∀ rest offset, lookupVisit fs (behind before.length) e.name
      (d.bytes ++ rest) offset d.size = none := by
    intro d hd rest offset
    rw [lookupVisit_entry d rest _ (hclash d (by simp [hd])), if_neg (hes d hd)]
  have hself : ¬ Clash fs e.name e.name := fun h => h.1 rfl
  simp only [blocks, List.map_cons, lookupLoop, scan_block, hp, scanEntries_append hskip,
    scanEntries, lookupVisit_entry e _ _ hself, if_true, Option.bind_some, Nat.zero_add]

end Rtems.Rfs.Dir
