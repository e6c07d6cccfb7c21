import Rtems.Core.Patch

/-!
# Queues in a ring of memory

A queue occupies consecutive places of a ring. Data that wraps around the end of the ring is
moved in two parts. Where the queue is marked by two places, it has the places behind the head up
to the tail, and one place of the ring stays unused.
-/

namespace Rtems

variable {β : Type*}

/-- The queue of `n` places from a start on. -/
def ring (m : Nat → β) (size start n : Nat) : List β :=
  (List.range n).map fun j => m ((start + j) % size)

/-- Write behind a place of the ring, in two parts if the data wraps around. -/
def ringPut (m : Nat → β) (size place : Nat) (data : Nat → β) (n : Nat) : Nat → β :=
  if size - place < n then
    patch (patch m place data (size - place)) 0 (fun j => data (size - place + j))
      (n - (size - place))
  else patch m place data n

/-- Read from a place of the ring on, in two parts if the data wraps around. -/
def ringGet (m : Nat → β) (size place n : Nat) : List β :=
  if size - place < n then segment m place (size - place) ++ segment m 0 (n - (size - place))
  else segment m place n

variable {m : Nat → β} {size start place n : Nat} {data : Nat → β}

@[simp] theorem length_ring (m : Nat → β) (size start n : Nat) :
    (ring m size start n).length = n := by
  simp [ring]

/-- A queue goes on with the queue behind it. -/
theorem ring_append (m : Nat → β) (size start k n : Nat) :
    ring m size start (k + n) = ring m size start k ++ ring m size (start + k) n := by
  simp only [ring, List.range_add, List.map_append, List.map_map]
  congr 1
  apply List.map_congr_left
  intro j _
  simp [Nat.add_assoc]

/-- A place of the ring that is at most once behind its end. -/
theorem mod_of_lt_two_mul {k : Nat} (h : k < 2 * size) :
    k % size = if k < size then k else k - size := by
  split
  · next hlt => exact Nat.mod_eq_of_lt hlt
  · next hge =>
    rw [Nat.mod_eq_sub_mod (by omega)]
    exact Nat.mod_eq_of_lt (by omega)

/-- A read in parts is a read of the queue. -/
theorem ringGet_eq (hplace : place < size) (hn : n ≤ size) :
    ringGet m size place n = ring m size place n := by
  have hfirst : ∀ k, place + k ≤ size → segment m place k = ring m size place k := by
    intro k hk
    apply List.map_congr_left
    intro j hj
    have hj := List.mem_range.mp hj
    rw [Nat.mod_eq_of_lt (by omega)]
  unfold ringGet
  split
  · next hwrap =>
    rw [hfirst (size - place) (by omega)]
    obtain ⟨k, hk⟩ : ∃ k, n = size - place + k := ⟨n - (size - place), by omega⟩
    rw [hk, Nat.add_sub_cancel_left, ring_append]
    congr 1
    apply List.map_congr_left
    intro j hj
    have hj := List.mem_range.mp hj
    rw [show place + (size - place) + j = j + size by omega, Nat.add_mod_right,
      Nat.mod_eq_of_lt (by omega), Nat.zero_add]
  · exact hfirst n (by omega)

/-- What a write in parts does to the places of the ring, counted from its first one. -/
theorem ringPut_place (hplace : place < size) (hn : n ≤ size) {j : Nat} (hj : j < size) :
    ringPut m size place data n ((place + j) % size) =
      if j < n then data j else m ((place + j) % size) := by
  rw [mod_of_lt_two_mul (by omega)]
  unfold ringPut
  by_cases hwrap : size - place < n
  · rw [if_pos hwrap]
    by_cases hbefore : place + j < size
    · rw [if_pos hbefore, if_pos (by omega), patch_outside _ _ (by omega),
        patch_add _ _ (by omega)]
    · rw [if_neg hbefore]
      by_cases hjn : j < n
      · rw [if_pos hjn, patch_inside _ _ (by omega) (by omega)]
        congr 1
        omega
      · rw [if_neg hjn, patch_outside _ _ (by omega), patch_outside _ _ (by omega)]
  · rw [if_neg hwrap]
    by_cases hjn : j < n
    · rw [if_pos hjn, if_pos (by omega), patch_add _ _ hjn]
    · rw [if_neg hjn]
      split
      · exact patch_outside _ _ (by omega)
      · exact patch_outside _ _ (by omega)

/-- Writing behind a queue adds the data to it. -/
theorem ring_ringPut (hstart : start < size) {k : Nat} (hk : k + n ≤ size) :
    ring (ringPut m size ((start + k) % size) data n) size start (k + n) =
      ring m size start k ++ (List.range n).map data := by
  have hplace : (start + k) % size < size := Nat.mod_lt _ (by omega)
  rw [ring_append]
  congr 1
  · apply List.map_congr_left
    intro j hj
    have hj := List.mem_range.mp hj
    have hsame : (start + j) % size = ((start + k) % size + (size - k + j)) % size := by
      rw [Nat.mod_add_mod, show start + k + (size - k + j) = start + j + size by omega,
        Nat.add_mod_right]
    rw [hsame, ringPut_place hplace (by omega) (by omega), if_neg (by omega)]
  · apply List.map_congr_left
    intro j hj
    have hj := List.mem_range.mp hj
    have hsame : (start + k + j) % size = ((start + k) % size + j) % size :=
      (Nat.mod_add_mod ..).symm
    rw [hsame, ringPut_place hplace (by omega) (by omega), if_pos hj]

/-- The queue depends on the place of its start only. -/
theorem ring_congr_start {start' : Nat} (h : start % size = start' % size) :
    ring m size start n = ring m size start' n := by
  apply List.map_congr_left
  intro j _
  rw [← Nat.mod_add_mod, h, Nat.mod_add_mod]

/-- Writing the place behind a queue adds a member to it. -/
theorem ring_update (hstart : start < size) {k : Nat} (hk : k < size) (a : β) :
    ring (Function.update m ((start + k) % size) a) size start (k + 1) =
      ring m size start k ++ [a] := by
  have hplace : (start + k) % size < size := Nat.mod_lt _ (by omega)
  have hput : Function.update m ((start + k) % size) a =
      ringPut m size ((start + k) % size) (fun _ => a) 1 := by
    funext j
    rw [ringPut, if_neg (by omega), Function.update_apply, patch]
    exact if_congr (by omega) rfl rfl
  rw [hput, ring_ringPut hstart hk]
  rfl

/-- The number of places behind the head up to the tail. -/
def ringDist (size head tail : Nat) : Nat :=
  (tail + (size - head)) % size

section

variable {head tail : Nat} (hhead : head < size) (htail : tail < size)
include hhead

theorem ringDist_lt : ringDist size head tail < size :=
  Nat.mod_lt _ (by omega)

theorem succ_mod : (head + 1) % size = if head + 1 < size then head + 1 else 0 := by
  rw [mod_of_lt_two_mul (by omega)]
  split
  · rfl
  · omega

include htail

theorem ringDist_eq :
    ringDist size head tail = if head ≤ tail then tail - head else tail + size - head := by
  rw [ringDist, mod_of_lt_two_mul (by omega)]
  split <;> split <;> omega

/-- The tail in terms of the head. -/
theorem add_ringDist : (head + ringDist size head tail) % size = tail := by
  rw [ringDist, Nat.add_mod_mod, show head + (tail + (size - head)) = tail + size by omega,
    Nat.add_mod_right, Nat.mod_eq_of_lt htail]

/-- The next place behind the tail is the head exactly if all other places are in use. -/
theorem succ_tail_eq_head_iff : (tail + 1) % size = head ↔ ringDist size head tail + 1 = size := by
  rw [succ_mod htail, ringDist_eq hhead htail]
  split <;> split <;> omega

theorem ringDist_succ_tail (hne : (tail + 1) % size ≠ head) :
    ringDist size head ((tail + 1) % size) = ringDist size head tail + 1 := by
  have hlt : (tail + 1) % size < size := Nat.mod_lt _ (by omega)
  rw [ringDist_eq hhead hlt, ringDist_eq hhead htail]
  rw [succ_mod htail] at hne ⊢
  by_cases hnext : tail + 1 < size
  · rw [if_pos hnext] at hne ⊢
    split <;> split <;> omega
  · rw [if_neg hnext] at hne ⊢
    split <;> split <;> omega

theorem ringDist_succ_head (hne : head ≠ tail) :
    ringDist size ((head + 1) % size) tail + 1 = ringDist size head tail := by
  have hlt : (head + 1) % size < size := Nat.mod_lt _ (by omega)
  rw [ringDist_eq hlt htail, ringDist_eq hhead htail, succ_mod hhead]
  by_cases hnext : head + 1 < size
  · rw [if_pos hnext]
    split <;> split <;> omega
  · rw [if_neg hnext]
    split <;> split <;> omega

/-- Writing the place behind the tail adds a member to the queue. -/
theorem ring_push (hne : (tail + 1) % size ≠ head) (a : β) :
    ring (Function.update m ((tail + 1) % size) a) size ((head + 1) % size)
        (ringDist size head ((tail + 1) % size)) =
      ring m size ((head + 1) % size) (ringDist size head tail) ++ [a] := by
  have hplace : (tail + 1) % size = ((head + 1) % size + ringDist size head tail) % size :=
    calc (tail + 1) % size
        = ((head + ringDist size head tail) % size + 1) % size := by
          rw [add_ringDist hhead htail]
      _ = ((head + 1) % size + ringDist size head tail) % size := by
          rw [Nat.mod_add_mod, Nat.mod_add_mod, Nat.add_right_comm]
  rw [ringDist_succ_tail hhead htail hne, hplace]
  exact ring_update (Nat.mod_lt _ (Nat.zero_lt_of_lt hhead)) (ringDist_lt hhead) a

/-- Moving the head removes the first member of the queue. -/
theorem ring_pop (m : Nat → β) (hne : head ≠ tail) :
    ring m size ((head + 1) % size) (ringDist size head tail) =
      m ((head + 1) % size) ::
        ring m size (((head + 1) % size + 1) % size) (ringDist size ((head + 1) % size) tail) := by
  have hfirst : ring m size ((head + 1) % size) 1 = [m ((head + 1) % size)] := by
    simp [ring]
  have hrest : ring m size ((head + 1) % size + 1) (ringDist size ((head + 1) % size) tail) =
      ring m size (((head + 1) % size + 1) % size) (ringDist size ((head + 1) % size) tail) :=
    ring_congr_start (Nat.mod_mod _ _).symm
  rw [← ringDist_succ_head hhead htail hne, Nat.add_comm (ringDist ..) 1, ring_append, hfirst,
    hrest]
  rfl

end

end Rtems
