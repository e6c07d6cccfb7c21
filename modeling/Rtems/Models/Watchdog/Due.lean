import Rtems.Models.Watchdog.Queue

/-!
# Watchdogs fire when they are due

Every event of a history is judged by what came before it: a watchdog fires in a tickle
whose time it has reached, while it is still scheduled and due before all others, and a
tickle ends only when no scheduled watchdog is due. From this it follows that each
insertion leads to one firing, in the first tickle that reaches its time, unless the
watchdog is removed before.
-/

namespace Rtems.Watchdog

variable {W : Type*}

/-- The event ends the insertion with this number. -/
def Event.closes (n : Nat) : Event W → Bool
  | .removed m _ => m = n
  | .fired m _ _ => m = n
  | _ => false

/-- The insertion with this number has fired or was removed. -/
def Closed (history : List (Event W)) (n : Nat) : Prop := ∃ e ∈ history, Event.closes n e = true

/-- The time of the tickle in progress after a history. -/
def ticklingAfter : List (Event W) → Option Nat
  | [] => none
  | .began now :: _ => some now
  | .ended _ :: _ => none
  | .inserted _ _ _ :: l | .removed _ _ :: l | .fired _ _ _ :: l => ticklingAfter l

/-- An event is right after a history. -/
def Right (l : List (Event W)) : Event W → Prop
  | .inserted n _ _ => ∀ m v e, .inserted m v e ∈ l → m < n
  | .removed n w => ¬ Closed l n ∧ ∃ expire, .inserted n w expire ∈ l
  | .began _ => ticklingAfter l = none
  | .fired n w now => ¬ Closed l n ∧ ticklingAfter l = some now ∧
      ∃ expire, .inserted n w expire ∈ l ∧ expire ≤ now ∧
        ∀ m v e, .inserted m v e ∈ l → ¬ Closed l m → m ≠ n →
          expire < e ∨ expire = e ∧ n < m
  | .ended now => ticklingAfter l = some now ∧
      ∀ n w expire, .inserted n w expire ∈ l → expire ≤ now → Closed l n

/-- Every event of the history is right after the earlier ones. -/
def Sound (history : List (Event W)) : Prop :=
  ∀ l₁ e l₂, history = l₁ ++ e :: l₂ → Right l₂ e

variable {history : List (Event W)}

theorem Sound.cons {e : Event W} (h : Sound history)
    (he : Right history e) : Sound (e :: history) := by
  intro l₁ e' l₂ heq
  cases l₁ with
  | nil =>
    obtain ⟨rfl, rfl⟩ := List.cons.inj heq
    exact he
  | cons a l₁ => exact h l₁ e' l₂ (List.cons.inj heq).2

/-- The header, the numbers and the history agree. -/
structure Agrees (s : System W) : Prop where
  queue : Queue s.state s.number
  tickling : ticklingAfter s.history = s.tickling
  inserted_lt : ∀ n w e, .inserted n w e ∈ s.history → n < s.count
  closed_lt : ∀ n, Closed s.history n → n < s.count
  scheduled : ∀ w, s.state.isScheduled w = true →
    .inserted (s.number w) w (s.state.expire w) ∈ s.history ∧ ¬ Closed s.history (s.number w)
  open_or : ∀ n w e, .inserted n w e ∈ s.history → Closed s.history n ∨
    s.state.isScheduled w = true ∧ s.number w = n ∧ s.state.expire w = e
  sound : Sound s.history

variable {n : Nat}

theorem closed_cons {e : Event W} :
    Closed (e :: history) n ↔ Event.closes n e = true ∨ Closed history n := by
  simp [Closed]

theorem agrees_initialized : Agrees (System.initialized : System W) where
  queue := ⟨List.Pairwise.nil, by simp [System.initialized, initialized, State.scheduled,
    SearchTree.inorder], rfl⟩
  tickling := rfl
  inserted_lt n w e h := by simp [System.initialized] at h
  closed_lt n h := by simp [System.initialized, Closed] at h
  scheduled w h := by simp [System.initialized, initialized] at h
  open_or n w e h := by simp [System.initialized] at h
  sound _ _ _ h := by simp [System.initialized] at h

variable {s s' : System W}

/-- An insertion. -/
theorem Agrees.insert [DecidableEq W] (h : Agrees s) (rb : RedBlack W) {w : W}
    (hw : s.state.isScheduled w = false) (expire : Nat) :
    Agrees { s with
      state := watchdogInsert rb s.state w expire
      count := s.count + 1
      number := Function.update s.number w s.count
      history := .inserted s.count w expire :: s.history } := by
  have hclosed (n : Nat) : Closed (.inserted s.count w expire :: s.history) n ↔
      Closed s.history n := by simp [closed_cons, Event.closes]
  have hne {v : W} (hv : s.state.isScheduled v = true) : v ≠ w := by
    rintro rfl
    simp [hw] at hv
  have hnumber (v : W) (hv : s.state.isScheduled v = true) : s.number v < s.count :=
    h.inserted_lt _ _ _ (h.scheduled v hv).1
  refine ⟨h.queue.insert rb hw expire hnumber, h.tickling, ?_, ?_, ?_, ?_, ?_⟩
  · intro n v e hmem
    rcases List.mem_cons.mp hmem with heq | hmem
    · cases heq
      exact Nat.lt_succ_self _
    · exact Nat.lt_succ_of_lt (h.inserted_lt n v e hmem)
  · intro n hn
    exact Nat.lt_succ_of_lt (h.closed_lt n ((hclosed n).mp hn))
  · intro v hv
    simp only [hclosed]
    by_cases hvw : v = w
    · subst hvw
      refine ⟨by simp [watchdogInsert], fun hc => ?_⟩
      rw [Function.update_self] at hc
      exact absurd (h.closed_lt _ hc) (Nat.lt_irrefl _)
    · have hv : s.state.isScheduled v = true := by simpa [watchdogInsert, hvw] using hv
      simpa [watchdogInsert, hvw] using h.scheduled v hv
  · intro n v e hmem
    simp only [hclosed]
    rcases List.mem_cons.mp hmem with heq | hmem
    · cases heq
      right
      simp [watchdogInsert]
    · rcases h.open_or n v e hmem with hc | ⟨hv, hrest⟩
      · exact .inl hc
      · right
        simpa [watchdogInsert, hne hv] using ⟨hv, hrest⟩
  · exact h.sound.cons fun m v e hmem => h.inserted_lt m v e hmem

/-- A number belongs to one insertion. -/
theorem Sound.inserted_unique (h : Sound history) {v w : W}
    {e f : Nat} (hv : .inserted n v e ∈ history) (hw : .inserted n w f ∈ history) :
    v = w ∧ e = f := by
  induction history with
  | nil => simp at hv
  | cons a l ih =>
    have hright : Right l a := h [] a l rfl
    have hl : Sound l := fun l₁ e' l₂ heq => h (a :: l₁) e' l₂ (by rw [heq]; rfl)
    rcases List.mem_cons.mp hv with hva | hv <;> rcases List.mem_cons.mp hw with hwa | hw
    · have := hva.trans hwa.symm
      simpa using this
    · rw [← hva] at hright
      exact absurd (hright n w f hw) (Nat.lt_irrefl n)
    · rw [← hwa] at hright
      exact absurd (hright n v e hv) (Nat.lt_irrefl n)
    · exact ih hl hv hw

variable {event : Event W}

/-- A scheduled watchdog leaves the queue, by a removal or a firing. -/
theorem Agrees.close [DecidableEq W] (h : Agrees s) {w : W} (hw : s.state.isScheduled w = true)
    {state : State W}
    (hqueue : Queue state s.number) (hexpire : state.expire = s.state.expire)
    (hscheduled : state.isScheduled = Function.update s.state.isScheduled w false)
    (hcloses : ∀ n, Event.closes n event = true ↔ s.number w = n)
    (hinserted : ∀ n v e, event ≠ .inserted n v e)
    (htickling : ticklingAfter (event :: s.history) = ticklingAfter s.history)
    (hright : Right s.history event) :
    Agrees { s with state := state, history := event :: s.history } := by
  have hold (n : Nat) (v : W) (e : Nat) : Event.inserted n v e ∈ event :: s.history ↔
      Event.inserted n v e ∈ s.history := by
    rw [List.mem_cons]
    exact or_iff_right fun heq => hinserted n v e heq.symm
  have hother {v : W} (hv : state.isScheduled v = true) :
      v ≠ w ∧ s.state.isScheduled v = true := by
    rw [hscheduled] at hv
    by_cases hvw : v = w
    · simp [hvw] at hv
    · exact ⟨hvw, by simpa [hvw] using hv⟩
  refine ⟨hqueue, htickling.trans h.tickling, ?_, ?_, ?_, ?_, h.sound.cons hright⟩
  · intro n v e hmem
    exact h.inserted_lt n v e ((hold n v e).mp hmem)
  · intro n hn
    rcases closed_cons.mp hn with hc | hc
    · rw [← (hcloses n).mp hc]
      exact h.inserted_lt _ _ _ (h.scheduled w hw).1
    · exact h.closed_lt n hc
  · intro v hv
    obtain ⟨hne, hv⟩ := hother hv
    obtain ⟨hmem, hnot⟩ := h.scheduled v hv
    simp only [hold, hexpire, closed_cons, hcloses, not_or]
    refine ⟨hmem, fun hn => hne ?_, hnot⟩
    rw [← hn] at hmem
    exact (h.sound.inserted_unique hmem (h.scheduled w hw).1).1
  · intro n v e hmem
    simp only [closed_cons, hcloses]
    rcases h.open_or n v e ((hold n v e).mp hmem) with hc | ⟨hv, hn, he⟩
    · exact .inl (.inr hc)
    · by_cases hvw : v = w
      · exact .inl (.inl (hvw ▸ hn))
      · right
        rw [hscheduled, hexpire]
        exact ⟨by simpa [hvw] using hv, hn, he⟩

/-- A removal. -/
theorem Agrees.remove [DecidableEq W] (h : Agrees s) (rb : RedBlack W) (w : W) :
    Agrees { s with
      state := watchdogRemove rb s.state w
      history :=
        if s.state.isScheduled w then .removed (s.number w) w :: s.history else s.history } := by
  by_cases hw : s.state.isScheduled w = true
  · rw [if_pos hw]
    obtain ⟨hmem, hnot⟩ := h.scheduled w hw
    refine h.close hw (h.queue.remove rb hw) ?_ ?_ (fun n => by simp [Event.closes]) (by simp) rfl
      ⟨hnot, _, hmem⟩
    · simp [watchdogRemove, hw, deactivate]
    · simp [watchdogRemove, hw, deactivate]
  · rw [if_neg hw, watchdogRemove, if_neg hw]
    exact h

/-- The begin and the end of a tickle leave the queue alone. -/
theorem Agrees.mark (h : Agrees s) {tickling : Option Nat}
    (hcloses : ∀ n, Event.closes n event = false) (hinserted : ∀ n v e, event ≠ .inserted n v e)
    (htickling : ticklingAfter (event :: s.history) = tickling)
    (hright : Right s.history event) :
    Agrees { s with tickling := tickling, history := event :: s.history } := by
  have hclosed (n : Nat) : Closed (event :: s.history) n ↔ Closed s.history n := by
    simp [closed_cons, hcloses]
  have hold (n : Nat) (v : W) (e : Nat) : Event.inserted n v e ∈ event :: s.history ↔
      Event.inserted n v e ∈ s.history := by
    rw [List.mem_cons]
    exact or_iff_right fun heq => hinserted n v e heq.symm
  refine ⟨h.queue, htickling, ?_, ?_, ?_, ?_, h.sound.cons hright⟩
  · intro n v e hmem
    exact h.inserted_lt n v e ((hold n v e).mp hmem)
  · intro n hn
    exact h.closed_lt n ((hclosed n).mp hn)
  · intro v hv
    rw [hold, hclosed]
    exact h.scheduled v hv
  · intro n v e hmem
    rw [hclosed]
    exact h.open_or n v e ((hold n v e).mp hmem)

/-- An iteration of the tickle in progress. -/
theorem Agrees.iterate [DecidableEq W] (h : Agrees s) (rb : RedBlack W) {now : Nat}
    (hnow : s.tickling = some now) :
    ∃ s', step rb s .iterate = some s' ∧ Agrees s' := by
  rcases tickleIteration_spec h.queue rb now with
    ⟨w, state, hres, hfirst, hdue, hexpire, hscheduled, hqueue⟩ | ⟨hres, hnone⟩
  · obtain ⟨hw, hsooner⟩ := h.queue.sooner_of_first hfirst
    obtain ⟨hmem, hnot⟩ := h.scheduled w hw
    refine ⟨{ s with state := state, history := .fired (s.number w) w now :: s.history },
      by simp [step, hnow, hres], ?_⟩
    refine h.close hw hqueue hexpire hscheduled (fun n => by simp [Event.closes]) (by simp) rfl
      ⟨hnot, h.tickling.trans hnow, _, hmem, hdue, ?_⟩
    intro m v e hv hopen hne
    obtain hc | ⟨hscheduled, rfl, rfl⟩ := h.open_or m v e hv
    · exact absurd hc hopen
    · refine hsooner v hscheduled ?_
      rintro rfl
      exact hne rfl
  · refine ⟨{ s with tickling := none, history := .ended now :: s.history },
      by simp [step, hnow, hres], ?_⟩
    refine h.mark (fun _ => rfl) (by simp) rfl ⟨h.tickling.trans hnow, ?_⟩
    intro n v e hmem hle
    obtain hc | ⟨hscheduled, rfl, rfl⟩ := h.open_or n v e hmem
    · exact hc
    · exact absurd (hnone v hscheduled) (by omega)

/-- Every legal operation is defined and keeps the agreement. -/
theorem Agrees.step [DecidableEq W] (h : Agrees s) (rb : RedBlack W) {op : Op W}
    (hlegal : Legal s op) :
    ∃ s', Watchdog.step rb s op = some s' ∧ Agrees s' := by
  cases op with
  | insert w expire => exact ⟨_, rfl, h.insert rb hlegal expire⟩
  | remove w => exact ⟨_, rfl, h.remove rb w⟩
  | tickle now =>
    exact ⟨_, rfl, h.mark (fun _ => rfl) (by simp) rfl (h.tickling.trans hlegal)⟩
  | iterate =>
    obtain ⟨now, hnow⟩ := Option.ne_none_iff_exists'.mp hlegal
    exact h.iterate rb hnow

/-- What a history, latest event first, says about the insertions with their numbers. -/
structure FiresWhenDue (history : List (Event W)) : Prop where
  /-- A later insertion has a larger number. -/
  numbered : ∀ l₁ l₂ n w e, history = l₁ ++ .inserted n w e :: l₂ →
    ∀ m v f, .inserted m v f ∈ l₂ → m < n
  /-- A watchdog fires or is removed once after its insertion, so that a removed one
  never fires. -/
  once : ∀ l₁ l₂ n event, history = l₁ ++ event :: l₂ → Event.closes n event = true →
    ¬ Closed l₂ n ∧ ¬ Closed l₁ n ∧ ∃ w e, .inserted n w e ∈ l₂
  /-- A watchdog fires in a tickle that has reached its time. -/
  due : ∀ l₁ l₂ n w now, history = l₁ ++ .fired n w now :: l₂ →
    ticklingAfter l₂ = some now ∧ ∃ e, .inserted n w e ∈ l₂ ∧ e ≤ now
  /-- A tickle that reaches the time of a watchdog does not end before the watchdog has
  fired or was removed. -/
  fires : ∀ l₁ l₂ now, history = l₁ ++ .ended now :: l₂ →
    ∀ n w e, .inserted n w e ∈ l₂ → e ≤ now → Closed l₂ n
  /-- It is the first tickle that reaches the time. -/
  first_tickle : ∀ l₁ l₂ l₃ n w v now now' e,
    history = l₁ ++ .fired n w now :: (l₂ ++ .ended now' :: l₃) → .inserted n v e ∈ l₃ → now' < e
  /-- Watchdogs fire by expiration time, the earlier insertion first on ties, if both were
  scheduled when the first of them fired. -/
  order : ∀ l₁ l₂ l₃ n n' w w' v v' now now' e e',
    history = l₁ ++ .fired n' w' now' :: (l₂ ++ .fired n w now :: l₃) →
      .inserted n v e ∈ l₃ → .inserted n' v' e' ∈ l₃ → e < e' ∨ e = e' ∧ n < n'

theorem Closed.append {l₁ l₂ : List (Event W)} (h : Closed l₂ n) :
    Closed (l₁ ++ l₂) n := by
  obtain ⟨e, he, hc⟩ := h
  exact ⟨e, List.mem_append_right l₁ he, hc⟩

/-- The event that closes an insertion comes after it and after no other such event. -/
theorem Sound.closes {history l₁ l₂ : List (Event W)}
    (h : Sound history) (heq : history = l₁ ++ event :: l₂)
    (hc : Event.closes n event = true) : ¬ Closed l₂ n ∧ ∃ w e, .inserted n w e ∈ l₂ := by
  have hright := h l₁ event l₂ heq
  cases event with
  | removed m w =>
    obtain rfl : m = n := by simpa [Event.closes] using hc
    obtain ⟨hnot, e, hmem⟩ := hright
    exact ⟨hnot, w, e, hmem⟩
  | fired m w now =>
    obtain rfl : m = n := by simpa [Event.closes] using hc
    obtain ⟨hnot, -, e, hmem, -⟩ := hright
    exact ⟨hnot, w, e, hmem⟩
  | inserted m w e => simp [Event.closes] at hc
  | began now => simp [Event.closes] at hc
  | ended now => simp [Event.closes] at hc

/-- Right events make watchdogs fire when they are due. -/
theorem Sound.firesWhenDue (h : Sound history) :
    FiresWhenDue history where
  numbered l₁ l₂ n w e heq := h l₁ _ l₂ heq
  once l₁ l₂ n event heq hc := by
    obtain ⟨hnot, hinserted⟩ := h.closes heq hc
    refine ⟨hnot, ?_, hinserted⟩
    rintro ⟨later, hmem, hlater⟩
    obtain ⟨a, b, rfl⟩ := List.append_of_mem hmem
    have hsplit : history = a ++ later :: (b ++ event :: l₂) := by simp [heq]
    exact (h.closes hsplit hlater).1 (Closed.append ⟨event, List.mem_cons_self, hc⟩)
  due l₁ l₂ n w now heq := by
    obtain ⟨-, htickling, e, hmem, hle, -⟩ := h l₁ _ l₂ heq
    exact ⟨htickling, e, hmem, hle⟩
  fires l₁ l₂ now heq := (h l₁ _ l₂ heq).2
  first_tickle l₁ l₂ l₃ n w v now now' e heq hmem := by
    have hended : Right l₃ (.ended now') := h (l₁ ++ .fired n w now :: l₂) _ l₃ (by simp [heq])
    by_contra hle
    have hclosed := hended.2 n v e hmem (by omega)
    refine (h l₁ _ _ heq).1 ?_
    have hcons : Closed (.ended now' :: l₃) n := closed_cons.mpr (.inr hclosed)
    exact hcons.append
  order l₁ l₂ l₃ n n' w w' v v' now now' e e' heq hmem hmem' := by
    have hsplit : history = (l₁ ++ .fired n' w' now' :: l₂) ++ .fired n w now :: l₃ := by
      simp [heq]
    obtain ⟨-, -, expire, hfired, -, hsooner⟩ := h _ _ l₃ hsplit
    have hsub : Sound l₃ := fun a b c habc =>
      h (l₁ ++ .fired n' w' now' :: (l₂ ++ .fired n w now :: a)) b c (by simp [heq, habc])
    obtain rfl := (hsub.inserted_unique hmem hfired).2
    have hopen : ¬ Closed (l₂ ++ .fired n w now :: l₃) n' := (h l₁ _ _ heq).1
    refine hsooner n' v' e' hmem' ?_ ?_
    · intro hc
      have hcons : Closed (.fired n w now :: l₃) n' := closed_cons.mpr (.inr hc)
      exact hopen hcons.append
    · rintro rfl
      have hcons : Closed (.fired n' w now :: l₃) n' :=
        closed_cons.mpr (.inl (by simp [Event.closes]))
      exact hopen hcons.append

variable [DecidableEq W]

/-- In every run of insertions, removals and tickles, with any operations between the
iterations of a tickle, the cached node is the first scheduled watchdog and the
watchdogs fire when they are due. Every legal operation is defined. -/
theorem watchdogs_fire_when_due (rb : RedBlack W) {ops : List (Op W)} {s : System W}
    (hrun : Run (step rb) Legal System.initialized ops s) :
    (s.state.header.first = none ↔ ∀ w, s.state.isScheduled w = false) ∧
    (∀ w, s.state.header.first = some w → s.state.isScheduled w = true ∧
      ∀ v, s.state.isScheduled v = true → v ≠ w → Sooner s.state.expire s.number w v) ∧
    (∀ w, s.state.isScheduled w = true → .inserted (s.number w) w (s.state.expire w) ∈ s.history ∧
      ¬ Closed s.history (s.number w)) ∧
    FiresWhenDue s.history ∧
    ∀ op, Legal s op → (step rb s op).isSome = true := by
  have h : Agrees s := hrun.invariant Agrees agrees_initialized (by
    intro s op s' h hlegal hstep
    obtain ⟨s'', hres, h'⟩ := h.step rb hlegal
    rw [hstep, Option.some_inj] at hres
    exact hres ▸ h')
  refine ⟨h.queue.first_eq_none_iff, fun w => h.queue.sooner_of_first, h.scheduled,
    h.sound.firesWhenDue, fun op hlegal => ?_⟩
  obtain ⟨s', hres, -⟩ := h.step rb hlegal
  rw [hres]
  rfl

/-- A tree without left children. -/
def spine : List W → BinaryTree W
  | [] => .nil
  | w :: l => .node w .nil (spine l)

omit [DecidableEq W] in
theorem inorder_spine (l : List W) : SearchTree.inorder (spine l) = l := by
  induction l with
  | nil => rfl
  | cons w l ih => simp [spine, SearchTree.inorder, ih]

/-- Trees without balance. -/
def RedBlack.unbalanced : RedBlack W where
  insertColor t := t
  extract t w := spine ((SearchTree.inorder t).erase w)
  inorder_insertColor _ := rfl
  inorder_extract _ _ _ := inorder_spine _

theorem watchdogs_fire_when_due_reinserted :
    ∃ s : System (Fin 3), Run (step .unbalanced) Legal System.initialized
        [.insert 0 5, .insert 1 5, .insert 2 3, .tickle 5, .iterate, .remove 1, .insert 2 4,
          .iterate, .iterate, .iterate] s ∧
      FiresWhenDue s.history ∧
      s.history.filter (Event.closes 3) = [.fired 3 2 5] ∧ s.state.header.first = none := by
  have hexec : ∃ s : System (Fin 3), exec (step .unbalanced) Legal System.initialized
      [.insert 0 5, .insert 1 5, .insert 2 3, .tickle 5, .iterate, .remove 1, .insert 2 4,
        .iterate, .iterate, .iterate] = some s ∧
      s.history.filter (Event.closes 3) = [.fired 3 2 5] ∧ s.state.header.first = none :=
    ⟨_, rfl, rfl, rfl⟩
  obtain ⟨s, hs, hfired, hfirst⟩ := hexec
  obtain ⟨-, -, -, hfires, -⟩ := watchdogs_fire_when_due .unbalanced (.of_exec hs)
  exact ⟨s, .of_exec hs, hfires, hfired, hfirst⟩

end Rtems.Watchdog
