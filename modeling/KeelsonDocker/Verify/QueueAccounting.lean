import KeelsonDocker.LogQueue

/-!
# Every log line is accounted for

However followers and publisher come between each other's steps, what was handed to `_enqueue` was taken,
is queued, was counted as dropped or is in the hands of a call in progress; what is left of the lines is in
the order of their insertion; and no call waits or raises (`queue_accounting`).
-/

namespace KeelsonDocker.LogQueue

open Threads

variable {α : Type} {q q' : LogQueue α} {item : α}

/-- Where the lines that are no longer in anybody's hands have gone. -/
def settled (q : LogQueue α) : Nat := q.taken.length + q.queue.length + q.droppedByQueue

/-- What was taken and what is queued came in in this order. -/
def InOrder (q : LogQueue α) : Prop := (q.taken ++ q.queue).Sublist q.inserted

@[simp] theorem settled_put : (q.put item).settled = q.settled + 1 := by
  simp only [settled, put, List.length_append, List.length_singleton]
  omega

theorem inOrder_put (h : q.InOrder) : (q.put item).InOrder := by
  unfold InOrder put
  rw [← List.append_assoc]
  exact h.append (List.Sublist.refl [item])

/-! ### The steps of a call -/

section

variable {γ : Type} {R : LogQueue α → LogQueue α → γ → γ → Prop} {Q : Unit → γ → Prop}
  {E : QueueError → γ → Prop} {g : γ}

theorem runs_putNowait (hput : ∀ q, q.isFull = false → ∃ g', R q (q.put item) g g' ∧ Q () g')
    (hfull : ∀ q, q.isFull = true → ∃ g', R q q g g' ∧ E .full g') :
    (putNowait item).Runs R Q E g := by
  refine Prog.runs_atomic fun q => ?_
  cases hq : q.isFull with
  | true =>
    obtain ⟨g', hR, hE⟩ := hfull q hq
    refine ⟨g', by simpa using hR, nofun, fun e he => ?_⟩
    cases he
    exact hE
  | false =>
    obtain ⟨g', hR, hQ⟩ := hput q hq
    exact ⟨g', by simpa using hR, fun _ _ => hQ, nofun⟩

theorem runs_getNowait {Q : α → γ → Prop}
    (hget : ∀ q item queue, q.queue = item :: queue → ∃ g', R q { q with queue } g g' ∧ Q item g')
    (hempty : ∀ q, q.queue = [] → ∃ g', R q q g g' ∧ E .empty g') : getNowait.Runs R Q E g := by
  refine Prog.runs_atomic fun q => ?_
  cases hq : q.queue with
  | nil =>
    obtain ⟨g', hR, hE⟩ := hempty q hq
    refine ⟨g', hR, nofun, fun e he => ?_⟩
    cases he
    exact hE
  | cons item queue =>
    obtain ⟨g', hR, hQ⟩ := hget q item queue hq
    refine ⟨g', hR, fun a ha => ?_, nofun⟩
    cases ha
    exact hQ

theorem runs_countDropped
    (h : ∀ q, ∃ g', R q { q with droppedByQueue := q.droppedByQueue + 1 } g g' ∧ Q () g') :
    countDropped.Runs R Q E g := by
  refine Prog.runs_atomic fun q => ?_
  obtain ⟨g', hR, hQ⟩ := h q
  exact ⟨g', hR, fun _ _ => hQ, nofun⟩

/-- What is to be shown of `_enqueue`, step by step: `first` holds before the first attempt, `mid` before
the oldest is dropped, `lost` before that is counted, `again` before the second attempt and `last` before
the line itself is counted. -/
theorem runs_enqueue (mid lost again last : γ)
    (hput : ∀ q, q.isFull = false → ∃ g', R q (q.put item) g g' ∧ Q () g')
    (hfull : ∀ q, R q q g mid)
    (hget : ∀ q oldest queue, q.queue = oldest :: queue → R q { q with queue } mid lost)
    (hempty : ∀ q, R q q mid again)
    (hcount : ∀ q, R q { q with droppedByQueue := q.droppedByQueue + 1 } lost again)
    (hputAgain : ∀ q, q.isFull = false → ∃ g', R q (q.put item) again g' ∧ Q () g')
    (hfullAgain : ∀ q, R q q again last)
    (hlast : ∀ q, ∃ g', R q { q with droppedByQueue := q.droppedByQueue + 1 } last g' ∧ Q () g') :
    (enqueue item).Runs R Q E g := by
  have hagain : (putAgain item).Runs R Q E again := by
    refine Prog.runs_tryCatch.mpr (runs_putNowait hputAgain fun q _ => ⟨last, hfullAgain q, ?_⟩)
    exact runs_countDropped hlast
  have hdrop : (dropOldest (α := α)).Runs R (fun _ g => (putAgain item).Runs R Q E g) E mid := by
    refine Prog.runs_tryCatch.mpr (Prog.runs_bind.mpr (runs_getNowait ?_ ?_))
    · intro q oldest queue hq
      refine ⟨lost, hget q oldest queue hq, runs_countDropped fun q => ?_⟩
      exact ⟨again, hcount q, hagain⟩
    · intro q _
      exact ⟨again, hempty q, hagain⟩
  refine Prog.runs_tryCatch.mpr (runs_putNowait hput fun q _ => ⟨mid, hfull q, ?_⟩)
  exact Prog.runs_bind.mpr hdrop

end

theorem settled_of_get {oldest : α} {queue : List α} (h : q.queue = oldest :: queue) :
    ({ q with queue } : LogQueue α).settled + 1 = q.settled := by
  simp only [settled, h, List.length_cons]
  omega

theorem settled_of_count :
    ({ q with droppedByQueue := q.droppedByQueue + 1 } : LogQueue α).settled = q.settled + 1 := by
  simp only [settled]
  omega

/-- A call begins with its line in hand, and may have the oldest one as well until that is counted. -/
theorem brings_enqueue (item : α) : (enqueue item).Brings settled 1 := by
  have hput (q : LogQueue α) :
      ∃ n, (q.put item).settled + n = q.settled + 1 ∧ n = 0 := ⟨0, settled_put, rfl⟩
  have hlast (q : LogQueue α) : ∃ n,
      ({ q with droppedByQueue := q.droppedByQueue + 1 } : LogQueue α).settled + n = q.settled + 1 ∧
        n = 0 := ⟨0, settled_of_count, rfl⟩
  refine runs_enqueue 1 2 1 1 (fun q _ => hput q) (fun _ => rfl) (fun q _ _ hq => ?_) (fun _ => rfl)
    (fun q => ?_) (fun q _ => hput q) (fun _ => rfl) hlast
  · have hget := settled_of_get hq
    omega
  · rw [settled_of_count]

/-- Five steps: an attempt, the oldest taken out and counted, another attempt, the line counted. -/
theorem within_enqueue (item : α) : (enqueue item).Within 5 := by
  have hlt (n : Nat) : n < n + 1 := Nat.lt_succ_self n
  refine runs_enqueue 4 3 2 1 (fun _ _ => ⟨4, hlt 4, trivial⟩) (fun _ => hlt 4) (fun _ _ _ _ => hlt 3)
    (fun _ => (hlt 2).trans (hlt 3)) (fun _ => hlt 2) (fun _ _ => ⟨1, hlt 1, trivial⟩) (fun _ => hlt 1)
    fun _ => ⟨0, hlt 0, trivial⟩

theorem inOrder_of_get {oldest : α} {queue : List α} (hq : q.queue = oldest :: queue)
    (h : q.InOrder) : ({ q with queue } : LogQueue α).InOrder := by
  unfold InOrder at h ⊢
  rw [hq] at h
  exact ((List.sublist_cons_self oldest queue).append_left q.taken).trans h

theorem keeps_enqueue (item : α) : (enqueue item).Keeps InOrder := by
  have hput (q : LogQueue α) (_ : q.isFull = false) :
      ∃ _ : Unit, (q.InOrder → (q.put item).InOrder) ∧ True := ⟨(), inOrder_put, trivial⟩
  exact runs_enqueue () () () () hput (fun _ h => h) (fun _ _ _ hq => inOrder_of_get hq)
    (fun _ h => h) (fun _ h => h) hput (fun _ h => h) fun _ => ⟨(), fun h => h, trivial⟩

/-! ### The publisher -/

theorem Takes.settled_eq (h : Takes q q') : q'.settled = q.settled := by
  obtain ⟨hq⟩ := h
  simp only [settled, hq, List.length_append, List.length_cons, List.length_nil]
  omega

theorem Takes.inOrder (h : Takes q q') (hq : q.InOrder) : q'.InOrder := by
  obtain ⟨hcons⟩ := h
  unfold InOrder at hq ⊢
  rw [hcons] at hq
  simpa using hq

/-! ### Runs -/

variable {ι : Type}

/-- A call of `_enqueue` by a follower. -/
def IsEnqueue (p : Prog (LogQueue α) QueueError Unit) : Prop := ∃ item, p = enqueue item

/-- No call in progress, nothing queued. -/
def start (ι : Type) (maxsize : Int) : State ι (LogQueue α) QueueError Unit where
  shared := { maxsize }
  threads _ := none

/-- **Queue accounting.** In every state that followers and publisher reach together: the calls made so
far are about as many lines as were taken, are queued, were counted as dropped or are held by the calls in
progress, which will bring just these to the account; what was taken and what is queued is in the order of
insertion; and every call in progress returns within five steps of its own, whatever the others do, and
does not raise. -/
theorem queue_accounting [DecidableEq ι] [Fintype ι] {maxsize : Int}
    {s : State ι (LogQueue α) QueueError Unit} (h : Reached IsEnqueue Takes (start ι maxsize) s) :
    (∃ held : ι → Nat, (∀ i, s.threads i = none → held i = 0) ∧
      (∀ i, ∀ p ∈ s.threads i, p.Brings settled (held i)) ∧
      s.returned + s.busy =
        s.shared.taken.length + s.shared.queue.length + s.shared.droppedByQueue + ∑ i, held i) ∧
    (s.shared.taken ++ s.shared.queue).Sublist s.shared.inserted ∧
    ∀ i, ∀ p ∈ s.threads i, ∃ n ≤ 5, p.Within n := by
  have hidle : ∀ i : ι, (start (α := α) ι maxsize).threads i = none := fun _ => rfl
  refine ⟨?_, ?_, ?_⟩
  · have hcalls : ∀ p, IsEnqueue p → p.Brings (settled (α := α)) 1 := by
      intro p ⟨item, hp⟩
      rw [hp]
      exact brings_enqueue item
    obtain ⟨held, haccounted⟩ :=
      h.accounted ⟨_, Accounted.start rfl⟩ hcalls fun x y hxy => hxy.settled_eq
    exact ⟨held, haccounted.idle, haccounted.brings, haccounted.total⟩
  · refine h.keeps hidle ?_ (fun x y hx hxy => hxy.inOrder hx) (List.Sublist.refl [])
    intro p ⟨item, hp⟩
    rw [hp]
    exact keeps_enqueue item
  · refine h.within hidle fun p ⟨item, hp⟩ => ?_
    rw [hp]
    exact within_enqueue item

/-- A follower hands on two lines, and the queue has room for one. -/
theorem queue_accounting_overflow : ∃ s : State Unit (LogQueue Nat) QueueError Unit,
    Reached IsEnqueue Takes (start Unit 1) s ∧ s.shared.queue = [2] ∧ s.shared.droppedByQueue = 1 ∧
      (s.shared.taken ++ s.shared.queue).Sublist s.shared.inserted := by
  have hfirst : Reached IsEnqueue Takes (start Unit 1) _ :=
    Reached.refl.tail (.call (i := ()) (p := enqueue 1) rfl ⟨1, rfl⟩)
  have hput := (hfirst.tail (.act (i := ()) rfl)).tail (.ret (i := ()) rfl)
  have hsecond := hput.tail (.call (i := ()) (p := enqueue 2) rfl ⟨2, rfl⟩)
  have hfull := hsecond.tail (.act (i := ()) rfl)
  have hdropped := (hfull.tail (.act (i := ()) rfl)).tail (.act (i := ()) rfl)
  have hrun := (hdropped.tail (.act (i := ()) rfl)).tail (.ret (i := ()) rfl)
  exact ⟨_, hrun, rfl, rfl, (queue_accounting hrun).2.1⟩

end KeelsonDocker.LogQueue
