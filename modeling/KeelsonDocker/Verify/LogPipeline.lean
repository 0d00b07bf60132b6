import KeelsonDocker.LogPublisher
import KeelsonDocker.Verify.DropNotes
import KeelsonDocker.Verify.QueueAccounting
import Mathlib.Algebra.BigOperators.Group.Finset.Piecewise
import Mathlib.Algebra.Order.BigOperators.Group.Finset

/-!
# From the followers to the bus

Any number of followers hand their lines to the bounded queue while the publisher drains it, in any order of
the steps of `_enqueue` and of the publisher. What is published for a follower is a subsequence of its lines,
in their order, on the channel of its container (`LogFollower.log_pipeline`); and where no line was counted
as dropped, all of them are published (`LogQueue.taken_of_no_drop`).

An item of the queue carries the follower it is from, which the code has no use for.
-/

namespace KeelsonDocker

open Threads

namespace LogQueue

variable {ι α : Type} [DecidableEq ι] {q q' : LogQueue (ι × α)} {i j : ι} {item : α}
  {items items' : List (ι × α)} {maxsize : Int}

/-- The lines of one follower. -/
def ofThread (i : ι) (items : List (ι × α)) : List α :=
  (items.filter fun item => item.1 = i).map Prod.snd

theorem ofThread_append : ofThread i (items ++ items') = ofThread i items ++ ofThread i items' := by
  simp only [ofThread, List.filter_append, List.map_append]

theorem ofThread_self : ofThread i [(i, item)] = [item] := by simp [ofThread]

theorem ofThread_of_ne (h : j ≠ i) : ofThread j [(i, item)] = [] := by simp [ofThread, h.symm]

theorem ofThread_sublist (h : items.Sublist items') : (ofThread i items).Sublist (ofThread i items') :=
  (h.filter _).map Prod.snd

/-- There is no more in the queue than fits. -/
def Fits (maxsize : Int) (q : LogQueue (ι × α)) : Prop :=
  q.maxsize = maxsize ∧ (0 < maxsize → (q.queue.length : Int) ≤ maxsize)

/-- What a step of a follower's call does, in view of the lines it has yet to hand on and the number of
lines it has in hand. -/
structure Submits (maxsize : Int) (i : ι) (q q' : LogQueue (ι × α)) (g g' : List α × Nat) : Prop where
  others : ∀ j, j ≠ i → ofThread j q'.inserted = ofThread j q.inserted
  own : (ofThread i q'.inserted ++ g'.1).Sublist (ofThread i q.inserted ++ g.1)
  held : q'.settled + g'.2 = q.settled + g.2
  ordered : q.InOrder → q'.InOrder
  fits : q.Fits maxsize → q'.Fits maxsize

variable {g : List α × Nat} {lines : List α} {n : Nat}

theorem Submits.refl (q : LogQueue (ι × α)) : Submits maxsize i q q g g :=
  ⟨fun _ _ => rfl, .refl _, rfl, id, id⟩

theorem Submits.put (hfull : q.isFull = false) :
    Submits maxsize i q (q.put (i, item)) (item :: lines, n + 1) (lines, n) where
  others j hj := by
    show ofThread j (q.inserted ++ [(i, item)]) = _
    rw [ofThread_append, ofThread_of_ne hj, List.append_nil]
  own := by
    show (ofThread i (q.inserted ++ [(i, item)]) ++ lines).Sublist _
    rw [ofThread_append, ofThread_self, List.append_assoc, List.singleton_append]
  held := by
    rw [settled_put]
    exact Nat.add_right_comm ..
  ordered := inOrder_put
  fits h := by
    refine ⟨h.1, fun hpos => ?_⟩
    have hroom : ¬ (0 < q.maxsize ∧ q.maxsize ≤ q.queue.length) := by
      simpa [isFull] using hfull
    rw [h.1] at hroom
    show ((q.queue ++ [(i, item)]).length : Int) ≤ maxsize
    rw [List.length_append, List.length_singleton]
    omega

theorem Submits.get {oldest : ι × α} {queue : List (ι × α)} (h : q.queue = oldest :: queue) :
    Submits maxsize i q { q with queue } (lines, n) (lines, n + 1) where
  others _ _ := rfl
  own := .refl _
  held := by
    have hget := settled_of_get h
    show settled { q with queue } + (n + 1) = q.settled + n
    omega
  ordered := inOrder_of_get h
  fits hfits := by
    refine ⟨hfits.1, fun hpos => ?_⟩
    have hlength := hfits.2 hpos
    rw [h, List.length_cons] at hlength
    show (queue.length : Int) ≤ maxsize
    omega

theorem Submits.count : Submits maxsize i q { q with droppedByQueue := q.droppedByQueue + 1 }
    (lines, n + 1) (lines, n) where
  others _ _ := rfl
  own := .refl _
  held := by
    rw [settled_of_count]
    exact Nat.add_right_comm ..
  ordered h := h
  fits h := h

/-- The line itself is counted as dropped. -/
theorem Submits.lose : Submits maxsize i q { q with droppedByQueue := q.droppedByQueue + 1 }
    (item :: lines, n + 1) (lines, n) where
  others _ _ := rfl
  own := (List.sublist_cons_self item lines).append_left _
  held := by
    rw [settled_of_count]
    exact Nat.add_right_comm ..
  ordered h := h
  fits h := h

/-- What is left of a follower: so many lines, all of them in hand. -/
def Left (i : ι) (items : List (ι × α)) (g : List α × Nat) : Prop :=
  items = g.1.map (Prod.mk i) ∧ g.2 = g.1.length

theorem submits_enqueue (x : ι × α) (items : List (ι × α)) (g : List α × Nat)
    (h : Left i (x :: items) g) :
    (enqueue x).Runs (Submits maxsize i) (fun _ => Left i items) (fun _ _ => False) g := by
  obtain ⟨lines, n⟩ := g
  obtain ⟨hitems, hn : n = lines.length⟩ := h
  subst hn
  cases lines with
  | nil => cases hitems
  | cons item lines =>
    cases hitems
    have hput (q : LogQueue (ι × α)) (hq : q.isFull = false) : ∃ g', Submits maxsize i q
        (q.put (i, item)) (item :: lines, lines.length + 1) g' ∧ Left i (lines.map (Prod.mk i)) g' :=
      ⟨_, .put hq, rfl, rfl⟩
    exact runs_enqueue _ (item :: lines, lines.length + 2) _ _ hput (fun q => .refl q)
      (fun _ _ _ hq => .get hq) (fun q => .refl q) (fun _ => .count) hput (fun q => .refl q)
      fun _ => ⟨_, .lose, rfl, rfl⟩

theorem submits_enqueueAll (i : ι) (lines : List α) :
    (enqueueAll (lines.map (Prod.mk i))).Runs (Submits maxsize i) (fun _ => Left i []) (fun _ _ => False)
      (lines, lines.length) := by
  unfold enqueueAll
  exact Prog.runs_forM submits_enqueue ⟨rfl, rfl⟩

/-! ### Runs -/

/-- Every follower is about to hand on its lines, and the queue is empty. -/
def load (maxsize : Int) (lines : ι → List α) : State ι (LogQueue (ι × α)) QueueError Unit where
  shared := { maxsize }
  threads i := some (enqueueAll ((lines i).map (Prod.mk i)))

/-- The books of all followers, together. -/
structure Books [Fintype ι] (maxsize : Int) (lines : ι → List α) (q : LogQueue (ι × α))
    (books : ι → List α × Nat) : Prop where
  ordered : q.InOrder
  fits : q.Fits maxsize
  own : ∀ i, (ofThread i q.inserted ++ (books i).1).Sublist (lines i)
  total : q.settled + ∑ i, (books i).2 = ∑ i, (lines i).length

variable [Fintype ι] {lines : ι → List α} {books : ι → List α × Nat}
  {s : State ι (LogQueue (ι × α)) QueueError Unit}

theorem Books.act {g : List α × Nat} (h : Books maxsize lines q books)
    (hsubmits : Submits maxsize i q q' (books i) g) :
    Books maxsize lines q' (Function.update books i g) where
  ordered := hsubmits.ordered h.ordered
  fits := hsubmits.fits h.fits
  own j := by
    by_cases hji : j = i
    · subst hji
      rw [Function.update_self]
      exact hsubmits.own.trans (h.own j)
    · rw [Function.update_of_ne hji, hsubmits.others j hji]
      exact h.own j
  total := by
    have hheld : ∑ j, (Function.update books i g j).2 =
        ∑ j, Function.update (fun j => (books j).2) i g.2 j :=
      Finset.sum_congr rfl fun j _ => Function.apply_update (fun _ => Prod.snd) books i g j
    have hsum := sum_update (fun j => (books j).2) i g.2
    have htotal := h.total
    have hsettled := hsubmits.held
    rw [hheld]
    omega

omit [DecidableEq ι] [Fintype ι] in
theorem Takes.inserted_eq (h : Takes q q') : q'.inserted = q.inserted := by
  obtain ⟨_⟩ := h
  rfl

omit [DecidableEq ι] [Fintype ι] in
theorem Takes.fits (h : Takes q q') (hq : q.Fits maxsize) : q'.Fits maxsize := by
  obtain @⟨item, queue, hcons⟩ := h
  refine ⟨hq.1, fun hpos => ?_⟩
  have hlength := hq.2 hpos
  rw [hcons, List.length_cons] at hlength
  show (queue.length : Int) ≤ maxsize
  omega

theorem Books.env (h : Books maxsize lines q books) (htakes : Takes q q') :
    Books maxsize lines q' books where
  ordered := htakes.inOrder h.ordered
  fits := htakes.fits h.fits
  own j := by
    rw [htakes.inserted_eq]
    exact h.own j
  total := by
    rw [htakes.settled_eq]
    exact h.total

theorem booked (h : Reached (fun _ => False) Takes (load maxsize lines) s) :
    ∃ books, Booked (Submits maxsize) (fun i => Left i []) (Books maxsize lines) s books := by
  refine h.booked ⟨fun i => (lines i, (lines i).length), ?_⟩ (fun i x y books g hx hsubmits => ?_)
    fun x y books hx htakes => hx.env htakes
  · refine ⟨⟨List.Sublist.refl [], ⟨rfl, fun hpos => hpos.le⟩, fun i => List.Sublist.refl (lines i), ?_⟩,
      fun i p hp => ?_, nofun⟩
    · exact Nat.zero_add _
    · cases hp
      exact submits_enqueueAll i (lines i)
  · exact hx.act hsubmits

theorem ofThread_taken (h : Books maxsize lines q books) (i : ι) :
    (ofThread i q.taken).Sublist (lines i) := by
  have hinserted := (List.sublist_append_left q.taken q.queue).trans h.ordered
  have hown := (List.sublist_append_left _ _).trans (h.own i)
  exact (ofThread_sublist hinserted).trans hown

omit [DecidableEq ι] in
theorem sum_ofThread [DecidableEq ι] (items : List (ι × α)) :
    ∑ i, (ofThread i items).length = items.length := by
  induction items with
  | nil => simp [ofThread]
  | cons item items ih =>
    have hcons : ∀ i, (ofThread i (item :: items)).length =
        (ofThread i items).length + if i = item.1 then 1 else 0 := by
      intro i
      by_cases hi : item.1 = i
      · simp [ofThread, hi]
      · simp [ofThread, hi, Ne.symm hi]
    rw [Finset.sum_congr rfl fun i _ => hcons i, Finset.sum_add_distrib, ih, Finset.sum_ite_eq',
      if_pos (Finset.mem_univ _), List.length_cons]

/-- **Nothing gets lost unseen**: when the followers are through, the lines that were neither taken nor are
queued are those counted as dropped; and where there are none, the publisher got all lines of every follower,
in their order. -/
theorem taken_of_no_drop (h : Reached (fun _ => False) Takes (load maxsize lines) s)
    (hdone : ∀ i, s.threads i = none) :
    s.shared.taken.length + s.shared.queue.length + s.shared.droppedByQueue = ∑ i, (lines i).length ∧
    (s.shared.droppedByQueue = 0 → s.shared.queue = [] → ∀ i, ofThread i s.shared.taken = lines i) := by
  obtain ⟨books, hbooks⟩ := booked h
  have hzero : ∀ i, (books i).2 = 0 := by
    intro i
    obtain ⟨hnil, hlength⟩ := hbooks.closed i (hdone i)
    rw [hlength, List.length_eq_zero_iff]
    exact List.map_eq_nil_iff.mp hnil.symm
  have htotal : s.shared.taken.length + s.shared.queue.length + s.shared.droppedByQueue =
      ∑ i, (lines i).length := by
    have hsum := hbooks.shared.total
    rw [Finset.sum_eq_zero fun i _ => hzero i] at hsum
    exact hsum
  refine ⟨htotal, fun hdropped hqueue i => ?_⟩
  have htaken := ofThread_taken hbooks.shared
  rw [hdropped, hqueue, List.length_nil, ← sum_ofThread] at htotal
  have hlengths := (Finset.sum_eq_sum_iff_of_le fun i _ => (htaken i).length_le).mp htotal
  exact (htaken i).eq_of_length (hlengths i (Finset.mem_univ i))

/-- One follower has two lines and the other one, and the publisher keeps up. -/
theorem taken_of_no_drop_three : ∃ s : State Bool (LogQueue (Bool × Nat)) QueueError Unit,
    Reached (fun _ => False) Takes (load 1 fun i => if i then [1, 2] else [3]) s ∧
    s.shared.taken = [(true, 1), (false, 3), (true, 2)] ∧
    ∀ i, ofThread i s.shared.taken = if i then [1, 2] else [3] := by
  have hfirst : Reached (fun _ => False) Takes (load 1 fun i : Bool => if i then [1, 2] else [3]) _ :=
    (Reached.refl.tail (.act (i := true) rfl)).tail (.env ⟨rfl⟩)
  have hsecond := ((hfirst.tail (.act (i := false) rfl)).tail (.ret (i := false) rfl)).tail (.env ⟨rfl⟩)
  have hthird := ((hsecond.tail (.act (i := true) rfl)).tail (.ret (i := true) rfl)).tail (.env ⟨rfl⟩)
  have hdone := taken_of_no_drop hthird (Bool.forall_bool.mpr ⟨rfl, rfl⟩)
  exact ⟨_, hthird, rfl, hdone.2 rfl rfl⟩

end LogQueue

/-! ### The publisher -/

namespace LogPublisher

open Effect

variable {α : Type} {pub : LogPublisher} {entry : α → LogEntry} {item : α} {items : List α} {bus : LogBus}
  {s : LogPublisherState α}

/-- What the publisher has made of the items it got. -/
structure Published (pub : LogPublisher) (entry : α → LogEntry) (items : List α)
    (s : LogPublisherState α) : Prop where
  puts : (s.puts.map LogPut.item).Sublist items
  put : ∀ put ∈ s.puts, put.key = pub.keyOf (entry put.item).container ∧
    pub.payload (entry put.item) = .ok put.message ∧
    (entry put.item).container ∈ s.publishers.map Prod.fst
  publishers : ∀ container key, (container, key) ∈ s.publishers → key = pub.keyOf container
  nodup : (s.publishers.map Prod.fst).Nodup
  declared : s.declared = s.publishers.map Prod.snd

/-- An item of which nothing comes. -/
theorem Published.skip (h : Published pub entry items s) : Published pub entry (items ++ [item]) s :=
  { h with puts := h.puts.trans (List.sublist_append_left items [item]) }

/-- A container's first line declares its publisher. -/
theorem Published.declare {container : String} (h : Published pub entry items s)
    (hlookup : s.publishers.lookup container = none) : Published pub entry items { s with
      publishers := Dict.set container (pub.keyOf container) s.publishers
      declared := s.declared ++ [pub.keyOf container] } := by
  have hnew : container ∉ s.publishers.map Prod.fst := by
    intro hmem
    obtain ⟨⟨_, key⟩, hentry, rfl⟩ := List.mem_map.mp hmem
    have hne := List.lookup_eq_none_iff.mp hlookup _ hentry
    simp at hne
  refine ⟨h.puts, fun put hput => ?_, fun c key hmem => ?_, ?_, ?_⟩
  · obtain ⟨hkey, hpayload, hknown⟩ := h.put put hput
    exact ⟨hkey, hpayload, Dict.mem_keys_set.mpr (.inr hknown)⟩
  · rw [Dict.set, if_neg hnew, List.mem_append] at hmem
    obtain hmem | hmem := hmem
    · exact h.publishers c key hmem
    · cases List.mem_singleton.mp hmem
      rfl
  · rw [Dict.keys_set_of_not_mem hnew, ← List.concat_eq_append]
    exact h.nodup.concat hnew
  · rw [Dict.set, if_neg hnew, List.map_append, h.declared]
    rfl

/-- `_publisher_for` gives the publisher of the container's key, or raises and leaves everything as it is. -/
theorem Published.publisherFor (h : Published pub entry items s) (bus : LogBus) (container : String) :
    (∃ s', pub.publisherFor bus container s = .ok (pub.keyOf container) s' ∧
      Published pub entry items s' ∧ container ∈ s'.publishers.map Prod.fst) ∨
    ∃ e, pub.publisherFor bus container s = .error e s := by
  unfold LogPublisher.publisherFor
  rw [run_bind_ok (run_get s)]
  cases hlookup : s.publishers.lookup container with
  | some key =>
    obtain ⟨before, after, heq, -⟩ := List.lookup_eq_some_iff.mp hlookup
    have hmem : (container, key) ∈ s.publishers := by
      rw [heq]
      exact List.mem_append_right before List.mem_cons_self
    obtain rfl := h.publishers container key hmem
    exact .inl ⟨s, rfl, h, List.mem_map_of_mem hmem⟩
  | none =>
    dsimp only
    cases bus.declarePublisher (pub.keyOf container) with
    | error e => exact .inr ⟨e, rfl⟩
    | ok _ => exact .inl ⟨_, rfl, h.declare hlookup, Dict.mem_keys_set.mpr (.inl rfl)⟩

theorem Published.publish (h : Published pub entry items s) (item : α) (bus : LogBus) :
    Published pub entry (items ++ [item]) (after (pub.publish entry item bus) s) := by
  unfold LogPublisher.publish
  cases hpayload : pub.payload (entry item) with
  | error e => exact h.skip
  | ok message =>
    have hok : (ofExcept (.ok message) : EStateM Exn (LogPublisherState α) _) s = .ok message s := rfl
    rw [after_bind_ok hok]
    obtain ⟨s', hfor, h', hknown⟩ | ⟨e, hfor⟩ := h.publisherFor bus (entry item).container
    · rw [after_bind_ok hfor]
      cases bus.put (pub.keyOf (entry item).container) message with
      | error e => exact h'.skip
      | ok _ =>
        refine { h' with puts := ?_, put := fun put hput => ?_ }
        · show (List.map LogPut.item (s'.puts ++ [_])).Sublist _
          rw [List.map_append]
          exact h'.puts.append (.refl [item])
        · obtain hput | hput := List.mem_append.mp hput
          · exact h'.put put hput
          · cases List.mem_singleton.mp hput
            exact ⟨rfl, hpayload, hknown⟩
    · rw [after_bind_error hfor]
      exact h.skip

theorem publishLoop_published (pub : LogPublisher) (entry : α → LogEntry) (items : List (α × LogBus)) :
    Published pub entry (items.map Prod.fst) (pub.publishLoop entry items) := by
  induction items using List.reverseRecOn with
  | nil => exact ⟨.refl [], nofun, nofun, List.nodup_nil, rfl⟩
  | append_singleton items item ih =>
    unfold publishLoop at ih ⊢
    rw [List.map_append, List.foldl_append]
    exact ih.publish item.1 item.2

end LogPublisher

/-! ### End to end -/

namespace LogFollower

open LogQueue

variable {β : Type} {byte : β → UInt8} {self : LogFollower} {name : String}

theorem container_emit {chunk : Bytes} {limiter : RateLimiter} {since : Option ℚ} {now : ℚ} {e : LogEntry}
    (h : e ∈ (self.emit name chunk limiter since now).2.2) : e.container = name := by
  unfold emit at h
  split at h
  · cases h
  · dsimp only at h
    split at h
    · cases h
    · obtain h | h := List.mem_append.mp h
      · obtain ⟨note, -, rfl⟩ := List.mem_map.mp h
        rfl
      · cases List.mem_singleton.mp h
        rfl

theorem container_takes {f : Following β} {calls : List (List β × ℚ)} {e : LogEntry}
    (hf : ∀ e ∈ f.entries, e.container = name) (h : e ∈ (self.takes byte name f calls).entries) :
    e.container = name := by
  induction calls generalizing f with
  | nil => exact hf e h
  | cons call calls ih =>
    refine ih (fun e he => ?_) h
    obtain he | he := List.mem_append.mp he
    · exact hf e he
    · exact container_emit he

/-- What a follower hands on carries its container's name. -/
theorem container_follow {rounds : List (Round β)} {e : LogEntry}
    (h : e ∈ (self.follow byte name rounds).entries) : e.container = name := by
  obtain ⟨buffer, hfollow⟩ := follow_eq_takes byte self name rounds
  rw [hfollow] at h
  exact container_takes (fun _ hnone => nomatch List.not_mem_nil hnone) h

/-- **The log pipeline.** Followers of any number of containers, in any interleaving with the publisher: the
queue never holds more than fits; what was published of a follower's lines is a subsequence of what it
handed on, in that order, each line in a message of its own on the channel of its container; and no container
has two publishers. -/
theorem log_pipeline {ι : Type} [DecidableEq ι] [Fintype ι] (self : LogFollower) (pub : LogPublisher)
    {names : ι → String} {rounds : ι → List (Round β)} {maxsize : Int}
    {s : Threads.State ι (LogQueue (ι × LogEntry)) QueueError Unit}
    (h : Threads.Reached (fun _ => False) Takes
      (load maxsize fun i => (self.follow byte (names i) (rounds i)).entries) s)
    {items : List ((ι × LogEntry) × LogBus)} (hitems : items.map Prod.fst <+: s.shared.taken) :
    (0 < maxsize → (s.shared.queue.length : Int) ≤ maxsize) ∧
    (∀ i, (ofThread i ((pub.publishLoop Prod.snd items).puts.map LogPut.item)).Sublist
      (self.follow byte (names i) (rounds i)).entries) ∧
    (∀ put ∈ (pub.publishLoop Prod.snd items).puts, put.key = pub.keyOf (names put.item.1) ∧
      pub.payload put.item.2 = .ok put.message) ∧
    ∃ containers : List String, containers.Nodup ∧
      (pub.publishLoop Prod.snd items).declared = containers.map pub.keyOf ∧
      ∀ put ∈ (pub.publishLoop Prod.snd items).puts, names put.item.1 ∈ containers := by
  obtain ⟨books, hbooks⟩ := booked h
  have hpub := LogPublisher.publishLoop_published pub Prod.snd items
  have htaken := ofThread_taken hbooks.shared
  have hlines : ∀ i, (ofThread i ((pub.publishLoop Prod.snd items).puts.map LogPut.item)).Sublist
      (self.follow byte (names i) (rounds i)).entries := fun i =>
    (ofThread_sublist (hpub.puts.trans hitems.sublist)).trans (htaken i)
  have hname : ∀ put ∈ (pub.publishLoop Prod.snd items).puts,
      put.item.2.container = names put.item.1 := by
    intro put hput
    apply container_follow
    apply (hlines put.item.1).subset
    exact List.mem_map_of_mem (List.mem_filter.mpr ⟨List.mem_map_of_mem hput, decide_eq_true rfl⟩)
  refine ⟨hbooks.shared.fits.2, hlines, fun put hput => ?_, _, hpub.nodup, ?_, fun put hput => ?_⟩
  · obtain ⟨hkey, hpayload, -⟩ := hpub.put put hput
    exact ⟨hname put hput ▸ hkey, hpayload⟩
  · rw [hpub.declared, List.map_map]
    exact List.map_congr_left fun entry hentry => hpub.publishers entry.1 entry.2 hentry
  · rw [← hname put hput]
    exact (hpub.put put hput).2.2

namespace Overflow

def follower : LogFollower where
  pb := wire
  seconds ns := ns / 1000000000

/-- Two containers, each of which says `up` and is gone. -/
def names (i : Bool) : String := if i then "web" else "db"

def rounds : List (Round UInt8) := [.drained [([117, 112, 10], fun _ => 100)] fun _ => 100]

def entry (i : Bool) : LogEntry := ⟨names i, "up", .info, 100⟩

theorem entries_eq : (fun i => (follower.follow id (names i) rounds).entries) = fun i => [entry i] := by
  funext i
  cases i <;> decide +kernel

def publisher : LogPublisher where
  sourceId := "docker"
  pubsubKey subject sourceId := subject ++ "/" ++ sourceId
  timestamp stamp := .ok (.fromNanoseconds (stamp * 1000000000).floor)

def bus : LogBus := ⟨fun _ => .ok (), fun _ _ => .ok ()⟩

/-- The queue has room for one line: that of `web` makes place for that of `db`. -/
theorem log_pipeline_overflow : ∃ s : State Bool (LogQueue (Bool × LogEntry)) QueueError Unit,
    Threads.Reached (fun _ => False) Takes
      (load 1 fun i => (follower.follow id (names i) rounds).entries) s ∧
    s.shared.droppedByQueue = 1 ∧ s.shared.taken = [(false, entry false)] ∧
    ∃ containers : List String, containers.Nodup ∧
      (publisher.publishLoop Prod.snd [((false, entry false), bus)]).declared =
        containers.map publisher.keyOf := by
  have hrun : ∃ s : State Bool (LogQueue (Bool × LogEntry)) QueueError Unit,
      Threads.Reached (fun _ => False) Takes (load 1 fun i => [entry i]) s ∧
        s.shared.droppedByQueue = 1 ∧ s.shared.taken = [(false, entry false)] := by
    have hweb : Threads.Reached (fun _ => False) Takes (load 1 fun i => [entry i]) _ :=
      (Threads.Reached.refl.tail (.act (i := true) rfl)).tail (.ret (i := true) rfl)
    have hfull := hweb.tail (.act (i := false) rfl)
    have hdropped := (hfull.tail (.act (i := false) rfl)).tail (.act (i := false) rfl)
    have hdb := hdropped.tail (.act (i := false) rfl)
    exact ⟨_, hdb.tail (.env ⟨rfl⟩), rfl, rfl⟩
  rw [← entries_eq] at hrun
  obtain ⟨s, hs, hcount, htaken⟩ := hrun
  have hitems : [((false, entry false), bus)].map Prod.fst <+: s.shared.taken := by
    rw [htaken]
    exact List.prefix_rfl
  obtain ⟨-, -, -, containers, hnodup, hdeclared, -⟩ := log_pipeline follower publisher hs hitems
  exact ⟨s, hs, hcount, htaken, containers, hnodup, hdeclared⟩

end Overflow

end LogFollower

end KeelsonDocker
