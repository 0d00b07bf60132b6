import KeelsonDocker.Theory.Feed
import KeelsonDocker.Verify.Host
import KeelsonDocker.Verify.Replies

/-!
# The status stream

The publisher keeps a digest, a time and a counter; `Follows` says that they stand for the last message
put, so that the messages are a feed (`Feed.History`) of the container lists themselves.
-/

namespace KeelsonDocker

open Effect

/-- A put as an item of the feed of container lists. -/
def StatusPut.item (put : StatusPut) : Feed.Item (List ContainerInfo) ℚ where
  value := put.message.containers
  time := put.now
  sequence := put.message.sequence
  change := put.message.trigger = .change

namespace ContainerStatusPublisher

variable {σ δ : Type} {pub : ContainerStatusPublisher σ δ}

/-- The handlers' context with the publisher's backend and guard. -/
def context (pub : ContainerStatusPublisher σ δ) (limits : Limits) : Context σ :=
  { backend := pub.backend, guard := pub.guard, limits, pb := pub.pb }

theorem described_of_snapshot {d : σ} {infos : List ContainerInfo} (limits : Limits)
    (h : outcome pub.snapshot d = .ok infos) : Described (pub.context limits) d infos := by
  unfold outcome at h
  cases hs : pub.snapshot { daemon := d } with
  | error e w => simp [hs] at h
  | ok infos' w =>
    simp only [hs, Except.ok.injEq] at h
    subst h
    obtain ⟨snapshots, w', hl, hm⟩ := run_bind_eq_ok.mp hs
    exact ⟨snapshots, DockerBackend.listed_of_list hl, (ofExcept_eq_ok.mp hm).1⟩

/-! ### One tick -/

/-- The list differs from the last one put, or the last put is old enough, as the attributes tell. -/
def Due (pub : ContainerStatusPublisher σ δ) (s : StatusState δ) (infos : List ContainerInfo)
    (now : ℚ) : Prop :=
  s.lastDigest ≠ some (pub.digest infos) ∨ pub.heartbeatS ≤ now - s.lastSentAt

def message [DecidableEq δ] (pub : ContainerStatusPublisher σ δ) (s : StatusState δ) (infos : List ContainerInfo)
    (tick : StatusTick σ) : ContainerHostStatus where
  containers := infos
  observedAt := Timestamp.fromNanoseconds tick.timeNs
  controlEnabled := pub.guard.controlEnabled
  trigger := if s.lastDigest ≠ some (pub.digest infos) then .change else .heartbeat
  sequence := s.sequence
  removeEnabled := pub.guard.removeEnabled

/-- Everything a tick can do. -/
inductive Turned [DecidableEq δ] (pub : ContainerStatusPublisher σ δ) (tick : StatusTick σ) (s : StatusState δ) :
    EStateM.Result Exn (StatusState δ) Unit → Prop
  /-- No snapshot was taken. -/
  | failed : outcome pub.snapshot tick.daemon = .error e → Turned pub tick s (.error e s)
  | quiet : outcome pub.snapshot tick.daemon = .ok infos → ¬ Due pub s infos tick.now →
    Turned pub tick s (.ok () s)
  /-- The message could not be built or put. -/
  | refused : outcome pub.snapshot tick.daemon = .ok infos → Due pub s infos tick.now →
    Turned pub tick s (.error e { s with attempts := s.attempts + 1 })
  | sent : outcome pub.snapshot tick.daemon = .ok infos → Due pub s infos tick.now →
    Turned pub tick s (.ok () {
      sequence := s.sequence + 1
      lastDigest := some (pub.digest infos)
      lastSentAt := tick.now
      attempts := s.attempts + 1
      puts := s.puts ++ [⟨pub.message s infos tick, tick.now⟩] })

/-- `_publish` counts an attempt, then either raises or puts the message and moves the sequence. -/
theorem publish_cases (infos : List ContainerInfo) (trigger : StatusTrigger) (tick : StatusTick σ)
    (s : StatusState δ) :
    (∃ e, pub.publish infos trigger tick s = .error e { s with attempts := s.attempts + 1 }) ∨
    pub.publish infos trigger tick s = .ok () { s with
      attempts := s.attempts + 1
      sequence := s.sequence + 1
      puts := s.puts ++ [⟨{
        containers := infos
        observedAt := Timestamp.fromNanoseconds tick.timeNs
        controlEnabled := pub.guard.controlEnabled
        trigger
        sequence := s.sequence
        removeEnabled := pub.guard.removeEnabled }, tick.now⟩] } := by
  unfold publish
  rw [run_bind_ok (run_modify _ s), run_bind_ok (run_get _)]
  cases hu : uint64 s.sequence with
  | error e => exact .inl ⟨e, run_bind_error rfl⟩
  | ok n =>
    rw [run_bind_ok (rfl : ofExcept (.ok n) _ = _)]
    cases hp : tick.put _ with
    | error e => exact .inl ⟨e, run_bind_error rfl⟩
    | ok u => exact .inr rfl

theorem turned [DecidableEq δ] (pub : ContainerStatusPublisher σ δ) (tick : StatusTick σ)
    (s : StatusState δ) : Turned pub tick s (pub.turn tick s) := by
  unfold turn
  cases hs : outcome pub.snapshot tick.daemon with
  | error e => exact .failed hs
  | ok infos =>
    rw [run_bind_ok (rfl : ofExcept (.ok infos) s = _), run_bind_ok (run_get s)]
    by_cases hdue :
      s.lastDigest ≠ some (pub.digest infos) ∨ pub.heartbeatS ≤ tick.now - s.lastSentAt
    · rw [if_pos hdue]
      rcases publish_cases infos _ tick s with ⟨e, he⟩ | hok
      · rw [run_bind_error he]
        exact .refused hs hdue
      · rw [run_bind_ok hok]
        exact .sent hs hdue
    · rw [if_neg hdue]
      exact .quiet hs hdue

/-! ### The attributes stand for the last message put -/

structure Follows (pub : ContainerStatusPublisher σ δ) (s : StatusState δ) : Prop where
  history : Feed.History pub.heartbeatS (s.puts.map StatusPut.item)
  sequence : s.sequence = s.puts.length
  digest : s.lastDigest = (Feed.latest (s.puts.map StatusPut.item)).map pub.digest
  sentAt : ∀ put ∈ s.puts.getLast?, s.lastSentAt = put.now
  trigger : ∀ put ∈ s.puts, put.message.trigger = .change ∨ put.message.trigger = .heartbeat

variable {s : StatusState δ} {tick : StatusTick σ} {infos : List ContainerInfo}

theorem latest_puts (puts : List StatusPut) :
    Feed.latest (puts.map StatusPut.item) = puts.getLast?.map (·.message.containers) := by
  simp [Feed.latest, List.getLast?_map, StatusPut.item, Function.comp_def]

/-- A digest that tells the lists apart finds a change exactly when the list is another one. -/
theorem Follows.changed_iff (h : Follows pub s) (hinj : Function.Injective pub.digest) :
    s.lastDigest ≠ some (pub.digest infos) ↔
      Feed.latest (s.puts.map StatusPut.item) ≠ some infos := by
  rw [h.digest, ← Option.map_some, (Option.map_injective hinj).ne_iff]

theorem Follows.due_iff (h : Follows pub s) (hinj : Function.Injective pub.digest) :
    Due pub s infos now ↔ Feed.Wants pub.heartbeatS (s.puts.map StatusPut.item) infos now := by
  unfold Due Feed.Wants
  rw [h.changed_iff hinj, List.getLast?_map]
  cases hlast : s.puts.getLast? with
  | none => simp [latest_puts, hlast]
  | some put => simp [h.sentAt put hlast, StatusPut.item]

/-- A put continues the feed. -/
theorem Follows.sent [DecidableEq δ] (h : Follows pub s) (hinj : Function.Injective pub.digest)
    (hdue : Due pub s infos tick.now) :
    Follows pub {
      sequence := s.sequence + 1
      lastDigest := some (pub.digest infos)
      lastSentAt := tick.now
      attempts := s.attempts + 1
      puts := s.puts ++ [⟨pub.message s infos tick, tick.now⟩] } := by
  have hitem : (s.puts ++ [(⟨pub.message s infos tick, tick.now⟩ : StatusPut)]).map StatusPut.item =
      Feed.send (s.puts.map StatusPut.item) infos tick.now := by
    rw [List.map_append, Feed.send]
    congr 1
    simp only [List.map_cons, List.map_nil, StatusPut.item, message, h.sequence, List.length_map]
    congr 2
    simp only [← h.changed_iff hinj]
    split <;> simp_all
  refine ⟨?_, by simp [h.sequence], ?_, by simp, fun put hput => ?_⟩
  · rw [hitem]
    exact h.history.send ((h.due_iff hinj).mp hdue)
  · rw [hitem, Feed.latest_send, Option.map_some]
  · rcases List.mem_append.mp hput with hput | hput
    · exact h.trigger put hput
    · rw [List.mem_singleton.mp hput]
      unfold message
      dsimp only
      split <;> simp

/-- A tick that raises keeps the attributes. -/
theorem Follows.attempted (h : Follows pub s) :
    Follows pub { s with attempts := s.attempts + 1 } :=
  ⟨h.history, h.sequence, h.digest, h.sentAt, h.trigger⟩

theorem Follows.turn [DecidableEq δ] (h : Follows pub s) (hinj : Function.Injective pub.digest)
    (tick : StatusTick σ) : Follows pub (after (pub.turn tick) s) := by
  have ht := turned pub tick s
  unfold after
  generalize pub.turn tick s = result at ht ⊢
  cases ht with
  | failed => exact h
  | quiet => exact h
  | refused => exact h.attempted
  | sent _ hdue => exact h.sent hinj hdue

/-- What holds at the start and is kept by every tick holds along the loop. -/
theorem loop_induction [DecidableEq δ] {motive : StatusState δ → Prop} (init : motive {})
    (turn : ∀ s tick, motive s → motive (after (pub.turn tick) s)) (ticks : List (StatusTick σ)) :
    motive (pub.loop ticks) := by
  have hrun : ∀ s, motive s →
      motive (ticks.foldl (fun s tick => after (pub.turn tick) s) s) := by
    induction ticks with
    | nil => exact fun _ h => h
    | cons tick ticks ih => exact fun s h => ih _ (turn s tick h)
  exact hrun _ init

theorem follows_loop [DecidableEq δ] (hinj : Function.Injective pub.digest)
    (ticks : List (StatusTick σ)) : Follows pub (pub.loop ticks) :=
  loop_induction ⟨.nil, rfl, rfl, nofun, nofun⟩ (fun _ tick h => h.turn hinj tick) ticks

/-- Every message put describes the containers of some tick's runtime. -/
theorem described_of_mem_puts [DecidableEq δ] (limits : Limits) {ticks : List (StatusTick σ)} :
    ∀ put ∈ (pub.loop ticks).puts, ∃ d, Described (pub.context limits) d put.message.containers := by
  refine loop_induction (motive := fun s => ∀ put ∈ s.puts, ∃ d,
    Described (pub.context limits) d put.message.containers) nofun (fun s tick h => ?_) ticks
  have ht := turned pub tick s
  unfold after
  generalize pub.turn tick s = result at ht ⊢
  cases ht with
  | failed | quiet | refused => exact h
  | sent hs =>
    intro put hput
    rcases List.mem_append.mp hput with hput | hput
    · exact h put hput
    · rw [List.mem_singleton.mp hput]
      exact ⟨_, described_of_snapshot limits hs⟩

/-! ### What a subscriber sees -/

/-- The stream in a state, and what the next tick makes of it. -/
structure Faithful [DecidableEq δ] (pub : ContainerStatusPublisher σ δ) (limits : Limits)
    (s : StatusState δ) (tick : StatusTick σ) : Prop where
  /-- The sequence numbers put are 0, 1, 2 and so on. -/
  sequence : s.puts.map (·.message.sequence) = List.range s.puts.length
  /-- A change is a list that differs from the one put before, if any; the rest are heartbeats. -/
  change (i : Nat) (hi : i < s.puts.length) :
    ((s.puts.take i).getLast?.map (·.message.containers) ≠ some s.puts[i].message.containers →
      s.puts[i].message.trigger = .change) ∧
    ((s.puts.take i).getLast?.map (·.message.containers) = some s.puts[i].message.containers →
      s.puts[i].message.trigger = .heartbeat)
  /-- A snapshot is published, or tried to be, when it differs from the last put or that one is old. -/
  attempt (infos : List ContainerInfo) (h : outcome pub.snapshot tick.daemon = .ok infos) :
    ((s.puts.getLast?.map (·.message.containers) ≠ some infos ∨
        ∃ put ∈ s.puts.getLast?, pub.heartbeatS ≤ tick.now - put.now) →
      (after (pub.turn tick) s).attempts = s.attempts + 1) ∧
    (¬ (s.puts.getLast?.map (·.message.containers) ≠ some infos ∨
        ∃ put ∈ s.puts.getLast?, pub.heartbeatS ≤ tick.now - put.now) →
      (after (pub.turn tick) s).attempts = s.attempts)
  /-- After a tick that raised nothing, the last message put has the containers of a list reply. -/
  current (s' : StatusState δ) (h : pub.turn tick s = .ok () s') :
    ∃ put ∈ s'.puts.getLast?, ∀ t, ∃ r : ListContainersResponse,
      replies (pub.context limits) .list [] tick.daemon t = [.ok (.list r)] ∧
        r.containers = put.message.containers

theorem wants_puts {puts : List StatusPut} {period now : ℚ} :
    Feed.Wants period (puts.map StatusPut.item) infos now ↔
      puts.getLast?.map (·.message.containers) ≠ some infos ∨
        ∃ put ∈ puts.getLast?, period ≤ now - put.now := by
  rw [Feed.Wants, latest_puts, List.getLast?_map]
  cases puts.getLast? <;> simp [StatusPut.item]

theorem Follows.attempts_turn [DecidableEq δ] (h : Follows pub s)
    (hinj : Function.Injective pub.digest) (hs : outcome pub.snapshot tick.daemon = .ok infos) :
    (Feed.Wants pub.heartbeatS (s.puts.map StatusPut.item) infos tick.now →
      (after (pub.turn tick) s).attempts = s.attempts + 1) ∧
    (¬ Feed.Wants pub.heartbeatS (s.puts.map StatusPut.item) infos tick.now →
      (after (pub.turn tick) s).attempts = s.attempts) := by
  rw [← h.due_iff hinj]
  have ht := turned pub tick s
  unfold after
  generalize pub.turn tick s = result at ht ⊢
  cases ht with
  | failed he => cases he.symm.trans hs
  | quiet hs' hdue =>
    cases hs'.symm.trans hs
    exact ⟨fun h => absurd h hdue, fun _ => rfl⟩
  | refused hs' hdue | sent hs' hdue =>
    cases hs'.symm.trans hs
    exact ⟨fun _ => rfl, fun h => absurd hdue h⟩

/-- A tick that raised nothing leaves its own snapshot as the last list put. -/
theorem Follows.last_put [DecidableEq δ] (h : Follows pub s) (hinj : Function.Injective pub.digest)
    (hok : pub.turn tick s = .ok () s') : ∃ infos, outcome pub.snapshot tick.daemon = .ok infos ∧
      ∃ put ∈ s'.puts.getLast?, put.message.containers = infos := by
  have ht := turned pub tick s
  rw [hok] at ht
  cases ht with
  | @quiet infos hs hdue =>
    have hlast : s.puts.getLast?.map (·.message.containers) = some infos := by
      rw [h.due_iff hinj, wants_puts] at hdue
      exact not_not.mp fun hne => hdue (.inl hne)
    obtain ⟨put, hput, rfl⟩ := Option.map_eq_some_iff.mp hlast
    exact ⟨_, hs, put, hput, rfl⟩
  | @sent infos hs _ => exact ⟨infos, hs, ⟨pub.message s infos tick, tick.now⟩, by simp, rfl⟩

/-- Along every run of the loop, with any runtime, clocks, snapshot failures and put failures. -/
theorem faithful_loop [DecidableEq δ] (pub : ContainerStatusPublisher σ δ) (limits : Limits)
    (hinj : Function.Injective pub.digest)
    (hdecode : pub.pb.listContainersRequest [] = .ok { runningOnly := false, nameGlob := "" })
    (ticks : List (StatusTick σ)) (tick : StatusTick σ) :
    Faithful pub limits (pub.loop ticks) tick := by
  have h := follows_loop hinj ticks
  generalize pub.loop ticks = s at h ⊢
  refine ⟨?_, fun i hi => ?_, fun infos hs => ?_, fun s' hok => ?_⟩
  · simpa [StatusPut.item, Function.comp_def] using h.history.sequence
  · have hchange := h.history.change i (by simpa using hi)
    rw [← List.map_take, latest_puts] at hchange
    simp only [List.getElem_map, StatusPut.item, decide_eq_true_eq] at hchange
    refine ⟨hchange.mpr, fun heq => ?_⟩
    exact (h.trigger _ (List.getElem_mem hi)).resolve_left fun hc => hchange.mp hc heq
  · simpa only [wants_puts] using h.attempts_turn hinj hs
  · obtain ⟨infos, hs, put, hput, rfl⟩ := h.last_put hinj hok
    exact ⟨put, hput, fun t => ⟨_, replies_list t hdecode (described_of_snapshot limits hs), rfl⟩⟩

/-! ### A run of two ticks -/

def demo : ContainerStatusPublisher (List Container) (List ContainerInfo) where
  backend := host
  guard := {}
  digest := id
  pb := wire

def demoTick (now : ℚ) (containers : List Container) : StatusTick (List Container) where
  daemon := containers
  now
  timeNs := 0
  put _ := .ok ()

theorem faithful_loop_demo :
    Faithful demo {} (demo.loop [demoTick 1 [], demoTick 6 [router]]) (demoTick 11 [router]) :=
  faithful_loop demo {} (fun _ _ h => h) rfl _ _

end ContainerStatusPublisher

end KeelsonDocker
