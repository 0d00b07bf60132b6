import KeelsonDocker.Verify.Host
import KeelsonDocker.Verify.StatsReading

/-!
# The rows of a stats message

A sweep goes on past a stats call that raises, but not past a reading that does not fit the wire, so one
such reading costs every row of its tick (`keepsRows_iff`).
-/

namespace KeelsonDocker

open Effect

variable {σ : Type}

/-! ### Stats calls that may raise -/

theorem attempt_ok {x : Proc σ α} {a : α} {w w' : World σ} (h : x w = .ok a w') :
    attempt x w = .ok (some a) w' := by
  apply run_tryCatch_ok
  show EStateM.map some x w = _
  rw [EStateM.map, h]

theorem attempt_error {x : Proc σ α} {e : Exn} {w w' : World σ} (h : x w = .error e w') :
    attempt x w = .ok none w' := by
  refine run_tryCatch_error (e := e) ?_
  show EStateM.map some x w = _
  rw [EStateM.map, h]

/-- The bodies that come back when the containers are asked one after the other. -/
def readings (E : Engine σ) : List ContainerSnapshot → World σ → List (ContainerSnapshot × PyVal)
  | [], _ => []
  | snapshot :: rest, w =>
    match DockerBackend.stats E snapshot.id w with
    | .ok raw w' => (snapshot, raw) :: readings E rest w'
    | .error _ w' => readings E rest w'

namespace ContainerStatsPublisher

variable {pub : ContainerStatsPublisher σ}

/-! ### The sweep -/

/-- The rows have one for each measured reading. -/
def Rows (rows : List ContainerResourceUsage) (taken : List (ContainerSnapshot × PyVal)) : Prop :=
  ∀ r ∈ taken, Measured r.2 → Fits r.1 r.2 → ∃ row ∈ rows, row.name = r.1.name ∧ row.id = r.1.id

variable (previous : List (String × StatsSample)) (clock : Nat → ℚ) (acc : Sweep)
  {target : ContainerSnapshot × Nat} {targets : List (ContainerSnapshot × Nat)} {w w' : World σ}

theorem readOne_of_error {e : Exn}
    (h : DockerBackend.stats pub.backend target.1.id w = .error e w') :
    pub.readOne previous clock acc target w = .ok acc w' := by
  rw [readOne, run_bind_ok (attempt_error h)]
  rfl

/-- What the loop's body makes of a body that came back. -/
theorem readOne_of_ok {raw : PyVal}
    (h : DockerBackend.stats pub.backend target.1.id w = .ok raw w') :
    pub.readOne previous clock acc target w =
      match buildResourceUsage target.1 raw (previous.lookup target.1.id) (clock target.2) with
      | .error e => .error e w'
      | .ok none => .ok acc w'
      | .ok (some (usage, sample)) => .ok {
          entries := acc.entries ++ [usage]
          samples := (target.1.id, sample) :: acc.samples } w' := by
  rw [readOne, run_bind_ok (attempt_ok h)]
  dsimp only
  cases hb : buildResourceUsage target.1 raw (previous.lookup target.1.id) (clock target.2) with
  | error e => rw [run_bind_error (rfl : ofExcept (.error e) w' = _)]
  | ok r =>
    rw [run_bind_ok (rfl : ofExcept (.ok r) w' = _)]
    rcases r with - | ⟨usage, sample⟩ <;> rfl

theorem readOne_of_fits {raw : PyVal} (hs : EngineShape target.1 raw)
    (h : DockerBackend.stats pub.backend target.1.id w = .ok raw w')
    (hfits : Measured raw → Fits target.1 raw) :
    ∃ acc', pub.readOne previous clock acc target w = .ok acc' w' ∧
      acc.entries ⊆ acc'.entries ∧ Rows acc'.entries [(target.1, raw)] := by
  obtain ⟨r, hr⟩ := (succeeds_buildResourceUsage_iff hs).mpr hfits
  have hrun := readOne_of_ok previous clock acc h
  rw [hr] at hrun
  by_cases hm : Measured raw
  · obtain ⟨usage, sample, rfl, hrow⟩ := row_of_buildResourceUsage hs hm hr
    refine ⟨_, hrun, List.subset_append_left .., ?_⟩
    rintro _ hmem - -
    obtain rfl := List.mem_singleton.mp hmem
    exact ⟨usage, by simp, hrow⟩
  · rw [buildResourceUsage_of_not_measured hs hm] at hr
    cases hr
    refine ⟨acc, hrun, fun _ h => h, ?_⟩
    rintro _ hmem hm' -
    obtain rfl := List.mem_singleton.mp hmem
    exact absurd hm' hm

theorem readOne_of_not_fits {raw : PyVal} (hs : EngineShape target.1 raw)
    (h : DockerBackend.stats pub.backend target.1.id w = .ok raw w') (hm : Measured raw)
    (hfits : ¬ Fits target.1 raw) : ∃ e, pub.readOne previous clock acc target w = .error e w' := by
  have hrun := readOne_of_ok previous clock acc h
  cases hb : buildResourceUsage target.1 raw (previous.lookup target.1.id) (clock target.2) with
  | ok r => exact absurd ((succeeds_buildResourceUsage_iff hs).mp ⟨r, hb⟩ hm) hfits
  | error e =>
    rw [hb] at hrun
    exact ⟨e, hrun⟩

theorem Rows.append {rows rows' : List ContainerResourceUsage}
    {taken : List (ContainerSnapshot × PyVal)} {r : ContainerSnapshot × PyVal}
    (h : Rows rows [r]) (hsub : rows ⊆ rows') (h' : Rows rows' taken) : Rows rows' (r :: taken) := by
  intro r' hr' hm hf
  rcases List.mem_cons.mp hr' with rfl | hr'
  · obtain ⟨row, hrow, hname⟩ := h r' List.mem_cons_self hm hf
    exact ⟨row, hsub hrow, hname⟩
  · exact h' r' hr' hm hf

/-- What a sweep comes to: it stops at a measured reading that does not fit, or it has a row for each
measured reading. -/
theorem foldlM_readOne
    (hshape : ∀ r ∈ readings pub.backend (targets.map Prod.fst) w, EngineShape r.1 r.2) :
    (∃ e w', targets.foldlM (pub.readOne previous clock) acc w = .error e w' ∧
      ∃ r ∈ readings pub.backend (targets.map Prod.fst) w, Measured r.2 ∧ ¬ Fits r.1 r.2) ∨
    ∃ swept w', targets.foldlM (pub.readOne previous clock) acc w = .ok swept w' ∧
      acc.entries ⊆ swept.entries ∧
      (∀ r ∈ readings pub.backend (targets.map Prod.fst) w, Measured r.2 → Fits r.1 r.2) ∧
      Rows swept.entries (readings pub.backend (targets.map Prod.fst) w) := by
  induction targets generalizing acc w with
  | nil => exact .inr ⟨acc, w, rfl, fun _ h => h, nofun, nofun⟩
  | cons target targets ih =>
    rw [List.foldlM_cons]
    cases hstats : DockerBackend.stats pub.backend target.1.id w with
    | error e w₁ =>
      rw [run_bind_ok (readOne_of_error previous clock acc hstats)]
      simp only [List.map_cons, readings, hstats] at hshape ⊢
      exact ih acc hshape
    | ok raw w₁ =>
      simp only [List.map_cons, readings, hstats] at hshape ⊢
      have hs : EngineShape target.1 raw := hshape _ List.mem_cons_self
      by_cases hfits : Measured raw → Fits target.1 raw
      · obtain ⟨acc₁, hrun, hsub, hrow⟩ := readOne_of_fits previous clock acc hs hstats hfits
        rw [run_bind_ok hrun]
        rcases ih acc₁ fun r hr => hshape r (List.mem_cons_of_mem _ hr) with
          ⟨e, w₂, herr, r, hr, hbad⟩ | ⟨swept, w₂, hok, hsub', hfit, hrows⟩
        · exact .inl ⟨e, w₂, herr, r, List.mem_cons_of_mem _ hr, hbad⟩
        · refine .inr ⟨swept, w₂, hok, List.Subset.trans hsub hsub', ?_, hrow.append hsub' hrows⟩
          exact List.forall_mem_cons.mpr ⟨hfits, hfit⟩
      · obtain ⟨hm, hbad⟩ := Classical.not_imp.mp hfits
        obtain ⟨e, hrun⟩ := readOne_of_not_fits previous clock acc hs hstats hm hbad
        exact .inl ⟨e, w₁, run_bind_error hrun, (target.1, raw), List.mem_cons_self, hm, hbad⟩

/-! ### One tick -/

variable {s : StatsState} {tick : StatsTick σ} {snapshots : List ContainerSnapshot}

/-- The readings of a tick whose listing gave `snapshots` and left the world `w`. -/
def taken (pub : ContainerStatsPublisher σ) (snapshots : List ContainerSnapshot) (w : World σ) :
    List (ContainerSnapshot × PyVal) :=
  readings pub.backend (pub.selected snapshots) w

/-- The tick hands a message to the bus, with a row for each measured reading that fits. -/
def KeepsRows (pub : ContainerStatsPublisher σ) (tick : StatsTick σ) (s : StatsState)
    (taken : List (ContainerSnapshot × PyVal)) : Prop :=
  ∃ message, (after (pub.turn tick) s).puts = s.puts ++ [message] ∧ Rows message.containers taken

theorem puts_of_sweep_error {e : Exn}
    (h : outcome (pub.sweep s.previous tick.monotonicS) tick.daemon = .error e) :
    (after (pub.turn tick) s).puts = s.puts := by
  unfold turn
  rw [after_bind_ok (run_get s)]
  dsimp only
  rw [h, after_bind_error (rfl : ofExcept (.error e) s = _)]

/-- After a sweep, the message is handed over if the sequence still fits its field. -/
theorem puts_of_sweep_ok {swept : Sweep}
    (h : outcome (pub.sweep s.previous tick.monotonicS) tick.daemon = .ok swept) :
    (after (pub.turn tick) s).puts =
      if (s.sequence : Int) < 2 ^ 64 then s.puts ++ [{
        containers := swept.entries
        observedAt := Timestamp.fromNanoseconds tick.timeNs
        sequence := s.sequence }]
      else s.puts := by
  unfold turn
  rw [after_bind_ok (run_get s)]
  dsimp only
  rw [h, after_bind_ok (rfl : ofExcept (.ok swept) s = _), after_bind_ok (run_modify _ s)]
  unfold publish
  rw [after_bind_ok (run_get _)]
  dsimp only
  by_cases hseq : (s.sequence : Int) < 2 ^ 64
  · have hu : uint64 s.sequence = .ok (s.sequence : Int) :=
      assignInt_eq_ok.mpr ⟨⟨by omega, hseq⟩, rfl⟩
    rw [if_pos hseq, hu, after_bind_ok (rfl : ofExcept (.ok _) _ = _),
      after_bind_ok (run_modify _ _)]
    cases hp : tick.put _ with
    | error e => rw [after_bind_error (rfl : ofExcept (.error e) _ = _)]
    | ok u => rw [after_bind_ok (rfl : ofExcept (.ok u) _ = _), after_ok (run_modify _ _)]
  · have hu : uint64 s.sequence = .error (.py .valueError) := by
      rw [uint64, assignInt, if_neg fun h => hseq h.2]
    rw [if_neg hseq, hu, after_bind_error (rfl : ofExcept (.error _) _ = _)]

theorem sweep_of_listed
    (hl : DockerBackend.list pub.backend true none { daemon := tick.daemon } = .ok snapshots w) :
    outcome (pub.sweep previous clock) tick.daemon =
      match (pub.selected snapshots).zipIdx.foldlM (pub.readOne previous clock) {} w with
      | .ok swept _ => .ok swept
      | .error e _ => .error e := by
  rw [outcome, sweep, run_bind_ok hl]
  cases (pub.selected snapshots).zipIdx.foldlM (pub.readOne previous clock) {} w <;> rfl

theorem cases_of_listed
    (hl : DockerBackend.list pub.backend true none { daemon := tick.daemon } = .ok snapshots w)
    (hshape : ∀ r ∈ pub.taken snapshots w, EngineShape r.1 r.2) :
    (∃ e, outcome (pub.sweep previous clock) tick.daemon = .error e ∧
      ∃ r ∈ pub.taken snapshots w, Measured r.2 ∧ ¬ Fits r.1 r.2) ∨
    ∃ swept, outcome (pub.sweep previous clock) tick.daemon = .ok swept ∧
      (∀ r ∈ pub.taken snapshots w, Measured r.2 → Fits r.1 r.2) ∧
      Rows swept.entries (pub.taken snapshots w) := by
  have htargets : (pub.selected snapshots).zipIdx.map Prod.fst = pub.selected snapshots := by simp
  have hsweep := sweep_of_listed previous clock hl
  rw [taken, ← htargets] at hshape ⊢
  rcases foldlM_readOne previous clock {} hshape with ⟨e, w', hrun, hbad⟩ | ⟨swept, w', hrun, -, hfits, hrows⟩
  · rw [hrun] at hsweep
    exact .inl ⟨e, hsweep, hbad⟩
  · rw [hrun] at hsweep
    exact .inr ⟨swept, hsweep, hfits, hrows⟩

theorem not_keepsRows_of_not_fits {r : ContainerSnapshot × PyVal}
    (hl : DockerBackend.list pub.backend true none { daemon := tick.daemon } = .ok snapshots w)
    (hshape : ∀ r ∈ pub.taken snapshots w, EngineShape r.1 r.2) (hr : r ∈ pub.taken snapshots w)
    (hm : Measured r.2) (hbad : ¬ Fits r.1 r.2) :
    ¬ pub.KeepsRows tick s (pub.taken snapshots w) := by
  rintro ⟨message, hputs, -⟩
  rcases cases_of_listed s.previous tick.monotonicS hl hshape with
    ⟨e, hsweep, -⟩ | ⟨swept, -, hfits, -⟩
  · rw [puts_of_sweep_error hsweep] at hputs
    simp at hputs
  · exact hbad (hfits r hr hm)

theorem keepsRows_of_fits
    (hl : DockerBackend.list pub.backend true none { daemon := tick.daemon } = .ok snapshots w)
    (hshape : ∀ r ∈ pub.taken snapshots w, EngineShape r.1 r.2) (hseq : s.sequence < 2 ^ 64)
    (hfits : ∀ r ∈ pub.taken snapshots w, Measured r.2 → Fits r.1 r.2) :
    pub.KeepsRows tick s (pub.taken snapshots w) := by
  rcases cases_of_listed s.previous tick.monotonicS hl hshape with
    ⟨e, -, r, hr, hm, hbad⟩ | ⟨swept, hsweep, -, hrows⟩
  · exact absurd (hfits r hr hm) hbad
  · exact ⟨_, by rw [puts_of_sweep_ok hsweep, if_pos (by omega)], hrows⟩

theorem sequence_lt_of_keepsRows {rows : List (ContainerSnapshot × PyVal)}
    (h : pub.KeepsRows tick s rows) : s.sequence < 2 ^ 64 := by
  obtain ⟨message, hputs, -⟩ := h
  cases hsweep : outcome (pub.sweep s.previous tick.monotonicS) tick.daemon with
  | error e =>
    rw [puts_of_sweep_error hsweep] at hputs
    simp at hputs
  | ok swept =>
    by_contra hseq
    rw [puts_of_sweep_ok hsweep, if_neg (by omega)] at hputs
    simp at hputs

/-- A tick keeps the rows exactly when no measured reading misses its field, and the sequence number
of the message does not. -/
theorem keepsRows_iff
    (hl : DockerBackend.list pub.backend true none { daemon := tick.daemon } = .ok snapshots w)
    (hshape : ∀ r ∈ pub.taken snapshots w, EngineShape r.1 r.2) :
    pub.KeepsRows tick s (pub.taken snapshots w) ↔
      s.sequence < 2 ^ 64 ∧ ∀ r ∈ pub.taken snapshots w, Measured r.2 → Fits r.1 r.2 := by
  constructor
  · intro h
    exact ⟨sequence_lt_of_keepsRows h, fun r hr hm => by_contra fun hbad =>
      not_keepsRows_of_not_fits hl hshape hr hm hbad h⟩
  · rintro ⟨hseq, hfits⟩
    exact keepsRows_of_fits hl hshape hseq hfits

/-! ### A container without a PID limit -/

/-- One container's trouble stays its own: a message with every row that can be had. -/
def CostsOnlyItself : Prop :=
  ∀ ⦃σ : Type⦄ (pub : ContainerStatsPublisher σ) (tick : StatsTick σ) (s : StatsState)
    (snapshots : List ContainerSnapshot) (w : World σ),
    DockerBackend.list pub.backend true none { daemon := tick.daemon } = .ok snapshots w →
    (∀ r ∈ pub.taken snapshots w, EngineShape r.1 r.2) → s.sequence < 2 ^ 64 →
    pub.KeepsRows tick s (pub.taken snapshots w)

namespace Unlimited

/-- A daemon whose state is its containers with the stats of each. -/
def meter : Engine (List (Container × PyVal)) where
  fromEnv cs := (.ok (), cs)
  list _ _ cs := (.ok (cs.map Prod.fst), cs)
  get s cs := (lookUp (cs.map Prod.fst) s, cs)
  act _ _ _ cs := (.ok (), cs)
  reload c cs := (.ok c, cs)
  remove _ _ _ cs := (.ok (), cs)
  logs _ _ _ _ _ cs := (.ok [], cs)
  stats s cs := (.ok ((cs.find? (·.1.id == s)).elim .none Prod.snd), cs)

def postgres : Container where
  name := some "postgres"
  id := "1c9f6e20b7d34a58"
  attrs := .dict [("HostConfig", .dict [("Memory", .int 0)])]
  labels := .dict []
  image := .ok none

def body (pidsLimit : Int) : PyVal :=
  .dict [
    ("cpu_stats", .dict [
      ("cpu_usage", .dict [("total_usage", .int 48211337000)]),
      ("system_cpu_usage", .int 91827364550000000),
      ("online_cpus", .int 4)]),
    ("memory_stats", .dict [("usage", .int 52428800), ("limit", .int 33554432000)]),
    ("pids_stats", .dict [("current", .int 7), ("limit", .int pidsLimit)])]

def publisher : ContainerStatsPublisher (List (Container × PyVal)) where
  backend := meter

/-- Two running containers, the first with the given PID limit. -/
def tickOf (pidsLimit : Int) : StatsTick (List (Container × PyVal)) where
  daemon := [(postgres, body pidsLimit), (router, body 4096)]
  monotonicS k := k
  timeNs := 0
  put _ := .ok ()

def described (c : Container) : ContainerSnapshot where
  name := c.name.getD ""
  id := c.id
  attrs := c.attrs

def listing (pidsLimit : Int) : World (List (Container × PyVal)) where
  daemon := (tickOf pidsLimit).daemon
  calls := [.fromEnv, .list false none]

theorem listed (n : Int) :
    DockerBackend.list publisher.backend true none { daemon := (tickOf n).daemon } =
      .ok [described postgres, described router] (listing n) := rfl

theorem taken_eq (n : Int) : publisher.taken [described postgres, described router] (listing n) =
    [(described postgres, body n), (described router, body 4096)] := rfl

theorem engineShape_body (c : Container) (n : Int) (ha : c.attrs.ObjectLike)
    (hc : (c.attrs.orEmpty.field "HostConfig").ObjectLike) :
    EngineShape (described c) (body n) where
  attrs := ha
  config := hc
  cpu _ := rfl
  usage _ := rfl
  percpu := nofun
  memory _ := rfl
  pids _ := rfl
  blkio := nofun
  entries := nofun

theorem fits_body (c : Container) {n : Int} (hn : n < 2 ^ 32)
    (hm : num ((hostConfig (described c)).field "Memory") ≤ 0)
    (hs : num ((hostConfig (described c)).field "CpuShares") < 2 ^ 32) :
    Fits (described c) (body n) where
  memoryUsed := (by decide : InInt64 52428800)
  pidsCurrent := (by decide : InUint32 7)
  throttling := nofun
  onlineCpus := (by decide : (4 : Int) < 2 ^ 32)
  memoryLimit h := absurd h (by omega)
  blockBytes := trivial
  networkBytes := trivial
  pidsLimit := hn
  cpuShares := hs

theorem engineShape (n : Int) :
    ∀ r ∈ publisher.taken [described postgres, described router] (listing n),
      EngineShape r.1 r.2 := by
  rw [taken_eq]
  simp only [List.forall_mem_cons, List.not_mem_nil, false_imp_iff, implies_true, and_true]
  exact ⟨engineShape_body postgres n (fun _ => rfl) fun _ => rfl,
    engineShape_body router 4096 (fun _ => rfl) nofun⟩

/-- A cgroup without a PID limit reports the largest counter there is. -/
theorem not_costsOnlyItself : ¬ CostsOnlyItself := by
  intro h
  have hbad : ¬ Fits (described postgres) (body (2 ^ 64 - 1)) := fun hf =>
    absurd hf.pidsLimit (by decide)
  refine not_keepsRows_of_not_fits (r := (described postgres, body (2 ^ 64 - 1))) (listed _)
    (engineShape _) ?_ (by decide) hbad
    (h publisher (tickOf (2 ^ 64 - 1)) {} _ _ (listed _) (engineShape _) (by decide))
  rw [taken_eq]
  exact List.mem_cons_self

/-- With a limit on both, both rows are kept. -/
theorem keepsRows_both : publisher.KeepsRows (tickOf 512) {}
    (publisher.taken [described postgres, described router] (listing 512)) := by
  refine (keepsRows_iff (listed 512) (engineShape 512)).mpr ⟨by decide, ?_⟩
  rw [taken_eq]
  simp only [List.forall_mem_cons, List.not_mem_nil, false_imp_iff, implies_true, and_true]
  exact ⟨fun _ => fits_body postgres (by decide) (by decide) (by decide),
    fun _ => fits_body router (by decide) (by decide) (by decide)⟩

end Unlimited

end ContainerStatsPublisher

end KeelsonDocker
