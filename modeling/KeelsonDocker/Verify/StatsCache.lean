import KeelsonDocker.Verify.StatsRows

/-!
# The samples kept between ticks

`_previous` is the dict of the most recent completed sweep: one sample for each of its rows, made from that
row's reading (`cache_eq`). So a row is differenced against the same id's reading in that sweep, or against
nothing (`exact_loop`).
-/

namespace KeelsonDocker

open Effect

variable {σ : Type}

/-- One row of a sweep, and what it was built from. -/
structure Reading where
  snapshot : ContainerSnapshot
  raw : PyVal
  /-- The sample it was differenced against. -/
  previous : Option StatsSample
  monotonicS : ℚ
  usage : ContainerResourceUsage
  sample : StatsSample
  built : buildResourceUsage snapshot raw previous monotonicS = .ok (some (usage, sample))

section

variable {snapshot : ContainerSnapshot} {raw : PyVal} {previous : Option StatsSample}
  {monotonicS : ℚ}

/-- What came of a body, with how it came about. -/
def Reading.ofResult (result : Except Exn (Option (ContainerResourceUsage × StatsSample)))
    (h : buildResourceUsage snapshot raw previous monotonicS = result) :
    Except Exn (Option Reading) :=
  match result, h with
  | .error e, _ => .error e
  | .ok none, _ => .ok none
  | .ok (some (usage, sample)), h =>
    .ok (some ⟨snapshot, raw, previous, monotonicS, usage, sample, h⟩)

/-- The row of one stats body, if it carries a measurement. -/
def Reading.build (snapshot : ContainerSnapshot) (raw : PyVal) (previous : Option StatsSample)
    (monotonicS : ℚ) : Except Exn (Option Reading) :=
  ofResult (buildResourceUsage snapshot raw previous monotonicS) rfl

theorem Reading.ofResult_eq {result : Except Exn (Option (ContainerResourceUsage × StatsSample))}
    (h : buildResourceUsage snapshot raw previous monotonicS = result) :
    match ofResult result h with
    | .error e => result = .error e
    | .ok built => result = .ok (built.map fun r => (r.usage, r.sample)) ∧
        ∀ r ∈ built, r.snapshot = snapshot ∧ r.previous = previous := by
  rcases result with e | _ | ⟨usage, sample⟩
  · rfl
  · exact ⟨rfl, fun r hr => absurd hr (Option.not_mem_none r)⟩
  · refine ⟨rfl, fun r hr => ?_⟩
    rw [← Option.some.inj hr]
    exact ⟨rfl, rfl⟩

theorem Reading.build_eq {built : Option Reading}
    (h : build snapshot raw previous monotonicS = .ok built) :
    buildResourceUsage snapshot raw previous monotonicS =
      .ok (built.map fun r => (r.usage, r.sample)) ∧
    ∀ r ∈ built, r.snapshot = snapshot ∧ r.previous = previous := by
  have hresult := ofResult_eq (rfl : buildResourceUsage snapshot raw previous monotonicS = _)
  rw [← build, h] at hresult
  exact hresult

theorem Reading.build_error {e : Exn} (h : build snapshot raw previous monotonicS = .error e) :
    buildResourceUsage snapshot raw previous monotonicS = .error e := by
  have hresult := ofResult_eq (rfl : buildResourceUsage snapshot raw previous monotonicS = _)
  rw [← build, h] at hresult
  exact hresult

/-- The row and the sample are made from the same body. -/
theorem resourceUsage_of_build {usage : ContainerResourceUsage} {sample : StatsSample}
    (h : buildResourceUsage snapshot raw previous monotonicS = .ok (some (usage, sample))) :
    readStatsSample raw monotonicS = .ok (some sample) ∧
      resourceUsage snapshot raw sample previous = .ok usage := by
  by_cases hdict : raw.isDict = true
  · simp only [buildResourceUsage, hdict, if_true] at h
    obtain ⟨found, hfound, h⟩ := bind_eq_ok.mp h
    cases found with
    | none => cases h
    | some sample' =>
      obtain ⟨usage', husage, h⟩ := bind_eq_ok.mp h
      obtain ⟨rfl, rfl⟩ := Prod.mk.inj (Option.some.inj (Except.ok.inj h))
      refine ⟨?_, husage⟩
      cases hread : readStatsSample raw monotonicS with
      | error e =>
        rw [hread] at hfound
        cases hfound
      | ok found =>
        rw [hread] at hfound
        exact congrArg Except.ok (Except.ok.inj hfound)
  · simp only [buildResourceUsage, hdict] at h
    cases h

end

/-! ### The values that need two readings -/

/-- The core count of a body, as `build_resource_usage` reads it. -/
def coreCount (raw : PyVal) : Except PyError Int := do
  let cpu := (← raw.get "cpu_stats").orEmpty
  let usage := (← cpu.get "cpu_usage").orEmpty
  onlineCpus cpu usage

/-- `cpu_load_pct`, from a reading and the one before. -/
def loadPct (cores : Int) (now before : StatsSample) : Option ℚ :=
  let cpuDelta := now.cpuTotalNs - before.cpuTotalNs
  let systemDelta := now.systemCpuNs - before.systemCpuNs
  if 0 ≤ cpuDelta ∧ 0 < systemDelta ∧ 0 < cores then some (cpuDelta / systemDelta * cores * 100)
  else none

/-- The rate of a counter, from a reading and the one before. -/
def rateBetween (counter : StatsSample → Option Int) (now before : StatsSample) : Option ℚ :=
  rateOf (counter now) (counter before) (now.monotonicS - before.monotonicS)

/-- The load and the four rates of a row are those of the readings. -/
structure Differenced (usage : ContainerResourceUsage) (cores : Int) (now : StatsSample)
    (previous : Option StatsSample) : Prop where
  cpuLoadPct : usage.cpuLoadPct = previous.bind (loadPct cores now)
  networkRx : usage.networkRxBytesPerSecond = previous.bind (rateBetween StatsSample.rxBytes now)
  networkTx : usage.networkTxBytesPerSecond = previous.bind (rateBetween StatsSample.txBytes now)
  blockRead : usage.blockReadBytesPerSecond =
    previous.bind (rateBetween StatsSample.blockReadBytes now)
  blockWrite : usage.blockWriteBytesPerSecond =
    previous.bind (rateBetween StatsSample.blockWriteBytes now)

theorem Yields.bind_of {P : β → Prop} {x : Except ε α} {f : α → Except ε β}
    (h : ∀ a, x = .ok a → Yields P (f a)) : Yields P (x >>= f) := fun b hb =>
  have ⟨a, ha, hf⟩ := bind_eq_ok.mp hb
  h a ha b hf

theorem counters_of_readStatsSample {raw : PyVal} {monotonicS : ℚ} {sample : StatsSample}
    (h : readStatsSample raw monotonicS = .ok (some sample)) :
    networkTotals raw = .ok (sample.rxBytes, sample.txBytes) ∧
      blockTotals raw = .ok (sample.blockReadBytes, sample.blockWriteBytes) := by
  unfold readStatsSample at h
  split at h
  · cases h
  · obtain ⟨cpu, -, h⟩ := bind_eq_ok.mp h
    obtain ⟨usage, -, h⟩ := bind_eq_ok.mp h
    obtain ⟨total, -, h⟩ := bind_eq_ok.mp h
    obtain ⟨system, -, h⟩ := bind_eq_ok.mp h
    dsimp only at h
    split at h
    · cases h
    · obtain ⟨⟨rx, tx⟩, hnetwork, h⟩ := bind_eq_ok.mp h
      obtain ⟨⟨blockRead, blockWrite⟩, hblock, h⟩ := bind_eq_ok.mp h
      cases h
      exact ⟨hnetwork, hblock⟩

theorem differenced_of_resourceUsage {snapshot : ContainerSnapshot} {raw : PyVal} {monotonicS : ℚ}
    {sample : StatsSample} {previous : Option StatsSample} {usage : ContainerResourceUsage}
    (hread : readStatsSample raw monotonicS = .ok (some sample))
    (h : resourceUsage snapshot raw sample previous = .ok usage) :
    ∃ cores, coreCount raw = .ok cores ∧ Differenced usage cores sample previous := by
  obtain ⟨hnetwork, hblock⟩ := counters_of_readStatsSample hread
  have hyields : Yields (fun usage => ∃ cores, coreCount raw = .ok cores ∧
      Differenced usage cores sample previous) (resourceUsage snapshot raw sample previous) := by
    unfold resourceUsage
    refine .bind fun _ => .bind_of fun cpu hcpu => .bind_of fun cpuUsage husage => ?_
    iterate 9 refine .bind fun _ => ?_
    refine .bind_of fun cores hcores => ?_
    iterate 4 refine .bind fun _ => ?_
    refine .bind_of fun block hblock' => .bind fun _ => .bind_of fun network hnetwork' => ?_
    rw [liftPy_eq_ok] at hcpu husage hcores hblock' hnetwork'
    iterate 6 refine .bind fun _ => ?_
    cases hblock.symm.trans hblock'
    cases hnetwork.symm.trans hnetwork'
    refine .pure ⟨cores, bind_eq_ok.mpr ⟨cpu, hcpu, bind_eq_ok.mpr ⟨cpuUsage, husage, hcores⟩⟩, ?_⟩
    constructor <;> cases previous <;> rfl
  exact hyields usage h


/-- Nothing that needs two readings is set. -/
structure Underived (usage : ContainerResourceUsage) : Prop where
  cpuLoadPct : usage.cpuLoadPct = none
  networkRx : usage.networkRxBytesPerSecond = none
  networkTx : usage.networkTxBytesPerSecond = none
  blockRead : usage.blockReadBytesPerSecond = none
  blockWrite : usage.blockWriteBytesPerSecond = none

theorem Reading.differenced (r : Reading) :
    ∃ cores, coreCount r.raw = .ok cores ∧ Differenced r.usage cores r.sample r.previous := by
  obtain ⟨hread, husage⟩ := resourceUsage_of_build r.built
  exact differenced_of_resourceUsage hread husage

theorem Reading.underived_of_first {r : Reading} (h : r.previous = none) : Underived r.usage := by
  obtain ⟨cores, -, hdiff⟩ := r.differenced
  rw [h] at hdiff
  exact ⟨hdiff.cpuLoadPct, hdiff.networkRx, hdiff.networkTx, hdiff.blockRead, hdiff.blockWrite⟩

theorem Reading.id_eq (r : Reading) : r.usage.id = r.snapshot.id :=
  (resourceUsage_yields _ _ _ _ _ (resourceUsage_of_build r.built).2).2

/-- A sweep with these rows: its dict has a later row of an id in the place of an earlier one. -/
def Sweep.of (readings : List Reading) : Sweep where
  entries := readings.map Reading.usage
  samples := (readings.map fun r => (r.snapshot.id, r.sample)).reverse

/-- The sample a sweep leaves for an id: that of its last row with that id. -/
def latest (readings : List Reading) (id : String) : Option StatsSample :=
  (readings.reverse.find? fun r => r.snapshot.id == id).map Reading.sample

theorem lookup_samples (readings : List Reading) (id : String) :
    (Sweep.of readings).samples.lookup id = latest readings id := by
  unfold Sweep.of latest
  dsimp only
  rw [← List.map_reverse]
  induction readings.reverse with
  | nil => rfl
  | cons r readings ih =>
    rw [List.map_cons, List.lookup_cons, List.find?_cons]
    by_cases h : r.snapshot.id = id
    · simp [h]
    · rw [beq_false_of_ne h, beq_false_of_ne (Ne.symm h)]
      exact ih

namespace ContainerStatsPublisher

variable (pub : ContainerStatsPublisher σ)

/-! ### What a sweep builds -/

/-- The rows for the containers of a listing; `none` when one of them raises. -/
def taking (previous : List (String × StatsSample)) (clock : Nat → ℚ) :
    List (ContainerSnapshot × Nat) → World σ → Option (List Reading)
  | [], _ => some []
  | (snapshot, position) :: targets, w =>
    match DockerBackend.stats pub.backend snapshot.id w with
    | .error _ w' => taking previous clock targets w'
    | .ok raw w' =>
      match Reading.build snapshot raw (previous.lookup snapshot.id) (clock position) with
      | .error _ => none
      | .ok none => taking previous clock targets w'
      | .ok (some reading) => (taking previous clock targets w').map (reading :: ·)

/-- The rows of a tick, `none` when its sweep does not complete. -/
def readingsOf (previous : List (String × StatsSample)) (tick : StatsTick σ) :
    Option (List Reading) :=
  match DockerBackend.list pub.backend true none { daemon := tick.daemon } with
  | .error _ _ => none
  | .ok snapshots w => pub.taking previous tick.monotonicS (pub.selected snapshots).zipIdx w

/-- The rows of the most recent completed sweep. -/
def lastReadings (ticks : List (StatsTick σ)) : List Reading :=
  (ticks.foldl (fun run tick =>
    (after (pub.turn tick) run.1, (pub.readingsOf run.1.previous tick).getD run.2)) ({}, [])).2

variable {pub} {previous : List (String × StatsSample)} {clock : Nat → ℚ}
  {targets : List (ContainerSnapshot × Nat)} {w : World σ} {tick : StatsTick σ} {s : StatsState}

/-- The loop of `_sweep` collects exactly these rows, and completes exactly when there are any. -/
theorem foldlM_readOne_eq (pub : ContainerStatsPublisher σ) (previous : List (String × StatsSample))
    (clock : Nat → ℚ) (targets : List (ContainerSnapshot × Nat)) (acc : Sweep) :
    match pub.taking previous clock targets w with
    | none => ∃ e w', targets.foldlM (pub.readOne previous clock) acc w = .error e w'
    | some readings => ∃ w', targets.foldlM (pub.readOne previous clock) acc w = .ok {
        entries := acc.entries ++ (Sweep.of readings).entries
        samples := (Sweep.of readings).samples ++ acc.samples } w' := by
  induction targets generalizing acc w with
  | nil => simp [taking, Sweep.of]
  | cons target targets ih =>
    obtain ⟨snapshot, position⟩ := target
    rw [List.foldlM_cons]
    cases hstats : DockerBackend.stats pub.backend snapshot.id w with
    | error e w₁ =>
      rw [run_bind_ok (readOne_of_error previous clock acc hstats)]
      simp only [taking, hstats]
      exact ih acc
    | ok raw w₁ =>
      have htarget : DockerBackend.stats pub.backend (snapshot, position).1.id w = .ok raw w₁ := hstats
      have hrun := readOne_of_ok previous clock acc htarget
      simp only [taking, hstats]
      cases hbuild : Reading.build snapshot raw (previous.lookup snapshot.id) (clock position) with
      | error e =>
        rw [Reading.build_error hbuild] at hrun
        exact ⟨e, w₁, run_bind_error hrun⟩
      | ok built =>
        obtain ⟨hb, hfrom⟩ := Reading.build_eq hbuild
        rw [hb] at hrun
        cases built with
        | none =>
          rw [run_bind_ok hrun]
          exact ih acc
        | some r =>
          rw [run_bind_ok hrun]
          have hrest := ih (w := w₁) {
            entries := acc.entries ++ [r.usage]
            samples := (snapshot.id, r.sample) :: acc.samples }
          dsimp only
          cases hread : pub.taking previous clock targets w₁ with
          | none =>
            rw [hread] at hrest
            exact hrest
          | some readings =>
            rw [hread] at hrest
            obtain ⟨w', hw'⟩ := hrest
            refine ⟨w', hw'.trans ?_⟩
            simp [Sweep.of, (hfrom r rfl).1]

/-- The sweep of a tick is that of its rows. -/
theorem outcome_sweep (pub : ContainerStatsPublisher σ) (previous : List (String × StatsSample))
    (tick : StatsTick σ) :
    (outcome (pub.sweep previous tick.monotonicS) tick.daemon).toOption =
      (pub.readingsOf previous tick).map Sweep.of := by
  unfold readingsOf
  cases hl : DockerBackend.list pub.backend true none { daemon := tick.daemon } with
  | error e w =>
    rw [outcome, sweep, run_bind_error hl]
    rfl
  | ok snapshots w =>
    rw [sweep_of_listed previous tick.monotonicS hl]
    have hfold := foldlM_readOne_eq (w := w) pub previous tick.monotonicS (pub.selected snapshots).zipIdx {}
    dsimp only
    cases hread : pub.taking previous tick.monotonicS (pub.selected snapshots).zipIdx w with
    | none =>
      rw [hread] at hfold
      obtain ⟨e, w', hw'⟩ := hfold
      rw [hw']
      rfl
    | some readings =>
      rw [hread] at hfold
      obtain ⟨w', hw'⟩ := hfold
      rw [hw']
      simp [Except.toOption]

/-! ### What a tick keeps -/

/-- The publishing part of a tick leaves the samples alone, whatever the bus does. -/
theorem previous_publish (entries : List ContainerResourceUsage) (tick : StatsTick σ)
    (s : StatsState) : (after (publish entries tick) s).previous = s.previous := by
  unfold publish
  rw [after_bind_ok (run_get s)]
  dsimp only
  cases hseq : uint64 s.sequence with
  | error e => rw [after_bind_error (rfl : ofExcept (.error e) s = _)]
  | ok n =>
    rw [after_bind_ok (rfl : ofExcept (.ok n) s = _), after_bind_ok (run_modify _ s)]
    cases tick.put _ with
    | error e => rw [after_bind_error (rfl : ofExcept (.error e) _ = _)]
    | ok u => rw [after_bind_ok (rfl : ofExcept (.ok u) _ = _), after_ok (run_modify _ _)]

theorem previous_turn (s : StatsState) (tick : StatsTick σ) :
    (after (pub.turn tick) s).previous =
      ((pub.readingsOf s.previous tick).map fun readings => (Sweep.of readings).samples).getD
        s.previous := by
  have hsweep := outcome_sweep pub s.previous tick
  unfold turn
  rw [after_bind_ok (run_get s)]
  dsimp only
  cases hout : outcome (pub.sweep s.previous tick.monotonicS) tick.daemon with
  | error e =>
    rw [hout] at hsweep
    rw [after_bind_error (rfl : ofExcept (.error e) s = _), Option.map_eq_none_iff.mp hsweep.symm]
    rfl
  | ok swept =>
    rw [hout] at hsweep
    obtain ⟨readings, hread, rfl⟩ := Option.map_eq_some_iff.mp hsweep.symm
    rw [after_bind_ok (rfl : ofExcept (.ok (Sweep.of readings)) s = _),
      after_bind_ok (run_modify _ s), previous_publish, hread]
    rfl

/-- A row is differenced against what the dict holds under its id. -/
theorem previous_of_taking {readings : List Reading}
    (h : pub.taking previous clock targets w = some readings) :
    (∀ r ∈ readings, r.previous = previous.lookup r.snapshot.id) ∧
      List.Sublist (readings.map Reading.snapshot) (targets.map Prod.fst) := by
  induction targets generalizing readings w with
  | nil =>
    cases h
    exact ⟨fun r hr => absurd hr List.not_mem_nil, .slnil⟩
  | cons target targets ih =>
    obtain ⟨snapshot, position⟩ := target
    cases hstats : DockerBackend.stats pub.backend snapshot.id w with
    | error e w' =>
      simp only [taking, hstats] at h
      exact ⟨(ih h).1, (ih h).2.cons _⟩
    | ok raw w' =>
      simp only [taking, hstats] at h
      rcases hbuild : Reading.build snapshot raw (previous.lookup snapshot.id) (clock position) with
        e | _ | reading
      · rw [hbuild] at h
        cases h
      · rw [hbuild] at h
        exact ⟨(ih h).1, (ih h).2.cons _⟩
      · rw [hbuild] at h
        obtain ⟨rest, hrest, rfl⟩ := Option.map_eq_some_iff.mp h
        obtain ⟨hsnapshot, hprevious⟩ := (Reading.build_eq hbuild).2 reading rfl
        obtain ⟨hrows, hsub⟩ := ih hrest
        refine ⟨List.forall_mem_cons.mpr ⟨?_, hrows⟩, ?_⟩
        · rw [hprevious, hsnapshot]
        · rw [List.map_cons, List.map_cons, hsnapshot]
          exact hsub.cons_cons _

/-! ### Whole runs -/

theorem lastReadings_concat (ticks : List (StatsTick σ)) (tick : StatsTick σ) :
    pub.lastReadings (ticks ++ [tick]) =
      (pub.readingsOf (pub.loop ticks).previous tick).getD (pub.lastReadings ticks) := by
  have hstate (ticks : List (StatsTick σ)) : (ticks.foldl (fun run tick =>
      (after (pub.turn tick) run.1, (pub.readingsOf run.1.previous tick).getD run.2))
      (({}, []) : StatsState × List Reading)).1 = pub.loop ticks := by
    induction ticks using List.reverseRecOn with
    | nil => rfl
    | append_singleton ticks tick ih =>
      rw [List.foldl_concat, loop, List.foldl_concat, ← loop, ih]
  unfold lastReadings
  rw [List.foldl_concat, hstate]

theorem loop_concat (ticks : List (StatsTick σ)) (tick : StatsTick σ) :
    pub.loop (ticks ++ [tick]) = after (pub.turn tick) (pub.loop ticks) :=
  List.foldl_concat ..

/-- The samples kept are those of the most recent completed sweep. -/
theorem cache_eq (pub : ContainerStatsPublisher σ) (ticks : List (StatsTick σ)) :
    (pub.loop ticks).previous = (Sweep.of (pub.lastReadings ticks)).samples := by
  induction ticks using List.reverseRecOn with
  | nil => rfl
  | append_singleton ticks tick ih =>
    rw [loop_concat, previous_turn, lastReadings_concat]
    cases pub.readingsOf (pub.loop ticks).previous tick with
    | none => exact ih
    | some readings => rfl

theorem taking_of_readingsOf {readings : List Reading}
    (h : pub.readingsOf previous tick = some readings) :
    ∃ snapshots w, DockerBackend.list pub.backend true none { daemon := tick.daemon } =
      .ok snapshots w ∧
      pub.taking previous tick.monotonicS (pub.selected snapshots).zipIdx w = some readings := by
  unfold readingsOf at h
  split at h
  · cases h
  · exact ⟨_, _, ‹_›, h⟩

/-- A row is differenced against the same id's reading in the most recent completed sweep. -/
theorem previous_eq_latest {ticks : List (StatsTick σ)} {readings : List Reading} {r : Reading}
    (h : pub.readingsOf (pub.loop ticks).previous tick = some readings) (hr : r ∈ readings) :
    r.previous = latest (pub.lastReadings ticks) r.usage.id := by
  obtain ⟨snapshots, w, -, htake⟩ := taking_of_readingsOf h
  rw [(previous_of_taking htake).1 r hr, cache_eq, lookup_samples, r.id_eq]

/-- The cache around one tick. -/
structure Exact (pub : ContainerStatsPublisher σ) (ticks : List (StatsTick σ)) (tick : StatsTick σ) :
    Prop where
  /-- The readings are those of the rows the sweep builds, if it completes. -/
  sweep : (outcome (pub.sweep (pub.loop ticks).previous tick.monotonicS) tick.daemon).toOption =
    (pub.readingsOf (pub.loop ticks).previous tick).map Sweep.of
  /-- A tick whose sweep does not complete leaves the cache as it is. -/
  failed : pub.readingsOf (pub.loop ticks).previous tick = none →
    (pub.loop (ticks ++ [tick])).previous = (pub.loop ticks).previous
  /-- Otherwise it holds one sample for each row, under the row's id, made from the row's reading. -/
  completed : ∀ {readings}, pub.readingsOf (pub.loop ticks).previous tick = some readings →
    (pub.loop (ticks ++ [tick])).previous.reverse = readings.map fun r => (r.usage.id, r.sample)
  /-- The dict gives the sample of an id's last row. -/
  latest : ∀ {readings}, pub.readingsOf (pub.loop ticks).previous tick = some readings →
    ∀ id, (pub.loop (ticks ++ [tick])).previous.lookup id = latest readings id
  /-- A listing has a container once, and so does the dict. -/
  once : ∀ {readings snapshots w}, pub.readingsOf (pub.loop ticks).previous tick = some readings →
    DockerBackend.list pub.backend true none { daemon := tick.daemon } = .ok snapshots w →
    (snapshots.map ContainerSnapshot.id).Nodup →
    ((pub.loop (ticks ++ [tick])).previous.map Prod.fst).Nodup
  /-- A row's predecessor is the same id's reading in the most recent completed sweep. -/
  predecessor : ∀ {readings}, pub.readingsOf (pub.loop ticks).previous tick = some readings →
    ∀ r ∈ readings, r.previous = KeelsonDocker.latest (pub.lastReadings ticks) r.usage.id
  /-- Without a row there, it is a first sample. -/
  first : ∀ {readings}, pub.readingsOf (pub.loop ticks).previous tick = some readings →
    ∀ r ∈ readings, (∀ r' ∈ pub.lastReadings ticks, r'.usage.id ≠ r.usage.id) →
      r.previous = none ∧ Underived r.usage

/-- After any run, and around any further tick, the cache is exact. -/
theorem exact_loop (pub : ContainerStatsPublisher σ) (ticks : List (StatsTick σ))
    (tick : StatsTick σ) : Exact pub ticks tick := by
  have hlast := cache_eq pub (ticks ++ [tick])
  rw [lastReadings_concat] at hlast
  have hsweep {readings : List Reading}
      (h : pub.readingsOf (pub.loop ticks).previous tick = some readings) :
      (pub.loop (ticks ++ [tick])).previous = (Sweep.of readings).samples := by
    rw [hlast, h]
    rfl
  refine ⟨outcome_sweep pub _ tick, fun h => ?_, fun h => ?_, fun h id => ?_, ?_,
    fun h r hr => previous_eq_latest h hr, fun h r hr hnew => ?_⟩
  · rw [hlast, h, cache_eq]
    rfl
  · rw [hsweep h, Sweep.of, List.reverse_reverse]
    exact List.map_congr_left fun r _ => by rw [r.id_eq]
  · rw [hsweep h, lookup_samples]
  · intro readings snapshots w h hlist hnodup
    obtain ⟨snapshots', w', hlist', htake⟩ := taking_of_readingsOf h
    cases hlist.symm.trans hlist'
    have hids : ((pub.selected snapshots).map ContainerSnapshot.id).Nodup := by
      have hperm : (pub.selected snapshots).Perm
          (snapshots.filter fun s => matchesAny s.name pub.globs) := List.perm_insertionSort _ _
      exact (hperm.map _).nodup_iff.mpr (hnodup.sublist (List.filter_sublist.map _))
    have hsub := (previous_of_taking htake).2.map ContainerSnapshot.id
    rw [List.zipIdx_map_fst, List.map_map] at hsub
    rw [hsweep h, Sweep.of, List.map_reverse, List.map_map, List.nodup_reverse]
    exact hids.sublist hsub
  · have hnone : r.previous = none := by
      rw [previous_eq_latest h hr, KeelsonDocker.latest, Option.map_eq_none_iff, List.find?_eq_none]
      intro r' hr' heq
      rw [List.mem_reverse] at hr'
      exact hnew r' hr' (by rw [r'.id_eq]; exact beq_iff_eq.mp heq)
    exact ⟨hnone, Reading.underived_of_first hnone⟩

end ContainerStatsPublisher

end KeelsonDocker
