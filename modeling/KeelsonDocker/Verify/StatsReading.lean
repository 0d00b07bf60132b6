import KeelsonDocker.StatsPublisher
import KeelsonDocker.Verify.Replies

/-!
# One stats reading

A body of the Engine's shape gives a row exactly when it has positive CPU totals (`Measured`), and every
integer of that row is in the range of its field (`Fits`); a measured reading that does not fit raises
(`succeeds_buildResourceUsage_iff`).
-/

namespace KeelsonDocker

open Effect

/-! ### Fallible steps that return -/

def Succeeds (x : Except ε α) : Prop := ∃ a, x = .ok a

@[simp] theorem succeeds_pure (a : α) : Succeeds (pure a : Except ε α) := ⟨a, rfl⟩

theorem succeeds_bind {x : Except ε α} {f : α → Except ε β} :
    Succeeds (x >>= f) ↔ ∃ a, x = .ok a ∧ Succeeds (f a) := by
  constructor
  · rintro ⟨b, h⟩
    obtain ⟨a, ha, hb⟩ := bind_eq_ok.mp h
    exact ⟨a, ha, b, hb⟩
  · rintro ⟨a, ha, b, hb⟩
    exact ⟨b, bind_eq_ok.mpr ⟨a, ha, hb⟩⟩

theorem ok_bind (a : α) (f : α → Except ε β) : (Except.ok a >>= f) = f a := rfl

/-- A step whose result the rest does not depend on for its own success. -/
theorem succeeds_bind_and {x : Except ε α} {f : α → Except ε β} {P : Prop}
    (h : ∀ a, x = .ok a → (Succeeds (f a) ↔ P)) : Succeeds (x >>= f) ↔ Succeeds x ∧ P := by
  rw [succeeds_bind]
  constructor
  · rintro ⟨a, ha, hf⟩
    exact ⟨⟨a, ha⟩, (h a ha).mp hf⟩
  · rintro ⟨⟨a, ha⟩, hP⟩
    exact ⟨a, ha, (h a ha).mpr hP⟩

theorem succeeds_map {x : Except ε α} {f : α → β} : Succeeds (f <$> x) ↔ Succeeds x := by
  cases x with
  | ok a => exact ⟨fun _ => ⟨a, rfl⟩, fun _ => ⟨f a, rfl⟩⟩
  | error e => exact ⟨nofun, nofun⟩

theorem succeeds_assignInt {low high n : Int} :
    Succeeds (assignInt low high n) ↔ low ≤ n ∧ n < high := by
  simp only [Succeeds, assignInt_eq_ok, exists_and_left, exists_eq, and_true]

/-! ### The parts of a reading -/

def cpuStats (raw : PyVal) : PyVal := (raw.field "cpu_stats").orEmpty
def cpuUsage (raw : PyVal) : PyVal := ((cpuStats raw).field "cpu_usage").orEmpty
def throttlingData (raw : PyVal) : PyVal := ((cpuStats raw).field "throttling_data").orEmpty
def memoryStats (raw : PyVal) : PyVal := (raw.field "memory_stats").orEmpty
def pidsStats (raw : PyVal) : PyVal := (raw.field "pids_stats").orEmpty
def blkioEntries (raw : PyVal) : PyVal :=
  (raw.field "blkio_stats").orEmpty.field "io_service_bytes_recursive"

def hostConfig (snapshot : ContainerSnapshot) : PyVal :=
  (snapshot.attrs.orEmpty.field "HostConfig").orEmpty

/-! The parts as the code comes by them. -/

theorem orEmpty_cpu_stats (raw : PyVal) : (raw.field "cpu_stats").orEmpty = cpuStats raw := rfl
theorem orEmpty_cpu_usage (raw : PyVal) :
    ((cpuStats raw).field "cpu_usage").orEmpty = cpuUsage raw := rfl
theorem orEmpty_throttling_data (raw : PyVal) :
    ((cpuStats raw).field "throttling_data").orEmpty = throttlingData raw := rfl
theorem orEmpty_memory_stats (raw : PyVal) :
    (raw.field "memory_stats").orEmpty = memoryStats raw := rfl
theorem orEmpty_pids_stats (raw : PyVal) : (raw.field "pids_stats").orEmpty = pidsStats raw := rfl
theorem orEmpty_HostConfig (snapshot : ContainerSnapshot) :
    (snapshot.attrs.orEmpty.field "HostConfig").orEmpty = hostConfig snapshot := rfl

/-- A list, or a falsy value in its place. -/
def PyVal.ListLike (v : PyVal) : Prop := v.truthy = true → ∃ xs, v = .list xs

/-- The elements, none of a falsy value. -/
def PyVal.elements : PyVal → List PyVal
  | .list xs => xs
  | _ => []

/-- What the Engine sends: any of these can be absent, null or empty. A counter can be anything, since
what is not an integer counts as no reading. -/
structure EngineShape (snapshot : ContainerSnapshot) (raw : PyVal) : Prop where
  attrs : snapshot.attrs.ObjectLike
  config : (snapshot.attrs.orEmpty.field "HostConfig").ObjectLike
  cpu : (raw.field "cpu_stats").ObjectLike
  usage : ((cpuStats raw).field "cpu_usage").ObjectLike
  percpu : ((cpuUsage raw).field "percpu_usage").ListLike
  memory : (raw.field "memory_stats").ObjectLike
  pids : (raw.field "pids_stats").ObjectLike
  blkio : (raw.field "blkio_stats").ObjectLike
  entries : (blkioEntries raw).ListLike

/-- The reading has positive CPU totals. -/
def Measured (raw : PyVal) : Prop :=
  0 < num ((cpuUsage raw).field "total_usage") ∧ 0 < num ((cpuStats raw).field "system_cpu_usage")

instance (raw : PyVal) : Decidable (Measured raw) := by unfold Measured; infer_instance

/-! ### What the fields hold -/

def InUint32 (n : Int) : Prop := 0 ≤ n ∧ n < 2 ^ 32
def InInt64 (n : Int) : Prop := -2 ^ 63 ≤ n ∧ n < 2 ^ 63
def InUint64 (n : Int) : Prop := 0 ≤ n ∧ n < 2 ^ 64

instance (n : Int) : Decidable (InUint32 n) := by unfold InUint32; infer_instance
instance (n : Int) : Decidable (InInt64 n) := by unfold InInt64; infer_instance
instance (n : Int) : Decidable (InUint64 n) := by unfold InUint64; infer_instance

theorem succeeds_uint32 {n : Int} : Succeeds (uint32 n) ↔ InUint32 n := succeeds_assignInt
theorem succeeds_int64 {n : Int} : Succeeds (int64 n) ↔ InInt64 n := succeeds_assignInt
theorem succeeds_uint64 {n : Int} : Succeeds (uint64 n) ↔ InUint64 n := succeeds_assignInt

/-- The core count a row is given. -/
def cores (raw : PyVal) : Int :=
  if 0 < num ((cpuStats raw).field "online_cpus") then num ((cpuStats raw).field "online_cpus")
  else ((cpuUsage raw).field "percpu_usage").elements.length

/-- The memory limit a row is given, if one was configured. -/
def memoryCeiling (snapshot : ContainerSnapshot) (raw : PyVal) : Int :=
  if num ((memoryStats raw).field "limit") ≠ 0 then num ((memoryStats raw).field "limit")
  else num ((hostConfig snapshot).field "Memory")

/-- Both of a pair of totals are in range, if they are there. -/
def TotalsFit : Option Int × Option Int → Prop
  | (some a, some b) => InInt64 a ∧ InInt64 b
  | _ => True

/-- Read and written bytes, if there is any block accounting. -/
def deviceTotals (entries : PyVal) : Option Int × Option Int :=
  if entries.truthy then
    (some (serviceBytes "read" entries.elements), some (serviceBytes "write" entries.elements))
  else (none, none)

/-- Every integer of the row is in the range of its field. -/
structure Fits (snapshot : ContainerSnapshot) (raw : PyVal) : Prop where
  memoryUsed :
    InInt64 (workingSet (num ((memoryStats raw).field "usage")) ((memoryStats raw).field "stats"))
  pidsCurrent : InUint32 (num ((pidsStats raw).field "current"))
  throttling : (throttlingData raw).isDict = true → (throttlingData raw).truthy = true →
    InUint64 (num ((throttlingData raw).field "throttled_periods")) ∧
    InUint64 (num ((throttlingData raw).field "throttled_time"))
  onlineCpus : cores raw < 2 ^ 32
  memoryLimit : 0 < num ((hostConfig snapshot).field "Memory") →
    InInt64 (memoryCeiling snapshot raw)
  blockBytes : TotalsFit (deviceTotals (blkioEntries raw))
  networkBytes : TotalsFit (interfaceTotals (raw.field "networks"))
  pidsLimit : num ((pidsStats raw).field "limit") < 2 ^ 32
  cpuShares : num ((hostConfig snapshot).field "CpuShares") < 2 ^ 32

/-! ### One reading -/

theorem liftPy_ok (a : α) : liftPy (.ok a) = .ok a := rfl

theorem stringAt_eq {d : PyVal} (h : d.isDict = true) (key : String) :
    stringAt d key = .ok ((d.field key).orElse (.str "")).pyStr := by
  rw [stringAt, PyVal.get_of_isDict h]
  rfl

theorem memoryWorkingSet_eq {memory : PyVal} (h : memory.isDict = true) :
    memoryWorkingSet memory = .ok (workingSet (num (memory.field "usage")) (memory.field "stats")) := by
  simp only [memoryWorkingSet, PyVal.get_of_isDict h]
  rfl

theorem networkTotals_eq {raw : PyVal} (h : raw.isDict = true) :
    networkTotals raw = .ok (interfaceTotals (raw.field "networks")) := by
  simp only [networkTotals, PyVal.get_of_isDict h]
  rfl

theorem PyVal.ListLike.iter {v : PyVal} (h : v.ListLike) (ht : v.truthy = true) :
    v.iter = .ok v.elements := by
  obtain ⟨xs, rfl⟩ := h ht
  rfl

theorem PyVal.elements_of_not_truthy {v : PyVal} (ht : ¬ v.truthy = true) : v.elements = [] := by
  cases v with
  | list xs => simpa [PyVal.truthy, PyVal.elements] using ht
  | _ => rfl

theorem blockTotals_eq {raw : PyVal} (h : raw.isDict = true)
    (hb : (raw.field "blkio_stats").ObjectLike) (hl : (blkioEntries raw).ListLike) :
    blockTotals raw = .ok (deviceTotals (blkioEntries raw)) := by
  simp only [blockTotals, PyVal.get_of_isDict h, ok_bind,
    PyVal.get_of_isDict hb.isDict_orEmpty]
  change (if !(blkioEntries raw).truthy then _ else _) = _
  by_cases ht : (blkioEntries raw).truthy = true
  · simp only [ht, Bool.not_true, Bool.false_eq_true, if_false, deviceTotals, if_true]
    change (blkioEntries raw).iter >>= _ = _
    rw [hl.iter ht]
    rfl
  · simp only [ht, deviceTotals]
    rfl

theorem onlineCpus_eq {raw : PyVal} (hc : (cpuStats raw).isDict = true)
    (hu : (cpuUsage raw).isDict = true) (hl : ((cpuUsage raw).field "percpu_usage").ListLike) :
    onlineCpus (cpuStats raw) (cpuUsage raw) = .ok (cores raw) := by
  simp only [onlineCpus, PyVal.get_of_isDict hc, PyVal.get_of_isDict hu, ok_bind, cores]
  by_cases h : 0 < num ((cpuStats raw).field "online_cpus")
  · simp only [h, if_true]
    rfl
  · simp only [h, if_false]
    by_cases ht : ((cpuUsage raw).field "percpu_usage").truthy = true
    · simp only [ht, if_true, PyVal.len, hl.iter ht]
      rfl
    · simp only [ht, PyVal.elements_of_not_truthy ht]
      rfl

namespace EngineShape

variable {snapshot : ContainerSnapshot} {raw : PyVal}

theorem isDict_attrs (h : EngineShape snapshot raw) : snapshot.attrs.orEmpty.isDict = true :=
  h.attrs.isDict_orEmpty
theorem isDict_hostConfig (h : EngineShape snapshot raw) : (hostConfig snapshot).isDict = true :=
  h.config.isDict_orEmpty
theorem isDict_cpuStats (h : EngineShape snapshot raw) : (cpuStats raw).isDict = true :=
  h.cpu.isDict_orEmpty
theorem isDict_cpuUsage (h : EngineShape snapshot raw) : (cpuUsage raw).isDict = true :=
  h.usage.isDict_orEmpty
theorem isDict_memoryStats (h : EngineShape snapshot raw) : (memoryStats raw).isDict = true :=
  h.memory.isDict_orEmpty
theorem isDict_pidsStats (h : EngineShape snapshot raw) : (pidsStats raw).isDict = true :=
  h.pids.isDict_orEmpty

end EngineShape

theorem readStatsSample_eq {snapshot : ContainerSnapshot} {raw : PyVal} (h : raw.isDict = true)
    (hs : EngineShape snapshot raw) (t : ℚ) :
    ∃ sample, readStatsSample raw t = .ok (if Measured raw then some sample else none) := by
  simp only [readStatsSample, h, Bool.not_true, Bool.false_eq_true, if_false, ok_bind,
    PyVal.get_of_isDict h, orEmpty_cpu_stats, PyVal.get_of_isDict hs.isDict_cpuStats,
    orEmpty_cpu_usage, PyVal.get_of_isDict hs.isDict_cpuUsage, networkTotals_eq h,
    blockTotals_eq h hs.blkio hs.entries]
  by_cases hm : Measured raw
  · have hpos : ¬ (num ((cpuUsage raw).field "total_usage") ≤ 0 ∨
        num ((cpuStats raw).field "system_cpu_usage") ≤ 0) := by
      rintro (ht | hsys)
      · exact absurd hm.1 (by omega)
      · exact absurd hm.2 (by omega)
    rw [if_neg hpos]
    exact ⟨_, by rw [if_pos hm]; rfl⟩
  · have hneg : num ((cpuUsage raw).field "total_usage") ≤ 0 ∨
        num ((cpuStats raw).field "system_cpu_usage") ≤ 0 := by
      by_contra hpos
      exact hm ⟨by omega, by omega⟩
    rw [if_pos hneg]
    exact ⟨⟨0, 0, none, none, none, none, 0⟩, by rw [if_neg hm]; rfl⟩

theorem succeeds_assignPositive {field : Int → Except Exn Int} {n : Int} :
    Succeeds (assignPositive field n) ↔ (0 < n → Succeeds (field n)) := by
  unfold assignPositive
  split
  · rw [succeeds_map]
    exact ⟨fun h _ => h, fun h => h ‹_›⟩
  · exact ⟨fun _ h => absurd h ‹_›, fun _ => succeeds_pure none⟩

theorem succeeds_assignPositive_uint32 {n : Int} :
    Succeeds (assignPositive uint32 n) ↔ n < 2 ^ 32 := by
  rw [succeeds_assignPositive, succeeds_uint32, InUint32]
  omega

theorem succeeds_assignTotals {totals : Option Int × Option Int} :
    Succeeds (assignTotals totals) ↔ TotalsFit totals := by
  rcases totals with ⟨_ | a, _ | b⟩
  · exact ⟨fun _ => trivial, fun _ => succeeds_pure _⟩
  · exact ⟨fun _ => trivial, fun _ => succeeds_pure _⟩
  · exact ⟨fun _ => trivial, fun _ => succeeds_pure _⟩
  · rw [assignTotals, succeeds_bind_and (P := InInt64 b), succeeds_int64, TotalsFit]
    intro a' _
    rw [succeeds_bind_and (P := True), and_true, succeeds_int64]
    exact fun _ _ => iff_true_intro (succeeds_pure _)

theorem succeeds_assignThrottling {throttling : PyVal} :
    Succeeds (assignThrottling throttling) ↔
      (throttling.isDict = true → throttling.truthy = true →
        InUint64 (num (throttling.field "throttled_periods")) ∧
        InUint64 (num (throttling.field "throttled_time"))) := by
  unfold assignThrottling
  by_cases h : throttling.isDict = true ∧ throttling.truthy = true
  · rw [if_pos (by simp [h]), PyVal.get_of_isDict h.1, PyVal.get_of_isDict h.1, liftPy_ok, liftPy_ok,
      ok_bind, succeeds_bind_and (P := InUint64 (num (throttling.field "throttled_time"))),
      succeeds_uint64]
    · exact ⟨fun hb _ _ => hb, fun hb => hb h.1 h.2⟩
    · intro _ _
      rw [ok_bind, succeeds_bind_and (P := True), and_true, succeeds_uint64]
      exact fun _ _ => iff_true_intro (succeeds_pure _)
  · rw [if_neg (by simpa using h)]
    exact ⟨fun _ hd ht => absurd ⟨hd, ht⟩ h, fun _ => succeeds_pure _⟩

theorem succeeds_assignMemoryLimit {limit configured : Int} :
    Succeeds (assignMemoryLimit limit configured) ↔
      (0 < configured → InInt64 (if limit ≠ 0 then limit else configured)) := by
  unfold assignMemoryLimit
  split
  · rw [succeeds_map, succeeds_int64]
    exact ⟨fun h _ => h, fun h => h ‹_›⟩
  · exact ⟨fun _ h => absurd h ‹_›, fun _ => succeeds_pure none⟩

theorem cpuAllocationCores_succeeds {hostConfig : PyVal} (h : hostConfig.isDict = true) :
    Succeeds (cpuAllocationCores hostConfig) := by
  simp only [cpuAllocationCores, PyVal.get_of_isDict h, ok_bind]
  split
  · exact succeeds_pure _
  · exact succeeds_pure _

theorem succeeds_resourceUsage_iff {snapshot : ContainerSnapshot} {raw : PyVal}
    {sample : StatsSample} {previous : Option StatsSample} (h : raw.isDict = true)
    (hs : EngineShape snapshot raw) :
    Succeeds (resourceUsage snapshot raw sample previous) ↔ Fits snapshot raw := by
  obtain ⟨allocation, hallocation⟩ := cpuAllocationCores_succeeds hs.isDict_hostConfig
  simp only [resourceUsage, PyVal.get_of_isDict hs.isDict_attrs, liftPy_ok, ok_bind,
    orEmpty_HostConfig, PyVal.get_of_isDict h, orEmpty_cpu_stats,
    PyVal.get_of_isDict hs.isDict_cpuStats, orEmpty_cpu_usage, orEmpty_memory_stats,
    orEmpty_pids_stats, orEmpty_throttling_data, memoryWorkingSet_eq hs.isDict_memoryStats,
    PyVal.get_of_isDict hs.isDict_pidsStats, PyVal.get_of_isDict hs.isDict_memoryStats,
    PyVal.get_of_isDict hs.isDict_hostConfig, stringAt_eq hs.isDict_hostConfig,
    onlineCpus_eq hs.isDict_cpuStats hs.isDict_cpuUsage hs.percpu, networkTotals_eq h,
    blockTotals_eq h hs.blkio hs.entries, hallocation]
  -- The assignments that can refuse their value, in the order of the code.
  refine (succeeds_bind_and fun used _ => succeeds_bind_and fun current _ =>
    succeeds_bind_and fun throttled _ => succeeds_bind_and fun online _ =>
    succeeds_bind_and fun limit _ => succeeds_bind_and fun block _ =>
    succeeds_bind_and fun network _ => succeeds_bind_and fun pids _ =>
    succeeds_bind_and fun shares _ => iff_true_intro (succeeds_pure _)).trans ?_
  rw [succeeds_int64, succeeds_uint32, succeeds_assignThrottling,
    succeeds_assignPositive_uint32, succeeds_assignMemoryLimit, succeeds_assignTotals,
    succeeds_assignTotals, succeeds_assignPositive_uint32, succeeds_assignPositive_uint32]
  constructor
  · rintro ⟨hused, hcurrent, hthrottled, honline, hlimit, hblock, hnetwork, hpids, hshares, -⟩
    exact ⟨hused, hcurrent, hthrottled, honline, hlimit, hblock, hnetwork, hpids, hshares⟩
  · rintro ⟨hused, hcurrent, hthrottled, honline, hlimit, hblock, hnetwork, hpids, hshares⟩
    exact ⟨hused, hcurrent, hthrottled, honline, hlimit, hblock, hnetwork, hpids, hshares, trivial⟩

theorem resourceUsage_yields (snapshot : ContainerSnapshot) (raw : PyVal) (sample : StatsSample)
    (previous : Option StatsSample) :
    Yields (fun usage => usage.name = snapshot.name ∧ usage.id = snapshot.id)
      (resourceUsage snapshot raw sample previous) := by
  unfold resourceUsage
  repeat refine .bind fun _ => ?_
  exact .pure ⟨rfl, rfl⟩

/-- A body that is no object counts as an empty one. -/
theorem not_measured_of_not_isDict {raw : PyVal} (h : ¬ raw.isDict = true) : ¬ Measured raw := by
  have hfield (key : String) : raw.field key = .none := by
    cases raw <;> first | rfl | exact absurd rfl h
  rintro ⟨-, hsystem⟩
  rw [cpuStats, hfield] at hsystem
  exact absurd hsystem (by decide)

variable {snapshot : ContainerSnapshot} {raw : PyVal} {previous : Option StatsSample} {t : ℚ}

theorem buildResourceUsage_of_not_measured (hs : EngineShape snapshot raw) (hm : ¬ Measured raw) :
    buildResourceUsage snapshot raw previous t = .ok none := by
  by_cases h : raw.isDict = true
  · obtain ⟨sample, hsample⟩ := readStatsSample_eq h hs t
    rw [if_neg hm] at hsample
    simp only [buildResourceUsage, h, if_true, hsample]
    rfl
  · simp only [buildResourceUsage, h]
    rfl

theorem buildResourceUsage_of_measured (hs : EngineShape snapshot raw) (hm : Measured raw) :
    ∃ sample, buildResourceUsage snapshot raw previous t =
      (fun usage => some (usage, sample)) <$> resourceUsage snapshot raw sample previous := by
  have h : raw.isDict = true := by
    by_contra h
    exact not_measured_of_not_isDict h hm
  obtain ⟨sample, hsample⟩ := readStatsSample_eq h hs t
  rw [if_pos hm] at hsample
  refine ⟨sample, ?_⟩
  simp only [buildResourceUsage, h, if_true, hsample, liftPy_ok, ok_bind]
  cases resourceUsage snapshot raw sample previous <;> rfl

/-- A reading is turned into a row or passed over, unless it has a row to give that does not fit. -/
theorem succeeds_buildResourceUsage_iff (hs : EngineShape snapshot raw) :
    Succeeds (buildResourceUsage snapshot raw previous t) ↔ (Measured raw → Fits snapshot raw) := by
  by_cases hm : Measured raw
  · have h : raw.isDict = true := by
      by_contra h
      exact not_measured_of_not_isDict h hm
    obtain ⟨sample, hbuild⟩ := buildResourceUsage_of_measured hs hm
    rw [hbuild, succeeds_map, succeeds_resourceUsage_iff h hs]
    exact ⟨fun hf _ => hf, fun hf => hf hm⟩
  · rw [buildResourceUsage_of_not_measured hs hm]
    exact ⟨fun _ h => absurd h hm, fun _ => ⟨none, rfl⟩⟩

theorem row_of_buildResourceUsage (hs : EngineShape snapshot raw) (hm : Measured raw)
    {r : Option (ContainerResourceUsage × StatsSample)}
    (h : buildResourceUsage snapshot raw previous t = .ok r) :
    ∃ usage sample, r = some (usage, sample) ∧ usage.name = snapshot.name ∧
      usage.id = snapshot.id := by
  obtain ⟨sample, hbuild⟩ := buildResourceUsage_of_measured hs hm
  obtain ⟨usage, husage, rfl⟩ := map_eq_ok.mp (hbuild.symm.trans h)
  exact ⟨usage, sample, rfl, resourceUsage_yields _ _ _ _ usage husage⟩

end KeelsonDocker
