import KeelsonDocker.Verify.StatsCache
import Mathlib.Algebra.Order.Field.Rat
import Mathlib.Tactic.Positivity

/-!
# Unset is not zero

When each value that needs two readings is set, and what of the reading before it depends on
(`unsetIsNotZero`). Nothing else in a row depends on the reading before at all, and no quotient in it
has a zero divisor.
-/

namespace KeelsonDocker

open Effect

/-! ### Quotients -/

inductive ZeroDivisionError
  | zeroDivisionError

/-- `a / b`, which raises on a zero divisor. -/
def divide (a b : ℚ) : Except ZeroDivisionError ℚ :=
  if b = 0 then .error .zeroDivisionError else .ok (a / b)

theorem divide_eq {a b : ℚ} (h : b ≠ 0) : divide a b = .ok (a / b) := if_neg h

/-- `rate`, with a division that raises. -/
def rateRaising (current previous : Int) (elapsedS : ℚ) : Except ZeroDivisionError (Option ℚ) := do
  if elapsedS ≤ 0 then return none
  let delta := current - previous
  if delta < 0 then return none
  return some (← divide delta elapsedS)

/-- `cpu_load_pct`, with a division that raises. -/
def loadRaising (cores : Int) (now before : StatsSample) : Except ZeroDivisionError (Option ℚ) := do
  let cpuDelta := now.cpuTotalNs - before.cpuTotalNs
  let systemDelta := now.systemCpuNs - before.systemCpuNs
  if 0 ≤ cpuDelta ∧ 0 < systemDelta ∧ 0 < cores then
    return some ((← divide cpuDelta systemDelta) * cores * 100)
  return none

/-- `memory_used_pct`, with a division that raises. -/
def memoryPctRaising (used limit : Int) : Except ZeroDivisionError (Option ℚ) := do
  if 0 < limit then return some ((← divide used limit) * 100)
  return none

/-- `cpu_allocation_cores`, with divisions that raise. -/
def allocationRaising (nano quota period : Int) : Except ZeroDivisionError (Option ℚ) := do
  if 0 < nano then return some (← divide nano 1000000000)
  if 0 < quota ∧ 0 < period then return some (← divide quota period)
  return none

theorem rateRaising_eq (current previous : Int) (elapsedS : ℚ) :
    rateRaising current previous elapsedS = .ok (rate current previous elapsedS) := by
  unfold rateRaising rate
  split
  · rfl
  · rename_i h
    dsimp only
    split
    · rfl
    · rw [divide_eq (lt_of_not_ge h).ne']
      rfl

theorem loadRaising_eq (cores : Int) (now before : StatsSample) :
    loadRaising cores now before = .ok (loadPct cores now before) := by
  unfold loadRaising loadPct
  dsimp only
  split
  · rename_i h
    rw [divide_eq (by exact_mod_cast h.2.1.ne')]
    rfl
  · rfl

theorem memoryPctRaising_eq (used limit : Int) : memoryPctRaising used limit =
    .ok (if 0 < limit then some (used / limit * 100) else none) := by
  unfold memoryPctRaising
  split
  · rename_i h
    rw [divide_eq (by exact_mod_cast h.ne')]
    rfl
  · rfl

theorem allocationRaising_eq (nano quota period : Int) : allocationRaising nano quota period =
    .ok (if 0 < nano then some ((nano : ℚ) / 1000000000)
      else if 0 < quota ∧ 0 < period then some ((quota : ℚ) / period) else none) := by
  unfold allocationRaising
  split
  · rw [divide_eq (by norm_num)]
    rfl
  · split
    · rename_i h
      rw [divide_eq (by exact_mod_cast h.2.ne')]
      rfl
    · rfl

/-! ### The rest of a row -/

theorem cpuAllocationCores_eq_ok {config : PyVal} {allocation : Option ℚ}
    (h : cpuAllocationCores config = .ok allocation) :
    allocationRaising (num (config.field "NanoCpus")) (num (config.field "CpuQuota"))
      (num (config.field "CpuPeriod")) = .ok allocation := by
  obtain ⟨nano, hnano, h⟩ := bind_eq_ok.mp h
  cases PyVal.eq_field_of_get hnano
  rw [allocationRaising_eq]
  dsimp only at h
  split at h
  · rename_i hpos
    rw [if_pos hpos]
    exact congrArg _ (Except.ok.inj h)
  · rename_i hpos
    rw [if_neg hpos]
    obtain ⟨quota, hquota, h⟩ := bind_eq_ok.mp h
    cases PyVal.eq_field_of_get hquota
    obtain ⟨period, hperiod, h⟩ := bind_eq_ok.mp h
    cases PyVal.eq_field_of_get hperiod
    exact congrArg _ (Except.ok.inj h)

/-- The quotients of a row that have nothing to do with the reading before, and the window. -/
structure Quotients (snapshot : ContainerSnapshot) (raw : PyVal) (sample : StatsSample)
    (previous : Option StatsSample) (usage : ContainerResourceUsage) : Prop where
  memory : memoryPctRaising usage.memoryUsedBytes (num ((memoryStats raw).field "limit")) =
    .ok usage.memoryUsedPct
  allocation : allocationRaising (num ((hostConfig snapshot).field "NanoCpus"))
    (num ((hostConfig snapshot).field "CpuQuota")) (num ((hostConfig snapshot).field "CpuPeriod")) =
    .ok usage.cpuAllocationCores
  window : usage.sampleWindowS =
    (previous.map fun p => sample.monotonicS - p.monotonicS).filter (0 < ·)

variable {snapshot : ContainerSnapshot} {raw : PyVal} {sample : StatsSample}
  {previous previous' : Option StatsSample} {usage : ContainerResourceUsage} {t : ℚ}

theorem quotients_of_resourceUsage (h : resourceUsage snapshot raw sample previous = .ok usage) :
    Quotients snapshot raw sample previous usage := by
  have hyields : Yields (Quotients snapshot raw sample previous)
      (resourceUsage snapshot raw sample previous) := by
    unfold resourceUsage
    refine .bind_of fun config hconfig => .bind fun _ => .bind fun _ => ?_
    refine .bind_of fun memory hmemory => ?_
    cases liftPy_get_eq_ok hconfig
    cases liftPy_get_eq_ok hmemory
    iterate 10 refine .bind fun _ => ?_
    refine .bind_of fun limit hlimit => ?_
    cases liftPy_get_eq_ok hlimit
    iterate 8 refine .bind fun _ => ?_
    refine .bind_of fun allocation hallocation => .bind fun _ => .bind fun _ => .pure ⟨?_, ?_, rfl⟩
    · exact memoryPctRaising_eq _ _
    · exact cpuAllocationCores_eq_ok (liftPy_eq_ok.mp hallocation)
  exact hyields usage h

/-! ### Two readings before -/

/-- The row without the values that need two readings, and without their window. -/
def ContainerResourceUsage.undifferenced (usage : ContainerResourceUsage) : ContainerResourceUsage :=
  { usage with
    cpuLoadPct := none
    networkRxBytesPerSecond := none
    networkTxBytesPerSecond := none
    blockReadBytesPerSecond := none
    blockWriteBytesPerSecond := none
    sampleWindowS := none }

/-- Two steps that end alike as far as `π` shows. -/
theorem map_bind_congr {x : Except ε α} {f g : α → Except ε β} {π : β → γ}
    (h : ∀ a, π <$> f a = π <$> g a) : π <$> (x >>= f) = π <$> (x >>= g) := by
  cases x with
  | ok a => exact h a
  | error e => rfl

theorem undifferenced_resourceUsage (snapshot : ContainerSnapshot) (raw : PyVal)
    (sample : StatsSample) (previous previous' : Option StatsSample) :
    ContainerResourceUsage.undifferenced <$> resourceUsage snapshot raw sample previous' =
      ContainerResourceUsage.undifferenced <$> resourceUsage snapshot raw sample previous := by
  unfold resourceUsage
  repeat refine map_bind_congr fun _ => ?_
  rfl

theorem exists_undifferenced (h : resourceUsage snapshot raw sample previous = .ok usage)
    (previous' : Option StatsSample) : ∃ usage', resourceUsage snapshot raw sample previous' = .ok usage' ∧
      usage'.undifferenced = usage.undifferenced := by
  have hmap := undifferenced_resourceUsage snapshot raw sample previous previous'
  rw [h] at hmap
  exact map_eq_ok.mp hmap

theorem build_of_resourceUsage (hread : readStatsSample raw t = .ok (some sample))
    (h : resourceUsage snapshot raw sample previous = .ok usage) :
    buildResourceUsage snapshot raw previous t = .ok (some (usage, sample)) := by
  have hdict : raw.isDict = true := by
    by_contra hdict
    rw [readStatsSample, if_pos (by simpa using hdict)] at hread
    cases hread
  simp only [buildResourceUsage, hdict, if_true, hread, liftPy_ok, ok_bind, h]
  rfl

/-! ### The values that need two readings -/

/-- The counters that have a rate. -/
inductive ByteCounter
  | rx | tx | blockRead | blockWrite
  deriving DecidableEq

def ByteCounter.of : ByteCounter → StatsSample → Option Int
  | rx => StatsSample.rxBytes
  | tx => StatsSample.txBytes
  | blockRead => StatsSample.blockReadBytes
  | blockWrite => StatsSample.blockWriteBytes

def ByteCounter.perSecond : ByteCounter → ContainerResourceUsage → Option ℚ
  | rx => ContainerResourceUsage.networkRxBytesPerSecond
  | tx => ContainerResourceUsage.networkTxBytesPerSecond
  | blockRead => ContainerResourceUsage.blockReadBytesPerSecond
  | blockWrite => ContainerResourceUsage.blockWriteBytesPerSecond

theorem Differenced.perSecond {cores : Int} (h : Differenced usage cores sample previous)
    (k : ByteCounter) : k.perSecond usage = previous.bind (rateBetween k.of sample) := by
  cases k with
  | rx => exact h.networkRx
  | tx => exact h.networkTx
  | blockRead => exact h.blockRead
  | blockWrite => exact h.blockWrite

theorem rate_eq_some {n b : Int} {elapsed v : ℚ} :
    rate n b elapsed = some v ↔ 0 < elapsed ∧ b ≤ n ∧ v = ((n - b : Int) : ℚ) / elapsed := by
  unfold rate
  split
  · rename_i h
    exact ⟨nofun, fun hpos => absurd hpos.1 (not_lt.mpr h)⟩
  · rename_i h
    dsimp only
    split
    · rename_i hneg
      exact ⟨nofun, fun hle => by omega⟩
    · rename_i hneg
      constructor
      · intro heq
        exact ⟨lt_of_not_ge h, by omega, (Option.some.inj heq).symm⟩
      · rintro ⟨-, -, rfl⟩
        rfl

theorem rateBetween_eq_some {counter : StatsSample → Option Int} {now before : StatsSample} {v : ℚ} :
    rateBetween counter now before = some v ↔
      ∃ n b, counter now = some n ∧ counter before = some b ∧ before.monotonicS < now.monotonicS ∧
        b ≤ n ∧ v = ((n - b : Int) : ℚ) / (now.monotonicS - before.monotonicS) := by
  simp only [rateBetween, rateOf, Option.bind_eq_bind, Option.bind_eq_some_iff, rate_eq_some, sub_pos]
  constructor
  · rintro ⟨n, hn, b, hb, h⟩
    exact ⟨n, b, hn, hb, h⟩
  · rintro ⟨n, b, hn, hb, h⟩
    exact ⟨n, hn, b, hb, h⟩

theorem loadPct_eq_some {cores : Int} {now before : StatsSample} {v : ℚ} :
    loadPct cores now before = some v ↔
      before.cpuTotalNs ≤ now.cpuTotalNs ∧ before.systemCpuNs < now.systemCpuNs ∧ 0 < cores ∧
        v = ((now.cpuTotalNs - before.cpuTotalNs : Int) : ℚ) /
          ((now.systemCpuNs - before.systemCpuNs : Int) : ℚ) * cores * 100 := by
  unfold loadPct
  dsimp only
  split
  · rename_i h
    constructor
    · intro heq
      exact ⟨by omega, by omega, h.2.2, (Option.some.inj heq).symm⟩
    · rintro ⟨-, -, -, rfl⟩
      rfl
  · rename_i h
    exact ⟨nofun, fun hle => absurd ⟨by omega, by omega, hle.2.2.1⟩ h⟩

/-! ### The rows of two readings before -/

/-- What two rows of one reading have in common, by what the readings before have in common. -/
structure Agree (before before' : StatsSample) (usage usage' : ContainerResourceUsage) : Prop where
  load : before'.cpuTotalNs = before.cpuTotalNs → before'.systemCpuNs = before.systemCpuNs →
    usage'.cpuLoadPct = usage.cpuLoadPct
  rate : ∀ k : ByteCounter, before'.monotonicS = before.monotonicS → k.of before' = k.of before →
    k.perSecond usage' = k.perSecond usage
  window : before'.monotonicS = before.monotonicS → usage'.sampleWindowS = usage.sampleWindowS

/-- Unset is not zero: a row, its reading and the reading before. -/
structure UnsetIsNotZero (snapshot : ContainerSnapshot) (raw : PyVal) (t : ℚ)
    (previous : Option StatsSample) (usage : ContainerResourceUsage) (sample : StatsSample) : Prop where
  sampled : readStatsSample raw t = .ok (some sample)
  rate : ∀ k : ByteCounter, (k.perSecond usage).isSome ↔
    ∃ before n b, previous = some before ∧ k.of sample = some n ∧ k.of before = some b ∧
      before.monotonicS < sample.monotonicS ∧ b ≤ n
  load : usage.cpuLoadPct.isSome ↔
    ∃ before, previous = some before ∧ before.cpuTotalNs ≤ sample.cpuTotalNs ∧
      before.systemCpuNs < sample.systemCpuNs ∧ ∃ cores, coreCount raw = .ok cores ∧ 0 < cores
  nonneg : ∀ v, (v ∈ usage.cpuLoadPct ∨ (∃ k : ByteCounter, v ∈ k.perSecond usage) ∨
    v ∈ usage.sampleWindowS) → 0 ≤ v
  /-- Each quotient comes out of a division that raises on zero. -/
  quotients : Quotients snapshot raw sample previous usage
  rateQuotient : ∀ (k : ByteCounter) before n b, previous = some before → k.of sample = some n →
    k.of before = some b →
    rateRaising n b (sample.monotonicS - before.monotonicS) = .ok (k.perSecond usage)
  loadQuotient : ∀ before cores, previous = some before → coreCount raw = .ok cores →
    loadRaising cores sample before = .ok usage.cpuLoadPct
  /-- With another reading before, or none, the rest of the row is the same. -/
  frame : ∀ previous', ∃ usage',
    buildResourceUsage snapshot raw previous' t = .ok (some (usage', sample)) ∧
      usage'.undifferenced = usage.undifferenced ∧
      ∀ before before', previous = some before → previous' = some before' →
        Agree before before' usage usage'

theorem Quotients.agree {usage' : ContainerResourceUsage} {before before' : StatsSample} {cores : Int}
    (hquot : Quotients snapshot raw sample (some before) usage)
    (hquot' : Quotients snapshot raw sample (some before') usage')
    (hdiff : Differenced usage cores sample (some before))
    (hdiff' : Differenced usage' cores sample (some before')) : Agree before before' usage usage' where
  load hcpu hsystem := by
    rw [hdiff.cpuLoadPct, hdiff'.cpuLoadPct, Option.bind_some, Option.bind_some]
    unfold loadPct
    rw [hcpu, hsystem]
  rate k htime hcounter := by
    rw [hdiff.perSecond, hdiff'.perSecond, Option.bind_some, Option.bind_some]
    unfold rateBetween
    rw [htime, hcounter]
  window htime := by
    rw [hquot.window, hquot'.window, Option.map_some, Option.map_some, htime]

theorem Differenced.perSecond_eq_some {cores : Int} (h : Differenced usage cores sample previous)
    {k : ByteCounter} {v : ℚ} : k.perSecond usage = some v ↔
      ∃ before n b, previous = some before ∧ k.of sample = some n ∧ k.of before = some b ∧
        before.monotonicS < sample.monotonicS ∧ b ≤ n ∧
        v = ((n - b : Int) : ℚ) / (sample.monotonicS - before.monotonicS) := by
  rw [h.perSecond, Option.bind_eq_some_iff]
  simp only [rateBetween_eq_some]
  constructor
  · rintro ⟨before, hb, n, b, h⟩
    exact ⟨before, n, b, hb, h⟩
  · rintro ⟨before, n, b, hb, h⟩
    exact ⟨before, hb, n, b, h⟩

theorem Differenced.cpuLoadPct_eq_some {cores : Int} (h : Differenced usage cores sample previous)
    {v : ℚ} : usage.cpuLoadPct = some v ↔
      ∃ before, previous = some before ∧ before.cpuTotalNs ≤ sample.cpuTotalNs ∧
        before.systemCpuNs < sample.systemCpuNs ∧ 0 < cores ∧
        v = ((sample.cpuTotalNs - before.cpuTotalNs : Int) : ℚ) /
          ((sample.systemCpuNs - before.systemCpuNs : Int) : ℚ) * cores * 100 := by
  rw [h.cpuLoadPct, Option.bind_eq_some_iff]
  simp only [loadPct_eq_some]

theorem Differenced.nonneg {cores : Int} (h : Differenced usage cores sample previous) {v : ℚ}
    (hv : usage.cpuLoadPct = some v ∨ ∃ k : ByteCounter, k.perSecond usage = some v) : 0 ≤ v := by
  rcases hv with hv | ⟨k, hv⟩
  · obtain ⟨before, -, hcpu, hsystem, hpos, rfl⟩ := h.cpuLoadPct_eq_some.mp hv
    have hnum : (0 : ℚ) ≤ ((sample.cpuTotalNs - before.cpuTotalNs : Int) : ℚ) := by
      exact_mod_cast sub_nonneg.mpr hcpu
    have hden : (0 : ℚ) ≤ ((sample.systemCpuNs - before.systemCpuNs : Int) : ℚ) := by
      exact_mod_cast (sub_pos.mpr hsystem).le
    have hcores : (0 : ℚ) ≤ cores := by exact_mod_cast hpos.le
    positivity
  · obtain ⟨before, n, b, -, -, -, htime, hle, rfl⟩ := h.perSecond_eq_some.mp hv
    apply div_nonneg
    · exact_mod_cast sub_nonneg.mpr hle
    · exact (sub_pos.mpr htime).le

theorem Quotients.window_pos (h : Quotients snapshot raw sample previous usage) {v : ℚ}
    (hv : usage.sampleWindowS = some v) : 0 < v := by
  rw [h.window, Option.filter_eq_some_iff] at hv
  exact of_decide_eq_true hv.2

theorem unsetIsNotZero (h : buildResourceUsage snapshot raw previous t = .ok (some (usage, sample))) :
    UnsetIsNotZero snapshot raw t previous usage sample := by
  obtain ⟨hread, husage⟩ := resourceUsage_of_build h
  obtain ⟨cores, hcores, hdiff⟩ := differenced_of_resourceUsage hread husage
  have hquot := quotients_of_resourceUsage husage
  have hcount : (∃ cores, coreCount raw = .ok cores ∧ 0 < cores) ↔ 0 < cores :=
    ⟨fun ⟨_, h, hpos⟩ => by cases hcores.symm.trans h; exact hpos, fun hpos => ⟨cores, hcores, hpos⟩⟩
  refine ⟨hread, fun k => ?_, ?_, fun v hv => ?_, hquot, ?_, ?_, fun previous' => ?_⟩
  · rw [Option.isSome_iff_exists]
    constructor
    · rintro ⟨v, hv⟩
      obtain ⟨before, n, b, hb, hn, hbefore, htime, hle, -⟩ := hdiff.perSecond_eq_some.mp hv
      exact ⟨before, n, b, hb, hn, hbefore, htime, hle⟩
    · rintro ⟨before, n, b, hb, hn, hbefore, htime, hle⟩
      exact ⟨_, hdiff.perSecond_eq_some.mpr ⟨before, n, b, hb, hn, hbefore, htime, hle, rfl⟩⟩
  · rw [Option.isSome_iff_exists]
    constructor
    · rintro ⟨v, hv⟩
      obtain ⟨before, hb, hcpu, hsystem, hpos, -⟩ := hdiff.cpuLoadPct_eq_some.mp hv
      exact ⟨before, hb, hcpu, hsystem, cores, hcores, hpos⟩
    · rintro ⟨before, hb, hcpu, hsystem, hknown⟩
      exact ⟨_, hdiff.cpuLoadPct_eq_some.mpr ⟨before, hb, hcpu, hsystem, hcount.mp hknown, rfl⟩⟩
  · rcases hv with hv | hv | hv
    · exact hdiff.nonneg (.inl hv)
    · exact hdiff.nonneg (.inr hv)
    · exact (hquot.window_pos hv).le
  · rintro k before n b rfl hn hb
    rw [rateRaising_eq, hdiff.perSecond, Option.bind_some, rateBetween, hn, hb]
    rfl
  · rintro before cores' rfl hcores'
    cases hcores.symm.trans hcores'
    rw [loadRaising_eq, hdiff.cpuLoadPct, Option.bind_some]
  · obtain ⟨usage', husage', hrest⟩ := exists_undifferenced husage previous'
    obtain ⟨cores', hcores', hdiff'⟩ := differenced_of_resourceUsage hread husage'
    cases hcores.symm.trans hcores'
    refine ⟨usage', build_of_resourceUsage hread husage', hrest, ?_⟩
    rintro before before' rfl rfl
    exact hquot.agree (quotients_of_resourceUsage husage') hdiff hdiff'

/-! ### Two readings of one container -/

namespace TwoReadings

def web : ContainerSnapshot where
  name := "web"
  id := "0f4d1c"
  attrs := .dict []

/-- Four cores, one interface, and a block device that nobody counts. -/
def body : PyVal :=
  .dict [("cpu_stats", .dict [
      ("cpu_usage", .dict [("total_usage", .int 5000000000)]),
      ("system_cpu_usage", .int 140000000000),
      ("online_cpus", .int 4)]),
    ("networks", .dict [("eth0", .dict [("rx_bytes", .int 900), ("tx_bytes", .int 50)])])]

def before : StatsSample where
  cpuTotalNs := 3000000000
  systemCpuNs := 100000000000
  rxBytes := some 400
  txBytes := some 60
  blockReadBytes := none
  blockWriteBytes := none
  monotonicS := 10

/-- The sent bytes went backwards, so only the received ones have a rate. -/
theorem unsetIsNotZero_web : ∃ usage sample, UnsetIsNotZero web body 20 (some before) usage sample ∧
    usage.networkRxBytesPerSecond = some 50 ∧ usage.networkTxBytesPerSecond = none := by
  have hbuild : ∃ usage sample,
      buildResourceUsage web body (some before) 20 = .ok (some (usage, sample)) ∧
        usage.networkRxBytesPerSecond = some 50 ∧ usage.networkTxBytesPerSecond = none :=
    ⟨_, _, rfl, by decide +kernel, by decide +kernel⟩
  obtain ⟨usage, sample, hbuild, hrates⟩ := hbuild
  exact ⟨usage, sample, unsetIsNotZero hbuild, hrates⟩

end TwoReadings

end KeelsonDocker
