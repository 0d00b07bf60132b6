import KeelsonDocker.Model
import Mathlib.Algebra.Order.Ring.Rat
import Mathlib.Algebra.BigOperators.Group.List.Basic

/-!
# `model.py`: resource utilisation

One stats body of the Engine as a `ContainerResourceUsage`. The doubles of that message are rationals.
-/

namespace KeelsonDocker

/-- The counters from one reading, kept so the next one can be differenced. -/
structure StatsSample where
  cpuTotalNs : Int
  systemCpuNs : Int
  rxBytes : Option Int
  txBytes : Option Int
  blockReadBytes : Option Int
  blockWriteBytes : Option Int
  monotonicS : ℚ

/-- `int(_num(value))`: what is not a number is no reading. -/
def num : PyVal → Int
  | .int n => n
  | _ => 0

/-! ### Sums over interfaces and devices -/

/-- What the interfaces count under one key. -/
def interfaceBytes (key : String) (interfaces : List PyVal) : Int :=
  (interfaces.map fun interface => num (interface.field key)).sum

def interfaceTotals : PyVal → Option Int × Option Int
  | .dict (kv :: kvs) =>
    let interfaces := (kv :: kvs).map Prod.snd
    (some (interfaceBytes "rx_bytes" interfaces), some (interfaceBytes "tx_bytes" interfaces))
  | _ => (none, none)

/-- `_network_totals` -/
def networkTotals (raw : PyVal) : Except PyError (Option Int × Option Int) := do
  return interfaceTotals (← raw.get "networks")

/-- `str(entry.get("op", "")).lower()` of an entry that is a dict. -/
def operation (entry : PyVal) : Except PyError String := do
  return (← entry.getD "op" (.str "")).pyStr.toLower

/-- What the entries of one operation count; an entry that is not a dict is passed over. -/
def serviceBytes (op : String) (entries : List PyVal) : Int :=
  (entries.map fun entry =>
    match operation entry with
    | .ok op' => if op' = op then num (entry.field "value") else 0
    | .error _ => 0).sum

/-- `_block_totals` -/
def blockTotals (raw : PyVal) : Except PyError (Option Int × Option Int) := do
  let entries ← (← raw.get "blkio_stats").orEmpty.get "io_service_bytes_recursive"
  if !entries.truthy then return (none, none)
  let entries ← entries.iter
  return (some (serviceBytes "read" entries), some (serviceBytes "write" entries))

/-! ### Memory and CPU -/

/-- Usage minus the first reclaimable part that is reported and below it. -/
def workingSet (usage : Int) (detail : PyVal) : Int :=
  let below (key : String) : Option Int :=
    match detail.field key with
    | .none => none
    | value => if 0 ≤ num value ∧ num value < usage then some (usage - num value) else none
  (below "total_inactive_file" <|> below "inactive_file").getD usage

/-- `_memory_working_set` -/
def memoryWorkingSet (memory : PyVal) : Except PyError Int := do
  let usage ← memory.get "usage"
  return workingSet (num usage) (← memory.get "stats")

/-- `_cpu_allocation_cores`: `--cpus` arrives as NanoCpus, the quota and period as themselves. -/
def cpuAllocationCores (hostConfig : PyVal) : Except PyError (Option ℚ) := do
  let nano := num (← hostConfig.get "NanoCpus")
  if 0 < nano then return some (nano / 1000000000)
  let quota := num (← hostConfig.get "CpuQuota")
  let period := num (← hostConfig.get "CpuPeriod")
  return if 0 < quota ∧ 0 < period then some (quota / period) else none

/-- The core count, or the length of the per-core list when it is not reported. -/
def onlineCpus (cpuStats cpuUsage : PyVal) : Except PyError Int := do
  let online := num (← cpuStats.get "online_cpus")
  if 0 < online then return online
  let percpu ← cpuUsage.get "percpu_usage"
  if percpu.truthy then return (← percpu.len) else return 0

/-! ### One reading -/

/-- The counters worth keeping from one reading, if there are any. -/
def readStatsSample (raw : PyVal) (monotonicS : ℚ) : Except PyError (Option StatsSample) := do
  if !raw.isDict then return none
  let cpu := (← raw.get "cpu_stats").orEmpty
  let total := num (← (← cpu.get "cpu_usage").orEmpty.get "total_usage")
  let system := num (← cpu.get "system_cpu_usage")
  if total ≤ 0 ∨ system ≤ 0 then return none
  let (rx, tx) ← networkTotals raw
  let (blockRead, blockWrite) ← blockTotals raw
  return some {
    cpuTotalNs := total
    systemCpuNs := system
    rxBytes := rx
    txBytes := tx
    blockReadBytes := blockRead
    blockWriteBytes := blockWrite
    monotonicS }

/-- `_rate`: a negative delta means that the counters were reset. -/
def rate (current previous : Int) (elapsedS : ℚ) : Option ℚ :=
  if elapsedS ≤ 0 then none
  else
    let delta := current - previous
    if delta < 0 then none else some (delta / elapsedS)

/-- A rate, when both readings have the counter. -/
def rateOf (current previous : Option Int) (elapsedS : ℚ) : Option ℚ := do
  rate (← current) (← previous) elapsedS

/-! ### Assignments that depend on the value -/

/-- `if n > 0: usage.field = n`. -/
def assignPositive (field : Int → Except Exn Int) (n : Int) : Except Exn (Option Int) :=
  if 0 < n then some <$> field n else return none

/-- The limit is set only when one was configured, to the counter's when it reports one. -/
def assignMemoryLimit (limit configured : Int) : Except Exn (Option Int) :=
  if 0 < configured then some <$> int64 (if limit ≠ 0 then limit else configured) else return none

/-- Two totals are set together or not at all. -/
def assignTotals : Option Int × Option Int → Except Exn (Option Int × Option Int)
  | (some a, some b) => do return (some (← int64 a), some (← int64 b))
  | _ => return (none, none)

/-- The throttling counters, whenever the runtime reports them at all. -/
def assignThrottling (throttling : PyVal) : Except Exn (Option Int × Option Int) := do
  if throttling.isDict && throttling.truthy then
    let periods ← uint64 (num (← liftPy (throttling.get "throttled_periods")))
    let time ← uint64 (num (← liftPy (throttling.get "throttled_time")))
    return (some periods, some time)
  return (none, none)

/-- The part of `build_resource_usage` after its early return. -/
def resourceUsage (snapshot : ContainerSnapshot) (raw : PyVal) (sample : StatsSample)
    (previous : Option StatsSample) : Except Exn ContainerResourceUsage := do
  let hostConfig := (← liftPy (snapshot.attrs.orEmpty.get "HostConfig")).orEmpty
  let cpuStats := (← liftPy (raw.get "cpu_stats")).orEmpty
  let cpuUsage := (← liftPy (cpuStats.get "cpu_usage")).orEmpty
  let memory := (← liftPy (raw.get "memory_stats")).orEmpty
  let pids := (← liftPy (raw.get "pids_stats")).orEmpty
  let throttling := (← liftPy (cpuStats.get "throttling_data")).orEmpty
  let used ← liftPy (memoryWorkingSet memory)
  let current ← liftPy (pids.get "current")
  let cpusetCpus ← liftPy (stringAt hostConfig "CpusetCpus")
  let used ← int64 used
  let current ← uint32 (num current)
  let (throttledPeriods, throttledTime) ← assignThrottling throttling
  let online ← liftPy (onlineCpus cpuStats cpuUsage)
  let onlineCpus ← assignPositive uint32 online
  let limit := num (← liftPy (memory.get "limit"))
  let configuredMemory := num (← liftPy (hostConfig.get "Memory"))
  let memoryLimit ← assignMemoryLimit limit configuredMemory
  let (blockRead, blockWrite) ← liftPy (blockTotals raw)
  let (readBytes, writeBytes) ← assignTotals (blockRead, blockWrite)
  let (rx, tx) ← liftPy (networkTotals raw)
  let (rxBytes, txBytes) ← assignTotals (rx, tx)
  let pidsLimit ← assignPositive uint32 (num (← liftPy (pids.get "limit")))
  let allocation ← liftPy (cpuAllocationCores hostConfig)
  let shares ← assignPositive uint32 (num (← liftPy (hostConfig.get "CpuShares")))
  let elapsed := previous.map fun p => sample.monotonicS - p.monotonicS
  let rateSince (now : Option Int) (before : StatsSample → Option Int) : Option ℚ := do
    rateOf now (before (← previous)) (← elapsed)
  return {
    name := snapshot.name
    id := snapshot.id
    cpuLoadPct := do
      let cpuDelta := sample.cpuTotalNs - (← previous).cpuTotalNs
      let systemDelta := sample.systemCpuNs - (← previous).systemCpuNs
      if 0 ≤ cpuDelta ∧ 0 < systemDelta ∧ 0 < online then
        some (cpuDelta / systemDelta * online * 100)
      else none
    onlineCpus
    memoryUsedBytes := used
    memoryLimitBytes := memoryLimit
    memoryUsedPct := if 0 < limit then some (used / limit * 100) else none
    networkRxBytes := rxBytes
    networkTxBytes := txBytes
    networkRxBytesPerSecond := rateSince rx StatsSample.rxBytes
    networkTxBytesPerSecond := rateSince tx StatsSample.txBytes
    blockReadBytes := readBytes
    blockWriteBytes := writeBytes
    blockReadBytesPerSecond := rateSince blockRead StatsSample.blockReadBytes
    blockWriteBytesPerSecond := rateSince blockWrite StatsSample.blockWriteBytes
    pidsCurrent := current
    pidsLimit
    cpuAllocationCores := allocation
    cpuShares := shares
    cpusetCpus
    cpuThrottledPeriods := throttledPeriods
    cpuThrottledTimeNs := throttledTime
    sampleWindowS := elapsed.filter (0 < ·) }

/-- One container's utilisation, with the sample to difference the next one against; nothing when the
reading carries no measurement. -/
def buildResourceUsage (snapshot : ContainerSnapshot) (raw : PyVal) (previous : Option StatsSample)
    (monotonicS : ℚ) : Except Exn (Option (ContainerResourceUsage × StatsSample)) := do
  let raw := if raw.isDict then raw else .dict []
  match ← liftPy (readStatsSample raw monotonicS) with
  | none => return none
  | some sample => return some (← resourceUsage snapshot raw sample previous, sample)

end KeelsonDocker
