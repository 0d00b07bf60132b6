import KeelsonDocker.Verify.StatsCache

/-!
# Rates across a restart

A restart in place sets a container's counters back to zero, and is inferred from a counter that went
backwards. One that has grown past its old value by the next reading gives a value nevertheless
(`underived_iff_of_restarted`).
-/

namespace KeelsonDocker

variable {σ : Type}

/-- The cgroup counters of a container. -/
structure Counters where
  cpuNs : Nat := 0
  rxBytes : Nat := 0
  txBytes : Nat := 0
  blockReadBytes : Nat := 0
  blockWriteBytes : Nat := 0

/-- What happens to a container while it keeps its id. -/
inductive LifeEvent
  /-- It works, which its counters add up. -/
  | work (done : Counters)
  /-- It is restarted in place. -/
  | restart

def Counters.next (counters : Counters) : LifeEvent → Counters
  | .work done => {
      cpuNs := counters.cpuNs + done.cpuNs
      rxBytes := counters.rxBytes + done.rxBytes
      txBytes := counters.txBytes + done.txBytes
      blockReadBytes := counters.blockReadBytes + done.blockReadBytes
      blockWriteBytes := counters.blockWriteBytes + done.blockWriteBytes }
  | .restart => {}

def Counters.of (life : List LifeEvent) : Counters := life.foldl next {}

/-- The sample shows the counters, as far as the body reports them. -/
structure Shows (sample : StatsSample) (counters : Counters) : Prop where
  cpuNs : sample.cpuTotalNs = counters.cpuNs
  rxBytes : ∀ n ∈ sample.rxBytes, n = counters.rxBytes
  txBytes : ∀ n ∈ sample.txBytes, n = counters.txBytes
  blockReadBytes : ∀ n ∈ sample.blockReadBytes, n = counters.blockReadBytes
  blockWriteBytes : ∀ n ∈ sample.blockWriteBytes, n = counters.blockWriteBytes

/-- The container was restarted between two readings. -/
structure Restarted (before now : StatsSample) where
  earlier : List LifeEvent
  between : List LifeEvent
  restart : .restart ∈ between
  shown : Shows before (Counters.of earlier)
  grown : Shows now (Counters.of (earlier ++ between))

/-- No rate comes of the counter: a reading lacks it, no time has passed, or it has not grown back. -/
def NoRate (counter : StatsSample → Option Int) (now before : StatsSample) (grown shown : Nat) : Prop :=
  counter now = none ∨ counter before = none ∨ now.monotonicS ≤ before.monotonicS ∨ grown < shown

/-- No counter has grown back since the restart, or it is of no use otherwise. -/
structure Restarted.FallsShort {before now : StatsSample} (life : Restarted before now) (raw : PyVal) :
    Prop where
  cpu : (Counters.of (life.earlier ++ life.between)).cpuNs < (Counters.of life.earlier).cpuNs ∨
    now.systemCpuNs ≤ before.systemCpuNs ∨ ∀ cores, coreCount raw = .ok cores → cores ≤ 0
  rx : NoRate StatsSample.rxBytes now before (Counters.of (life.earlier ++ life.between)).rxBytes
    (Counters.of life.earlier).rxBytes
  tx : NoRate StatsSample.txBytes now before (Counters.of (life.earlier ++ life.between)).txBytes
    (Counters.of life.earlier).txBytes
  blockRead : NoRate StatsSample.blockReadBytes now before
    (Counters.of (life.earlier ++ life.between)).blockReadBytes
    (Counters.of life.earlier).blockReadBytes
  blockWrite : NoRate StatsSample.blockWriteBytes now before
    (Counters.of (life.earlier ++ life.between)).blockWriteBytes
    (Counters.of life.earlier).blockWriteBytes

section

variable {now before : StatsSample}

theorem rateBetween_eq_none_iff {counter : StatsSample → Option Int} {grown shown : Nat}
    (hnow : ∀ n ∈ counter now, n = grown) (hbefore : ∀ n ∈ counter before, n = shown) :
    rateBetween counter now before = none ↔ NoRate counter now before grown shown := by
  unfold rateBetween NoRate
  cases hn : counter now with
  | none => simp [rateOf]
  | some n =>
    cases hb : counter before with
    | none => simp [rateOf]
    | some b =>
      obtain rfl := hnow n hn
      obtain rfl := hbefore b hb
      simp only [rateOf, Option.bind_eq_bind, Option.bind_some, rate, sub_nonpos]
      split
      · simp_all
      · simp_all

theorem loadPct_eq_none_iff (cores : Int) {grown shown : Nat} (hnow : now.cpuTotalNs = grown)
    (hbefore : before.cpuTotalNs = shown) : loadPct cores now before = none ↔
      grown < shown ∨ now.systemCpuNs ≤ before.systemCpuNs ∨ cores ≤ 0 := by
  simp only [loadPct, hnow, hbefore]
  split <;> simp <;> omega

end

/-- The later row of a container that was restarted between two readings has nothing derived exactly when
no counter of it has grown back. -/
theorem underived_iff_of_previous {r : Reading} {before : StatsSample} (hb : r.previous = some before)
    (life : Restarted before r.sample) : Underived r.usage ↔ life.FallsShort r.raw := by
  obtain ⟨cores, hcores, hdiff⟩ := r.differenced
  rw [hb] at hdiff
  have hcpu := loadPct_eq_none_iff cores life.grown.cpuNs life.shown.cpuNs
  have hrx := rateBetween_eq_none_iff life.grown.rxBytes life.shown.rxBytes
  have htx := rateBetween_eq_none_iff life.grown.txBytes life.shown.txBytes
  have hread := rateBetween_eq_none_iff life.grown.blockReadBytes life.shown.blockReadBytes
  have hwrite := rateBetween_eq_none_iff life.grown.blockWriteBytes life.shown.blockWriteBytes
  have hcount : (∀ cores, coreCount r.raw = .ok cores → cores ≤ 0) ↔ cores ≤ 0 :=
    ⟨fun h => h cores hcores, fun h cores' h' => by cases hcores.symm.trans h'; exact h⟩
  constructor
  · intro h
    refine ⟨?_, ?_, ?_, ?_, ?_⟩
    · rw [hcount]
      exact hcpu.mp (hdiff.cpuLoadPct.symm.trans h.cpuLoadPct)
    · exact hrx.mp (hdiff.networkRx.symm.trans h.networkRx)
    · exact htx.mp (hdiff.networkTx.symm.trans h.networkTx)
    · exact hread.mp (hdiff.blockRead.symm.trans h.blockRead)
    · exact hwrite.mp (hdiff.blockWrite.symm.trans h.blockWrite)
  · intro h
    have hload := h.cpu
    rw [hcount] at hload
    exact ⟨hdiff.cpuLoadPct.trans (hcpu.mpr hload), hdiff.networkRx.trans (hrx.mpr h.rx),
      hdiff.networkTx.trans (htx.mpr h.tx), hdiff.blockRead.trans (hread.mpr h.blockRead),
      hdiff.blockWrite.trans (hwrite.mpr h.blockWrite)⟩

namespace ContainerStatsPublisher

/-- In any run: two consecutive completed sweeps with a row for a container, which was restarted in
between. -/
theorem underived_iff_of_restarted (pub : ContainerStatsPublisher σ) (ticks : List (StatsTick σ))
    (tick : StatsTick σ) {readings : List Reading} {r : Reading} {before : StatsSample}
    (h : pub.readingsOf (pub.loop ticks).previous tick = some readings) (hr : r ∈ readings)
    (hb : latest (pub.lastReadings ticks) r.usage.id = some before)
    (life : Restarted before r.sample) : Underived r.usage ↔ life.FallsShort r.raw :=
  underived_iff_of_previous ((previous_eq_latest h hr).trans hb) life

/-! ### A container that counts faster after its restart -/

/-- Nothing is derived across a restart, whatever the counters have grown to. -/
def KeepsRestartsApart : Prop :=
  ∀ ⦃σ : Type⦄ (pub : ContainerStatsPublisher σ) (ticks : List (StatsTick σ)) (tick : StatsTick σ)
    (readings : List Reading) (r : Reading) (before : StatsSample),
    pub.readingsOf (pub.loop ticks).previous tick = some readings → r ∈ readings →
    latest (pub.lastReadings ticks) r.usage.id = some before → Restarted before r.sample →
    Underived r.usage

namespace Regrown

open Unlimited

/-- A body with the CPU time of the container and of the host. -/
def counting (total system : Int) : PyVal :=
  .dict [("cpu_stats", .dict [
    ("cpu_usage", .dict [("total_usage", .int total)]),
    ("system_cpu_usage", .int system),
    ("online_cpus", .int 4)])]

def tickAt (total system : Int) (t : ℚ) : StatsTick (List (Container × PyVal)) where
  daemon := [(postgres, counting total system)]
  monotonicS _ := t
  timeNs := 0
  put _ := .ok ()

/-- It has 3 s of CPU time at the first reading, is restarted, and then works for some more. -/
def lived (worked : Nat) {before now : StatsSample} (hb : before.cpuTotalNs = 3000000000)
    (hn : now.cpuTotalNs = worked)
    (hnone : before.rxBytes = none ∧ before.txBytes = none ∧ before.blockReadBytes = none ∧
      before.blockWriteBytes = none ∧ now.rxBytes = none ∧ now.txBytes = none ∧
      now.blockReadBytes = none ∧ now.blockWriteBytes = none) : Restarted before now where
  earlier := [.work { cpuNs := 3000000000 }]
  between := [.restart, .work { cpuNs := worked }]
  restart := List.mem_cons_self
  shown := by
    obtain ⟨hrx, htx, hread, hwrite, -⟩ := hnone
    refine ⟨hb, ?_, ?_, ?_, ?_⟩ <;> simp [hrx, htx, hread, hwrite]
  grown := by
    obtain ⟨-, -, -, -, hrx, htx, hread, hwrite⟩ := hnone
    refine ⟨?_, ?_, ?_, ?_, ?_⟩ <;> simp [hn, hrx, htx, hread, hwrite, Counters.of, Counters.next]

/-- The counters of a sample. -/
def view (s : StatsSample) : List (Option Int) :=
  [some s.cpuTotalNs, s.rxBytes, s.txBytes, s.blockReadBytes, s.blockWriteBytes]

def earlier : List (StatsTick (List (Container × PyVal))) := [tickAt 3000000000 100000000000 10]

/-- It counts on from zero, to 5 s by the second reading. -/
def regrown : StatsTick (List (Container × PyVal)) := tickAt 5000000000 140000000000 20

/-- It has counted 1 s by the second reading. -/
def lower : StatsTick (List (Container × PyVal)) := tickAt 1000000000 140000000000 20

theorem latest_earlier : (latest (publisher.lastReadings earlier) postgres.id).map view =
    some [some 3000000000, none, none, none, none] := by
  decide +kernel

theorem readings_regrown : (publisher.readingsOf (publisher.loop earlier).previous regrown).map
    (·.map fun r => (r.usage.id, view r.sample)) =
    some [(postgres.id, [some 5000000000, none, none, none, none])] := by
  decide +kernel

theorem load_regrown : (publisher.readingsOf (publisher.loop earlier).previous regrown).map
    (·.map fun r => r.usage.cpuLoadPct) = some [some 20] := by
  decide +kernel

theorem readings_lower : (publisher.readingsOf (publisher.loop earlier).previous lower).map
    (·.map fun r => (r.usage.id, view r.sample)) =
    some [(postgres.id, [some 1000000000, none, none, none, none])] := by
  decide +kernel

/-- The restart, when both readings have these values. -/
theorem restarted {before now : StatsSample} {worked : Nat}
    (hb : view before = [some 3000000000, none, none, none, none])
    (hn : view now = [some (worked : Int), none, none, none, none]) :
    ∃ life : Restarted before now, life.earlier = [.work { cpuNs := 3000000000 }] ∧
      life.between = [.restart, .work { cpuNs := worked }] := by
  simp only [view, List.cons.injEq, Option.some.injEq, and_true] at hb hn
  obtain ⟨hcpu, hrx, htx, hread, hwrite⟩ := hb
  obtain ⟨hcpu', hnone⟩ := hn
  exact ⟨lived worked hcpu hcpu' ⟨hrx, htx, hread, hwrite, hnone⟩, rfl, rfl⟩

theorem not_keepsRestartsApart : ¬ KeepsRestartsApart := by
  intro h
  obtain ⟨before, hb, hview⟩ := Option.map_eq_some_iff.mp latest_earlier
  obtain ⟨readings, hread, hrows⟩ := Option.map_eq_some_iff.mp readings_regrown
  obtain ⟨r, rfl, hr⟩ := List.map_eq_singleton_iff.mp hrows
  obtain ⟨hid, hsample⟩ := Prod.mk.inj hr
  obtain ⟨life, -⟩ := restarted hview hsample
  have hunset := h publisher earlier regrown [r] r before hread List.mem_cons_self (hid ▸ hb) life
  have hload := load_regrown
  rw [hread, Option.map_some, List.map_singleton, hunset.cpuLoadPct] at hload
  exact absurd hload (by decide)

/-- Below its old value it is unset. -/
theorem underived_lower : ∃ r, publisher.readingsOf (publisher.loop earlier).previous lower = some [r] ∧
    Underived r.usage := by
  obtain ⟨before, hb, hview⟩ := Option.map_eq_some_iff.mp latest_earlier
  obtain ⟨readings, hread, hrows⟩ := Option.map_eq_some_iff.mp readings_lower
  obtain ⟨r, rfl, hr⟩ := List.map_eq_singleton_iff.mp hrows
  obtain ⟨hid, hsample⟩ := Prod.mk.inj hr
  obtain ⟨life, hearlier, hbetween⟩ := restarted hview hsample
  refine ⟨r, hread, ?_⟩
  refine (underived_iff_of_restarted publisher earlier lower hread List.mem_cons_self (hid ▸ hb)
    life).mpr ?_
  simp only [view, List.cons.injEq, and_true] at hsample
  obtain ⟨-, hrx, htx, hblockRead, hblockWrite⟩ := hsample
  refine ⟨.inl ?_, .inl hrx, .inl htx, .inl hblockRead, .inl hblockWrite⟩
  rw [hearlier, hbetween]
  decide

end Regrown

end ContainerStatsPublisher

end KeelsonDocker
