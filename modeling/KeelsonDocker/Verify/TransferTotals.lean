import KeelsonDocker.Verify.UnsetRates
import Mathlib.Algebra.Order.BigOperators.Group.List
import Mathlib.Tactic.Linarith

/-!
# What the published rates add up to

A subscriber that multiplies each rate by the window it stands for and adds up the rows of one container
never comes to more bytes than the container has transferred, whichever sweeps fail, whichever messages
are lost and however often the container is started again; and where nothing of that happens, it comes to
just those bytes (`adds_up`).
-/

namespace KeelsonDocker

open Effect

variable {σ : Type}

/-! ### The meter -/

/-- What a container has transferred in all by a time, and what it had when its counter last started from
zero. -/
structure Meter where
  total : ℚ → Int
  reset : ℚ → Int
  monotone : ∀ ⦃t u⦄, t ≤ u → total t ≤ total u
  reset_le : ∀ t, reset t ≤ total t
  started : ∀ {t u}, t ≤ u → reset u = reset t ∨ total t ≤ reset u

namespace Meter

variable {m : Meter} {t u : ℚ}

/-- What the counter says. -/
def shows (m : Meter) (t : ℚ) : Int := m.total t - m.reset t

/-- Between two readings no counter gains more than was transferred. -/
theorem shows_sub_le (h : t ≤ u) : m.shows u - m.shows t ≤ m.total u - m.total t := by
  unfold shows
  have hreset := m.reset_le t
  rcases m.started h with hsame | hstarted <;> omega

theorem shows_sub_eq (h : m.reset u = m.reset t) : m.shows u - m.shows t = m.total u - m.total t := by
  unfold shows
  omega

end Meter

/-! ### What a row stands for -/

/-- A rate over its window. -/
def rowBytes (k : ByteCounter) (usage : ContainerResourceUsage) : ℚ :=
  (k.perSecond usage).getD 0 * usage.sampleWindowS.getD 0

/-- What the rows of one container come to. -/
def carriedBytes (k : ByteCounter) (id : String) (messages : List ContainerHostStats) : ℚ :=
  ((messages.flatMap ContainerHostStats.containers).map fun usage =>
    if usage.id = id then rowBytes k usage else 0).sum

theorem carriedBytes_append (k : ByteCounter) (id : String) (messages more : List ContainerHostStats) :
    carriedBytes k id (messages ++ more) = carriedBytes k id messages + carriedBytes k id more := by
  simp [carriedBytes]

theorem monotonicS_of_readStatsSample {raw : PyVal} {t : ℚ} {sample : StatsSample}
    (h : readStatsSample raw t = .ok (some sample)) : sample.monotonicS = t := by
  unfold readStatsSample at h
  split at h
  · cases h
  · obtain ⟨cpu, -, h⟩ := bind_eq_ok.mp h
    obtain ⟨usage, -, h⟩ := bind_eq_ok.mp h
    obtain ⟨total, -, h⟩ := bind_eq_ok.mp h
    obtain ⟨system, -, h⟩ := bind_eq_ok.mp h
    dsimp only at h
    split at h
    · cases h
    · obtain ⟨_, -, h⟩ := bind_eq_ok.mp h
      obtain ⟨_, -, h⟩ := bind_eq_ok.mp h
      cases h
      rfl

namespace Reading

variable (r : Reading) (k : ByteCounter)

theorem sample_monotonicS : r.sample.monotonicS = r.monotonicS :=
  monotonicS_of_readStatsSample (resourceUsage_of_build r.built).1

variable {r k} in
/-- A row stands for what the counter has gained since the reading before. -/
theorem rowBytes_eq {before : StatsSample} {n b : Int} (hprevious : r.previous = some before)
    (hn : k.of r.sample = some n) (hb : k.of before = some b) (hle : b ≤ n)
    (hlt : before.monotonicS < r.monotonicS) : rowBytes k r.usage = ((n - b : Int) : ℚ) := by
  rw [← r.sample_monotonicS] at hlt
  obtain ⟨-, hdiff⟩ := r.differenced.choose_spec
  obtain ⟨-, husage⟩ := resourceUsage_of_build r.built
  have hrate := hdiff.perSecond k
  have hwindow := (quotients_of_resourceUsage husage).window
  rw [hprevious] at hrate hwindow
  have hsome := rateBetween_eq_some.mpr ⟨n, b, hn, hb, hlt, hle, rfl⟩
  rw [Option.bind_some, hsome] at hrate
  have hpos : 0 < r.sample.monotonicS - before.monotonicS := sub_pos.mpr hlt
  rw [Option.map_some, Option.filter_some, if_pos (decide_eq_true hpos)] at hwindow
  rw [rowBytes, hrate, hwindow]
  exact div_mul_cancel₀ _ hpos.ne'

/-- Or else it stands for nothing. -/
theorem rowBytes_cases : rowBytes k r.usage = 0 ∨ ∃ before n b, r.previous = some before ∧
    k.of r.sample = some n ∧ k.of before = some b ∧ b ≤ n ∧ before.monotonicS < r.monotonicS ∧
    rowBytes k r.usage = ((n - b : Int) : ℚ) := by
  obtain ⟨-, hdiff⟩ := r.differenced.choose_spec
  have hrate := hdiff.perSecond k
  cases hv : k.perSecond r.usage with
  | none => exact .inl (by simp [rowBytes, hv])
  | some v =>
    obtain ⟨before, hprevious, hbetween⟩ := Option.bind_eq_some_iff.mp (hrate.symm.trans hv)
    obtain ⟨n, b, hn, hb, hlt, hle, -⟩ := rateBetween_eq_some.mp hbetween
    rw [r.sample_monotonicS] at hlt
    exact .inr ⟨before, n, b, hprevious, hn, hb, hle, hlt, rowBytes_eq hprevious hn hb hle hlt⟩

theorem rowBytes_nonneg : 0 ≤ rowBytes k r.usage := by
  rcases r.rowBytes_cases k with hzero | ⟨_, n, b, -, -, -, hle, -, heq⟩
  · exact hzero.ge
  · rw [heq]
    exact_mod_cast sub_nonneg.mpr hle

theorem monotonicS_of_ofResult {snapshot : ContainerSnapshot} {raw : PyVal} {previous : Option StatsSample}
    {t : ℚ} {result : Except Exn (Option (ContainerResourceUsage × StatsSample))}
    (h : buildResourceUsage snapshot raw previous t = result) {r : Reading}
    (hr : ofResult result h = .ok (some r)) : r.monotonicS = t := by
  unfold ofResult at hr
  split at hr
  · cases hr
  · cases hr
  · cases hr
    rfl

end Reading

/-! ### Runs -/

namespace ContainerStatsPublisher

variable {pub : ContainerStatsPublisher σ} {m : Meter} {k : ByteCounter} {id : String} {a b : ℚ}
  {ticks : List (StatsTick σ)} {tick : StatsTick σ} {readings : List Reading} {r : Reading}

theorem clock_of_taking {previous : List (String × StatsSample)} {clock : Nat → ℚ}
    {targets : List (ContainerSnapshot × Nat)} {w : World σ}
    (h : pub.taking previous clock targets w = some readings) (hr : r ∈ readings) :
    ∃ p, r.monotonicS = clock p := by
  induction targets generalizing readings w with
  | nil =>
    cases h
    cases hr
  | cons target targets ih =>
    obtain ⟨snapshot, position⟩ := target
    simp only [taking] at h
    split at h
    · exact ih h hr
    · split at h
      · cases h
      · exact ih h hr
      · rename_i reading hbuild
        obtain ⟨rest, hrest, rfl⟩ := Option.map_eq_some_iff.mp h
        rcases List.mem_cons.mp hr with rfl | hr
        · exact ⟨position, Reading.monotonicS_of_ofResult rfl hbuild⟩
        · exact ih hrest hr

/-- The readings of a tick before which these ticks were. -/
def taken? (pub : ContainerStatsPublisher σ) (ticks : List (StatsTick σ)) (tick : StatsTick σ) :
    Option (List Reading) :=
  pub.readingsOf (pub.loop ticks).previous tick

/-- The runtime lists no container twice. -/
def ListsOnce (pub : ContainerStatsPublisher σ) (tick : StatsTick σ) : Prop :=
  ∀ snapshots w, DockerBackend.list pub.backend true none { daemon := tick.daemon } = .ok snapshots w →
    (snapshots.map ContainerSnapshot.id).Nodup

/-- The readings of a run that starts at `a`: the clock does not go back, no container is listed twice,
and what is read of the container is what its meter shows. -/
structure Metered (pub : ContainerStatsPublisher σ) (m : Meter) (k : ByteCounter) (id : String) (a : ℚ)
    (ticks : List (StatsTick σ)) : Prop where
  clock : ticks.Pairwise fun tick tick' => ∀ p q, tick.monotonicS p ≤ tick'.monotonicS q
  start : ∀ tick ∈ ticks, ∀ p, a ≤ tick.monotonicS p
  once : ∀ tick ∈ ticks, pub.ListsOnce tick
  shows : ∀ before tick, before ++ [tick] <+: ticks → ∀ readings, pub.taken? before tick = some readings →
    ∀ r ∈ readings, r.snapshot.id = id → ∀ n ∈ k.of r.sample, n = m.shows r.monotonicS

theorem Metered.init (h : Metered pub m k id a (ticks ++ [tick])) : Metered pub m k id a ticks where
  clock := (List.pairwise_append.mp h.clock).1
  start tick' ht := h.start tick' (List.mem_append_left _ ht)
  once tick' ht := h.once tick' (List.mem_append_left _ ht)
  shows before tick' hpre := h.shows before tick' (hpre.trans (List.prefix_append _ _))

theorem ids_nodup_of_taken (h : pub.taken? ticks tick = some readings) (hlists : pub.ListsOnce tick) :
    (readings.map fun r => r.snapshot.id).Nodup := by
  obtain ⟨snapshots, w, hlist, -⟩ := taking_of_readingsOf h
  have hkeys := (exact_loop pub ticks tick).once h hlist (hlists snapshots w hlist)
  have hreverse := (exact_loop pub ticks tick).completed h
  rw [← List.nodup_reverse, ← List.map_reverse, hreverse, List.map_map] at hkeys
  simpa [Reading.id_eq, Function.comp_def] using hkeys

/-- The rows of a tick count what the one row of the container stands for. -/
theorem sum_rows (hnodup : (readings.map fun r => r.snapshot.id).Nodup) (hr : r ∈ readings)
    (hid : r.snapshot.id = id) :
    ((readings.map Reading.usage).map fun usage => if usage.id = id then rowBytes k usage else 0).sum =
      rowBytes k r.usage := by
  induction readings with
  | nil => cases hr
  | cons r' readings ih =>
    rw [List.map_cons, List.nodup_cons] at hnodup
    rw [List.map_cons, List.map_cons, List.sum_cons, r'.id_eq]
    rcases List.mem_cons.mp hr with rfl | hr
    · have hrest : ((readings.map Reading.usage).map fun usage =>
          if usage.id = id then rowBytes k usage else 0).sum = 0 := by
        apply List.sum_eq_zero
        intro x hx
        obtain ⟨usage, husage, rfl⟩ := List.mem_map.mp hx
        obtain ⟨r', hr', rfl⟩ := List.mem_map.mp husage
        rw [if_neg]
        intro heq
        rw [r'.id_eq, ← hid] at heq
        exact hnodup.1 (List.mem_map.mpr ⟨r', hr', heq⟩)
      rw [hrest, if_pos hid, add_zero]
    · rw [if_neg, zero_add]
      · exact ih hnodup.2 hr
      · intro heq
        exact hnodup.1 (List.mem_map.mpr ⟨r, hr, hid.trans heq.symm⟩)

theorem sum_no_rows (hnone : ∀ r ∈ readings, r.snapshot.id ≠ id) :
    ((readings.map Reading.usage).map fun usage => if usage.id = id then rowBytes k usage else 0).sum =
      0 := by
  apply List.sum_eq_zero
  intro x hx
  obtain ⟨usage, husage, rfl⟩ := List.mem_map.mp hx
  obtain ⟨r, hr, rfl⟩ := List.mem_map.mp husage
  rw [r.id_eq, if_neg (hnone r hr)]

/-- The messages that a tick hands to the bus: none, or one with the rows of its sweep, which there is
while the sequence number fits. -/
theorem puts_of_tick (pub : ContainerStatsPublisher σ) (ticks : List (StatsTick σ)) (tick : StatsTick σ) :
    (pub.loop (ticks ++ [tick])).puts = (pub.loop ticks).puts ∧
        (∀ readings, pub.taken? ticks tick = some readings → 2 ^ 64 ≤ (pub.loop ticks).sequence) ∨
      ∃ readings message, pub.taken? ticks tick = some readings ∧
        message.containers = readings.map Reading.usage ∧
        (pub.loop (ticks ++ [tick])).puts = (pub.loop ticks).puts ++ [message] := by
  have hsweep := (exact_loop pub ticks tick).sweep
  rw [loop_concat]
  cases hout : outcome (pub.sweep (pub.loop ticks).previous tick.monotonicS) tick.daemon with
  | error e =>
    rw [hout] at hsweep
    have hnone : pub.taken? ticks tick = none := Option.map_eq_none_iff.mp hsweep.symm
    exact .inl ⟨puts_of_sweep_error hout, fun _ h => nomatch hnone.symm.trans h⟩
  | ok swept =>
    rw [hout] at hsweep
    obtain ⟨readings, hreadings, rfl⟩ := Option.map_eq_some_iff.mp hsweep.symm
    have hputs := puts_of_sweep_ok hout
    by_cases hseq : ((pub.loop ticks).sequence : Int) < 2 ^ 64
    · rw [if_pos hseq] at hputs
      exact .inr ⟨readings, _, hreadings, rfl, hputs⟩
    · rw [if_neg hseq] at hputs
      exact .inl ⟨hputs, fun _ _ => by omega⟩

/-! ### Never more than was transferred -/

/-- What has been handed to the bus, and the sample kept for the next row. -/
structure Counted (pub : ContainerStatsPublisher σ) (m : Meter) (k : ByteCounter) (id : String) (a : ℚ)
    (ticks : List (StatsTick σ)) : Prop where
  nonneg : ∀ usage ∈ (pub.loop ticks).puts.flatMap ContainerHostStats.containers, 0 ≤ rowBytes k usage
  bound : ∀ b, a ≤ b → (∀ tick ∈ ticks, ∀ p, tick.monotonicS p ≤ b) →
    carriedBytes k id (pub.loop ticks).puts ≤ ((m.total b - m.total a : Int) : ℚ)
  /-- No row stands for anything after the sample. -/
  kept : ∀ sample, (pub.loop ticks).previous.lookup id = some sample →
    (∃ tick ∈ ticks, ∃ p, sample.monotonicS = tick.monotonicS p) ∧
    (∀ n ∈ k.of sample, n = m.shows sample.monotonicS) ∧
    carriedBytes k id (pub.loop ticks).puts ≤ ((m.total sample.monotonicS - m.total a : Int) : ℚ)

theorem Metered.clock_le (h : Metered pub m k id a (ticks ++ [tick])) (p : Nat) :
    ∀ tick' ∈ ticks, ∀ q, tick'.monotonicS q ≤ tick.monotonicS p := fun tick' ht q =>
  (List.pairwise_append.mp h.clock).2.2 tick' ht tick (List.mem_singleton_self _) q p

/-- A row stands for nothing that an earlier one stands for. -/
theorem Counted.row_le (h : Counted pub m k id a ticks) (hm : Metered pub m k id a (ticks ++ [tick]))
    (htaken : pub.taken? ticks tick = some readings) (hr : r ∈ readings) (hid : r.snapshot.id = id) :
    carriedBytes k id (pub.loop ticks).puts + rowBytes k r.usage ≤
      ((m.total r.monotonicS - m.total a : Int) : ℚ) := by
  obtain ⟨snapshots, w, -, htake⟩ := taking_of_readingsOf htaken
  obtain ⟨p, hp⟩ := clock_of_taking htake hr
  rcases r.rowBytes_cases k with hzero | ⟨before, n, b, hprevious, hn, hb, -, hlt, heq⟩
  · rw [hzero, add_zero, hp]
    exact h.bound _ (hm.start tick (by simp) p) (hm.clock_le p)
  · rw [(previous_of_taking htake).1 r hr, hid] at hprevious
    obtain ⟨-, hshows, hkept⟩ := h.kept before hprevious
    have hshown := hm.shows ticks tick (List.prefix_refl _) readings htaken r hr hid n hn
    have hgain := m.shows_sub_le hlt.le
    rw [← hshown, ← hshows b hb] at hgain
    rw [heq]
    have hcast : ((n - b : Int) : ℚ) ≤ ((m.total r.monotonicS - m.total before.monotonicS : Int) : ℚ) := by
      exact_mod_cast hgain
    push_cast at hkept hcast ⊢
    linarith

theorem mem_of_latest {sample : StatsSample} (h : latest readings id = some sample) :
    ∃ r ∈ readings, r.snapshot.id = id ∧ r.sample = sample := by
  obtain ⟨r, hfind, hsample⟩ := Option.map_eq_some_iff.mp h
  have hid := List.find?_some hfind
  exact ⟨r, List.mem_reverse.mp (List.mem_of_find?_eq_some hfind), beq_iff_eq.mp hid, hsample⟩

/-- What a tick adds for the container: what its row stands for, while the sequence number fits. -/
theorem carried_of_row (hm : Metered pub m k id a (ticks ++ [tick]))
    (htaken : pub.taken? ticks tick = some readings) (hr : r ∈ readings) (hid : r.snapshot.id = id) :
    carriedBytes k id (pub.loop (ticks ++ [tick])).puts =
        carriedBytes k id (pub.loop ticks).puts + rowBytes k r.usage ∨
      2 ^ 64 ≤ (pub.loop ticks).sequence ∧ carriedBytes k id (pub.loop (ticks ++ [tick])).puts =
        carriedBytes k id (pub.loop ticks).puts := by
  rcases puts_of_tick pub ticks tick with ⟨hputs, hseq⟩ | ⟨readings', message, htaken', hrows, hputs⟩
  · exact .inr ⟨hseq readings htaken, by rw [hputs]⟩
  · cases htaken.symm.trans htaken'
    have hmessage : carriedBytes k id [message] = ((readings.map Reading.usage).map fun usage =>
        if usage.id = id then rowBytes k usage else 0).sum := by
      simp only [carriedBytes, List.flatMap_cons, List.flatMap_nil, List.append_nil, hrows]
    have hnodup := ids_nodup_of_taken htaken (hm.once tick (by simp))
    left
    rw [hputs, carriedBytes_append, hmessage, sum_rows hnodup hr hid]

theorem carried_le_of_row (hm : Metered pub m k id a (ticks ++ [tick]))
    (htaken : pub.taken? ticks tick = some readings) (hr : r ∈ readings) (hid : r.snapshot.id = id) :
    carriedBytes k id (pub.loop (ticks ++ [tick])).puts ≤
      carriedBytes k id (pub.loop ticks).puts + rowBytes k r.usage := by
  rcases carried_of_row hm htaken hr hid with h | ⟨-, h⟩
  · exact h.le
  · rw [h]
    exact le_add_of_nonneg_right (r.rowBytes_nonneg k)

/-- Nothing without a row. -/
theorem carried_of_no_row (h : ∀ readings, pub.taken? ticks tick = some readings →
    ∀ r ∈ readings, r.snapshot.id ≠ id) : carriedBytes k id (pub.loop (ticks ++ [tick])).puts =
      carriedBytes k id (pub.loop ticks).puts := by
  rcases puts_of_tick pub ticks tick with ⟨hputs, -⟩ | ⟨readings, message, htaken, hrows, hputs⟩
  · rw [hputs]
  · have hmessage : carriedBytes k id [message] = 0 := by
      simp only [carriedBytes, List.flatMap_cons, List.flatMap_nil, List.append_nil, hrows]
      exact sum_no_rows (h readings htaken)
    rw [hputs, carriedBytes_append, hmessage, add_zero]

theorem Counted.step (h : Counted pub m k id a ticks) (hm : Metered pub m k id a (ticks ++ [tick])) :
    Counted pub m k id a (ticks ++ [tick]) where
  nonneg usage husage := by
    rcases puts_of_tick pub ticks tick with ⟨hputs, -⟩ | ⟨readings, message, -, hrows, hputs⟩
    · rw [hputs] at husage
      exact h.nonneg usage husage
    · rw [hputs, List.flatMap_append, List.mem_append] at husage
      rcases husage with husage | husage
      · exact h.nonneg usage husage
      · simp only [List.flatMap_cons, List.flatMap_nil, List.append_nil, hrows] at husage
        obtain ⟨r, -, rfl⟩ := List.mem_map.mp husage
        exact r.rowBytes_nonneg k
  bound b hb hlater := by
    have hold := h.bound b hb fun tick' ht => hlater tick' (List.mem_append_left _ ht)
    by_cases hrow : ∃ readings, pub.taken? ticks tick = some readings ∧ ∃ r ∈ readings, r.snapshot.id = id
    · obtain ⟨readings, htaken, r, hr, hid⟩ := hrow
      obtain ⟨snapshots, w, -, htake⟩ := taking_of_readingsOf htaken
      obtain ⟨p, hp⟩ := clock_of_taking htake hr
      have htotal : m.total r.monotonicS ≤ m.total b := m.monotone (hp ▸ hlater tick (by simp) p)
      have hcast : ((m.total r.monotonicS - m.total a : Int) : ℚ) ≤ ((m.total b - m.total a : Int) : ℚ) := by
        exact_mod_cast (by omega : m.total r.monotonicS - m.total a ≤ m.total b - m.total a)
      exact (carried_le_of_row hm htaken hr hid).trans ((h.row_le hm htaken hr hid).trans hcast)
    · rw [carried_of_no_row fun readings htaken r hr hid => hrow ⟨readings, htaken, r, hr, hid⟩]
      exact hold
  kept sample hsample := by
    cases htaken : pub.taken? ticks tick with
    | none =>
      rw [(exact_loop pub ticks tick).failed htaken] at hsample
      obtain ⟨⟨tick', ht, p, hp⟩, hshows, hkept⟩ := h.kept sample hsample
      refine ⟨⟨tick', List.mem_append_left _ ht, p, hp⟩, hshows, ?_⟩
      rw [carried_of_no_row fun readings htaken' => nomatch htaken.symm.trans htaken']
      exact hkept
    | some readings =>
      rw [(exact_loop pub ticks tick).latest htaken] at hsample
      obtain ⟨r, hr, hid, rfl⟩ := mem_of_latest hsample
      obtain ⟨snapshots, w, -, htake⟩ := taking_of_readingsOf htaken
      obtain ⟨p, hp⟩ := clock_of_taking htake hr
      rw [r.sample_monotonicS]
      refine ⟨⟨tick, by simp, p, hp⟩, fun n hn => ?_, ?_⟩
      · exact hm.shows ticks tick (List.prefix_refl _) readings htaken r hr hid n hn
      · exact (carried_le_of_row hm htaken hr hid).trans (h.row_le hm htaken hr hid)

theorem counted (hm : Metered pub m k id a ticks) : Counted pub m k id a ticks := by
  induction ticks using List.reverseRecOn with
  | nil =>
    have hputs : (pub.loop []).puts = [] := rfl
    have hprevious : (pub.loop []).previous = [] := rfl
    refine ⟨fun usage husage => ?_, fun b hb _ => ?_, fun sample hsample => ?_⟩
    · rw [hputs] at husage
      cases husage
    · rw [hputs, carriedBytes, List.flatMap_nil, List.map_nil, List.sum_nil]
      exact_mod_cast sub_nonneg.mpr (m.monotone hb)
    · rw [hprevious] at hsample
      cases hsample
  | append_singleton ticks tick ih => exact (ih hm.init).step hm

/-! ### All that was transferred -/

/-- Every sweep has a row with the counter, the clock moves on, and the container is not started again. -/
structure Steady (pub : ContainerStatsPublisher σ) (m : Meter) (k : ByteCounter) (id : String)
    (ticks : List (StatsTick σ)) : Prop where
  clock : ticks.Pairwise fun tick tick' => ∀ p q, tick.monotonicS p < tick'.monotonicS q
  running : ∀ tick ∈ ticks, ∀ tick' ∈ ticks, ∀ p q, m.reset (tick.monotonicS p) = m.reset (tick'.monotonicS q)
  rows : ∀ before tick, before ++ [tick] <+: ticks → ∃ readings, pub.taken? before tick = some readings ∧
    ∃ r ∈ readings, r.snapshot.id = id ∧ (k.of r.sample).isSome

theorem Steady.init (h : Steady pub m k id (ticks ++ [tick])) : Steady pub m k id ticks where
  clock := (List.pairwise_append.mp h.clock).1
  running tick ht tick' ht' := h.running tick (by simp [ht]) tick' (by simp [ht'])
  rows before tick' hpre := h.rows before tick' (hpre.trans (List.prefix_append _ _))

theorem sequence_publish (entries : List ContainerResourceUsage) (tick : StatsTick σ) (s : StatsState) :
    (after (publish entries tick) s).sequence ≤ s.sequence + 1 := by
  unfold publish
  rw [after_bind_ok (run_get s)]
  dsimp only
  cases uint64 s.sequence with
  | error e =>
    rw [after_bind_error (rfl : ofExcept (.error e) s = _)]
    omega
  | ok n =>
    rw [after_bind_ok (rfl : ofExcept (.ok n) s = _), after_bind_ok (run_modify _ s)]
    cases tick.put _ with
    | error e =>
      rw [after_bind_error (rfl : ofExcept (.error e) _ = _)]
      exact Nat.le_succ _
    | ok u =>
      rw [after_bind_ok (rfl : ofExcept (.ok u) _ = _), after_ok (run_modify _ _)]

theorem sequence_le (pub : ContainerStatsPublisher σ) (ticks : List (StatsTick σ)) :
    (pub.loop ticks).sequence ≤ ticks.length := by
  induction ticks using List.reverseRecOn with
  | nil => exact le_rfl
  | append_singleton ticks tick ih =>
    have hturn : (after (pub.turn tick) (pub.loop ticks)).sequence ≤ (pub.loop ticks).sequence + 1 := by
      unfold turn
      rw [after_bind_ok (run_get _)]
      dsimp only
      cases outcome (pub.sweep (pub.loop ticks).previous tick.monotonicS) tick.daemon with
      | error e =>
        rw [after_bind_error (rfl : ofExcept (.error e) _ = _)]
        omega
      | ok swept =>
        rw [after_bind_ok (rfl : ofExcept (.ok swept) _ = _), after_bind_ok (run_modify _ _)]
        exact sequence_publish _ _ _
    rw [loop_concat, List.length_append, List.length_singleton]
    omega

/-- The sample of the container's row is the one kept. -/
theorem lookup_of_row (hlists : pub.ListsOnce tick) (htaken : pub.taken? ticks tick = some readings)
    (hr : r ∈ readings) (hid : r.snapshot.id = id) :
    (pub.loop (ticks ++ [tick])).previous.lookup id = some r.sample := by
  rw [(exact_loop pub ticks tick).latest htaken]
  cases hlatest : latest readings id with
  | none =>
    have hno := List.find?_eq_none.mp (Option.map_eq_none_iff.mp hlatest) r (List.mem_reverse.mpr hr)
    exact absurd (beq_iff_eq.mpr hid) hno
  | some sample =>
    obtain ⟨r', hr', hid', rfl⟩ := mem_of_latest hlatest
    rw [List.inj_on_of_nodup_map (ids_nodup_of_taken htaken hlists) hr' hr (hid'.trans hid.symm)]

/-- The rows after the first come to all that was transferred since. -/
theorem Steady.carried_eq {first : StatsTick σ} (hm : Metered pub m k id a (first :: ticks))
    (hs : Steady pub m k id (first :: ticks)) (hfits : ticks.length < 2 ^ 64) :
    ∃ before now n, (pub.loop [first]).previous.lookup id = some before ∧
      (pub.loop (first :: ticks)).previous.lookup id = some now ∧ k.of now = some n ∧
      (∃ p, before.monotonicS = first.monotonicS p) ∧
      (∃ tick ∈ first :: ticks, ∃ p, now.monotonicS = tick.monotonicS p) ∧
      carriedBytes k id (pub.loop (first :: ticks)).puts =
        ((m.total now.monotonicS - m.total before.monotonicS : Int) : ℚ) := by
  induction ticks using List.reverseRecOn with
  | nil =>
    obtain ⟨readings, htaken, r, hr, hid, hsome⟩ := hs.rows [] first (List.prefix_refl _)
    obtain ⟨n, hn⟩ := Option.isSome_iff_exists.mp hsome
    obtain ⟨snapshots, w, -, htake⟩ := taking_of_readingsOf htaken
    obtain ⟨p, hp⟩ := clock_of_taking htake hr
    have hlookup : (pub.loop [first]).previous.lookup id = some r.sample :=
      lookup_of_row (hm.once first (by simp)) htaken hr hid
    have hfresh : r.previous = none := (previous_of_taking htake).1 r hr
    have hzero : rowBytes k r.usage = 0 := by
      rcases r.rowBytes_cases k with hzero | ⟨_, _, _, hprevious, -⟩
      · exact hzero
      · cases hfresh.symm.trans hprevious
    have htime := r.sample_monotonicS.trans hp
    refine ⟨r.sample, r.sample, n, hlookup, hlookup, hn, ⟨p, htime⟩, ⟨first, by simp, p, htime⟩, ?_⟩
    have hnothing : carriedBytes k id (pub.loop []).puts = 0 := rfl
    have hm' : Metered pub m k id a ([] ++ [first]) := hm
    rcases carried_of_row hm' htaken hr hid with heq | ⟨hseq, -⟩
    · rw [hzero, hnothing, add_zero, List.nil_append] at heq
      rw [heq, sub_self, Int.cast_zero]
    · have := sequence_le pub []
      simp only [List.length_nil] at this
      omega
  | append_singleton ticks tick ih =>
    rw [List.length_append, List.length_singleton] at hfits
    rw [← List.cons_append] at hm hs ⊢
    obtain ⟨before, now, b, hbefore, hnow, hb, hfirst, ⟨tick', ht, q, hq⟩, hcarried⟩ :=
      ih hm.init hs.init (by omega)
    obtain ⟨readings, htaken, r, hr, hid, hsome⟩ := hs.rows (first :: ticks) tick (List.prefix_refl _)
    obtain ⟨n, hn⟩ := Option.isSome_iff_exists.mp hsome
    obtain ⟨snapshots, w, -, htake⟩ := taking_of_readingsOf htaken
    obtain ⟨p, hp⟩ := clock_of_taking htake hr
    have hlookup := lookup_of_row (hm.once tick (by simp)) htaken hr hid
    have hprevious : r.previous = some now := by
      rw [(previous_of_taking htake).1 r hr, hid, hnow]
    have hlt : now.monotonicS < r.monotonicS := by
      rw [hq, hp]
      exact (List.pairwise_append.mp hs.clock).2.2 tick' ht tick (List.mem_singleton_self _) q p
    have hgain : n - b = m.total r.monotonicS - m.total now.monotonicS := by
      rw [hm.shows (first :: ticks) tick (List.prefix_refl _) readings htaken r hr hid n hn,
        ((counted hm.init).kept now hnow).2.1 b hb]
      apply Meter.shows_sub_eq
      rw [hp, hq]
      exact hs.running tick (by simp) tick' (List.mem_append_left _ ht) p q
    have htotal := m.monotone hlt.le
    have hrow := Reading.rowBytes_eq hprevious hn hb (by omega) hlt
    refine ⟨before, r.sample, n, hbefore, hlookup, hn, hfirst,
      ⟨tick, by simp, p, r.sample_monotonicS.trans hp⟩, ?_⟩
    rcases carried_of_row hm htaken hr hid with heq | ⟨hseq, -⟩
    · rw [heq, hcarried, hrow, hgain, r.sample_monotonicS]
      push_cast
      linarith
    · have hle := sequence_le pub (first :: ticks)
      rw [List.length_cons] at hle
      omega

/-! ### What a subscriber comes to -/

/-- **What the published rates add up to**: never more than was transferred, whatever a subscriber has
missed; and all of it since the first sweep, where every sweep has its row and every message arrives. -/
theorem adds_up (hm : Metered pub m k id a ticks) :
    (∀ received, List.Sublist received (pub.loop ticks).puts → ∀ b, a ≤ b →
      (∀ tick ∈ ticks, ∀ p, tick.monotonicS p ≤ b) →
      0 ≤ carriedBytes k id received ∧
        carriedBytes k id received ≤ ((m.total b - m.total a : Int) : ℚ)) ∧
    ∀ first more, ticks = first :: more → Steady pub m k id ticks → more.length < 2 ^ 64 →
      ∃ before now, (pub.loop [first]).previous.lookup id = some before ∧
        (pub.loop ticks).previous.lookup id = some now ∧
        carriedBytes k id (pub.loop ticks).puts =
          ((m.total now.monotonicS - m.total before.monotonicS : Int) : ℚ) := by
  constructor
  · intro received hsub b hb hlater
    have hcounted := counted hm
    have hterms : ∀ x ∈ ((pub.loop ticks).puts.flatMap ContainerHostStats.containers).map (fun usage =>
        if usage.id = id then rowBytes k usage else 0), 0 ≤ x := by
      intro x hx
      obtain ⟨usage, husage, rfl⟩ := List.mem_map.mp hx
      split
      · exact hcounted.nonneg usage husage
      · exact le_rfl
    have hrows : List.Sublist (received.flatMap ContainerHostStats.containers)
        ((pub.loop ticks).puts.flatMap ContainerHostStats.containers) := hsub.flatMap _
    refine ⟨List.sum_nonneg fun x hx => hterms x ((hrows.map _).subset hx), ?_⟩
    exact ((hrows.map _).sum_le_sum hterms).trans (hcounted.bound b hb hlater)
  · rintro first more rfl hs hfits
    obtain ⟨before, now, _, hbefore, hnow, -, -, -, hcarried⟩ := hs.carried_eq hm hfits
    exact ⟨before, now, hbefore, hnow, hcarried⟩

/-! ### A download -/

namespace Downloading

open Unlimited

def body (received : Int) : PyVal :=
  .dict [
    ("cpu_stats", .dict [
      ("cpu_usage", .dict [("total_usage", .int 48211337000)]),
      ("system_cpu_usage", .int 91827364550000000)]),
    ("networks", .dict [("eth0", .dict [("rx_bytes", .int received)])])]

def tickAt (received : Int) (t : ℚ) : StatsTick (List (Container × PyVal)) where
  daemon := [(postgres, body received)]
  monotonicS _ := t
  timeNs := 0
  put _ := .ok ()

/-- 3000 bytes in ten seconds. -/
def download : List (StatsTick (List (Container × PyVal))) := [tickAt 1000 10, tickAt 4000 20]

/-- What the interface has received. -/
def eth0 : Meter where
  total t := if t < 20 then 1000 else 4000
  reset _ := 0
  monotone t u h := by
    split_ifs <;> first | omega | linarith
  reset_le t := by split_ifs <;> omega
  started _ := .inl rfl

/-- What matters of a reading. -/
def view (r : Reading) : String × ℚ × Option Int := (r.snapshot.id, r.monotonicS, r.sample.rxBytes)

theorem taken_first : (publisher.taken? [] (tickAt 1000 10)).map (·.map view) =
    some [(postgres.id, 10, some 1000)] := by
  decide +kernel

theorem taken_second : (publisher.taken? [tickAt 1000 10] (tickAt 4000 20)).map (·.map view) =
    some [(postgres.id, 20, some 4000)] := by
  decide +kernel

/-- The download before one of the two, and its one reading. -/
theorem reading_of_prefix {before : List (StatsTick (List (Container × PyVal)))}
    {tick : StatsTick (List (Container × PyVal))} (h : before ++ [tick] <+: download) :
    ∃ r, publisher.taken? before tick = some [r] ∧ r.snapshot.id = postgres.id ∧
      r.sample.rxBytes = some (eth0.shows r.monotonicS) := by
  have hview {received : Int} {t : ℚ} (hshows : received = eth0.shows t)
      (htaken : (publisher.taken? before tick).map (·.map view) = some [(postgres.id, t, some received)]) :
      ∃ r, publisher.taken? before tick = some [r] ∧ r.snapshot.id = postgres.id ∧
        r.sample.rxBytes = some (eth0.shows r.monotonicS) := by
    obtain ⟨readings, hreadings, hrows⟩ := Option.map_eq_some_iff.mp htaken
    obtain ⟨r, rfl, hr⟩ := List.map_eq_singleton_iff.mp hrows
    simp only [view, Prod.mk.injEq] at hr
    obtain ⟨hid, rfl, hrx⟩ := hr
    exact ⟨r, hreadings, hid, hrx.trans (congrArg some hshows)⟩
  rcases before with _ | ⟨first, _ | ⟨second, before⟩⟩
  · obtain rfl : tick = tickAt 1000 10 := by simpa [download] using h
    exact hview (t := 10) (by decide +kernel) taken_first
  · obtain ⟨rfl, rfl⟩ : first = tickAt 1000 10 ∧ tick = tickAt 4000 20 := by simpa [download] using h
    exact hview (t := 20) (by decide +kernel) taken_second
  · have hlength := h.length_le
    simp [download] at hlength

theorem adds_up_downloading : carriedBytes .rx postgres.id (publisher.loop download).puts = 3000 ∧
    carriedBytes .rx postgres.id (publisher.loop download).puts ≤
      ((eth0.total 20 - eth0.total 10 : Int) : ℚ) := by
  have hclock : download.Pairwise fun tick tick' => ∀ p q, tick.monotonicS p < tick'.monotonicS q :=
    List.pairwise_pair.mpr fun _ _ => by norm_num [tickAt]
  have hm : Metered publisher eth0 .rx postgres.id 10 download := {
    clock := hclock.imp fun hlt p q => (hlt p q).le
    start := by norm_num [download, tickAt]
    once := by
      intro tick ht snapshots w hlist
      simp only [download, List.mem_cons, List.not_mem_nil, or_false] at ht
      rcases ht with rfl | rfl <;> cases hlist <;> exact List.nodup_singleton _
    shows := by
      intro before tick hpre readings htaken r hr _ n hn
      obtain ⟨r', htaken', -, hrx⟩ := reading_of_prefix hpre
      cases htaken'.symm.trans htaken
      cases List.mem_singleton.mp hr
      exact Option.some.inj (hn.symm.trans hrx) }
  have hadds := adds_up hm
  refine ⟨?_, (hadds.1 _ (List.Sublist.refl _) 20 (by norm_num) (by norm_num [download, tickAt])).2⟩
  have hs : Steady publisher eth0 .rx postgres.id download := {
    clock := hclock
    running := fun _ _ _ _ _ _ => rfl
    rows := fun before tick hpre =>
      have ⟨r, htaken, hid, hrx⟩ := reading_of_prefix hpre
      ⟨[r], htaken, r, List.mem_singleton_self r, hid, Option.isSome_iff_exists.mpr ⟨_, hrx⟩⟩ }
  obtain ⟨before, now, hbefore, hnow, hcarried⟩ := hadds.2 _ _ rfl hs (by decide)
  have hfirst : before.monotonicS = 10 := by
    have htime : ((publisher.loop [tickAt 1000 10]).previous.lookup postgres.id).map
        StatsSample.monotonicS = some 10 := by decide +kernel
    simpa [hbefore] using htime
  have hlast : now.monotonicS = 20 := by
    have htime : ((publisher.loop download).previous.lookup postgres.id).map
        StatsSample.monotonicS = some 20 := by decide +kernel
    simpa [hnow] using htime
  rw [hcarried, hfirst, hlast]
  norm_num [eth0]

end Downloading

end ContainerStatsPublisher

end KeelsonDocker
