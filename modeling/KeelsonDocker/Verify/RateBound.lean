import KeelsonDocker.Verify.RateCap
import Mathlib.Data.Rat.Floor

/-!
# What the rate cap lets through

The window of the limiter opens at a line, not at a second: two full windows may lie in less than one. Over
any stretch of a follower's lines, whatever the connections and however the clock was set, the entries it
puts into the queue are bounded by the cap and the time that the readings span (`handed_le`).
-/

namespace KeelsonDocker

namespace RateLimiter

variable {limiter : RateLimiter} {a b now : ℚ}

/-- How many lines may yet be let through at readings from `a` to `b`: what is left of this window, and
the windows to come. -/
def spare (a b : ℚ) (limiter : RateLimiter) : Int :=
  limiter.maxLinesPerS - min limiter.count limiter.maxLinesPerS +
    limiter.maxLinesPerS * max 0 ⌊b - max limiter.window (a - 1)⌋

theorem spare_nonneg (hcap : 1 ≤ limiter.maxLinesPerS) : 0 ≤ limiter.spare a b := by
  have hwindows : 0 ≤ limiter.maxLinesPerS * max 0 ⌊b - max limiter.window (a - 1)⌋ :=
    mul_nonneg (by omega) (le_max_left _ _)
  unfold spare
  omega

theorem spare_le (hcap : 1 ≤ limiter.maxLinesPerS) (hcount : 0 ≤ limiter.count) (hab : a ≤ b) :
    limiter.spare a b ≤ limiter.maxLinesPerS * (⌊b - a⌋ + 2) := by
  have hfloor : ⌊b - max limiter.window (a - 1)⌋ ≤ ⌊b - a⌋ + 1 := by
    rw [← Int.floor_add_one]
    apply Int.floor_le_floor
    linarith [le_max_right limiter.window (a - 1)]
  have hspan : 0 ≤ ⌊b - a⌋ := Int.floor_nonneg.mpr (by linarith)
  have hwindows : limiter.maxLinesPerS * max 0 ⌊b - max limiter.window (a - 1)⌋ ≤
      limiter.maxLinesPerS * (⌊b - a⌋ + 1) :=
    mul_le_mul_of_nonneg_left (max_le (by omega) hfloor) (by omega)
  unfold spare
  linarith [le_min hcount (show 0 ≤ limiter.maxLinesPerS by omega)]

/-- A line that is let through takes one of those. -/
theorem spare_allow (hcap : 1 ≤ limiter.maxLinesPerS) (ha : a ≤ now) (hb : now ≤ b) :
    (limiter.allow now).2.spare a b + (if (limiter.allow now).1 then 1 else 0) ≤ limiter.spare a b := by
  rw [allow_capped (by omega)]
  by_cases hopen : 1 ≤ now - limiter.window
  · rw [if_pos hopen]
    dsimp only
    rw [if_pos (decide_eq_true hcap)]
    have hmax : max now (a - 1) = now := max_eq_left (by linarith)
    have hnext : max limiter.window (a - 1) + 1 ≤ now := by
      rcases max_choice limiter.window (a - 1) with h | h <;> rw [h] <;> linarith
    have hfloor : ⌊b - now⌋ + 1 ≤ ⌊b - max limiter.window (a - 1)⌋ := by
      rw [← Int.floor_add_one]
      apply Int.floor_le_floor
      linarith
    have hzero : 0 ≤ ⌊b - now⌋ := Int.floor_nonneg.mpr (by linarith)
    have hwindows : limiter.maxLinesPerS * (⌊b - now⌋ + 1) ≤
        limiter.maxLinesPerS * ⌊b - max limiter.window (a - 1)⌋ :=
      mul_le_mul_of_nonneg_left hfloor (by omega)
    unfold spare
    dsimp only
    rw [hmax, max_eq_right hzero, max_eq_right (by omega), min_eq_left hcap]
    linarith [min_le_right limiter.count limiter.maxLinesPerS]
  · rw [if_neg hopen]
    unfold spare
    dsimp only
    split <;> rename_i hroom
    · have := of_decide_eq_true hroom
      omega
    · omega

theorem spare_overflowNote : limiter.overflowNote.2.spare a b = limiter.spare a b := by
  rw [overflowNote_eq]
  rfl

variable (now) in
theorem count_allow (hcount : 0 ≤ limiter.count) : 0 ≤ (limiter.allow now).2.count := by
  by_cases hcap : 0 < limiter.maxLinesPerS
  · rw [allow_capped hcap]
    dsimp only
    split <;> dsimp only <;> omega
  · rw [allow_uncapped (not_lt.mp hcap)]
    exact hcount

end RateLimiter

namespace LogFollower

variable {α : Type} {byte : α → UInt8} {self : LogFollower} {name : String} {f : Following α}
  {a b : ℚ}

/-- The limiter goes by the cap of its follower, and has counted. -/
structure Limits (config : LogFollower) (limiter : RateLimiter) : Prop where
  maxLinesPerS : limiter.maxLinesPerS = config.maxLinesPerS
  count : 0 ≤ limiter.count

variable (byte name a b) in
/-- One call of `_emit`: a line let through, with a note at most. -/
theorem Limits.take (h : Limits self f.limiter) (hcap : 1 ≤ self.maxLinesPerS) (chunk : List α) (now : ℚ) :
    Limits self (self.take byte name f chunk now).limiter ∧
      (a ≤ now → now ≤ b → (self.take byte name f chunk now).entries.length +
        2 * (self.take byte name f chunk now).limiter.spare a b ≤
          f.entries.length + 2 * f.limiter.spare a b) := by
  cases hparse : parseLogLine self.pb (chunk.map byte) .unspecified with
  | none =>
    simp only [LogFollower.take, emit, hparse, List.append_nil]
    exact ⟨h, fun _ _ => le_rfl⟩
  | some line =>
    have hmax := (RateLimiter.maxLinesPerS_allow f.limiter now).trans h.maxLinesPerS
    have hcount := RateLimiter.count_allow now h.count
    have hcap' : 1 ≤ f.limiter.maxLinesPerS := by
      rw [h.maxLinesPerS]
      exact hcap
    have hspare (ha : a ≤ now) (hb : now ≤ b) := RateLimiter.spare_allow hcap' ha hb
    cases hallow : (f.limiter.allow now).1 with
    | false =>
      simp only [LogFollower.take, emit, hparse, hallow, Bool.not_false, if_true, List.append_nil]
      refine ⟨⟨hmax, hcount⟩, fun ha hb => ?_⟩
      have := hspare ha hb
      simp only [hallow, Bool.false_eq_true, if_false] at this
      omega
    | true =>
      simp only [LogFollower.take, emit, hparse, hallow, Bool.not_true, Bool.false_eq_true, if_false]
      refine ⟨?_, fun ha hb => ?_⟩
      · rw [RateLimiter.overflowNote_eq]
        exact ⟨hmax, hcount⟩
      · have hnote : (f.limiter.allow now).2.overflowNote.1.toList.length ≤ 1 := by
          cases (f.limiter.allow now).2.overflowNote.1 <;> simp
        have := hspare ha hb
        rw [hallow, if_pos rfl] at this
        rw [RateLimiter.spare_overflowNote]
        simp only [List.length_append, List.length_map, List.length_singleton, Nat.cast_add,
          Nat.cast_one]
        omega

variable (byte name a b) in
theorem Limits.takes (h : Limits self f.limiter) (hcap : 1 ≤ self.maxLinesPerS)
    (calls : List (List α × ℚ)) : Limits self (self.takes byte name f calls).limiter ∧
      ((∀ call ∈ calls, a ≤ call.2 ∧ call.2 ≤ b) → (self.takes byte name f calls).entries.length +
        2 * (self.takes byte name f calls).limiter.spare a b ≤
          f.entries.length + 2 * f.limiter.spare a b) := by
  induction calls generalizing f with
  | nil => exact ⟨h, fun _ => le_rfl⟩
  | cons call calls ih =>
    obtain ⟨htake, hfirst⟩ := h.take byte name a b hcap call.1 call.2
    obtain ⟨htakes, hrest⟩ := ih htake
    refine ⟨htakes, fun hspan => (hrest fun call' hmem => hspan call' (by simp [hmem])).trans ?_⟩
    obtain ⟨ha, hb⟩ := hspan call List.mem_cons_self
    exact hfirst ha hb

variable (byte self name f) in
/-- What a call puts into the queue comes after what there is. -/
theorem takes_entries (calls : List (List α × ℚ)) : f.entries <+: (self.takes byte name f calls).entries := by
  induction calls generalizing f with
  | nil => exact List.prefix_refl _
  | cons call calls ih => exact (List.prefix_append _ _).trans (ih (self.take byte name f call.1 call.2))

variable (byte self name) in
/-- A follower that has taken these calls. -/
def afterCalls (calls : List (List α × ℚ)) : Following α :=
  self.takes byte name { limiter := { maxLinesPerS := self.maxLinesPerS } } calls

theorem afterCalls_append (calls more : List (List α × ℚ)) :
    self.afterCalls byte name (calls ++ more) = self.takes byte name (self.afterCalls byte name calls) more :=
  List.foldl_append

variable (byte self name) in
/-- What it puts into the queue at these calls. -/
def handed (before during : List (List α × ℚ)) : List LogEntry :=
  (self.afterCalls byte name (before ++ during)).entries.drop (self.afterCalls byte name before).entries.length

/-- **What the rate cap lets through**: of any calls in a row whose readings lie between `a` and `b`, no
more entries come than twice the cap for each second between, and for two more. -/
theorem handed_le {rounds : List (Round α)} {before during later : List (List α × ℚ)}
    (hcap : 1 ≤ self.maxLinesPerS) (hcalls : calls byte {} rounds = before ++ during ++ later)
    (hab : a ≤ b) (hspan : ∀ call ∈ during, a ≤ call.2 ∧ call.2 ≤ b) :
    self.handed byte name before during <:+: (self.follow byte name rounds).entries ∧
      ((self.handed byte name before during).length : Int) ≤ 2 * (self.maxLinesPerS * (⌊b - a⌋ + 2)) := by
  obtain ⟨buffer, hfollow⟩ := follow_eq_takes byte self name rounds
  have hentries : (self.follow byte name rounds).entries =
      (self.afterCalls byte name (before ++ during ++ later)).entries := by
    rw [hfollow, hcalls, afterCalls]
  obtain ⟨entries, hduring⟩ := takes_entries byte self name
    (self.afterCalls byte name before) during
  rw [← afterCalls_append] at hduring
  obtain ⟨more, hmore⟩ := takes_entries byte self name
    (self.afterCalls byte name (before ++ during)) later
  rw [← afterCalls_append] at hmore
  have hhanded : self.handed byte name before during = entries := by
    rw [handed, ← hduring, List.drop_left]
  rw [hhanded]
  constructor
  · exact ⟨(self.afterCalls byte name before).entries, more, by rw [hduring, hmore, hentries]⟩
  · have hfresh : Limits self { maxLinesPerS := self.maxLinesPerS } := ⟨rfl, le_rfl⟩
    obtain ⟨hbefore, -⟩ := hfresh.takes (f := { limiter := { maxLinesPerS := self.maxLinesPerS } })
      byte name a b hcap before
    obtain ⟨hafter, hcount⟩ := hbefore.takes byte name a b hcap during
    have hlength := hcount hspan
    have hnonneg := RateLimiter.spare_nonneg (a := a) (b := b) (hafter.maxLinesPerS.symm ▸ hcap)
    have hle := RateLimiter.spare_le (hbefore.maxLinesPerS.symm ▸ hcap) hbefore.count hab
    rw [hbefore.maxLinesPerS] at hle
    have hgrown := congrArg List.length hduring
    rw [List.length_append] at hgrown
    simp only [afterCalls, List.foldl_append, LogFollower.takes] at hlength hnonneg hle hgrown ⊢
    omega

namespace Burst

/-- The lines `a` and `b` at the end of a second, and `c` as the next one begins. -/
def turn : List (Round UInt8) :=
  [.drained [([97, 10, 98, 10, 99, 10], fun k => if k = 2 then 1 else 19 / 20)] fun _ => 1]

/-- Both windows are in the same twentieth of a second: `a`, the note about `b`, and `c` come through. -/
theorem handed_le_turn : (follower.handed id "app" [] (calls id {} turn)).length = 3 ∧
    ((follower.handed id "app" [] (calls id {} turn)).length : Int) ≤ 2 * (1 * (0 + 2)) := by
  refine ⟨by decide +kernel, ?_⟩
  have hcap : 1 ≤ follower.maxLinesPerS := le_rfl
  have hcalls : calls id {} turn = [] ++ calls id {} turn ++ [] := (List.append_nil _).symm
  have hab : (19 / 20 : ℚ) ≤ 1 := by norm_num
  have hspan : ∀ call ∈ calls id {} turn, (19 / 20 : ℚ) ≤ call.2 ∧ call.2 ≤ 1 := by decide +kernel
  have hfloor : ⌊(1 : ℚ) - 19 / 20⌋ = 0 := by norm_num
  rw [← hfloor]
  exact (handed_le hcap hcalls hab hspan).2

end Burst

end LogFollower

end KeelsonDocker
