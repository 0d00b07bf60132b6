import KeelsonDocker.Verify.StopFollowers

/-!
# One follower for each name

The scan registers a name before it starts the thread, and goes by the names that were registered. As long
as no answer of the daemon names two containers alike, no two threads follow containers of one name, and
every stream being read is the one registered (`FollowerThreads.Paired.run`): what `stop` then misses are
the threads that have tested the flag and not registered yet (`FollowerThreads.Paired.missed_iff`).
-/

namespace KeelsonDocker

/-- The stream whose frames a thread is going through. -/
def FollowPlace.stream : FollowPlace → Option Nat
  | .reading n | .arrived n | .emitting n => some n
  | _ => none

theorem FollowPlace.ne_done {place : FollowPlace} {n : Nat} (h : place.stream = some n) :
    place ≠ .done := by
  intro hdone
  rw [hdone] at h
  cases h

namespace FollowerThreads

variable {globs : List String} {s : FollowerThreads} {name : String} {n : Nat} {place : FollowPlace}

/-- The names the scan has yet to go through are either known or no thread's. -/
def Scanning (s : FollowerThreads) : ScanPlace → Prop
  | .listed names => names.Nodup
  | .choosing known names => names.Nodup ∧ ∀ name ∈ names, name ∈ known ∨ name ∉ s.followers.map Prod.fst
  | .spawning name known names => (name :: names).Nodup ∧ name ∈ s.followers.map Prod.fst ∧
      (∀ place, (name, place) ∈ s.threads → place = .done) ∧
      ∀ name ∈ names, name ∈ known ∨ name ∉ s.followers.map Prod.fst
  | _ => True

/-- No two threads follow containers of one name, and every stream being read is the one registered. -/
structure Paired (s : FollowerThreads) : Prop where
  names : ∀ {i j : Nat} {name place place'}, s.threads[i]? = some (name, place) →
    s.threads[j]? = some (name, place') → place ≠ .done → place' ≠ .done → i = j
  known : ∀ {name place}, (name, place) ∈ s.threads → place ≠ .done → name ∈ s.followers.map Prod.fst
  registered : ∀ {name place n}, (name, place) ∈ s.threads → place.stream = some n →
    (name, .of n) ∈ s.followers
  scanning : s.Scanning s.scan

/-- The scan is not disturbed by threads of names that it is not about to start one for. -/
theorem Scanning.mono {s' : FollowerThreads} {scan : ScanPlace} (h : s.Scanning scan)
    (hkeys : ∀ other, other ∈ s'.followers.map Prod.fst → other ∈ s.followers.map Prod.fst)
    (hkept : ∀ other, (∀ place, (other, place) ∈ s.threads → place = .done) →
      other ∈ s.followers.map Prod.fst → other ∈ s'.followers.map Prod.fst)
    (hdone : ∀ other place, (∀ place, (other, place) ∈ s.threads → place = .done) →
      (other, place) ∈ s'.threads → place = .done) : s'.Scanning scan := by
  have hrest : ∀ {known names : List String},
      (∀ other ∈ names, other ∈ known ∨ other ∉ s.followers.map Prod.fst) →
      ∀ other ∈ names, other ∈ known ∨ other ∉ s'.followers.map Prod.fst := by
    intro known names hrest other hother
    exact (hrest other hother).imp_right fun hnot hin => hnot (hkeys other hin)
  cases scan with
  | choosing known names => exact ⟨h.1, hrest h.2⟩
  | spawning name known names =>
    obtain ⟨hnodup, hname, hold, hothers⟩ := h
    exact ⟨hnodup, hkept name hold hname, fun place => hdone name place hold, hrest hothers⟩
  | listed names => exact h
  | head | listing | waiting | done => exact trivial

/-- A thread moves, and what it changes in `_followers` is under its name. -/
theorem Paired.move {s' : FollowerThreads} {i : Nat} {place' : FollowPlace} (h : s.Paired)
    (hi : s.threads[i]? = some (name, place)) (hlive : place ≠ .done)
    (hthreads : s'.threads = s.threads.set i (name, place')) (hscan : s'.scan = s.scan)
    (hkeys : ∀ other, other ∈ s'.followers.map Prod.fst → other ∈ s.followers.map Prod.fst)
    (hothers : ∀ other c, other ≠ name → (other, c) ∈ s.followers → (other, c) ∈ s'.followers)
    (hname : place' ≠ .done → name ∈ s'.followers.map Prod.fst)
    (hstream : ∀ n, place'.stream = some n → (name, .of n) ∈ s'.followers) : s'.Paired := by
  have hmem := List.mem_of_getElem? hi
  have hkey := h.known hmem hlive
  have hkeys' : ∀ other, other ≠ name → other ∈ s.followers.map Prod.fst →
      other ∈ s'.followers.map Prod.fst := by
    intro other hne hother
    obtain ⟨⟨_, c⟩, hc, rfl⟩ := List.mem_map.mp hother
    exact List.mem_map_of_mem (hothers _ c hne hc)
  -- A live thread elsewhere has another name.
  have hne : ∀ {j : Nat} {other place''}, i ≠ j → s.threads[j]? = some (other, place'') →
      place'' ≠ .done → other ≠ name := by
    rintro j _ place'' hij hj hlive'' rfl
    exact hij (h.names hi hj hlive hlive'')
  refine ⟨fun hj hk hjlive hklive => ?_, fun hmem' hlive' => ?_, fun hmem' hplace => ?_, ?_⟩
  · rw [hthreads] at hj hk
    obtain ⟨hij, hjeq⟩ | ⟨hij, hj⟩ := getElem?_set_some hj
    · obtain ⟨hik, _⟩ | ⟨hik, hk⟩ := getElem?_set_some hk
      · exact hij.symm.trans hik
      · cases hjeq
        exact absurd rfl (hne hik hk hklive)
    · obtain ⟨_, hkeq⟩ | ⟨_, hk⟩ := getElem?_set_some hk
      · cases hkeq
        exact absurd rfl (hne hij hj hjlive)
      · exact h.names hj hk hjlive hklive
  · obtain ⟨j, hj⟩ := List.mem_iff_getElem?.mp hmem'
    rw [hthreads] at hj
    obtain ⟨_, hjeq⟩ | ⟨hij, hj⟩ := getElem?_set_some hj
    · cases hjeq
      exact hname hlive'
    · exact hkeys' _ (hne hij hj hlive') (h.known (List.mem_of_getElem? hj) hlive')
  · obtain ⟨j, hj⟩ := List.mem_iff_getElem?.mp hmem'
    rw [hthreads] at hj
    obtain ⟨_, hjeq⟩ | ⟨hij, hj⟩ := getElem?_set_some hj
    · cases hjeq
      exact hstream _ hplace
    · have hlive' := FollowPlace.ne_done hplace
      exact hothers _ _ (hne hij hj hlive') (h.registered (List.mem_of_getElem? hj) hplace)
  · rw [hscan]
    refine h.scanning.mono hkeys (fun other hdone hother => ?_) fun other place'' hdone hin => ?_
    · apply hkeys' other _ hother
      rintro rfl
      exact hlive (hdone place hmem)
    · rw [hthreads] at hin
      obtain hin | hin := List.mem_or_eq_of_mem_set hin
      · exact hdone place'' hin
      · cases hin
        exact absurd (hdone place hmem) hlive

/-- Nothing changes but where the scan is. -/
theorem Paired.rescan {scan : ScanPlace} (h : s.Paired) (hscanning : s.Scanning scan) :
    Paired { s with scan } where
  names := h.names
  known := h.known
  registered := h.registered
  scanning := by
    cases scan <;> exact hscanning

/-- `_spawn` registers a name that no thread has. -/
theorem Paired.reserve {known names : List String} (h : s.Paired) (hnodup : (name :: names).Nodup)
    (hnew : name ∉ s.followers.map Prod.fst)
    (hrest : ∀ other ∈ names, other ∈ known ∨ other ∉ s.followers.map Prod.fst) :
    Paired { s with
      followers := Dict.set name .placeholder s.followers, scan := .spawning name known names } where
  names := h.names
  known hmem hlive := Dict.mem_keys_set.mpr (.inr (h.known hmem hlive))
  registered hmem hplace := by
    refine Dict.mem_set_of_ne ?_ (h.registered hmem hplace)
    rintro rfl
    exact hnew (h.known hmem (FollowPlace.ne_done hplace))
  scanning := by
    refine ⟨hnodup, Dict.mem_keys_set.mpr (.inl rfl), fun place hmem => ?_, fun other hother => ?_⟩
    · by_contra hlive
      exact hnew (h.known hmem hlive)
    · refine (hrest other hother).imp_right fun hnot hin => ?_
      obtain rfl | hin := Dict.mem_keys_set.mp hin
      · exact (List.nodup_cons.mp hnodup).1 hother
      · exact hnot hin

/-- `_spawn` starts the thread. -/
theorem Paired.spawn {known names : List String} (h : s.Paired)
    (hscanning : s.Scanning (.spawning name known names)) :
    Paired { s with threads := s.threads ++ [(name, .head)], scan := .choosing known names } := by
  obtain ⟨hnodup, hkey, hdone, hrest⟩ := hscanning
  have hcases : ∀ {j : Nat} {other place}, (s.threads ++ [(name, .head)])[j]? = some (other, place) →
      s.threads[j]? = some (other, place) ∨
        j = s.threads.length ∧ other = name ∧ place = .head := by
    intro j other place hj
    rw [List.getElem?_append] at hj
    split at hj
    · exact .inl hj
    · rename_i hlt
      obtain ⟨hjlt, heq⟩ := List.getElem?_eq_some_iff.mp hj
      rw [List.length_singleton] at hjlt
      have hmem := List.mem_singleton.mp (List.mem_of_getElem? hj)
      cases hmem
      exact .inr ⟨by omega, rfl, rfl⟩
  have hmem_cases : ∀ {other place}, (other, place) ∈ s.threads ++ [(name, .head)] →
      (other, place) ∈ s.threads ∨ other = name ∧ place = .head := by
    intro other place hmem
    obtain hmem | hmem := List.mem_append.mp hmem
    · exact .inl hmem
    · cases List.mem_singleton.mp hmem
      exact .inr ⟨rfl, rfl⟩
  refine ⟨fun hj hk hjlive hklive => ?_, fun hmem hlive => ?_, fun hmem hplace => ?_,
    (List.nodup_cons.mp hnodup).2, hrest⟩
  · obtain hjold | ⟨hjlast, rfl, rfl⟩ := hcases hj
    · obtain hkold | ⟨_, rfl, rfl⟩ := hcases hk
      · exact h.names hjold hkold hjlive hklive
      · exact absurd (hdone _ (List.mem_of_getElem? hjold)) hjlive
    · obtain hkold | ⟨hklast, _, _⟩ := hcases hk
      · exact absurd (hdone _ (List.mem_of_getElem? hkold)) hklive
      · exact hjlast.trans hklast.symm
  · obtain hmem | ⟨rfl, rfl⟩ := hmem_cases hmem
    · exact h.known hmem hlive
    · exact hkey
  · obtain hmem | ⟨rfl, rfl⟩ := hmem_cases hmem
    · exact h.registered hmem hplace
    · cases hplace

theorem Paired.scanStep (h : s.Paired) {listed : Option (List String)}
    (hlisted : ∀ names ∈ listed, names.Nodup) : (s.scanStep globs listed).Paired := by
  have hscanning := h.scanning
  unfold FollowerThreads.scanStep
  cases hs : s.scan with
  | head =>
    apply h.rescan
    split <;> exact trivial
  | listing =>
    refine h.rescan (List.Nodup.filter _ ?_)
    cases listed with
    | none => exact List.nodup_nil
    | some names => exact hlisted names rfl
  | listed names =>
    rw [hs] at hscanning
    exact h.rescan ⟨hscanning, fun name _ => em _⟩
  | choosing known names =>
    rw [hs] at hscanning
    obtain ⟨hnodup, hrest⟩ := hscanning
    cases names with
    | nil => exact h.rescan trivial
    | cons name names =>
      have hrest' : ∀ other ∈ names, other ∈ known ∨ other ∉ s.followers.map Prod.fst :=
        fun other hother => hrest other (List.mem_cons_of_mem _ hother)
      dsimp only
      split
      · exact h.rescan ⟨(List.nodup_cons.mp hnodup).2, hrest'⟩
      · rename_i hknown
        exact h.reserve hnodup ((hrest name List.mem_cons_self).resolve_left hknown) hrest'
  | spawning name known names =>
    rw [hs] at hscanning
    cases listed with
    | none => exact h.rescan trivial
    | some _ => exact h.spawn hscanning
  | waiting => exact h.rescan trivial
  | done => exact h

/-- A thread goes on with the stream it had, or with the one it was handed. -/
theorem stream_followStep {ending : CallEnd} (h : (s.followStep name ending place).2.stream = some n) :
    place.stream = some n ∨ place = .opened n := by
  cases place with
  | opened m =>
    cases h
    exact .inr rfl
  | reading m => cases ending <;> first | exact .inl h | cases h
  | emitting m | arrived m =>
    simp only [followStep] at h
    split at h
    · cases h
    · exact .inl h
  | opening => cases ending <;> cases h
  | head | flushing | raised | tried | asking =>
    simp only [followStep] at h
    split at h <;> cases h
  | waiting | leaving | done => cases h

theorem Paired.followStep {i : Nat} (h : s.Paired) (ending : CallEnd)
    (hi : s.threads[i]? = some (name, place)) : Paired { (s.followStep name ending place).1 with
      threads := s.threads.set i (name, (s.followStep name ending place).2) } := by
  have hmem := List.mem_of_getElem? hi
  -- Where `_followers` stays as it is, the thread goes on with the stream it had, or with none.
  have hstay : ∀ {s' : FollowerThreads}, place ≠ .done → (∀ n, place ≠ .opened n) →
      s'.followers = s.followers → s'.scan = s.scan →
      Paired { s' with threads := s.threads.set i (name, (s.followStep name ending place).2) } := by
    intro s' hlive hopened hfollowers hscan
    refine h.move hi hlive rfl hscan (fun other hin => ?_) (fun other c _ hin => ?_) (fun _ => ?_)
      fun n hn => ?_
    · exact hfollowers ▸ hin
    · exact hfollowers ▸ hin
    · exact hfollowers ▸ h.known hmem hlive
    · exact hfollowers ▸ h.registered hmem ((stream_followStep hn).resolve_right (hopened n))
  cases place with
  | opened n =>
    have hlive : FollowPlace.opened n ≠ .done := by simp
    refine h.move hi hlive rfl rfl (fun other hin => ?_) (fun other c hne hin => ?_) (fun _ => ?_)
      fun m hm => ?_
    · obtain rfl | hin := Dict.mem_keys_set.mp hin
      · exact h.known hmem hlive
      · exact hin
    · exact Dict.mem_set_of_ne hne hin
    · exact Dict.mem_keys_set.mpr (.inl rfl)
    · cases hm
      exact Dict.mem_set_self
  | leaving =>
    refine h.move hi (by simp) rfl rfl (fun other hin => Dict.mem_keys_pop hin)
      (fun other c hne hin => Dict.mem_pop_of_ne hne hin) (fun hlive => absurd rfl hlive) ?_
    intro n hn
    cases hn
  | done =>
    have hset : s.threads.set i (name, .done) = s.threads := by
      obtain ⟨hlt, heq⟩ := List.getElem?_eq_some_iff.mp hi
      rw [← heq]
      exact List.set_getElem_self hlt
    simp only [FollowerThreads.followStep, hset]
    exact h
  | opening => cases ending <;> exact hstay (by simp) (by simp) rfl rfl
  | reading n => cases ending <;> exact hstay (by simp) (by simp) rfl rfl
  | _ => exact hstay (by simp) (by simp) rfl rfl

theorem Paired.step (h : s.Paired) {e : ThreadEvent}
    (he : ∀ names, e = .scan (some names) → names.Nodup) : (s.step globs e).Paired := by
  cases e with
  | stop =>
    obtain ⟨hthreads, hfollowers, _, hscan⟩ := s.stopStep_frame
    change s.stopStep.Paired
    refine ⟨?_, ?_, ?_, ?_⟩
    · rw [hthreads]
      exact h.names
    · rw [hthreads, hfollowers]
      exact h.known
    · rw [hthreads, hfollowers]
      exact h.registered
    · unfold Scanning
      rw [hthreads, hfollowers, hscan]
      exact h.scanning
  | scan listed =>
    refine h.scanStep fun names hnames => ?_
    cases hnames
    exact he names rfl
  | follow i ending =>
    cases hi : s.threads[i]? with
    | none =>
      rw [step_follow_none ending hi]
      exact h
    | some thread =>
      rw [step_follow ending hi]
      exact h.followStep ending hi

/-- When no answer of the daemon names two containers alike, no registered stream is ever replaced while it
is being read. -/
theorem Paired.run {events : List ThreadEvent}
    (h : ∀ names, .scan (some names) ∈ events → names.Nodup) :
    (FollowerThreads.run globs events).Paired := by
  refine List.foldlRecOn events _ ⟨nofun, nofun, nofun, trivial⟩ fun _ hs e he => ?_
  refine hs.step fun names hnames => h names ?_
  rw [← hnames]
  exact he

/-- What `stop` misses then are the threads between their test of the flag and the registration. -/
theorem Paired.missed_iff (h : s.Paired) (hmem : (name, place) ∈ s.threads) :
    s.Missed place ↔ place = .opening ∨ ∃ n, place = .opened n := by
  have hstream : ∀ n, place.stream = some n → .of n ∈ s.closers := fun n hn =>
    List.mem_map_of_mem (h.registered hmem hn)
  cases place with
  | reading n | emitting n =>
    refine ⟨fun hmissed => absurd (hstream n rfl) hmissed, ?_⟩
    rintro (hplace | ⟨_, hplace⟩) <;> cases hplace
  | opening => exact ⟨fun _ => .inl rfl, fun _ => trivial⟩
  | opened n => exact ⟨fun _ => .inr ⟨n, rfl⟩, fun _ => trivial⟩
  | _ =>
    refine ⟨fun hmissed => hmissed.elim, ?_⟩
    rintro (hplace | ⟨_, hplace⟩) <;> cases hplace

end FollowerThreads

end KeelsonDocker
