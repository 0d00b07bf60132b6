import KeelsonDocker.Verify.FollowerNames

/-!
# One follower for each container

Through every interleaving of the scan with the followers, no two live threads follow one name, a name is
registered from the section of `_spawn` until its follower removes it, and a name that is not registered
when the scan looks is given a thread in that round (`oneFollower`).
-/

namespace KeelsonDocker

namespace FollowerThreads

variable {globs : List String} {s : FollowerThreads} {name : String} {events : List ThreadEvent}
  {e : ThreadEvent}

/-! ### The registry -/

/-- The section of `_spawn` under the lock. -/
def Registers (s : FollowerThreads) (e : ThreadEvent) (name : String) : Prop :=
  ∃ known names listed, s.scan = .choosing known (name :: names) ∧ name ∉ known ∧ e = .scan listed

/-- `self._followers.pop(name, None)` by a follower of the name. -/
def Removes (s : FollowerThreads) (e : ThreadEvent) (name : String) : Prop :=
  ∃ i ending, s.threads[i]? = some (name, .leaving) ∧ e = .follow i ending

/-- A follower of the name has been registered and has not removed itself since. -/
inductive Registered (globs : List String) : List ThreadEvent → String → Prop
  | spawned {events : List ThreadEvent} {e : ThreadEvent} {name : String}
      (registers : (run globs events).Registers e name) : Registered globs (events ++ [e]) name
  | kept {events : List ThreadEvent} {e : ThreadEvent} {name : String}
      (before : Registered globs events name) (stays : ¬ (run globs events).Removes e name) :
      Registered globs (events ++ [e]) name

theorem registered_concat : Registered globs (events ++ [e]) name ↔
    (run globs events).Registers e name ∨
      Registered globs events name ∧ ¬ (run globs events).Removes e name := by
  constructor
  · intro h
    generalize hevents : events ++ [e] = events' at h
    cases h with
    | spawned registers =>
      obtain ⟨rfl, rfl⟩ := List.concat_inj.mp (by simpa using hevents)
      exact .inl registers
    | kept before stays =>
      obtain ⟨rfl, rfl⟩ := List.concat_inj.mp (by simpa using hevents)
      exact .inr ⟨before, stays⟩
  · rintro (h | ⟨h, hstays⟩)
    · exact .spawned h
    · exact .kept h hstays

theorem mem_keys_scanStep (listed : Option (List String)) :
    name ∈ (s.scanStep globs listed).followers.map Prod.fst ↔
      s.Registers (.scan listed) name ∨ name ∈ s.followers.map Prod.fst := by
  cases hscan : s.scan with
  | choosing known names =>
    cases names with
    | nil => simp [scanStep, Registers, hscan]
    | cons other names =>
      by_cases hknown : other ∈ known
      · have hnot : ¬ s.Registers (.scan listed) name := by
          rintro ⟨_, _, _, hscan', hnew, -⟩
          cases hscan.symm.trans hscan'
          exact hnew hknown
        simp [scanStep, hscan, hknown, hnot]
      · have hregisters : s.Registers (.scan listed) name ↔ name = other := by
          constructor
          · rintro ⟨_, _, _, hscan', -, -⟩
            cases hscan.symm.trans hscan'
            rfl
          · rintro rfl
            exact ⟨known, names, listed, hscan, hknown, rfl⟩
        simp only [scanStep, hscan, if_neg hknown, hregisters]
        exact Dict.mem_keys_set
  | spawning other known names =>
    cases listed <;> simp [scanStep, Registers, hscan]
  | head | listing | listed names | waiting | done => simp [scanStep, Registers, hscan]

/-- A follower changes the names in `_followers` only by removing its own. -/
theorem Paired.mem_keys_follow {i : Nat} (h : s.Paired) (ending : CallEnd) :
    name ∈ (s.step globs (.follow i ending)).followers.map Prod.fst ↔
      name ∈ s.followers.map Prod.fst ∧ ¬ s.Removes (.follow i ending) name := by
  cases hi : s.threads[i]? with
  | none =>
    have hnot : ¬ s.Removes (.follow i ending) name := by
      rintro ⟨j, _, hj, ⟨⟩⟩
      cases hi.symm.trans hj
    rw [step_follow_none ending hi]
    exact (and_iff_left hnot).symm
  | some thread =>
    obtain ⟨other, place⟩ := thread
    have hremoves : s.Removes (.follow i ending) name ↔ place = .leaving ∧ name = other := by
      constructor
      · rintro ⟨j, _, hj, ⟨⟩⟩
        cases hi.symm.trans hj
        exact ⟨rfl, rfl⟩
      · rintro ⟨rfl, rfl⟩
        exact ⟨i, ending, hi, rfl⟩
    rw [step_follow ending hi, hremoves]
    have hstays (hplace : place ≠ .leaving)
        (hfollowers : (s.followStep other ending place).1.followers = s.followers) :
        name ∈ (s.followStep other ending place).1.followers.map Prod.fst ↔
          name ∈ s.followers.map Prod.fst ∧ ¬ (place = .leaving ∧ name = other) := by
      simp [hfollowers, hplace]
    cases place with
    | leaving =>
      simp only [FollowerThreads.followStep, true_and]
      exact Dict.mem_keys_pop_iff
    | opened n =>
      have hkey : other ∈ s.followers.map Prod.fst :=
        h.known (List.mem_of_getElem? hi) (by simp)
      simp only [FollowerThreads.followStep, Dict.mem_keys_set]
      constructor
      · rintro (rfl | hname)
        · exact ⟨hkey, by simp⟩
        · exact ⟨hname, by simp⟩
      · exact fun hname => .inr hname.1
    | opening => cases ending <;> exact hstays (by simp) rfl
    | reading n => cases ending <;> exact hstays (by simp) rfl
    | _ => exact hstays (by simp) rfl

theorem Paired.mem_keys_step (h : s.Paired) : name ∈ (s.step globs e).followers.map Prod.fst ↔
    s.Registers e name ∨ name ∈ s.followers.map Prod.fst ∧ ¬ s.Removes e name := by
  cases e with
  | stop =>
    have hnot : ¬ s.Registers .stop name := by
      rintro ⟨_, _, _, _, _, ⟨⟩⟩
    have hstays : ¬ s.Removes .stop name := by
      rintro ⟨_, _, _, ⟨⟩⟩
    show name ∈ s.stopStep.followers.map Prod.fst ↔ _
    simp only [stopStep_frame.2.1, hnot, hstays, false_or, not_false_eq_true, and_true]
  | scan listed =>
    have hstays : ¬ s.Removes (.scan listed) name := by
      rintro ⟨_, _, _, ⟨⟩⟩
    show name ∈ (s.scanStep globs listed).followers.map Prod.fst ↔ _
    simp only [mem_keys_scanStep, hstays, not_false_eq_true, and_true]
  | follow i ending =>
    have hnot : ¬ s.Registers (.follow i ending) name := by
      rintro ⟨_, _, _, _, _, ⟨⟩⟩
    rw [h.mem_keys_follow, or_iff_right hnot]

/-- No answer of the daemon names two containers alike. -/
def UniqueNames (events : List ThreadEvent) : Prop := ∀ names, .scan (some names) ∈ events → names.Nodup

theorem UniqueNames.of_append {before after : List ThreadEvent} (h : UniqueNames (before ++ after)) :
    UniqueNames before :=
  fun names hnames => h names (List.mem_append_left _ hnames)

theorem registered_iff (h : UniqueNames events) :
    name ∈ (run globs events).followers.map Prod.fst ↔ Registered globs events name := by
  induction events using List.reverseRecOn with
  | nil =>
    refine iff_of_false List.not_mem_nil fun h => ?_
    generalize hevents : ([] : List ThreadEvent) = events at h
    cases h <;> simp at hevents
  | append_singleton events e ih =>
    rw [run_concat, (Paired.run h.of_append).mem_keys_step, registered_concat, ih h.of_append]

/-! ### The threads of the names -/

/-- No `thread.start()` raises. -/
def StartsSucceed (globs : List String) (events : List ThreadEvent) : Prop :=
  ∀ before after, events = before ++ .scan none :: after →
    ∀ name known names, (run globs before).scan ≠ .spawning name known names

theorem StartsSucceed.of_concat (h : StartsSucceed globs (events ++ [e])) : StartsSucceed globs events := by
  intro before after hevents
  apply h before (after ++ [e])
  rw [hevents, List.append_assoc, List.cons_append]

theorem StartsSucceed.last (h : StartsSucceed globs (events ++ [e])) (he : e = .scan none) :
    ∀ name known names, (run globs events).scan ≠ .spawning name known names :=
  h events [] (by rw [he])

/-- Every registered name is a live thread's, or the one that the scan is about to start a thread for. -/
def Owned (s : FollowerThreads) : Prop := ∀ name ∈ s.followers.map Prod.fst,
  (∃ place, (name, place) ∈ s.threads ∧ place ≠ .done) ∨ ∃ known names, s.scan = .spawning name known names

theorem followStep_eq_done {ending : CallEnd} {place : FollowPlace}
    (h : (s.followStep name ending place).2 = .done) : place = .leaving ∨ place = .done := by
  cases place with
  | leaving => exact .inl rfl
  | done => exact .inr rfl
  | opening | reading n => cases ending <;> cases h
  | opened n | waiting => cases h
  | head | arrived n | emitting n | flushing | raised | tried | asking =>
    simp only [followStep] at h
    split at h <;> cases h

theorem Owned.scanStep (h : s.Owned) (listed : Option (List String))
    (hstart : listed = none → ∀ name known names, s.scan ≠ .spawning name known names) :
    (s.scanStep globs listed).Owned := by
  -- A step that leaves `_followers` and the threads alone.
  have hsame {scan : ScanPlace} (hscan : ∀ name known names, s.scan ≠ .spawning name known names) :
      Owned { s with scan } := by
    intro name hname
    obtain hlive | ⟨known, names, hspawning⟩ := h name hname
    · exact .inl hlive
    · exact absurd hspawning (hscan name known names)
  cases hscan : s.scan with
  | choosing known names =>
    have hnot : ∀ name known names, s.scan ≠ .spawning name known names := by simp [hscan]
    cases names with
    | nil => simpa [FollowerThreads.scanStep, hscan] using hsame hnot
    | cons other names =>
      simp only [FollowerThreads.scanStep, hscan]
      split
      · exact hsame hnot
      · intro name hname
        obtain rfl | hname := Dict.mem_keys_set.mp hname
        · exact .inr ⟨known, names, rfl⟩
        · exact hsame hnot name hname
  | spawning other known names =>
    cases listed with
    | none => exact absurd hscan (hstart rfl other known names)
    | some _ =>
      simp only [FollowerThreads.scanStep, hscan]
      intro name hname
      obtain ⟨place, hmem, hlive⟩ | ⟨_, _, hspawning⟩ := h name hname
      · exact .inl ⟨place, List.mem_append_left _ hmem, hlive⟩
      · cases hscan.symm.trans hspawning
        exact .inl ⟨.head, List.mem_append_right _ (List.mem_singleton_self _), by simp⟩
  | head | listing | listed names | waiting =>
    simpa [FollowerThreads.scanStep, hscan] using hsame (by simp [hscan])
  | done => simpa [FollowerThreads.scanStep, hscan] using h

theorem Owned.step (h : s.Owned) (hpaired : s.Paired)
    (hstart : e = .scan none → ∀ name known names, s.scan ≠ .spawning name known names) :
    (s.step globs e).Owned := by
  cases e with
  | stop =>
    obtain ⟨hthreads, hfollowers, _, hscan⟩ := s.stopStep_frame
    show s.stopStep.Owned
    unfold Owned
    rw [hthreads, hfollowers, hscan]
    exact h
  | scan listed => exact h.scanStep listed fun hlisted => hstart (by rw [hlisted])
  | follow i ending =>
    intro name hname
    obtain ⟨hname, hstays⟩ := hpaired.mem_keys_follow ending |>.mp hname
    cases hi : s.threads[i]? with
    | none =>
      rw [step_follow_none ending hi]
      exact h name hname
    | some thread =>
      obtain ⟨other, before⟩ := thread
      rw [step_follow ending hi]
      refine (h name hname).imp ?_ ?_
      · rintro ⟨place, hmem, hlive⟩
        obtain ⟨j, hj⟩ := List.mem_iff_getElem?.mp hmem
        by_cases hij : i = j
        · subst hij
          cases hi.symm.trans hj
          refine ⟨(s.followStep name ending before).2, ?_, fun hdone => ?_⟩
          · exact List.mem_set (List.getElem?_eq_some_iff.mp hi).1 _
          · obtain rfl | rfl := followStep_eq_done hdone
            · exact hstays ⟨i, ending, hi, rfl⟩
            · exact hlive rfl
        · refine ⟨place, List.mem_iff_getElem?.mpr ⟨j, ?_⟩, hlive⟩
          rw [List.getElem?_set_ne hij]
          exact hj
      · rw [(s.followStep_frame other before ending).2.2.2]
        exact id

theorem owned_run (h : UniqueNames events) (hstarts : StartsSucceed globs events) :
    (run globs events).Owned := by
  induction events using List.reverseRecOn with
  | nil => exact nofun
  | append_singleton events e ih =>
    rw [run_concat]
    exact (ih h.of_append hstarts.of_concat).step (Paired.run h.of_append) hstarts.last

/-- The name of the scan's next thread is registered. -/
theorem Paired.mem_keys_of_spawning {known names : List String} (h : s.Paired)
    (hscan : s.scan = .spawning name known names) : name ∈ s.followers.map Prod.fst := by
  have hscanning := h.scanning
  rw [hscan] at hscanning
  exact hscanning.2.1

/-! ### A round of the scan -/

/-- A thread of the name is among those after the first `n`. -/
def Started (s : FollowerThreads) (n : Nat) (name : String) : Prop :=
  ∃ i place, n ≤ i ∧ s.threads[i]? = some (name, place)

variable (globs e) in
theorem threads_step {i : Nat} {place : FollowPlace} (h : s.threads[i]? = some (name, place)) :
    ∃ place', (s.step globs e).threads[i]? = some (name, place') := by
  cases e with
  | stop =>
    refine ⟨place, ?_⟩
    show s.stopStep.threads[i]? = _
    rw [s.stopStep_frame.1]
    exact h
  | scan listed =>
    refine ⟨place, ?_⟩
    show (s.scanStep globs listed).threads[i]? = _
    obtain heq | ⟨other, heq⟩ := s.scanStep_threads globs listed
    · rw [heq]
      exact h
    · rw [heq, List.getElem?_append_left (List.getElem?_eq_some_iff.mp h).1]
      exact h
  | follow j ending =>
    cases hj : s.threads[j]? with
    | none =>
      rw [step_follow_none ending hj]
      exact ⟨place, h⟩
    | some thread =>
      rw [step_follow ending hj]
      by_cases hij : j = i
      · subst hij
        cases hj.symm.trans h
        exact ⟨_, List.getElem?_set_self (List.getElem?_eq_some_iff.mp h).1⟩
      · exact ⟨place, by rw [List.getElem?_set_ne hij]; exact h⟩

theorem Started.step {n : Nat} (h : s.Started n name) : (s.step globs e).Started n name := by
  obtain ⟨i, place, hle, hi⟩ := h
  obtain ⟨place', hi'⟩ := threads_step globs e hi
  exact ⟨i, place', hle, hi'⟩

/-- The round of the scan has yet to come to the name, and will find it unknown. -/
def Due (s : FollowerThreads) (name : String) : Prop :=
  match s.scan with
  | .listed names => name ∈ names ∧ name ∉ s.followers.map Prod.fst
  | .choosing known names => name ∈ names ∧ name ∉ known
  | .spawning other known names => other = name ∨ name ∈ names ∧ name ∉ known
  | _ => False

/-- The steps that the scan may yet take in its round. -/
def left (s : FollowerThreads) : Nat :=
  match s.scan with
  | .listed names => 2 * names.length + 1
  | .choosing _ names => 2 * names.length
  | .spawning _ _ names => 2 * names.length + 1
  | _ => 0

def isScan : ThreadEvent → Bool
  | .scan _ => true
  | _ => false

theorem Due.left_pos (h : s.Due name) : 0 < s.left := by
  unfold Due at h
  unfold left
  split at h
  · exact Nat.succ_pos _
  · rename_i known names hscan
    have := List.length_pos_of_mem h.1
    omega
  · exact Nat.succ_pos _
  · exact h.elim

variable (globs) in
theorem Due.scanStep (h : s.Due name) (listed : Option (List String))
    (hstart : listed = none → ∀ name known names, s.scan ≠ .spawning name known names) :
    (s.scanStep globs listed).Started s.threads.length name ∨
      (s.scanStep globs listed).Due name ∧ (s.scanStep globs listed).left < s.left := by
  cases hscan : s.scan with
  | listed names =>
    simp only [Due, hscan] at h
    exact .inr (by simpa [FollowerThreads.scanStep, Due, left, hscan] using h)
  | choosing known names =>
    simp only [Due, hscan] at h
    obtain ⟨hmem, hnew⟩ := h
    cases names with
    | nil => cases hmem
    | cons other names =>
      simp only [FollowerThreads.scanStep, left, hscan, List.length_cons]
      obtain rfl | hmem := List.mem_cons.mp hmem
      · rw [if_neg hnew]
        exact .inr ⟨.inl rfl, by dsimp only; omega⟩
      · split
        · exact .inr ⟨⟨hmem, hnew⟩, by dsimp only; omega⟩
        · exact .inr ⟨.inr ⟨hmem, hnew⟩, by dsimp only; omega⟩
  | spawning other known names =>
    simp only [Due, hscan] at h
    cases listed with
    | none => exact absurd hscan (hstart rfl other known names)
    | some _ =>
      simp only [FollowerThreads.scanStep, left, hscan]
      obtain rfl | hrest := h
      · refine .inl ⟨s.threads.length, .head, Nat.le_refl _, ?_⟩
        exact List.getElem?_concat_length
      · exact .inr ⟨hrest, Nat.lt_succ_self _⟩
  | head | listing | waiting | done => simp [Due, hscan] at h

variable (globs) in
/-- What the other threads do leaves the scan where it is, and registers nothing. -/
theorem Due.other (h : s.Due name) (hpaired : s.Paired) (he : isScan e = false) :
    (s.step globs e).Due name ∧ (s.step globs e).left = s.left := by
  have hscan : (s.step globs e).scan = s.scan := by
    cases e with
    | stop => exact s.stopStep_frame.2.2.2
    | scan listed => cases he
    | follow i ending =>
      cases hi : s.threads[i]? with
      | none => rw [step_follow_none ending hi]
      | some thread =>
        rw [step_follow ending hi]
        exact (s.followStep_frame _ _ ending).2.2.2
  have hkeys (hnot : name ∉ s.followers.map Prod.fst) :
      name ∉ (s.step globs e).followers.map Prod.fst := by
    intro hname
    obtain ⟨_, _, _, _, _, rfl⟩ | ⟨hname, -⟩ := hpaired.mem_keys_step.mp hname
    · cases he
    · exact hnot hname
  simp only [Due, left, hscan] at h ⊢
  refine ⟨?_, trivial⟩
  cases hplace : s.scan with
  | listed names =>
    rw [hplace] at h
    exact ⟨h.1, hkeys h.2⟩
  | _ =>
    rw [hplace] at h
    exact h

theorem length_threads_step : s.threads.length ≤ (s.step globs e).threads.length := by
  by_contra hlt
  have hlt := Nat.lt_of_not_le hlt
  obtain ⟨place, hplace⟩ := threads_step globs e (List.getElem?_eq_getElem hlt)
  have := (List.getElem?_eq_some_iff.mp hplace).1
  omega

theorem started_or_due {before after : List ThreadEvent} (h : UniqueNames (before ++ after))
    (hstarts : StartsSucceed globs (before ++ after)) (hdue : (run globs before).Due name) :
    (run globs (before ++ after)).Started (run globs before).threads.length name ∨
      (run globs (before ++ after)).Due name ∧
      (run globs before).threads.length ≤ (run globs (before ++ after)).threads.length ∧
      (run globs (before ++ after)).left + after.countP isScan ≤ (run globs before).left := by
  induction after using List.reverseRecOn with
  | nil => exact .inr (by simpa using hdue)
  | append_singleton after e ih =>
    rw [← List.append_assoc] at h hstarts ⊢
    rw [run_concat]
    obtain hstarted | ⟨hdue, hlength, hleft⟩ := ih h.of_append hstarts.of_concat
    · exact .inl hstarted.step
    · rw [List.countP_append, List.countP_singleton]
      cases he : isScan e with
      | false =>
        obtain ⟨hdue', hleft'⟩ := hdue.other globs (Paired.run h.of_append) he
        refine .inr ⟨hdue', hlength.trans length_threads_step, ?_⟩
        rw [hleft']
        simpa using hleft
      | true =>
        cases e with
        | scan listed =>
          obtain ⟨i, place, hle, hi⟩ | ⟨hdue', hless⟩ :=
            hdue.scanStep globs listed fun hlisted => hstarts.last (by rw [hlisted])
          · exact .inl ⟨i, place, hlength.trans hle, hi⟩
          · refine .inr ⟨hdue', hlength.trans length_threads_step, ?_⟩
            show (scanStep globs (run globs (before ++ after)) listed).left + _ ≤ _
            simp only [if_true]
            omega
        | stop | follow i ending => cases he

/-! ### The property -/

/-- One follower for each name, at the end of a run. -/
structure OneFollower (globs : List String) (events : List ThreadEvent) : Prop where
  /-- No two live threads follow one name. -/
  unique : ∀ {i j : Nat} {name place place'}, (run globs events).threads[i]? = some (name, place) →
    (run globs events).threads[j]? = some (name, place') → place ≠ .done → place' ≠ .done → i = j
  /-- A name is in `_followers` from its registration until its follower removes it. -/
  registered : ∀ name, name ∈ (run globs events).followers.map Prod.fst ↔ Registered globs events name
  /-- Until then there is a live thread, or it is just being started. -/
  followed : StartsSucceed globs events → ∀ name, Registered globs events name ↔
    (∃ place, (name, place) ∈ (run globs events).threads ∧ place ≠ .done) ∨
      ∃ known names, (run globs events).scan = .spawning name known names
  /-- A listing that names a container without a registered follower has a thread started for it, in the
  same round of the scan. -/
  unblocked : StartsSucceed globs events → ∀ before after names name, events = before ++ after →
    (run globs before).scan = .listed names → name ∈ names → ¬ Registered globs before name →
    2 * names.length + 1 ≤ after.countP isScan →
      (run globs events).Started (run globs before).threads.length name

theorem oneFollower (h : UniqueNames events) : OneFollower globs events where
  unique := (Paired.run h).names
  registered _ := registered_iff h
  followed hstarts name := by
    rw [← registered_iff h]
    constructor
    · exact owned_run h hstarts name
    · rintro (⟨place, hmem, hlive⟩ | ⟨known, names, hscan⟩)
      · exact (Paired.run h).known hmem hlive
      · exact (Paired.run h).mem_keys_of_spawning hscan
  unblocked hstarts before after names name hevents hscan hmem hnot hsteps := by
    subst hevents
    have hdue : (run globs before).Due name := by
      rw [← registered_iff h.of_append] at hnot
      simp only [Due, hscan]
      exact ⟨hmem, hnot⟩
    obtain hstarted | ⟨hdue', -, hleft⟩ := started_or_due h hstarts hdue
    · exact hstarted
    · have hpos := hdue'.left_pos
      simp only [left, hscan] at hleft
      simp only [left] at hpos
      omega

/-! ### A container that comes back -/

namespace Again

/-- A whole round of the scan, whose listing names one container. -/
def round : List ThreadEvent :=
  [.scan none, .scan (some ["web"]), .scan none, .scan none, .scan (some []), .scan none, .scan none]

/-- A follower whose container is gone. -/
def gone : List ThreadEvent :=
  [.follow 0 .returned, .follow 0 .raised, .follow 0 .returned, .follow 0 .returned, .follow 0 .raised,
    .follow 0 .returned]

theorem oneFollower_again :
    (run ["*"] (round ++ gone ++ round)).threads = [("web", .done), ("web", .head)] ∧
      OneFollower ["*"] (round ++ gone ++ round) := by
  refine ⟨by decide +kernel, oneFollower ?_⟩
  intro names hnames
  have hlists : names = ["web"] ∨ names = [] ∨ names = ["web"] ∨ names = [] := by
    simpa [round, gone] using hnames
  obtain rfl | rfl | rfl | rfl := hlists <;> decide

end Again

end FollowerThreads

end KeelsonDocker
