import KeelsonDocker.Verify.LogTail

/-!
# The times of a container's life

The runtime keeps the time of the previous exit when a container is started again, and the description
passes it on: the times of a description are honest at the end of every history, except where the
container runs again after an exit (`honest_iff`).
-/

namespace KeelsonDocker

open Effect

/-! ### Histories -/

/-- What happens to a container after it is created. A restart is an exit and a start. -/
inductive ContainerEvent
  | started (time : Timestamp)
  | exited (code : Int) (time : Timestamp)
  /-- An exit that the restart policy answers. -/
  | restarting (code : Int) (time : Timestamp)
  deriving DecidableEq

def ContainerEvent.isStart : ContainerEvent → Bool
  | .started _ => true
  | _ => false

inductive LifeStatus
  | created | running | restarting | exited
  deriving DecidableEq

/-- The runtime's word for it. -/
def LifeStatus.text : LifeStatus → String
  | .created => "created"
  | .running => "running"
  | .restarting => "restarting"
  | .exited => "exited"

/-- What the runtime remembers of a container. -/
structure Life where
  status : LifeStatus := .created
  startedAt : Option Timestamp := none
  finishedAt : Option Timestamp := none
  exitCode : Int := 0
  deriving DecidableEq

namespace Life

/-- The process is gone; a container that waits for its restart can be stopped. -/
def exit (life : Life) (status : LifeStatus) (code : Int) (time : Timestamp) : Option Life :=
  match life.status with
  | .running | .restarting =>
    some { life with status, finishedAt := some time, exitCode := code }
  | .created | .exited => none

/-- A start leaves the time of the last exit as it is. -/
def step (life : Life) : ContainerEvent → Option Life
  | .started time =>
    if life.status = .running then none
    else some { life with status := .running, startedAt := some time, exitCode := 0 }
  | .exited code time => life.exit .exited code time
  | .restarting code time => life.exit .restarting code time

end Life

/-- The histories that the runtime can report, with what it remembers at their end. -/
inductive Lived : List ContainerEvent → Life → Prop
  | created : Lived [] {}
  | step {history : List ContainerEvent} {life life' : Life} {event : ContainerEvent}
      (past : Lived history life) (next : life.step event = some life') :
      Lived (history ++ [event]) life'

/-- The container has run. -/
def HasRun (history : List ContainerEvent) : Prop := ∃ event ∈ history, event.isStart = true

/-- The container has exited at least once. -/
def HasExited (history : List ContainerEvent) : Prop := ∃ event ∈ history, event.isStart = false

/-- What the runtime remembers is what has happened. -/
structure Remembers (history : List ContainerEvent) (life : Life) : Prop where
  started : life.startedAt.isSome = true ↔ HasRun history
  finished : life.finishedAt.isSome = true ↔ HasExited history
  ran : life.status ≠ .created → HasRun history
  exits : HasExited history → HasRun history

variable {history : List ContainerEvent} {life life' : Life} {event : ContainerEvent}

theorem hasRun_concat : HasRun (history ++ [event]) ↔ HasRun history ∨ event.isStart = true := by
  simp [HasRun, or_and_right, exists_or]

theorem hasExited_concat :
    HasExited (history ++ [event]) ↔ HasExited history ∨ event.isStart = false := by
  simp [HasExited, or_and_right, exists_or]

theorem exit_eq_some {status : LifeStatus} {code : Int} {time : Timestamp}
    (h : life.exit status code time = some life') : life.status ≠ .created ∧
      life' = { life with status, finishedAt := some time, exitCode := code } := by
  unfold Life.exit at h
  split at h
  · rename_i hstatus
    exact ⟨by simp [hstatus], (Option.some.inj h).symm⟩
  · rename_i hstatus
    exact ⟨by simp [hstatus], (Option.some.inj h).symm⟩
  · cases h
  · cases h

theorem Remembers.exit {status : LifeStatus} {code : Int} {time : Timestamp}
    (h : Remembers history life) (hexit : life.exit status code time = some life')
    (hevent : event.isStart = false) : Remembers (history ++ [event]) life' := by
  obtain ⟨hstatus, rfl⟩ := exit_eq_some hexit
  have hran := h.ran hstatus
  exact {
    started := by simp [hasRun_concat, h.started, hevent]
    finished := by simp [hasExited_concat, hevent]
    ran := fun _ => hasRun_concat.mpr (.inl hran)
    exits := fun _ => hasRun_concat.mpr (.inl hran) }

theorem Remembers.step (h : Remembers history life) (hstep : life.step event = some life') :
    Remembers (history ++ [event]) life' := by
  cases event with
  | started time =>
    simp only [Life.step] at hstep
    split at hstep
    · cases hstep
    · cases hstep
      have hrun : HasRun (history ++ [.started time]) := hasRun_concat.mpr (.inr rfl)
      exact {
        started := iff_of_true rfl hrun
        finished := by simp [hasExited_concat, h.finished, ContainerEvent.isStart]
        ran := fun _ => hrun
        exits := fun _ => hrun }
  | exited code time => exact h.exit hstep rfl
  | restarting code time => exact h.exit hstep rfl

theorem Lived.remembers (h : Lived history life) : Remembers history life := by
  induction h with
  | created => exact ⟨by simp [HasRun], by simp [HasExited], fun h => absurd rfl h, by simp [HasExited]⟩
  | step _ next ih => exact ih.step next

/-! ### Descriptions -/

/-- `0001-01-01T00:00:00Z` -/
def zeroInstant : Timestamp := ⟨-62135596800, 0⟩

/-- How the runtime writes a time; one that never was is written as the zero instant, in any form. -/
def Spells (pb : Protobuf) (text : String) : Option Timestamp → Prop
  | none => text ∈ zeroTimes ∨ ∀ ts ∈ pb.timestampFromJson text, ts = zeroInstant
  | some time =>
    text ∉ zeroTimes ∧ pb.timestampFromJson text = some time ∧ time.inYearOne = false

theorem parseDockerTime_of_spells {pb : Protobuf} {text : String} {time : Option Timestamp}
    (h : Spells pb text time) : parseDockerTime pb (.str text) = time := by
  rw [parseDockerTime]
  cases time with
  | none =>
    split
    · rfl
    · rename_i hzero
      have hparsed := h.resolve_left hzero
      split
      · rfl
      · rename_i ts hts
        rw [hparsed ts hts]
        rfl
  | some time =>
    obtain ⟨hzero, hparsed, hyear⟩ := h
    rw [if_neg hzero, hparsed]
    simp [hyear]

/-- `(attrs.get("State") or {})` -/
def inspectedState (snapshot : ContainerSnapshot) : PyVal := (snapshot.attrs.orEmpty.field "State").orEmpty

/-- The snapshot says what the runtime remembers. -/
structure Inspected (pb : Protobuf) (life : Life) (snapshot : ContainerSnapshot) : Prop where
  status : (inspectedState snapshot).field "Status" = .str life.status.text
  started : ∃ text, (inspectedState snapshot).field "StartedAt" = .str text ∧
    Spells pb text life.startedAt
  finished : ∃ text, (inspectedState snapshot).field "FinishedAt" = .str text ∧
    Spells pb text life.finishedAt
  exitCode : (inspectedState snapshot).field "ExitCode" = .int life.exitCode

/-- What a description says of the state and the times is what the runtime remembers. -/
structure Relayed (life : Life) (info : ContainerInfo) : Prop where
  state : info.state = .running ↔ life.status = .running
  startedAt : info.startedAt = life.startedAt
  finishedAt : info.finishedAt = life.finishedAt
  exitCode : info.exitCode.isSome = life.finishedAt.isSome

variable {pb : Protobuf} {snapshot : ContainerSnapshot} {info : ContainerInfo} {a b : Bool}

theorem exitCode_isSome {state : PyVal} {code : Option Int} (h : exitCode pb state = .ok code) :
    code.isSome = (parseDockerTime pb (state.field "FinishedAt")).isSome := by
  obtain ⟨finished, hfinished, h⟩ := bind_eq_ok.mp h
  cases liftPy_get_eq_ok hfinished
  split at h
  · rename_i hnone
    cases h
    simpa using hnone
  · rename_i hsome
    obtain ⟨_, -, h⟩ := bind_eq_ok.mp h
    obtain ⟨_, -, rfl⟩ := map_eq_ok.mp h
    simpa [Option.isSome_iff_ne_none] using hsome

theorem stringAt_eq_ok {d : PyVal} {key text : String} (h : stringAt d key = .ok text) :
    text = ((d.field key).orElse (.str "")).pyStr := by
  obtain ⟨v, hv, h⟩ := bind_eq_ok.mp h
  cases PyVal.eq_field_of_get hv
  cases h
  rfl

theorem containerState_text (status : LifeStatus) :
    containerState ((PyVal.str status.text).orElse (.str "")).pyStr = .running ↔ status = .running := by
  cases status <;> decide +kernel

theorem relayed_of_inspected (hinspected : Inspected pb life snapshot)
    (h : buildContainerInfo pb snapshot a b = .ok info) : Relayed life info := by
  unfold buildContainerInfo at h
  obtain ⟨state, hstate, h⟩ := bind_eq_ok.mp h
  cases liftPy_get_eq_ok hstate
  iterate 4 obtain ⟨_, -, h⟩ := bind_eq_ok.mp h
  obtain ⟨rawState, hraw, h⟩ := bind_eq_ok.mp h
  iterate 8 obtain ⟨_, -, h⟩ := bind_eq_ok.mp h
  obtain ⟨created, -, h⟩ := bind_eq_ok.mp h
  obtain ⟨started, hstarted, h⟩ := bind_eq_ok.mp h
  obtain ⟨finished, hfinished, h⟩ := bind_eq_ok.mp h
  obtain ⟨code, hcode, h⟩ := bind_eq_ok.mp h
  cases h
  obtain ⟨startedText, hstartedText, hstart⟩ := hinspected.started
  obtain ⟨finishedText, hfinishedText, hfinish⟩ := hinspected.finished
  have hfinishedAt : parseDockerTime pb ((inspectedState snapshot).field "FinishedAt") = life.finishedAt := by
    rw [hfinishedText, parseDockerTime_of_spells hfinish]
  cases liftPy_get_eq_ok hstarted
  cases liftPy_get_eq_ok hfinished
  refine ⟨?_, ?_, hfinishedAt, (exitCode_isSome hcode).trans (congrArg _ hfinishedAt)⟩
  · show containerState rawState = .running ↔ life.status = .running
    rw [stringAt_eq_ok (liftPy_eq_ok.mp hraw)]
    show containerState (((inspectedState snapshot).field "Status").orElse (.str "")).pyStr = .running ↔ _
    rw [hinspected.status]
    exact containerState_text life.status
  · show parseDockerTime pb ((inspectedState snapshot).field "StartedAt") = life.startedAt
    rw [hstartedText, parseDockerTime_of_spells hstart]

/-- The times say what has happened. -/
structure Honest (history : List ContainerEvent) (life : Life) (info : ContainerInfo) : Prop where
  started : info.startedAt.isSome = true ↔ HasRun history
  finished : life.status = .running ∨ ¬ HasRun history → info.finishedAt = none
  exitCode : info.exitCode.isSome = true → HasExited history
  /-- Running is what the state says. -/
  state : info.state = .running ↔ life.status = .running

theorem honest_iff (hlived : Lived history life) (hinspected : Inspected pb life snapshot)
    (h : buildContainerInfo pb snapshot a b = .ok info) :
    Honest history life info ↔ ¬ (life.status = .running ∧ HasExited history) := by
  have hremembers := hlived.remembers
  have hrelayed := relayed_of_inspected hinspected h
  constructor
  · rintro hhonest ⟨hrunning, hexited⟩
    have hnone := hhonest.finished (.inl hrunning)
    rw [hrelayed.finishedAt] at hnone
    have hsome := hremembers.finished.mpr hexited
    rw [hnone] at hsome
    cases hsome
  · intro hnot
    have hfinished (hexited : ¬ HasExited history) : info.finishedAt = none := by
      rw [hrelayed.finishedAt, ← Option.not_isSome_iff_eq_none, hremembers.finished]
      exact hexited
    refine ⟨?_, ?_, ?_, hrelayed.state⟩
    · rw [hrelayed.startedAt]
      exact hremembers.started
    · rintro (hrunning | hrun)
      · exact hfinished fun hexited => hnot ⟨hrunning, hexited⟩
      · exact hfinished fun hexited => hrun (hremembers.exits hexited)
    · rw [hrelayed.exitCode]
      exact hremembers.finished.mp

/-! ### A second run -/

namespace SecondRun

def first : Timestamp := ⟨1714557601, 0⟩
def stopped : Timestamp := ⟨1714557602, 0⟩
def second : Timestamp := ⟨1714557603, 0⟩

def inspect (started finished : String) : ContainerSnapshot where
  name := "web"
  id := "1"
  attrs := .dict [("State", .dict
    [("Status", .str "running"), ("StartedAt", .str started), ("FinishedAt", .str finished),
      ("ExitCode", .int 0)])]

theorem lived_first : Lived [.started first] { status := .running, startedAt := some first } :=
  .step .created rfl

theorem honest_first : ∃ info,
    buildContainerInfo TwoStreams.stamped (inspect "2024-05-01T10:00:01Z" "0001-01-01T00:00:00Z")
      true true = .ok info ∧
      Honest [.started first] { status := .running, startedAt := some first } info := by
  have hspelled : Spells TwoStreams.stamped "2024-05-01T10:00:01Z" (some first) :=
    ⟨by decide, rfl, by decide⟩
  have hnever : Spells TwoStreams.stamped "0001-01-01T00:00:00Z" none := .inl (by decide)
  have hinspected : Inspected TwoStreams.stamped { status := .running, startedAt := some first }
      (inspect "2024-05-01T10:00:01Z" "0001-01-01T00:00:00Z") :=
    ⟨rfl, ⟨_, rfl, hspelled⟩, ⟨_, rfl, hnever⟩, rfl⟩
  refine ⟨_, rfl, (honest_iff lived_first hinspected rfl).mpr ?_⟩
  rintro ⟨-, event, hevent, hexit⟩
  cases List.mem_singleton.mp hevent
  cases hexit

/-- While it runs for the second time, the container has finished. -/
theorem not_honest_second : ¬ ∀ (pb : Protobuf) (history : List ContainerEvent) (life : Life)
    (snapshot : ContainerSnapshot) (a b : Bool) (info : ContainerInfo), Lived history life →
      Inspected pb life snapshot → buildContainerInfo pb snapshot a b = .ok info →
        Honest history life info := by
  intro h
  have hlived : Lived [.started first, .exited 0 stopped, .started second]
      { status := .running, startedAt := some second, finishedAt := some stopped } :=
    .step (.step lived_first rfl) rfl
  have hstarted : Spells TwoStreams.stamped "2024-05-01T10:00:03Z" (some second) :=
    ⟨by decide, rfl, by decide⟩
  have hfinished : Spells TwoStreams.stamped "2024-05-01T10:00:02Z" (some stopped) :=
    ⟨by decide, rfl, by decide⟩
  have hhonest := h TwoStreams.stamped _ _ (inspect "2024-05-01T10:00:03Z" "2024-05-01T10:00:02Z")
    true true _ hlived ⟨rfl, ⟨_, rfl, hstarted⟩, ⟨_, rfl, hfinished⟩, rfl⟩ rfl
  cases hhonest.finished (.inl rfl)

end SecondRun

end KeelsonDocker
