import KeelsonDocker.Model
import Mathlib.Data.Finset.Basic

/-!
# `guard.py`: who may start, stop, restart or remove what

The handlers decide on the request's string alone, the reported flags on a container's name and id.
-/

namespace KeelsonDocker

/-- The answer to "may I mutate this container?". -/
structure Decision where
  allowed : Bool
  reason : String := ""
  code : Code := .permissionDenied
  deriving DecidableEq, Repr

def Decision.ALLOWED : Decision := { allowed := true }

/-- Read-only unless told otherwise, then only for named containers. -/
structure ControlGuard where
  controlEnabled : Bool := false
  allowGlobs : List String := []
  /-- Empty is the switch: there is no separate flag for removal. -/
  removeGlobs : List String := []
  /-- Every resolved spelling of this responder's own container. -/
  selfIdentity : Finset String := ∅
  deriving DecidableEq

/-- `", ".join(globs) or "<none>"`. -/
def joinGlobs (globs : List String) : String :=
  let joined := ", ".intercalate globs
  if joined = "" then "<none>" else joined

namespace ControlGuard

def removeEnabled (guard : ControlGuard) : Bool :=
  guard.controlEnabled && !guard.removeGlobs.isEmpty

def isSelf (guard : ControlGuard) (name : String) (containerId : String := "") : Bool :=
  if name ≠ "" ∧ name ∈ guard.selfIdentity then true
  else if containerId ≠ "" ∧ containerId ∈ guard.selfIdentity then true
  else
    -- Callers see the full id; the identity may hold a short one, or the reverse.
    containerId ≠ "" ∧ ∃ known ∈ guard.selfIdentity, 12 ≤ known.length ∧
      (known.toList <+: containerId.toList ∨ containerId.toList <+: known.toList)

def against (guard : ControlGuard) (globs : List String)
    (listName name containerId verb : String) : Decision :=
  if guard.isSelf name containerId then
    { allowed := false
      reason := "refusing to " ++ verb ++ " " ++ pyRepr name ++ ": that is this responder's own " ++
        "container, and stopping it would kill this call mid-flight" }
  else if !matchesAny name globs then
    { allowed := false
      reason := pyRepr name ++ " is not in this responder's " ++ listName ++ " allow-list (" ++
        joinGlobs globs ++ ")" }
  else .ALLOWED

/-- Whether one of the reversible verbs may be performed. -/
def decide (guard : ControlGuard) (name : String) (containerId : String := "")
    (verb : String := "control") : Decision :=
  if !guard.controlEnabled then
    { allowed := false
      reason := "container control is disabled on this responder " ++
        "(start it with --allow-control)" }
  else guard.against guard.allowGlobs "control" name containerId verb

/-- Whether `remove` may delete the named container. -/
def decideRemove (guard : ControlGuard) (name : String) (containerId : String := "") : Decision :=
  if !guard.controlEnabled then
    { allowed := false
      reason := "container control is disabled on this responder " ++
        "(start it with --allow-control and --allow-remove)" }
  else if guard.removeGlobs.isEmpty then
    { allowed := false
      reason := "container removal is disabled on this responder; enabling " ++
        "start/stop/restart does not enable it (start it with --allow-remove GLOB)" }
  else guard.against guard.removeGlobs "remove" name containerId "remove"

/-- What `ContainerInfo.controllable` should say. -/
def controllable (guard : ControlGuard) (name : String) (containerId : String := "") : Bool :=
  (guard.decide name containerId).allowed

/-- What `ContainerInfo.removable` should say. -/
def removable (guard : ControlGuard) (name : String) (containerId : String := "") : Bool :=
  (guard.decideRemove name containerId).allowed

/-! ### What a decision rests on -/

@[simp] theorem against_allowed (guard : ControlGuard) (globs : List String)
    (listName name containerId verb : String) :
    (guard.against globs listName name containerId verb).allowed = true ↔
      guard.isSelf name containerId = false ∧ matchesAny name globs = true := by
  unfold against
  cases guard.isSelf name containerId <;> cases matchesAny name globs <;> simp [Decision.ALLOWED]

theorem decide_allowed (guard : ControlGuard) (name containerId verb : String) :
    (guard.decide name containerId verb).allowed = true ↔
      guard.controlEnabled = true ∧ guard.isSelf name containerId = false ∧
        matchesAny name guard.allowGlobs = true := by
  unfold ControlGuard.decide
  cases guard.controlEnabled <;> simp

theorem decideRemove_allowed (guard : ControlGuard) (name containerId : String) :
    (guard.decideRemove name containerId).allowed = true ↔
      guard.controlEnabled = true ∧ guard.isSelf name containerId = false ∧
        matchesAny name guard.removeGlobs = true := by
  unfold decideRemove
  cases guard.controlEnabled with
  | false => simp
  | true =>
    cases hg : guard.removeGlobs with
    | nil => simp [matchesAny]
    | cons g gs => simp

/-- A handler passes no id: only a spelling the identity holds is recognised. -/
theorem isSelf_name (guard : ControlGuard) (name : String) :
    guard.isSelf name = true ↔ name ≠ "" ∧ name ∈ guard.selfIdentity := by
  unfold isSelf
  by_cases h : name ≠ "" ∧ name ∈ guard.selfIdentity <;> simp [h]

/-- A container is recognised by its name or by its id. -/
theorem isSelf_eq_or (guard : ControlGuard) (name containerId : String) :
    guard.isSelf name containerId = (guard.isSelf name || guard.isSelf "" containerId) := by
  by_cases h : name ≠ "" ∧ name ∈ guard.selfIdentity
  · have hn := (guard.isSelf_name name).mpr h
    rw [hn, Bool.true_or]
    unfold isSelf
    rw [if_pos h]
  · have hn : guard.isSelf name = false := by
      rw [← Bool.not_eq_true, guard.isSelf_name]; exact h
    rw [hn, Bool.false_or]
    unfold isSelf
    rw [if_neg h, if_neg (fun h : "" ≠ "" ∧ _ => h.1 rfl)]

end ControlGuard

end KeelsonDocker
