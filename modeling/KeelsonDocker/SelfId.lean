import KeelsonDocker.Model
import Mathlib.Data.Finset.Basic

/-!
# `selfid.py`: which container this process runs in

Three strategies, tried in order: the explicit name, the id in `/proc`, the one container that
carries the label.
-/

namespace KeelsonDocker

def selfLabel : String := "keelson.container_control.self"

/-- Every spelling a name and an id establish. -/
def spellings (name containerId : String) : Finset String :=
  ({name, containerId} : Finset String).filter (· ≠ "") ∪
    if 12 ≤ containerId.length then {String.ofList (containerId.toList.take 12)} else ∅

/-! ### The id in `/proc` -/

def isLowerHex (c : Char) : Bool := c.isDigit || ('a' ≤ c && c ≤ 'f')

/-- `[0-9a-f]{64}` at the start: the digits and what follows. -/
def hex64 (cs : List Char) : Option (List Char × List Char) :=
  let ds := cs.take 64
  if ds.length = 64 && ds.all isLowerHex then some (ds, cs.drop 64) else none

/-- `_CONTAINER_ID`, `/containers/([0-9a-f]{64})[/\b]`, at the start. -/
def matchContainerId (cs : List Char) : Option String :=
  let lead := "/containers/".toList
  if lead.isPrefixOf cs then
    match hex64 (cs.drop lead.length) with
    | some (ds, next :: _) => if next = '/' || next = '\x08' then some (String.ofList ds) else none
    | _ => none
  else none

def searchContainerId : List Char → Option String
  | [] => none
  | c :: cs => (matchContainerId (c :: cs)).or (searchContainerId cs)

/-- A word character of `\b`; `/proc/self/cgroup` is ASCII. -/
def isWordChar (c : Char) : Bool := c.isAlphanum || c = '_'

/-- `_CGROUP_ID`, `\b([0-9a-f]{64})\b`, at the start, after the character `prev`. -/
def matchCgroupId (prev : Option Char) (cs : List Char) : Option String :=
  if prev.any isWordChar then none
  else match hex64 cs with
    | some (ds, rest) => if rest.head?.any isWordChar then none else some (String.ofList ds)
    | none => none

def searchCgroupId : (prev : Option Char) → List Char → Option String
  | _, [] => none
  | prev, c :: cs => (matchCgroupId prev (c :: cs)).or (searchCgroupId (some c) cs)

/-- The two files, each `""` when it cannot be read. -/
structure ProcSelf where
  mountinfo : String
  cgroup : String

/-- The full container id as read out of this process's own `/proc`, or `""`. -/
def idFromProc (proc : ProcSelf) : String :=
  match searchContainerId proc.mountinfo.toList with
  | some id => id
  | none => (searchCgroupId none proc.cgroup.toList).getD ""

/-! ### The three strategies -/

/-- What a lookup adds to the spellings: nothing when it raised. -/
def lookedUp : Except Exn ContainerSnapshot → Finset String
  | .ok snapshot => spellings snapshot.name snapshot.id
  | .error _ => ∅

/-- `(identity, how)`; the identity is empty when unresolved. -/
def resolveSelf (explicitName : Option String) (proc : ProcSelf)
    (lookup : String → Except Exn ContainerSnapshot)
    (listByLabel : String → Except Exn (List ContainerSnapshot)) : Finset String × String :=
  let name := explicitName.getD ""
  if name ≠ "" then
    -- A name that does not resolve today is still authoritative.
    (spellings name "" ∪ lookedUp (lookup name), "--self-container-name")
  else
    let containerId := idFromProc proc
    if containerId ≠ "" then
      (spellings "" containerId ∪ lookedUp (lookup containerId), "/proc self-inspection")
    else match listByLabel (selfLabel ++ "=1") with
      | .ok [snapshot] => (spellings snapshot.name snapshot.id, selfLabel ++ " label")
      -- Two candidates: guessing risks protecting the wrong container.
      | _ => (∅, "")

@[simp] theorem mem_spellings {s name containerId : String} :
    s ∈ spellings name containerId ↔
      (s ≠ "" ∧ (s = name ∨ s = containerId)) ∨
        12 ≤ containerId.length ∧ s = String.ofList (containerId.toList.take 12) := by
  unfold spellings
  rw [Finset.mem_union, Finset.mem_filter, Finset.mem_insert, Finset.mem_singleton, and_comm]
  by_cases h : 12 ≤ containerId.length
  · rw [if_pos h, Finset.mem_singleton, and_iff_right h]
  · simp [h]

end KeelsonDocker
