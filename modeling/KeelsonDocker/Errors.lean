import KeelsonDocker.Py.Value

/-!
# Error codes and exceptions

The codes of an `ErrorResponse` and every exception that crosses a function of the package: the typed
ones of `backend.py`, `platform_repo.py` and `platform_paths.py`, docker-py's, and those of Python.
-/

namespace KeelsonDocker

/-- `ErrorResponse.Code`, as far as the package sends it. -/
inductive Code
  | invalidArgument
  | notFound
  | permissionDenied
  | invalidState
  | unavailable
  | ioFailure
  deriving DecidableEq, Repr

/-- The classes of docker-py: `NotFound` is an `APIError`, which is a `DockerException`. -/
inductive DockerError
  | notFound
  | apiError
  | dockerException
  deriving DecidableEq, Repr

inductive Exn
  /-- `BackendError` -/
  | backend (code : Code) (message : String)
  /-- `RepoError` -/
  | repo (code : Code) (message : String)
  /-- `PathError`, a `ValueError` -/
  | path (message : String)
  | docker (kind : DockerError) (text : String)
  /-- `OSError` -/
  | os (text : String)
  /-- A built-in exception of an operation on a value. -/
  | py (e : PyError)
  /-- Anything else, such as an error of requests or urllib3. -/
  | other (text : String)
  deriving DecidableEq, Repr

/-- `isinstance(exc, (APIError, DockerException))`. -/
def Exn.isDocker : Exn → Bool
  | docker .. => true
  | _ => false

/-- An operation on a value, with its exception among all others. -/
def liftPy : Except PyError α → Except Exn α
  | .ok a => .ok a
  | .error e => .error (.py e)

theorem liftPy_eq_ok {x : Except PyError α} {a : α} : liftPy x = .ok a ↔ x = .ok a := by
  cases x with
  | ok b => exact ⟨fun h => congrArg Except.ok (Except.ok.inj h),
      fun h => congrArg Except.ok (Except.ok.inj h)⟩
  | error e => exact ⟨nofun, nofun⟩

theorem liftPy_get_eq_ok {v x : PyVal} {key : String} (h : liftPy (v.get key) = .ok x) :
    x = v.field key :=
  PyVal.eq_field_of_get (liftPy_eq_ok.mp h)

end KeelsonDocker
