import KeelsonDocker.Handlers
import KeelsonDocker.SelfId

/-!
# `app.py`: assembling the guard at startup
-/

namespace KeelsonDocker

/-- The flags `build_guard` reads. -/
structure Args where
  allowControl : Bool
  allow : List String
  allowRemove : List String
  selfContainerName : Option String

variable {σ : Type}

/-- Resolve self-identity and assemble the guard; `none` is `sys.exit`. -/
def buildGuard (E : Engine σ) (args : Args) (proc : ProcSelf) (d : σ) : Option ControlGuard :=
  -- Read-only needs no self-identity: nothing is controllable anyway.
  if !args.allowControl then some { controlEnabled := false }
  else
    let (identity, _) := resolveSelf args.selfContainerName proc
      (fun s => outcome (DockerBackend.get E s) d)
      (fun label => outcome (DockerBackend.list E false (some label)) d)
    if identity = ∅ then none
    else some {
      controlEnabled := true
      allowGlobs := args.allow
      removeGlobs := args.allowRemove
      selfIdentity := identity }

end KeelsonDocker
