import KeelsonDocker.PlatformPaths
import KeelsonDocker.Yaml

/-!
# `platform_repo.py`: compose files, strictly

A loader that refuses duplicate mapping keys, as `docker compose` does, and the count of services.
-/

namespace KeelsonDocker.PlatformRepo

open FileSystem Yaml

variable {ι κ : Type} [DecidableEq ι] [DecidableEq κ] (L : Library κ)

section

variable (construct : ι → Construct ι κ Unit (Value ι κ))

/-- The loop of `_no_duplicate_keys`, over the keys as they stand before flattening. -/
def checkKeys : List κ → List (ι × ι) → Construct ι κ Unit Unit
  | _, [] => pure ()
  | seen, (key, value) :: pairs => do
    if ← fetch fun s => s.nodes.isMerge (key, value) then checkKeys seen pairs
    else
      match ← construct key with
      | .scalar k =>
        if k ∈ seen then
          let shown ← orRaise ((L.repr k).mapError .raised)
          throw (.duplicateKey shown)
        else checkKeys (k :: seen) pairs
      -- `key in seen` hashes the key.
      | _ => raise (.raised (.py .typeError))

/-- What `_no_duplicate_keys` does before it flattens. -/
def checkNode (id : ι) : Construct ι κ Unit Unit := do
  match (← fetch (·.nodes id)).content with
  | .mapping pairs => checkKeys L construct [] pairs
  -- What else a `!!map` tag may stand on is no list of pairs.
  | .sequence items => if items = [] then pure () else raise (.raised (.py .typeError))
  | .scalar text => if text = "" then pure () else raise (.raised (.py .valueError))

/-- `_no_duplicate_keys` -/
def noDuplicateKeys (id : ι) : Construct ι κ Unit (Value ι κ) := do
  checkNode L construct id
  flatten L id
  constructMapping L construct id

end

/-- The object of a document, with what the dicts in it hold. -/
structure Loaded (κ : Type) where
  size : Nat
  value : Value (Fin size) κ
  dicts : Fin size → List (κ × Value (Fin size) κ)

/-- What `_StrictLoader` makes of a document. -/
def load (d : Document) : Except StrictError (Loaded κ) :=
  match constructDocument L (noDuplicateKeys L) d.size d.root ⟨{ nodes := d.nodes }, ()⟩ with
  | .ok value s => .ok ⟨d.size, value, s.core.dicts⟩
  | .error e _ => .error e

/-- `parse_compose`; a text without a document is `None`. -/
def parseCompose (text : String) : Except StrictError (Option (Loaded κ)) :=
  match L.compose text with
  | .error e => .error (.loader e)
  | .ok none => .ok none
  | .ok (some d) => some <$> load L d

/-- `dict.get`: of the entries made under a key, the last one counts. -/
def lookupLast (key : κ) (entries : List (κ × Value ι κ)) : Option (Value ι κ) :=
  (entries.reverse.find? (·.1 = key)).map Prod.snd

/-- `len(doc["services"])`, if there is such a dict. -/
def services : Option (Loaded κ) → Nat
  | some ⟨_, .dict id, dicts⟩ =>
    match lookupLast (L.str "services") (dicts id) with
    | some (.dict id) => ((dicts id).map Prod.fst).dedup.length
    | _ => 0
  | _ => 0

/-- `path.read_text(encoding="utf-8", errors="replace")` -/
def readText (t : FileTree Bytes) (path : Path) : Except Errno String := do
  let content ← t.read path
  return String.ofList (newlines (utf8Replace none content))

/-- `path.name.startswith("docker-compose")` -/
def isComposeName (path : Path) : Bool := "docker-compose".toList <+: (pathName path).toList

def countServicesFrom (t : FileTree Bytes) (total : Nat) : List Path → Except Exn (Option Nat)
  | [] => .ok (some total)
  | path :: paths =>
    if isComposeName path then
      match readText t path with
      | .error _ => .ok none
      | .ok text =>
        match parseCompose L text with
        | .error (.loader (.raised (.os _))) => .ok none
        | .error (.loader (.raised e)) => .error e
        | .error _ => .ok none
        | .ok doc => countServicesFrom t (total + services L doc) paths
    else countServicesFrom t total paths

/-- `count_services` -/
def countServices (t : FileTree Bytes) (paths : List Path) : Except Exn (Option Nat) :=
  countServicesFrom L t 0 paths

end KeelsonDocker.PlatformRepo
