import KeelsonDocker.Messages

/-!
# The messages of `platform_config/v1`

`interfaces/PlatformConfig.proto`, without `observed_at`, which comes from the clock.
-/

namespace KeelsonDocker

inductive FileKind
  | unspecified | compose | yaml | env | json | markdown | other
  deriving DecidableEq, Repr

structure RepoStatus where
  branch : String := ""
  headSha : String := ""
  remoteUrl : String := ""
  ahead : Int := 0
  behind : Int := 0
  dirtyPaths : List String := []
  detached : Bool := false
  lastFetchAt : Option Timestamp := none
  deriving DecidableEq, Repr

structure FileInfo where
  name : String
  relativePath : String
  sizeBytes : Nat
  kind : FileKind
  dirty : Bool
  writable : Bool
  deletable : Bool
  modifiedAt : Option Timestamp := none
  deriving DecidableEq, Repr

structure ListFilesRequest where
  entity : String

structure ListFilesResponse where
  entity : String
  files : List FileInfo
  deriving DecidableEq, Repr

structure ReadFileRequest where
  path : String

structure ReadFileResponse where
  path : String
  content : Bytes
  sha256 : String
  sizeBytes : Nat
  writable : Bool
  truncated : Bool
  modifiedAt : Option Timestamp := none
  deriving DecidableEq, Repr

structure WriteFileRequest where
  path : String
  content : Bytes
  baseSha256 : String

structure WriteFileResponse where
  path : String
  sha256 : String
  pushed : Bool
  repo : Option RepoStatus
  deriving DecidableEq, Repr

/-- The protobuf runtime: what `FromString` makes of a payload, or the text of its `DecodeError`. -/
structure PlatformProtobuf where
  listFilesRequest : Bytes → Except String ListFilesRequest
  readFileRequest : Bytes → Except String ReadFileRequest
  writeFileRequest : Bytes → Except String WriteFileRequest
  /-- Whether a `string` field takes a text. The name of a file that is no UTF-8 comes as a `str` with
  lone surrogates, which no field takes. -/
  takesText : String → Bool := fun _ => true

/-- A `string` field set to a text; a `UnicodeEncodeError` is a `ValueError`. -/
def assignText (pb : PlatformProtobuf) (text : String) : Except Exn String :=
  if pb.takesText text then .ok text else .error (.py .valueError)

theorem assignText_eq_ok {pb : PlatformProtobuf} {text a : String} :
    assignText pb text = .ok a ↔ pb.takesText text = true ∧ a = text := by
  unfold assignText
  cases pb.takesText text <;> simp [eq_comm]

end KeelsonDocker
