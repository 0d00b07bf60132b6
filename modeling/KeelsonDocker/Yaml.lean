import KeelsonDocker.Errors
import Mathlib.Data.List.Basic
import Mathlib.Logic.Function.Basic

/-!
# PyYAML: documents, and the loader that constructs them

A composed document is a graph: an alias is the node that its anchor names, so that nodes are shared
and `flatten_mapping`, which splices in place, is seen wherever a node is used. The loader is that of
`yaml.SafeLoader`, with the mapping constructor that a subclass registers and with what the subclass
keeps as parameters. What a scalar's text stands for is Python's affair: a parameter too.
-/

namespace KeelsonDocker.Yaml

/-! ### Documents -/

inductive Content (ι : Type)
  | scalar (text : String)
  | sequence (items : List ι)
  | mapping (pairs : List (ι × ι))
  deriving DecidableEq

structure Node (ι : Type) where
  tag : String
  content : Content ι
  deriving DecidableEq

abbrev Nodes (ι : Type) := ι → Node ι

def Content.pairs : Content ι → List (ι × ι)
  | mapping pairs => pairs
  | _ => []

def Content.isScalar : Content ι → Bool
  | scalar _ => true
  | _ => false

theorem Content.isScalar_iff {content : Content ι} :
    content.isScalar = true ↔ ∃ text, content = .scalar text := by
  cases content <;> simp [isScalar]

structure Document where
  size : Nat
  nodes : Nodes (Fin size)
  root : Fin size

def MERGE : String := "tag:yaml.org,2002:merge"
def VALUE : String := "tag:yaml.org,2002:value"
def STR : String := "tag:yaml.org,2002:str"
def TIMESTAMP : String := "tag:yaml.org,2002:timestamp"

/-- The constructors of `SafeLoader` by their tags. -/
inductive Constructor
  | map | seq | set | pairs | scalar | undefined
  deriving DecidableEq

def constructorFor (tag : String) : Constructor :=
  if tag = "tag:yaml.org,2002:map" then .map
  else if tag = "tag:yaml.org,2002:seq" then .seq
  else if tag = "tag:yaml.org,2002:set" then .set
  else if tag ∈ ["tag:yaml.org,2002:omap", "tag:yaml.org,2002:pairs"] then .pairs
  else if tag ∈ [STR, TIMESTAMP, "tag:yaml.org,2002:null", "tag:yaml.org,2002:bool",
      "tag:yaml.org,2002:int", "tag:yaml.org,2002:float", "tag:yaml.org,2002:binary"] then .scalar
  else .undefined

/-! ### What construction gives -/

/-- A scalar is given by what equality and hashing see of it; a collection is the object built for
its node. -/
inductive Value (ι κ : Type)
  | scalar (k : κ)
  | list (id : ι)
  | dict (id : ι)
  | set (id : ι)
  deriving DecidableEq

/-- What stops the loader: a `YAMLError`, or an exception of Python's. -/
inductive LoadError
  | yaml (problem : String)
  | raised (e : Exn)
  deriving DecidableEq

/-- What a subclass adds: the `ConstructorError` of a strict loader about a key. -/
inductive StrictError
  | loader (e : LoadError)
  | duplicateKey (shown : String)
  deriving DecidableEq

/-- `RecursionError` -/
def recursionError : LoadError := .raised (.other "maximum recursion depth exceeded")

/-- PyYAML's composer and what is Python's. -/
structure Library (κ : Type) where
  /-- The document of a text, if it has one, or what is raised about it. -/
  compose : String → Except LoadError (Option Document)
  /-- The scalar that a tag and a text stand for. -/
  scalar : String → String → Except LoadError κ
  repr : κ → Except Exn String
  str : String → κ
  /-- How deep the loader's calls may nest. -/
  stack : Nat

variable {ι κ σ α β : Type}

/-! ### `flatten_mapping` -/

section

variable (flatten : Nodes ι → ι → Except LoadError (Nodes ι))

def Nodes.pairs (nodes : Nodes ι) (id : ι) : List (ι × ι) := (nodes id).content.pairs

def Nodes.setPairs [DecidableEq ι] (nodes : Nodes ι) (id : ι) (pairs : List (ι × ι)) : Nodes ι :=
  Function.update nodes id { nodes id with content := .mapping pairs }

def Nodes.isMerge (nodes : Nodes ι) (pair : ι × ι) : Bool := (nodes pair.1).tag = MERGE

/-- The value of the first merge key, and the pairs without it. -/
def firstMerge (nodes : Nodes ι) : List (ι × ι) → Option (ι × List (ι × ι))
  | [] => none
  | pair :: pairs =>
    if nodes.isMerge pair then some (pair.2, pairs)
    else (firstMerge nodes pairs).map fun (value, rest) => (value, pair :: rest)

/-- The pairs of a list of mappings, each flattened; those of a later one come first. -/
def mergeSources (nodes : Nodes ι) : List ι → Except LoadError (Nodes ι × List (ι × ι))
  | [] => .ok (nodes, [])
  | id :: ids =>
    match (nodes id).content with
    | .mapping _ => do
      let nodes ← flatten nodes id
      let merged := nodes.pairs id
      let (nodes, later) ← mergeSources nodes ids
      return (nodes, later ++ merged)
    | _ => .error (.yaml "expected a mapping for merging")

/-- The pairs that a merge key's value supplies. -/
def mergeValue (nodes : Nodes ι) (value : ι) : Except LoadError (Nodes ι × List (ι × ι)) :=
  match (nodes value).content with
  | .mapping _ => do
    let nodes ← flatten nodes value
    return (nodes, nodes.pairs value)
  | .sequence items => mergeSources flatten nodes items
  | .scalar _ => .error (.yaml "expected a mapping or list of mappings for merging")

/-- The loop over a mapping's pairs. A merge key is taken out before its value is looked at, so that
no more of them are left than there were pairs. -/
def mergeLoop [DecidableEq ι] (id : ι) : Nat → Nodes ι → Except LoadError (Nodes ι)
  | 0, nodes => .ok nodes
  | n + 1, nodes =>
    match firstMerge nodes (nodes.pairs id) with
    | none => .ok nodes
    | some (value, rest) => do
      let (nodes, merged) ← mergeValue flatten (nodes.setPairs id rest) value
      let nodes ← mergeLoop id n nodes
      return nodes.setPairs id (merged ++ nodes.pairs id)

end

/-- A key written `=` becomes a string. -/
def Nodes.retag [DecidableEq ι] (nodes : Nodes ι) (pairs : List (ι × ι)) : Nodes ι := fun id =>
  if (nodes id).tag = VALUE ∧ id ∈ pairs.map Prod.fst then { nodes id with tag := STR } else nodes id

/-- `flatten_mapping` -/
def flattenMapping [DecidableEq ι] : Nat → Nodes ι → ι → Except LoadError (Nodes ι)
  | 0, _, _ => .error recursionError
  | stack + 1, nodes, id => do
    let nodes ← mergeLoop (flattenMapping stack) id (nodes.pairs id).length nodes
    return nodes.retag (nodes.pairs id)

/-! ### The loader -/

/-- What a loader keeps: the nodes as they now stand, the objects built, the nodes being built, the
sequences and sets still to be filled, and the contents of the dicts. -/
structure Core (ι κ : Type) where
  nodes : Nodes ι
  constructed : ι → Option (Value ι κ) := fun _ => none
  recursive : List ι := []
  pending : List ι := []
  dicts : ι → List (κ × Value ι κ) := fun _ => []

def Core.enter (s : Core ι κ) (id : ι) : Core ι κ := { s with recursive := id :: s.recursive }

/-- The object is built; a generator is left over for what is filled in later. -/
def Core.leave [DecidableEq ι] (s : Core ι κ) (id : ι) (value : Value ι κ) (generator : Bool) : Core ι κ :=
  { s with
    constructed := Function.update s.constructed id (some value)
    recursive := s.recursive.erase id
    pending := if generator then s.pending ++ [id] else s.pending }

structure LoaderState (ι κ σ : Type) where
  core : Core ι κ
  /-- What the subclass keeps. -/
  own : σ

abbrev Construct (ι κ σ : Type) := EStateM StrictError (LoaderState ι κ σ)

def fetch (f : Core ι κ → α) : Construct ι κ σ α := fun s => .ok (f s.core) s

def change (f : Core ι κ → Core ι κ) : Construct ι κ σ Unit := fun s => .ok () { s with core := f s.core }

def raise (e : LoadError) : Construct ι κ σ α := throw (.loader e)

def orRaise : Except LoadError α → Construct ι κ σ α
  | .ok a => pure a
  | .error e => raise e

@[simp] theorem run_fetch_bind (f : Core ι κ → α) (g : α → Construct ι κ σ β) (s : LoaderState ι κ σ) :
    (fetch f >>= g) s = g (f s.core) s := rfl

variable (L : Library κ)

def flatten [DecidableEq ι] (id : ι) : Construct ι κ σ Unit := do
  let nodes ← orRaise (flattenMapping L.stack (← fetch (·.nodes)) id)
  change fun s => { s with nodes }

/-- `construct_scalar`: the text of a node; a mapping may have one under the key `=`. -/
def scalarText (nodes : Nodes ι) : Nat → ι → Except LoadError String
  | 0, _ => .error recursionError
  | stack + 1, id =>
    match (nodes id).content with
    | .scalar text => .ok text
    | .sequence _ => .error (.yaml "expected a scalar node, but found sequence")
    | .mapping pairs =>
      match pairs.find? fun pair => (nodes pair.1).tag = VALUE with
      | some (_, value) => scalarText nodes stack value
      | none => .error (.yaml "expected a scalar node, but found mapping")

/-- The constructor of a scalar type. -/
def constructScalar (nodes : Nodes ι) (id : ι) : Except LoadError κ := do
  let text ← scalarText nodes (L.stack + 1) id
  match decide ((nodes id).tag = TIMESTAMP), (nodes id).content with
  -- The pattern of timestamps is matched against the node's own value, which is no text here.
  | true, .mapping _ => .error (.raised (.py .typeError))
  | _, _ => L.scalar (nodes id).tag text

section

variable (construct : ι → Construct ι κ σ (Value ι κ))

/-- The loop of `BaseConstructor.construct_mapping`. -/
def constructPairs : List (ι × ι) → Construct ι κ σ (List (κ × Value ι κ))
  | [] => pure []
  | (key, value) :: pairs => do
    match ← construct key with
    | .scalar k =>
      let v ← construct value
      return (k, v) :: (← constructPairs pairs)
    | _ => raise (.yaml "found unhashable key")

/-- `SafeLoader.construct_mapping` -/
def constructMapping [DecidableEq ι] (id : ι) : Construct ι κ σ (Value ι κ) := do
  match (← fetch (·.nodes id)).content with
  | .mapping _ =>
    flatten L id
    let entries ← constructPairs construct (← fetch (·.nodes.pairs id))
    change fun s => { s with dicts := Function.update s.dicts id entries }
    return .dict id
  | _ => raise (.yaml "expected a mapping node")

/-- The items of `!!omap` and `!!pairs`. -/
def constructEntries : List ι → Construct ι κ σ Unit
  | [] => pure ()
  | id :: ids => do
    match (← fetch (·.nodes id)).content with
    | .mapping [(key, value)] =>
      let _ ← construct key
      let _ ← construct value
      constructEntries ids
    | .mapping _ => raise (.yaml "expected a single mapping item")
    | _ => raise (.yaml "expected a mapping of length 1")

/-- What fills a sequence or a set after it has been made. -/
def runGenerator [DecidableEq ι] (id : ι) : Construct ι κ σ Unit := do
  let node ← fetch (·.nodes id)
  match constructorFor node.tag, node.content with
  | .seq, .sequence items => items.forM fun item => discard (construct item)
  | .set, _ => discard (constructMapping L construct id)
  | .pairs, .sequence items => constructEntries construct items
  | _, _ => raise (.yaml "expected a sequence node")

/-- `while self.state_generators`, of which there are no more than nodes. -/
def runGenerators [DecidableEq ι] : Nat → Construct ι κ σ Unit
  | 0 => pure ()
  | n + 1 => do
    match ← fetch (·.pending) with
    | [] => pure ()
    | id :: pending =>
      change fun s => { s with pending }
      runGenerator L construct id
      runGenerators n

end

/-- The object that a node's constructor makes, and whether a generator is left over to fill it. -/
def construction (constructMap : ι → Construct ι κ σ (Value ι κ)) (nodes : Nodes ι) (id : ι) :
    Construct ι κ σ (Value ι κ × Bool) :=
  match constructorFor (nodes id).tag with
  | .map => do return (← constructMap id, false)
  | .seq | .pairs => return (.list id, true)
  | .set => return (.set id, true)
  | .scalar => do return (.scalar (← orRaise (constructScalar L nodes id)), false)
  | .undefined => raise (.yaml ("could not determine a constructor for the tag " ++ pyRepr (nodes id).tag))

/-- `construct_object`, with the constructor of mappings. -/
def constructWith [DecidableEq ι] (constructMap : ι → Construct ι κ σ (Value ι κ)) (id : ι) :
    Construct ι κ σ (Value ι κ) := do
  match ← fetch (·.constructed id) with
  | some value => return value
  | none =>
    if id ∈ (← fetch (·.recursive)) then raise (.yaml "found unconstructable recursive node")
    else
      change (·.enter id)
      let (value, generator) ← construction L constructMap (← fetch (·.nodes)) id
      change (·.leave id value generator)
      return value

section

variable [DecidableEq ι]
  (constructMap : (ι → Construct ι κ σ (Value ι κ)) → ι → Construct ι κ σ (Value ι κ))

/-- `construct_object`: each level of mappings takes its part of the stack. -/
def constructObject : Nat → ι → Construct ι κ σ (Value ι κ)
  | 0 => constructWith L fun _ => raise recursionError
  | stack + 1 => constructWith L (constructMap (constructObject stack))

/-- `construct_document`, of a document of `n` nodes. -/
def constructDocument (n : Nat) (root : ι) : Construct ι κ σ (Value ι κ) := do
  let construct := constructObject L constructMap L.stack
  let value ← construct root
  runGenerators L construct n
  return value

end

end KeelsonDocker.Yaml
