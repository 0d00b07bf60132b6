import KeelsonDocker.Py.Printable
import Mathlib.Algebra.Group.Nat.Defs
import Mathlib.Data.List.Basic

/-!
# Values of the Engine's JSON bodies, as Python reads them

`PyVal` is what `json.loads` gives for a body of the Docker Engine: the numbers of these bodies are
the integers of Go structs, so there is no fractional constructor. The operations are the ones the
source uses on such values: truth (`x or {}`), `dict.get`, `str` and `int`. An operation that Python
refuses fails with the `PyError` it raises.
-/

namespace KeelsonDocker

/-- The built-in exceptions that an operation on a value can raise. -/
inductive PyError
  | attributeError
  | typeError
  | valueError
  | overflowError
  deriving DecidableEq, Repr

inductive PyVal
  | none
  | bool (b : Bool)
  | int (n : Int)
  | str (s : String)
  | list (xs : List PyVal)
  | dict (kvs : List (String × PyVal))

/-! ### `repr` -/

def hexDigits (width n : Nat) : List Char :=
  (List.range width).reverse.map fun i => Nat.digitChar (n / 16 ^ i % 16)

/-- One character of a string literal, as `repr` writes it between `quote`s. -/
def reprChar (quote c : Char) : List Char :=
  if c = quote || c = '\\' then ['\\', c]
  else if c = '\n' then ['\\', 'n']
  else if c = '\r' then ['\\', 'r']
  else if c = '\t' then ['\\', 't']
  else if printable c then [c]
  else if c.toNat ≤ 0xff then '\\' :: 'x' :: hexDigits 2 c.toNat
  else if c.toNat ≤ 0xffff then '\\' :: 'u' :: hexDigits 4 c.toNat
  else '\\' :: 'U' :: hexDigits 8 c.toNat

/-- `repr` of a string: single quotes, unless it holds one and no double quote. -/
def pyRepr (s : String) : String :=
  let quote := if s.toList.contains '\'' && !s.toList.contains '"' then '"' else '\''
  String.ofList ([quote] ++ s.toList.flatMap (reprChar quote) ++ [quote])

namespace PyVal

mutual
/-- `repr` of a value. -/
def repr : PyVal → String
  | none => "None"
  | bool b => if b then "True" else "False"
  | int n => toString n
  | str s => pyRepr s
  | list xs => "[" ++ reprList xs ++ "]"
  | dict kvs => "\x7b" ++ reprDict kvs ++ "\x7d"

def reprList : List PyVal → String
  | [] => ""
  | [x] => repr x
  | x :: xs => repr x ++ ", " ++ reprList xs

def reprDict : List (String × PyVal) → String
  | [] => ""
  | [(k, v)] => pyRepr k ++ ": " ++ repr v
  | (k, v) :: kvs => pyRepr k ++ ": " ++ repr v ++ ", " ++ reprDict kvs
end

/-- `str(v)`: a string is itself. -/
def pyStr : PyVal → String
  | str s => s
  | v => repr v

/-! ### Truth and lookups -/

def truthy : PyVal → Bool
  | none => false
  | bool b => b
  | int n => n != 0
  | str s => s != ""
  | list xs => !xs.isEmpty
  | dict kvs => !kvs.isEmpty

/-- `v or w`. -/
def orElse (v w : PyVal) : PyVal := if v.truthy then v else w

/-- `v or {}`. -/
def orEmpty (v : PyVal) : PyVal := v.orElse (dict [])

/-- `v.get(key, default)`, an attribute error on what is not a dict. -/
def getD : PyVal → String → PyVal → Except PyError PyVal
  | dict kvs, key, default => .ok ((kvs.lookup key).getD default)
  | _, _, _ => .error .attributeError

/-- `v.get(key)`. -/
def get (v : PyVal) (key : String) : Except PyError PyVal := v.getD key none

/-- The value behind a key, `None` on what is not a dict. -/
def field : PyVal → String → PyVal
  | dict kvs, key => (kvs.lookup key).getD none
  | _, _ => none

def isDict : PyVal → Bool
  | dict _ => true
  | _ => false

/-- `for x in v`: a dict goes through its keys, a string through its characters. -/
def iter : PyVal → Except PyError (List PyVal)
  | list xs => .ok xs
  | dict kvs => .ok (kvs.map (str ·.1))
  | str s => .ok (s.toList.map (str ·.toString))
  | _ => .error .typeError

/-- `len(v)`. -/
def len (v : PyVal) : Except PyError Nat := List.length <$> v.iter

/-- What the code takes for an object: a dict, or a falsy value that `or {}` makes one. -/
def ObjectLike (v : PyVal) : Prop := v.truthy = true → v.isDict = true

instance (v : PyVal) : Decidable v.ObjectLike := by unfold ObjectLike; infer_instance

/-- The digits of `int(text)` after an optional sign. -/
def readDigits : List Char → Option Nat
  | [] => .none
  | cs => if cs.all Char.isDigit then some (cs.foldl (fun n c => 10 * n + (c.toNat - 48)) 0) else .none

/-- `int(v)`. -/
def toInt : PyVal → Except PyError Int
  | int n => .ok n
  | bool b => .ok (if b then 1 else 0)
  | str s =>
    match s.trimAscii.toString.toList with
    | '-' :: cs => ((readDigits cs).map fun n => -(n : Int)).elim (.error .valueError) .ok
    | '+' :: cs => ((readDigits cs).map Int.ofNat).elim (.error .valueError) .ok
    | cs => ((readDigits cs).map Int.ofNat).elim (.error .valueError) .ok
  | none | list _ | dict _ => .error .typeError

@[simp] theorem get_dict (kvs : List (String × PyVal)) (key : String) :
    (dict kvs).get key = .ok ((kvs.lookup key).getD none) := rfl

@[simp] theorem orEmpty_dict (kvs : List (String × PyVal)) : (dict kvs).orEmpty = dict kvs := by
  cases kvs <;> rfl

theorem get_of_isDict {v : PyVal} (h : v.isDict = true) (key : String) :
    v.get key = .ok (v.field key) := by
  cases v <;> first | rfl | cases h

theorem eq_field_of_get {v x : PyVal} {key : String} (h : v.get key = .ok x) : x = v.field key := by
  cases v <;> cases h
  rfl

/-- An object-like value has a `get` that raises nothing once `or {}` is applied. -/
theorem ObjectLike.exists_dict {v : PyVal} (h : v.ObjectLike) : ∃ kvs, v.orEmpty = dict kvs := by
  by_cases ht : v.truthy = true
  · have hd := h ht
    cases v <;> simp_all [isDict, orEmpty, orElse]
  · exact ⟨[], by simp [orEmpty, orElse, ht]⟩

theorem ObjectLike.isDict_orEmpty {v : PyVal} (h : v.ObjectLike) : v.orEmpty.isDict = true := by
  obtain ⟨kvs, hkvs⟩ := h.exists_dict
  rw [hkvs, isDict]

end PyVal

end KeelsonDocker
