import Mathlib.Data.Int.Notation
import Mathlib.Logic.Basic
import Mathlib.Tactic.Common

/-!
# YAML documents and node handles

A document is a tree of nodes. What the code holds is a handle of type `YAML::Node`: a node of the
document, an undefined node (a subscript of a node that is not constant, with a missing key), or an
invalid one (a subscript of a constant node with a missing key, or one half of the pair that an
iterator over a sequence yields).

The operations are those of yaml-cpp 0.6.3. Subscripting a scalar throws, asking an invalid node
for its type throws, a conversion throws unless it is given a value to fall back to. How a scalar
reads as an `int` or a `bool` is left to the library (`Conversions`).
-/

namespace SampLogCore.Config.Yaml

/-- A node of a document. -/
inductive Node
  | null
  | scalar (s : String)
  | sequence (items : List Node)
  | map (entries : List (Node × Node))

/-- What the library throws, and what the code that reads a document runs into. -/
inductive Fault
  /-- `YAML::BadSubscript` -/
  | badSubscript
  /-- `YAML::InvalidNode` -/
  | invalidNode
  /-- `YAML::BadConversion` -/
  | badConversion
  /-- `std::out_of_range` -/
  | outOfRange
  /-- `back()` of an empty string -/
  | emptyBack
  /-- a call through a reference to an object that is gone -/
  | dangling
  deriving DecidableEq

/-- How the library reads a scalar as an `int` and as a `bool`. -/
structure Conversions where
  asInt : String → Option ℤ
  asBool : String → Option Bool

/-- A `YAML::Node`. -/
inductive Handle
  | invalid
  | undefined
  | node (n : Node)

/-- The value of the first entry with this key. -/
def lookup (key : String) : List (Node × Node) → Option Node
  | [] => none
  | (.scalar k, v) :: es => if k = key then some v else lookup key es
  | _ :: es => lookup key es

namespace Handle

/-- `operator bool`. -/
def isDefined : Handle → Bool
  | node _ => true
  | _ => false

/-- `IsNull`. -/
def isNull : Handle → Except Fault Bool
  | invalid => .error .invalidNode
  | node .null => .ok true
  | _ => .ok false

/-- `IsSequence`. -/
def isSequence : Handle → Except Fault Bool
  | invalid => .error .invalidNode
  | node (.sequence _) => .ok true
  | _ => .ok false

/-- `IsScalar`. -/
def isScalar : Handle → Except Fault Bool
  | invalid => .error .invalidNode
  | node (.scalar _) => .ok true
  | _ => .ok false

/-- `operator[]` of a constant node, with a string. -/
def get (key : String) : Handle → Except Fault Handle
  | invalid => .error .invalidNode
  | node (.scalar _) => .error .badSubscript
  | node (.map es) =>
    match lookup key es with
    | some v => .ok (node v)
    | none => .ok invalid
  | _ => .ok invalid

/-- `operator[]` of a node that is not constant: a missing key gives an undefined node. -/
def getOrInsert (key : String) : Handle → Except Fault Handle
  | invalid => .error .invalidNode
  | node (.scalar _) => .error .badSubscript
  | node (.map es) =>
    match lookup key es with
    | some v => .ok (node v)
    | none => .ok undefined
  | _ => .ok undefined

/-- `as<std::string>()`. -/
def asString : Handle → Except Fault String
  | invalid => .error .invalidNode
  | node (.scalar s) => .ok s
  | _ => .error .badConversion

/-- `as<std::string>(fallback)`. -/
def asStringOr (fallback : String) : Handle → String
  | node (.scalar s) => s
  | _ => fallback

/-- `as<int>(fallback)`. -/
def asIntOr (c : Conversions) (fallback : ℤ) : Handle → ℤ
  | node (.scalar s) => (c.asInt s).getD fallback
  | _ => fallback

/-- `as<bool>(fallback)`. -/
def asBoolOr (c : Conversions) (fallback : Bool) : Handle → Bool
  | node (.scalar s) => (c.asBool s).getD fallback
  | _ => fallback

/-- The elements an iterator over a sequence yields. -/
def items : Handle → List Handle
  | node (.sequence ns) => ns.map node
  | _ => []

/-- The pairs an iterator yields: the entries of a map, or invalid nodes for a sequence. -/
def pairs : Handle → List (Handle × Handle)
  | node (.map es) => es.map fun e => (node e.1, node e.2)
  | node (.sequence ns) => ns.map fun _ => (invalid, invalid)
  | _ => []

end Handle

end SampLogCore.Config.Yaml
