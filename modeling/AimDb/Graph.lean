import AimDb.Error
import Mathlib.Algebra.Group.Nat.Defs
import Mathlib.Data.List.Basic
import Mathlib.Logic.Function.Basic

/-!
# The dependency graph of a database

The graph is built once from the registered records: their inputs are checked to
exist and the records are sorted so that each comes after its inputs.  A hash map
is its lookup function; the order in which a hash set yields its keys is an
argument.
-/

namespace AimDb

inductive RecordOrigin where
  | source
  | link (protocol address : String)
  | transform (input : String)
  | transformJoin (inputs : List String)
  | passive
  deriving DecidableEq

structure SchemaInfo where
  name : String
  version : UInt32
  deriving DecidableEq

structure GraphNode where
  key : String
  origin : RecordOrigin
  bufferType : String
  bufferCapacity : Option ℕ
  tapCount : ℕ
  hasOutboundLink : Bool
  outboundLinks : List String
  schema : Option SchemaInfo
  deriving DecidableEq

inductive EdgeType where
  | source
  | link (protocol : String)
  | transform
  | transformJoin
  | tap (index : ℕ)
  | linkOut (protocol : String)
  deriving DecidableEq

structure GraphEdge where
  source : Option String
  target : Option String
  edgeType : EdgeType
  deriving DecidableEq

structure DependencyGraph where
  nodes : List GraphNode
  edges : List GraphEdge
  topoOrder : List String
  deriving DecidableEq

structure SplitMix64 where
  state : UInt64
  deriving DecidableEq

namespace SplitMix64

def next (rng : SplitMix64) : UInt64 × SplitMix64 :=
  let state := rng.state + 0x9E3779B97F4A7C15
  let z := (state ^^^ (state >>> 30)) * 0xBF58476D1CE4E5B9
  let z := (z ^^^ (z >>> 27)) * 0x94D049BB133111EB
  (z ^^^ (z >>> 31), ⟨state⟩)

/-- An index in `0..len`. -/
def below (rng : SplitMix64) (len : ℕ) : ℕ × SplitMix64 :=
  let (drawn, rng) := rng.next
  (drawn.toNat * len / 2 ^ 64, rng)

theorem below_lt (rng : SplitMix64) {len : ℕ} (positive : 0 < len) : (rng.below len).1 < len := by
  have small := rng.next.1.toNat_lt
  exact Nat.div_lt_of_lt_mul (Nat.mul_lt_mul_of_pos_right small positive)

end SplitMix64

namespace DependencyGraph

abbrev HashMap (Value : Type) := String → Option Value

namespace HashMap

variable {Value : Type}

/-- Keep the value under the key, or put `value` there. -/
def orInsert (map : HashMap Value) (key : String) (value : Value) : HashMap Value :=
  Function.update map key (some ((map key).getD value))

end HashMap

def transformInputs (nodes : List GraphNode) : List (String × List String) :=
  nodes.filterMap fun info =>
    match info.origin with
    | .transform input => some (info.key, [input])
    | .transformJoin inputs => some (info.key, inputs)
    | .source | .link _ _ | .passive => none

/-- The transform edges, input before output, in registration order. -/
def transformEdges (nodes : List GraphNode) : List (String × String) :=
  (transformInputs nodes).flatMap fun (output, inputs) => inputs.map fun input => (input, output)

/-- The first edge whose input names no record. -/
def missingInput (allKeys : List String) (nodes : List GraphNode) : Option (String × String) :=
  (transformEdges nodes).find? fun (input, _) => input ∉ allKeys

def inDegrees (allKeys : List String) (nodes : List GraphNode) : HashMap ℕ :=
  (transformEdges nodes).foldl
    (fun map (_, output) => Function.update map output (some ((map output).getD 0 + 1)))
    (allKeys.foldl (fun map key => map.orInsert key 0) fun _ => none)

/-- The records each key feeds, once for every time it is an input. -/
def adjacencies (allKeys : List String) (nodes : List GraphNode) : HashMap (List String) :=
  (transformEdges nodes).foldl
    (fun map (input, output) =>
      Function.update map input (some ((map input).getD [] ++ [output])))
    (allKeys.foldl (fun map key => map.orInsert key []) fun _ => none)

/-- Remove the element at `index`, putting the last one in its place. -/
def swapRemoveBack (queue : List String) (index : ℕ) : Option (String × List String) :=
  match queue[index]?, queue.getLast? with
  | some node, some last => some (node, (queue.set index last).dropLast)
  | _, _ => none

/-- The next ready record: drawn by the generator, or the first. -/
def draw (rng : Option SplitMix64) (queue : List String) :
    Option (String × List String × Option SplitMix64) :=
  match rng, queue with
  | _, [] => none
  | none, node :: rest => some (node, rest, none)
  | some rng, queue =>
      let (index, rng) := rng.below queue.length
      (swapRemoveBack queue index).map fun (node, rest) => (node, rest, some rng)

/-- Count one input of each neighbour off; those without any left are queued.
`none` when a count would go below zero. -/
def release : List String → HashMap ℕ → List String → Option (HashMap ℕ × List String)
  | [], inDegree, queue => some (inDegree, queue)
  | neighbor :: rest, inDegree, queue =>
      match inDegree neighbor with
      | none => release rest inDegree queue
      | some 0 => none
      | some (deg + 1) =>
          release rest (Function.update inDegree neighbor (some deg))
            (if deg = 0 then queue ++ [neighbor] else queue)

structure KahnState where
  queue : List String
  topoOrder : List String
  inDegree : HashMap ℕ
  rng : Option SplitMix64

/-- Take ready records until there is none; `none` when the turns run out. -/
def kahn (adjacency : HashMap (List String)) : ℕ → KahnState → Option KahnState
  | 0, state =>
      match draw state.rng state.queue with
      | none => some state
      | some _ => none
  | turns + 1, state =>
      match draw state.rng state.queue with
      | none => some state
      | some (node, rest, rng) =>
          match release ((adjacency node).getD []) state.inDegree rest with
          | none => none
          | some (inDegree, queue) =>
              kahn adjacency turns ⟨queue, state.topoOrder ++ [node], inDegree, rng⟩

/-- What stands before the first `://` of an address, if there is one. -/
def linkProtocol (address : String) : String :=
  match address.splitOn "://" with
  | scheme :: _ :: _ => scheme
  | _ => ""

/-- The edges of one node: where its values come from, its outbound links, its taps. -/
def nodeEdges (info : GraphNode) : List GraphEdge :=
  (match info.origin with
    | .source => [⟨none, some info.key, .source⟩]
    | .link protocol _ => [⟨none, some info.key, .link protocol⟩]
    | .transform input => [⟨some input, some info.key, .transform⟩]
    | .transformJoin inputs =>
        inputs.map fun input => ⟨some input, some info.key, .transformJoin⟩
    | .passive => [])
  ++ info.outboundLinks.map (fun address =>
    ⟨some info.key, none, .linkOut (linkProtocol address)⟩)
  ++ (List.range info.tapCount).map (fun index => ⟨some info.key, none, .tap index⟩)

/-- Construct and validate the graph.  `allKeys` is the set of keys in the order its
hash set yields them; `none` stands for a run that does not end or overflows. -/
def buildAndValidateSeeded (allKeys : List String) (nodes : List GraphNode)
    (seed : Option UInt64) : Option (Except DbError DependencyGraph) :=
  match missingInput allKeys nodes with
  | some (input, output) => some (.error (.transformInputNotFound output input))
  | none =>
      let inDegree := inDegrees allKeys nodes
      let queue := (nodes.map GraphNode.key).filter fun key => inDegree key = some 0
      match kahn (adjacencies allKeys nodes) nodes.length
          ⟨queue, [], inDegree, seed.map SplitMix64.mk⟩ with
      | none => none
      | some state =>
          if state.topoOrder.length ≠ allKeys.length then
            let cycleRecords := (nodes.map GraphNode.key).filter fun key =>
              0 < (state.inDegree key).getD 0
            some (.error (.cyclicDependency cycleRecords))
          else some (.ok ⟨nodes, nodes.flatMap nodeEdges, state.topoOrder⟩)

end DependencyGraph

end AimDb
