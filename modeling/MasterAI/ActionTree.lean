import MasterAI.FileReader
import MasterAI.WrapInt32

namespace MasterAI

namespace ActionTree

def kStreetMask : Nat := 24
def kStreetShift : Nat := 3

def streetOf (flags : Nat) : Nat := (flags &&& kStreetMask) >>> kStreetShift

/-- A `short` that is set to an `int`. -/
def wrapInt16 (x : Int) : Int := Int.bmod x 65536

/-- A node in memory. Pointers are the places of the nodes in the order in which they were allocated. -/
structure Node where
  succs : List (Option Nat)
  id : Int
  lastBetTo : Int
  numSuccs : Int
  flags : Nat
  playerActing : Nat
  numRemaining : Nat
  deriving DecidableEq, Repr

namespace Node

def new (id lastBetTo numSuccs : Int) (flags playerActing numRemaining : Nat) : Node where
  succs := List.replicate numSuccs.toNat none
  id := id
  lastBetTo := wrapInt16 lastBetTo
  numSuccs := wrapInt16 numSuccs
  flags := flags
  playerActing := playerActing
  numRemaining := numRemaining

def terminal (node : Node) : Bool := node.numSuccs = 0

def terminalID (node : Node) : Int := if node.terminal then node.id else -1

def nonterminalID (node : Node) : Int := if node.terminal then -1 else node.id

def street (node : Node) : Nat := streetOf node.flags

/-- The successor at a place; nothing where there is none. -/
def ithSucc (node : Node) (i : Nat) : Option Nat := (node.succs[i]?).join

def setIthSucc (node : Node) (i succ : Nat) : Node := { node with succs := node.succs.set i (some succ) }

end Node

end ActionTree

/-- The value of an `OrDie` read; nothing where the program exits. -/
def orDie {α : Type} : Option (Option α × Reader) → Option (α × Reader)
  | some (some x, r) => some (x, r)
  | _ => none

def Reader.readUnsignedIntOrDie (r : Reader) : Option (Nat × Reader) := orDie r.readUnsignedInt

def Reader.readUnsignedShortOrDie (r : Reader) : Option (Nat × Reader) := orDie r.readUnsignedShort

def Reader.readUnsignedCharOrDie (r : Reader) : Option (Nat × Reader) := orDie r.readUnsignedChar

namespace ActionTree

/-- The fields that `Read` reads for a node. -/
structure Fields where
  id : Nat
  lastBetTo : Nat
  numSuccs : Nat
  flags : Nat
  playerActing : Nat
  numRemaining : Nat

def readFields (r : Reader) : Option (Fields × Reader) :=
  r.readUnsignedIntOrDie.bind fun (id, r) =>
  r.readUnsignedShortOrDie.bind fun (lastBetTo, r) =>
  r.readUnsignedShortOrDie.bind fun (numSuccs, r) =>
  r.readUnsignedShortOrDie.bind fun (flags, r) =>
  r.readUnsignedCharOrDie.bind fun (playerActing, r) =>
  r.readUnsignedCharOrDie.bind fun (numRemaining, r) =>
    some (⟨id, lastBetTo, numSuccs, flags, playerActing, numRemaining⟩, r)

/-- The state of a `Read`: the reader, the maps from ids to nodes, the nodes allocated so far and the
number of terminals among them. -/
structure ReadState where
  reader : Reader
  maps : Nat → Int → Option Nat
  nodes : List Node
  numTerminals : Int

namespace ReadState

def alloc (s : ReadState) (node : Node) : ReadState := { s with nodes := s.nodes ++ [node] }

def store (s : ReadState) (mapIndex : Nat) (id : Int) (node : Nat) : ReadState :=
  { s with maps := Function.update s.maps mapIndex (Function.update (s.maps mapIndex) id (some node)) }

def setIthSucc (s : ReadState) (node i succ : Nat) : ReadState :=
  { s with nodes := s.nodes.modify node fun n => n.setIthSucc i succ }

end ReadState

/-- The loop of `Read` over the successors of a node, from one of them on. -/
def readSuccs (read : ReadState → Option (Nat × ReadState)) (node : Nat) : Nat → Nat → ReadState → Option ReadState
  | _, 0, s => some s
  | i, left + 1, s => (read s).bind fun (succ, s) => readSuccs read node (i + 1) left (s.setIthSucc node i succ)

/-- `Read`, up to a depth of its recursion; nothing where the program exits or leaves the array of maps. -/
def read (numPlayers maxStreet : Nat) : Nat → ReadState → Option (Nat × ReadState)
  | 0, _ => none
  | depth + 1, s =>
    (readFields s.reader).bind fun (f, reader) =>
      let s := { s with reader := reader }
      let id := wrapInt32 f.id
      let mapIndex := streetOf f.flags * numPlayers + f.playerActing
      let node := s.nodes.length
      let new := Node.new id f.lastBetTo f.numSuccs f.flags f.playerActing f.numRemaining
      if f.numSuccs > 0 then
        if mapIndex ≥ (maxStreet + 1) * numPlayers then none
        else
          match s.maps mapIndex id with
          | some shared => some (shared, s)
          | none =>
            (readSuccs (read numPlayers maxStreet depth) node 0 f.numSuccs
              ((s.alloc new).store mapIndex id node)).map fun s => (node, s)
      else some (node, { s.alloc new with numTerminals := wrapInt32 (s.numTerminals + 1) })

/-- `FillTerminalArray` from a node on, up to a depth of its recursion; nothing where the program exits or
leaves the array. -/
def fillTerminals (nodes : List Node) (numTerminals : Int) :
    Nat → Nat → List (Option Nat) → Option (List (Option Nat))
  | 0, _, _ => none
  | depth + 1, node, terminals =>
    (nodes[node]?).bind fun n =>
      if n.terminal then
        if n.terminalID ≥ numTerminals ∨ n.terminalID < 0 then none
        else some (terminals.set n.terminalID.toNat (some node))
      else
        (List.range n.numSuccs.toNat).foldlM
          (fun terminals i => (n.ithSucc i).bind fun succ => fillTerminals nodes numTerminals depth succ terminals)
          terminals

/-- `FillTerminalArray`; nothing where the array cannot be allocated. -/
def fillTerminalArray (nodes : List Node) (numTerminals : Int) (depth root : Nat) : Option (List (Option Nat)) :=
  if numTerminals < 0 then none
  else fillTerminals nodes numTerminals depth root (List.replicate numTerminals.toNat none)

/-- `CountNumNonterminals2`, up to a depth of its recursion; nothing where it leaves the array. -/
def countNonterminals (nodes : List Node) (maxStreet : Nat) : Nat → Nat → List Int → Option (List Int)
  | 0, _, _ => none
  | depth + 1, node, counts =>
    (nodes[node]?).bind fun n =>
      if n.terminal then some counts
      else
        let index := n.playerActing * (maxStreet + 1) + n.street
        (counts[index]?).bind fun count =>
          (List.range n.numSuccs.toNat).foldlM
            (fun counts i => (n.ithSucc i).bind fun succ => countNonterminals nodes maxStreet depth succ counts)
            (if n.nonterminalID ≥ count then counts.set index (wrapInt32 (n.nonterminalID + 1)) else counts)

def countNumNonterminals (nodes : List Node) (numPlayers maxStreet depth root : Nat) : Option (List Int) :=
  countNonterminals nodes maxStreet depth root (List.replicate (numPlayers * (maxStreet + 1)) 0)

end ActionTree

/-- A tree as `Initialize` leaves it. -/
structure ActionTree where
  nodes : List ActionTree.Node
  root : Nat
  numTerminals : Int
  terminals : List (Option Nat)
  nonterminalCounts : List Int

namespace ActionTree

def numNonterminals (tree : ActionTree) (maxStreet p st : Nat) : Option Int :=
  tree.nonterminalCounts[p * (maxStreet + 1) + st]?

/-- `Initialize` on a file, with memory that held anything before and up to a depth of its recursions. -/
def initializeTree (numPlayers maxStreet depth : Nat) (file : List UInt8) (memory : Nat → UInt8) :
    Option ActionTree :=
  (Reader.opened file memory).bind fun reader =>
    (read numPlayers maxStreet depth ⟨reader, fun _ _ => none, [], 0⟩).bind fun (root, s) =>
      (fillTerminalArray s.nodes s.numTerminals depth root).bind fun terminals =>
        (countNumNonterminals s.nodes numPlayers maxStreet depth root).map fun counts =>
          ⟨s.nodes, root, s.numTerminals, terminals, counts⟩

end ActionTree

end MasterAI
