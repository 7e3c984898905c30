import Mathlib.Data.Set.Function
import Mathlib.Order.Interval.Set.Basic
import MasterAI.ActionTree
import MasterAI.SharedPreorder

namespace MasterAI

open ActionTree

/-- The data of a node besides its successors, in the widths that the file has for it. -/
structure NodeHeader where
  id : Nat
  lastBetTo : Nat
  flags : Nat
  playerActing : Nat
  numRemaining : Nat
  id_lt : id < 4294967296
  lastBetTo_lt : lastBetTo < 65536
  flags_lt : flags < 65536
  playerActing_lt : playerActing < 256
  numRemaining_lt : numRemaining < 256

def NodeHeader.street (h : NodeHeader) : Nat := streetOf h.flags

/-- A betting tree in which nonterminals may be shared. They are identified by street, acting player and
id, and the terminals have at most one edge each and are numbered by their ids. -/
structure BettingDag (numPlayers maxStreet : Nat) (α : Type*) [DecidableEq α] where
  header : α → NodeHeader
  succs : α → List α
  root : α
  numTerminals : Nat
  connected : ∀ a, Relation.ReflTransGen (fun a b => b ∈ succs a) root a
  acyclic : WellFounded fun b a => b ∈ succs a
  succs_lt : ∀ a, (succs a).length < 65536
  player_lt : ∀ a, succs a ≠ [] → (header a).playerActing < numPlayers
  street_le : ∀ a, succs a ≠ [] → (header a).street ≤ maxStreet
  identified : ∀ a b, succs a ≠ [] → succs b ≠ [] → (header a).street = (header b).street →
    (header a).playerActing = (header b).playerActing → (header a).id = (header b).id → a = b
  oneEdge : ∀ t, succs t = [] → (∀ a, (succs a).count t ≤ 1) ∧ ∀ a b, t ∈ succs a → t ∈ succs b → a = b
  numbered : Set.BijOn (fun t => (header t).id) {t | succs t = []} (Set.Iio numTerminals)

/-- A number in bytes, the lowest one first. -/
def storedBytes : Nat → Nat → List UInt8
  | 0, _ => []
  | width + 1, n => UInt8.ofNat n :: storedBytes width (n / 256)

theorem length_storedBytes (width n : Nat) : (storedBytes width n).length = width := by
  induction width generalizing n with
  | zero => rfl
  | succ width ih => rw [storedBytes, List.length_cons, ih]

theorem littleEndian_storedBytes {width n : Nat} (h : n < 256 ^ width) : littleEndian (storedBytes width n) = n := by
  induction width generalizing n with
  | zero =>
    rw [Nat.pow_zero] at h
    simp only [storedBytes, littleEndian]
    omega
  | succ width ih =>
    rw [Nat.pow_succ] at h
    have hbyte : (UInt8.ofNat n).toNat = n % 256 := UInt8.toNat_ofNat'
    rw [storedBytes, littleEndian, ih (by omega), hbyte]
    omega

namespace BettingDag

variable {numPlayers maxStreet : Nat} {α : Type*} [DecidableEq α] (T : BettingDag numPlayers maxStreet α)

/-- What the file holds for a visit of a node. -/
def record (a : α) : List UInt8 :=
  storedBytes 4 (T.header a).id ++ storedBytes 2 (T.header a).lastBetTo ++ storedBytes 2 (T.succs a).length ++
    storedBytes 2 (T.header a).flags ++ storedBytes 1 (T.header a).playerActing ++
    storedBytes 1 (T.header a).numRemaining

/-- The encoding of the tree in preorder, in which a nonterminal brings its successors at its first visit
alone. -/
def IsFile (file : List UInt8) : Prop :=
  ∃ order visits, PreorderWalk T.succs [] [T.root] order visits ∧ file = visits.flatMap T.record

theorem exists_file : ∃ file, T.IsFile file := by
  obtain ⟨order, visits, h⟩ := PreorderWalk.exists_walk T.acyclic [T.root] []
  exact ⟨_, order, visits, h, rfl⟩

/-- A node in memory is one of the tree, where `place` says where the nodes of the tree are. -/
structure Copies (place : α → Nat) (a : α) (node : ActionTree.Node) : Prop where
  id : node.id = (T.header a).id
  lastBetTo : node.lastBetTo = (T.header a).lastBetTo
  numSuccs : node.numSuccs = (T.succs a).length
  flags : node.flags = (T.header a).flags
  playerActing : node.playerActing = (T.header a).playerActing
  numRemaining : node.numRemaining = (T.header a).numRemaining
  succs : ∀ i b, (T.succs a)[i]? = some b → node.ithSucc i = some (place b)

/-- A tree in memory is isomorphic to the tree of the file, and its counts and its terminals are right. -/
structure Isomorphic (place : α → Nat) (tree : ActionTree) : Prop where
  bijective : Set.BijOn place Set.univ (Set.Iio tree.nodes.length)
  root : tree.root = place T.root
  nodes : ∀ a, ∃ node, tree.nodes[place a]? = some node ∧ T.Copies place a node
  numTerminals : tree.numTerminals = T.numTerminals
  terminals : tree.terminals.length = T.numTerminals
  placedOnce : ∀ t, T.succs t = [] → ∀ k, tree.terminals[k]? = some (some (place t)) ↔ k = (T.header t).id
  ids : ∀ a, T.succs a ≠ [] → ∃ bound,
    tree.numNonterminals maxStreet (T.header a).playerActing (T.header a).street = some bound ∧ (T.header a).id < bound

/-- `Initialize` rebuilds the tree from its file. -/
def Rebuilt (file : List UInt8) (memory : Nat → UInt8) : Prop :=
  ∃ tree place depth₀, (∀ depth ≥ depth₀, initializeTree numPlayers maxStreet depth file memory = some tree) ∧
    T.Isomorphic place tree

/-- The numbers that fit the signed fields of a node and the counts. -/
structure FitsSigned : Prop where
  lastBetTo : ∀ a, (T.header a).lastBetTo < 32768
  numSuccs : ∀ a, (T.succs a).length < 32768
  nonterminals : ∀ a, T.succs a ≠ [] → (T.header a).id < 2147483647
  terminals : T.numTerminals < 2147483648

end BettingDag

end MasterAI
