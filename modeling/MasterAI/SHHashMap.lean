import MasterAI.LinkedChain
import MasterAI.ListFamily
import MasterAI.StepRuns

namespace MasterAI

/-- The decrement of the use counter, a `uint32_t`. -/
def countDown (n : Nat) : Nat := if n = 0 then 4294967295 else n - 1

def countUp (n : Nat) : Nat := if n = 4294967295 then 0 else n + 1

/-- `SHHaspMap`. Nodes are numbered; a node stands for the value in it, whose contents the map does
not look at. -/
structure SHHaspMap (κ : Type*) where
  totalSize : Nat
  buckets : Nat
  useSize : Nat
  freeHead : Option Nat
  freeTail : Option Nat
  bucket : Nat → Option Nat
  key : Nat → κ
  next : Nat → Option Nat
  prev : Nat → Option Nat
  curBucket : Nat
  nextNode : Option Nat
  myHash : κ → Nat

namespace SHHaspMap

variable {κ : Type*}

def pushNode (h : SHHaspMap κ) (node : Nat) : SHHaspMap κ :=
  match h.freeHead with
  | none =>
    { h with
      freeHead := some node
      freeTail := some node
      next := Function.update h.next node none
      prev := Function.update h.prev node none
      useSize := countDown h.useSize }
  | some head =>
    { h with
      next := Function.update h.next node (some head)
      prev := Function.update (Function.update h.prev node none) head (some node)
      freeHead := some node
      useSize := countDown h.useSize }

/-- `PopNode` takes the last free node. The node before it keeps its link to it. -/
def popNode (h : SHHaspMap κ) : Option (Nat × SHHaspMap κ) :=
  h.freeTail.map fun p =>
    (p, { h with
      freeTail := h.prev p
      next := Function.update h.next p none
      prev := Function.update h.prev p none
      freeHead := if h.prev p = none then none else h.freeHead
      useSize := countUp h.useSize })

/-- `Init`, with its error code. Before it runs, the free list is empty and the other members hold
anything. -/
def init (unset : SHHaspMap κ) (size : Nat) (hash : Option (κ → Nat)) (buckets : Nat) :
    Except Int (SHHaspMap κ) :=
  if size > 5 * buckets % 4294967296 then .error (-2)
  else
    match hash with
    | none => .error (-3)
    | some hash =>
      let h := { unset with
        freeHead := none
        freeTail := none
        totalSize := size
        buckets := buckets
        myHash := hash }
      let h := (List.range size).foldl pushNode h
      .ok { h with useSize := 0, bucket := fun _ => none }

/-- The bucket of a key. Nothing for a division by zero. -/
def hash (h : SHHaspMap κ) (k : κ) : Option Nat :=
  if h.buckets = 0 then none else some (h.myHash k % h.buckets)

variable [DecidableEq κ]

def search (h : SHHaspMap κ) (k : κ) (index : Nat) : Option (Walk Nat) :=
  walk h.next (fun node => h.key node = k) (h.totalSize + 1) none 0 (h.bucket index)

def get (h : SHHaspMap κ) (k : κ) : Option (Option Nat) :=
  (h.hash k).bind fun index =>
    (h.search k index).map fun
      | .found _ node => some node
      | .absent _ => none

/-- `Add`, with its return code, the node whose value is handed out and the map after it. -/
def add (h : SHHaspMap κ) (k : κ) (pValNull : Bool) : Option (Int × Option Nat × SHHaspMap κ) :=
  (h.hash k).bind fun index =>
    if !pValNull then some (1086, none, h)
    else
      (h.search k index).map fun
        | .found _ _ => (1085, none, h)
        | .absent nKCnt =>
          if ¬nKCnt > 100 ∧ nKCnt > 1000 then (1084, none, h)
          else
            match h.popNode with
            | none => (1082, none, h)
            | some (node, h) =>
              let h := { h with key := Function.update h.key node k }
              match h.bucket index with
              | none =>
                (0, some node, { h with
                  bucket := Function.update h.bucket index (some node)
                  next := Function.update h.next node none })
              | some first =>
                (0, some node, { h with
                  next := Function.update h.next node (some first)
                  bucket := Function.update h.bucket index (some node) })

/-- Takes a node out of its chain, from the head of the bucket or from behind another node. -/
def unlink (h : SHHaspMap κ) (index node : Nat) : Option Nat → SHHaspMap κ
  | none => { h with bucket := Function.update h.bucket index (h.next node) }
  | some pre => { h with next := Function.update h.next pre (h.next node) }

/-- `Del`, with its return code and the node that it gives back. -/
def del (h : SHHaspMap κ) (k : κ) : Option (Int × Option Nat × SHHaspMap κ) :=
  (h.hash k).bind fun index =>
    (h.search k index).map fun
      | .found pre node =>
        let h := h.unlink index node pre
        let h := { h with next := Function.update h.next node none }
        (0, some node, h.pushNode node)
      | .absent _ => (1081, none, h)

/-- The inner loop of `Clear`; nothing where it does not end. -/
def clearChain : Nat → Option Nat → SHHaspMap κ → Option (SHHaspMap κ)
  | 0, _, _ => none
  | _ + 1, none, h => some h
  | fuel + 1, some del, h =>
    let node := h.next del
    clearChain fuel node ({ h with next := Function.update h.next del none }.pushNode del)

def clearBucket (h : SHHaspMap κ) (i : Nat) : Option (SHHaspMap κ) :=
  (clearChain (h.totalSize + 1) (h.bucket i) h).map fun h => { h with bucket := Function.update h.bucket i none }

def clear (h : SHHaspMap κ) : Option (SHHaspMap κ) :=
  (List.range h.buckets).foldlM clearBucket { h with nextNode := none }

/-- The loop of `Begin` and `Next` over the buckets that are left. -/
def scan : Nat → SHHaspMap κ → SHHaspMap κ × Option Nat
  | 0, h => (h, none)
  | left + 1, h =>
    match h.bucket h.curBucket with
    | some node => ({ h with nextNode := h.next node }, some node)
    | none => scan left { h with curBucket := h.curBucket + 1 }

def begin (h : SHHaspMap κ) : SHHaspMap κ × Option Nat := scan h.buckets { h with curBucket := 0 }

def nextRecord (h : SHHaspMap κ) : SHHaspMap κ × Option Nat :=
  match h.nextNode with
  | some node => ({ h with nextNode := h.next node }, some node)
  | none =>
    let h := { h with curBucket := countUp h.curBucket }
    scan (h.buckets - h.curBucket) h

/-- The records that repeated calls of `Next` return, up to the first null pointer. -/
def collect : Nat → SHHaspMap κ → Option (List Nat)
  | 0, _ => none
  | fuel + 1, h =>
    match h.nextRecord with
    | (_, none) => some []
    | (h, some node) => (collect fuel h).map fun rest => node :: rest

/-- The records that `Begin` and then `Next` return. -/
def enumerate (h : SHHaspMap κ) : Option (List Nat) :=
  match h.begin with
  | (_, none) => some []
  | (h, some node) => (collect (h.totalSize + 1) h).map fun rest => node :: rest

end SHHaspMap

inductive SHHaspCall (κ : Type*)
  | add (k : κ) (pValNull : Bool)
  | get (k : κ)
  | del (k : κ)
  | clear
  deriving DecidableEq, Repr

inductive SHHaspEvent (κ : Type*)
  | add (k : κ) (pValNull : Bool) (code : Int) (node : Option Nat)
  | get (k : κ) (node : Option Nat)
  | del (k : κ) (code : Int) (node : Option Nat)
  | clear

variable {κ : Type*} [DecidableEq κ]

def SHHaspMap.call (h : SHHaspMap κ) : SHHaspCall κ → Option (SHHaspEvent κ × SHHaspMap κ)
  | .add k pValNull => (h.add k pValNull).map fun (code, node, h) => (.add k pValNull code node, h)
  | .get k => (h.get k).map fun node => (.get k node, h)
  | .del k => (h.del k).map fun (code, node, h) => (.del k code node, h)
  | .clear => h.clear.map fun h => (.clear, h)

def SHHaspStep (h : SHHaspMap κ) (e : SHHaspEvent κ) (h' : SHHaspMap κ) : Prop := ∃ c, h.call c = some (e, h')

/-- The runs of an initialised map. Its sizes are 32-bit numbers. -/
abbrev SHHaspRun (size buckets : Nat) :=
  StepRun (SHHaspStep (κ := κ)) fun h => size < 4294967296 ∧ buckets < 4294967296 ∧
    ∃ unset hash, SHHaspMap.init unset size hash buckets = .ok h

abbrev SHHaspTrace (κ : Type*) := List (Transition (SHHaspMap κ) (SHHaspEvent κ))

/-- The live records with their keys: what was added and neither deleted nor cleared since. -/
def liveRecords : SHHaspTrace κ → List (Nat × κ)
  | [] => []
  | t :: older =>
    match t.event with
    | .add k _ _ (some node) => (node, k) :: liveRecords older
    | .del k _ (some node) => (liveRecords older).erase (node, k)
    | .clear => []
    | _ => liveRecords older

/-- The property that the links of the map represent: following `next` from the head of the free list
and from the bucket heads reaches every node exactly once, the bucket chains are the live records, the
counter is their number, and an enumeration returns each of them once. -/
structure SHHaspMap.Represents (h : SHHaspMap κ) (trace : SHHaspTrace κ) (free : List Nat)
    (chains : Nat → List Nat) : Prop where
  free_linked : Linked h.next h.freeHead free
  chain_linked : ∀ b < h.buckets, Linked h.next (h.bucket b) (chains b)
  nodes : (free ++ gather h.buckets chains).Perm (List.range h.totalSize)
  records : ((gather h.buckets chains).map fun node => (node, h.key node)).Perm (liveRecords trace)
  useSize : h.useSize = (liveRecords trace).length
  enumerated : ∃ order, h.enumerate = some order ∧ order.Perm (gather h.buckets chains)

def SHHaspMap.Sound (h : SHHaspMap κ) (trace : SHHaspTrace κ) : Prop :=
  ∃ free chains, h.Represents trace free chains

/-- An `Add` of a new key finds at most one free node. -/
def SHHaspMap.TakesLast (h : SHHaspMap κ) : SHHaspEvent κ → Prop
  | .add k true _ _ => h.get k = some none → h.freeHead = h.freeTail
  | _ => True

end MasterAI
