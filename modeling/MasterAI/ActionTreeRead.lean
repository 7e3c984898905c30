import MasterAI.BettingDag

namespace MasterAI

open ActionTree

/-- The bytes that a reader has before it. -/
def Ahead (r : Reader) (bytes : List UInt8) : Prop := ∃ pos, ReaderAt r pos ∧ r.file.drop pos = bytes

theorem Ahead.orDie {r : Reader} {α : Type} {bytes rest : List UInt8} (kind : ReadKind) (decode : List UInt8 → α)
    (h : Ahead r (bytes ++ rest)) (hlength : bytes.length = kind.width) :
    ∃ s, MasterAI.orDie (r.readTyped kind decode) = some (decode bytes, s) ∧ Ahead s rest := by
  obtain ⟨pos, hat, hdrop⟩ := h
  have hsize := congrArg List.length hdrop
  rw [List.length_drop, List.length_append, hlength] at hsize
  have hwidth := kind.width_bounds
  obtain ⟨s, hs, hnext, hfile⟩ := hat.read (show pos + kind.width ≤ r.file.length by omega)
  have hbytes : (r.file.drop pos).take kind.width = bytes := by
    rw [hdrop, ← hlength, List.take_left]
  refine ⟨s, ?_, pos + kind.width, hnext, ?_⟩
  · rw [Reader.readTyped, hs, hbytes]
    rfl
  · rw [hfile, ← List.drop_drop, hdrop, ← hlength, List.drop_left]

theorem ahead_opened (file : List UInt8) (memory : Nat → UInt8) :
    ∃ r, Reader.opened file memory = some r ∧ Ahead r file := by
  obtain ⟨r, hr, hat, hfile⟩ := Reader.opened_at file memory
  exact ⟨r, hr, 0, hat, by rw [hfile, List.drop_zero]⟩

/-- The successors of a node from one place on. -/
def ActionTree.Node.setSuccs (node : ActionTree.Node) : Nat → List Nat → ActionTree.Node
  | _, [] => node
  | i, succ :: succs => (node.setIthSucc i succ).setSuccs (i + 1) succs

theorem ActionTree.Node.setSuccs_eq (front : List (Option Nat)) {ks : List Nat} :
    ∀ {node : ActionTree.Node} {i : Nat}, front.length = i → node.succs = front ++ List.replicate ks.length none →
      node.setSuccs i ks = { node with succs := front ++ ks.map some } := by
  induction ks generalizing front with
  | nil =>
    intro node i _ hsuccs
    obtain ⟨succs, id, lastBetTo, numSuccs, flags, playerActing, numRemaining⟩ := node
    simp only at hsuccs
    subst hsuccs
    rfl
  | cons k ks ih =>
    intro node i hlength hsuccs
    have hset : (node.setIthSucc i k).succs = (front ++ [some k]) ++ List.replicate ks.length none := by
      rw [ActionTree.Node.setIthSucc, hsuccs, List.length_cons, List.replicate_succ, ← hlength]
      simp
    rw [ActionTree.Node.setSuccs, ih (front ++ [some k]) (by simp [hlength]) hset]
    simp [ActionTree.Node.setIthSucc]

namespace BettingDag

variable {numPlayers maxStreet : Nat} {α : Type*} [DecidableEq α] (T : BettingDag numPlayers maxStreet α)

def fields (a : α) : Fields :=
  ⟨(T.header a).id, (T.header a).lastBetTo, (T.succs a).length, (T.header a).flags, (T.header a).playerActing,
    (T.header a).numRemaining⟩

theorem readFields_record {a : α} {r : Reader} {rest : List UInt8} (h : Ahead r (T.record a ++ rest)) :
    ∃ s, readFields r = some (T.fields a, s) ∧ Ahead s rest := by
  unfold record at h
  simp only [List.append_assoc] at h
  obtain ⟨r₁, h₁, ahead₁⟩ := h.orDie .unsignedInt littleEndian (length_storedBytes _ _)
  obtain ⟨r₂, h₂, ahead₂⟩ := ahead₁.orDie .unsignedShort littleEndian (length_storedBytes _ _)
  obtain ⟨r₃, h₃, ahead₃⟩ := ahead₂.orDie .unsignedShort littleEndian (length_storedBytes _ _)
  obtain ⟨r₄, h₄, ahead₄⟩ := ahead₃.orDie .unsignedShort littleEndian (length_storedBytes _ _)
  obtain ⟨r₅, h₅, ahead₅⟩ := ahead₄.orDie .unsignedChar littleEndian (length_storedBytes _ _)
  obtain ⟨r₆, h₆, ahead₆⟩ := ahead₅.orDie .unsignedChar littleEndian (length_storedBytes _ _)
  rw [littleEndian_storedBytes (by simpa using (T.header a).id_lt)] at h₁
  rw [littleEndian_storedBytes (by simpa using (T.header a).lastBetTo_lt)] at h₂
  rw [littleEndian_storedBytes (by simpa using T.succs_lt a)] at h₃
  rw [littleEndian_storedBytes (by simpa using (T.header a).flags_lt)] at h₄
  rw [littleEndian_storedBytes (by simpa using (T.header a).playerActing_lt)] at h₅
  rw [littleEndian_storedBytes (by simpa using (T.header a).numRemaining_lt)] at h₆
  refine ⟨r₆, ?_, ahead₆⟩
  unfold readFields Reader.readUnsignedIntOrDie Reader.readUnsignedShortOrDie Reader.readUnsignedCharOrDie
    Reader.readUnsignedInt Reader.readUnsignedShort Reader.readUnsignedChar
  simp only [h₁, h₂, h₃, h₄, h₅, h₆, Option.bind_some]
  rfl

/-- The map that `Read` looks a node up in. -/
def mapIndex (a : α) : Nat := (T.header a).street * numPlayers + (T.header a).playerActing

def mapId (a : α) : Int := wrapInt32 (T.header a).id

theorem mapId_injective {a b : α} (h : T.mapId a = T.mapId b) : (T.header a).id = (T.header b).id := by
  have ha := (T.header a).id_lt
  have hb := (T.header b).id_lt
  simp only [mapId, wrapInt32, Int.bmod_def] at h
  omega

/-- The maps tell the nonterminals apart. -/
theorem eq_of_mapIndex {a b : α} (ha : T.succs a ≠ []) (hb : T.succs b ≠ []) (hindex : T.mapIndex a = T.mapIndex b)
    (hid : T.mapId a = T.mapId b) : a = b := by
  have hpa := T.player_lt a ha
  have hpb := T.player_lt b hb
  unfold mapIndex at hindex
  have hstreet : (T.header a).street = (T.header b).street := by
    have hdiv := congrArg (· / numPlayers) hindex
    simpa [Nat.add_comm, Nat.add_mul_div_right _ _ (Nat.zero_lt_of_lt hpa), Nat.div_eq_of_lt hpa,
      Nat.div_eq_of_lt hpb] using hdiv
  have hplayer : (T.header a).playerActing = (T.header b).playerActing := by
    rw [hstreet] at hindex
    omega
  exact T.identified a b ha hb hstreet hplayer (T.mapId_injective hid)

theorem mapIndex_lt {a : α} (ha : T.succs a ≠ []) : T.mapIndex a < (maxStreet + 1) * numPlayers := by
  have hplayer := T.player_lt a ha
  have hstreet := Nat.mul_le_mul_right numPlayers (T.street_le a ha)
  rw [Nat.succ_mul]
  unfold mapIndex
  omega

def newNode (a : α) : ActionTree.Node :=
  .new (wrapInt32 (T.header a).id) (T.header a).lastBetTo (T.succs a).length (T.header a).flags
    (T.header a).playerActing (T.header a).numRemaining

def terminalCount (seen : List α) : Nat := seen.countP fun a => (T.succs a).isEmpty

/-- The state of a `Read` that has come to some nodes and has some bytes before it. -/
structure Ready (seen : List α) (bytes : List UInt8) (s : ReadState) : Prop where
  reader : Ahead s.reader bytes
  length : s.nodes.length = seen.length
  fresh : ∀ a, T.succs a ≠ [] → a ∉ seen → s.maps (T.mapIndex a) (T.mapId a) = none
  known : ∀ a, T.succs a ≠ [] → a ∈ seen → ∃ k, s.maps (T.mapIndex a) (T.mapId a) = some k ∧ seen[k]? = some a
  count : s.numTerminals = wrapInt32 (T.terminalCount seen)

/-- A node with all its successors, where the nodes lie in the order in which they were found. -/
def Stored (order : List α) (a : α) (node : ActionTree.Node) : Prop :=
  ∃ ks : List Nat, List.Forall₂ (fun k b => order[k]? = some b) ks (T.succs a) ∧
    node = { T.newNode a with succs := ks.map some }

/-- What `Read` does on a node. -/
structure NodeRead (seen found : List α) (rest : List UInt8) (a : α) (k : Nat) (s s' : ReadState) : Prop where
  runs : ∃ depth₀, ∀ depth ≥ depth₀, read numPlayers maxStreet depth s = some (k, s')
  ready : T.Ready (seen ++ found) rest s'
  place : (seen ++ found)[k]? = some a
  nodes : ∃ objs, s'.nodes = s.nodes ++ objs ∧ List.Forall₂ (T.Stored (seen ++ found)) found objs

/-- What the loop of `Read` does on the successors of a node, from one of them on. -/
structure SuccsRead (seen found : List α) (rest : List UInt8) (succs : List α) (node i : Nat) (s s' : ReadState) :
    Prop where
  runs : ∃ depth₀, ∀ depth ≥ depth₀, readSuccs (read numPlayers maxStreet depth) node i succs.length s = some s'
  ready : T.Ready (seen ++ found) rest s'
  nodes : ∃ (ks : List Nat) (objs : List ActionTree.Node),
    s'.nodes = s.nodes.modify node (fun n => n.setSuccs i ks) ++ objs ∧
      List.Forall₂ (fun k b => (seen ++ found)[k]? = some b) ks succs ∧
      List.Forall₂ (T.Stored (seen ++ found)) found objs

end BettingDag

end MasterAI
