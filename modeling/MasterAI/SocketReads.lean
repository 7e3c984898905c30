import MasterAI.Framing
import MasterAI.TcpSocket

namespace MasterAI

/-- The bytes of a list of reads. -/
def arrived : List SocketRead → List UInt8
  | [] => []
  | .data bytes :: net => bytes ++ arrived net
  | _ :: net => arrived net

/-- The reads of a stream on a connection that stays open. -/
def Arriving (net : List SocketRead) : Prop := ∀ r ∈ net, r ≠ .error ∧ r ≠ .data []

instance decidableArriving (net : List SocketRead) : Decidable (Arriving net) :=
  inferInstanceAs (Decidable (∀ r ∈ net, r ≠ .error ∧ r ≠ .data []))

/-- As many calls of `recv` are enough for a list of reads. -/
def readsLeft : List SocketRead → Nat
  | [] => 0
  | .data bytes :: net => bytes.length + readsLeft net + 1
  | _ :: net => readsLeft net + 1

variable {free : Nat → Option PacketBuffer} {s s' : TcpSocket} {net net' : List SocketRead} {m : ListSmg}

/-- What a read leaves to receive. -/
structure Consumes (net : List SocketRead) (got : List UInt8) (net' : List SocketRead) : Prop where
  arriving : Arriving net'
  split : arrived net = got ++ arrived net'
  empty : net = [] → net' = []
  fewer : net ≠ [] → readsLeft net' < readsLeft net

theorem Consumes.trans {got got' : List UInt8} {net'' : List SocketRead} (h : Consumes net got net')
    (h' : Consumes net' got' net'') : Consumes net (got ++ got') net'' := by
  refine ⟨h'.arriving, ?_, fun hempty => h'.empty (h.empty hempty), fun hne => ?_⟩
  · rw [h.split, h'.split, List.append_assoc]
  · have hfewer := h.fewer hne
    by_cases hnil : net' = []
    · rw [h'.empty hnil]
      rw [hnil] at hfewer
      exact hfewer
    · have hfewer' := h'.fewer hnil
      omega

/-- `Recv` on an open connection returns a part of the stream that is not longer than asked for. -/
theorem TcpSocket.recv_spec (nLen : Nat) (hnormal : s.stateNormal = true) (hlen : 0 < nLen) (hnet : Arriving net) :
    ∃ got net', s.recv nLen net = ((got.length : Int), got, net') ∧ got.length ≤ nLen ∧ Consumes net got net' := by
  have hne : nLen ≠ 0 := by omega
  unfold recv
  simp only [hnormal, Bool.not_true, Bool.false_eq_true, if_false, if_neg hne]
  cases net with
  | nil => exact ⟨[], [], rfl, by simp, ⟨hnet, rfl, fun _ => rfl, fun hnil => absurd rfl hnil⟩⟩
  | cons r net =>
    have hrest : Arriving net := fun r hr => hnet r (List.mem_cons_of_mem _ hr)
    obtain ⟨herror, hdata⟩ := hnet r List.mem_cons_self
    cases r with
    | error => exact absurd rfl herror
    | again =>
      refine ⟨[], net, rfl, by simp, ⟨hrest, rfl, fun hnil => absurd hnil (by simp), fun _ => ?_⟩⟩
      simp only [readsLeft]
      omega
    | data bytes =>
      have hbytes : bytes ≠ [] := fun hnil => hdata (by rw [hnil])
      have hpos := List.length_pos_of_ne_nil hbytes
      simp only [if_neg hbytes]
      by_cases hle : bytes.length ≤ nLen
      · rw [if_pos hle]
        refine ⟨bytes, net, rfl, hle, ⟨hrest, rfl, fun hnil => absurd hnil (by simp), fun _ => ?_⟩⟩
        simp only [readsLeft]
        omega
      · rw [if_neg hle]
        have htake : (bytes.take nLen).length = nLen := by
          rw [List.length_take]
          omega
        have hdrop : (bytes.drop nLen).length = bytes.length - nLen := List.length_drop
        refine ⟨bytes.take nLen, .data (bytes.drop nLen) :: net, by rw [htake], by rw [htake],
          ⟨?_, ?_, fun hnil => absurd hnil (by simp), fun _ => ?_⟩⟩
        · intro r hr
          rcases List.mem_cons.mp hr with rfl | hr
          · refine ⟨by simp, fun hnil => ?_⟩
            rw [SocketRead.data.inj hnil, List.length_nil] at hdrop
            omega
          · exact hrest r hr
        · simp only [arrived]
          rw [← List.append_assoc, List.take_append_drop]
        · simp only [readsLeft]
          omega

/-- Bytes written behind the bytes that a packet buffer holds. -/
theorem PacketBuffer.store_spec {buffer : PacketBuffer} {held : List UInt8} {offset : Nat} (bytes : List UInt8)
    (hheld : held <+: buffer.1) (hoffset : held.length = offset) (hfit : offset + bytes.length ≤ packageLenMax) :
    ∃ stored, buffer.store offset bytes = some stored ∧ held ++ bytes <+: stored.1 := by
  subst hoffset
  unfold store
  rw [dif_pos hfit]
  refine ⟨_, rfl, buffer.1.drop (held.length + bytes.length), ?_⟩
  have htake : held = buffer.1.take held.length := List.prefix_iff_eq_take.mp hheld
  rw [List.append_assoc]
  exact congrArg (· ++ (bytes ++ buffer.1.drop (held.length + bytes.length))) htake

theorem PacketBuffer.store_nil {buffer : PacketBuffer} {offset : Nat} (hfit : offset ≤ packageLenMax) :
    buffer.store offset [] = some buffer := by
  have hfit' : offset + ([] : List UInt8).length ≤ packageLenMax := hfit
  unfold store
  rw [dif_pos hfit']
  exact congrArg some (Subtype.ext (List.take_append_drop offset buffer.1))

/-- The bytes that the socket holds of the message that it reads. -/
def TcpSocket.buffered (s : TcpSocket) : List UInt8 :=
  match s.recvMsg with
  | none => []
  | some m => m.cPacketBuffer.1.take m.recvLen

theorem TcpSocket.buffered_of_none (hmsg : s.recvMsg = none) : s.buffered = [] := by
  unfold buffered
  rw [hmsg]

theorem TcpSocket.keep_self (hmsg : s.recvMsg = some m) : s.keep m = s := by
  unfold keep
  rw [← hmsg]

/-- The message that `OnRead` starts with. -/
theorem TcpSocket.recvNode_cases (free : Nat → Option PacketBuffer) (s : TcpSocket) :
    (∃ m, s.recvMsg = some m ∧ s.recvNode free = .ok (m, s)) ∨ s.recvMsg = none ∧
      (free s.nodesTaken = none ∧ s.recvNode free = .error .exit ∨ ∃ old, s.recvNode free = .ok
        ({ ListSmg.reset old with recvLen := 0, len := if s.binaryMode then packageHeadLen else 0 },
          { s with nodesTaken := s.nodesTaken + 1 })) := by
  unfold recvNode getNoBlockNode
  cases hmsg : s.recvMsg with
  | some m => exact Or.inl ⟨m, rfl, rfl⟩
  | none =>
    refine Or.inr ⟨rfl, ?_⟩
    cases hfree : free s.nodesTaken with
    | none => exact Or.inl ⟨rfl, rfl⟩
    | some old => exact Or.inr ⟨old, rfl⟩

theorem TcpSocket.onRead_eq (hnode : s.recvNode free = .ok (m, s')) (net : List SocketRead) :
    s.onRead free net = if s'.binaryMode then s'.readBinary m net else s'.readText free m net := by
  unfold onRead
  rw [hnode]
  rfl

/-- A run of `OnRead` calls from what one call does. -/
theorem TcpSocket.onReads_run {P : TcpSocket → List SocketRead → Prop} {bound : Nat}
    (hstep : ∀ s net, P s net → (∃ k ≤ bound, free k = none ∧ s.onRead free net = .error .exit) ∨
      ∃ s' net', s.onRead free net = .ok (s', net') ∧ P s' net' ∧ (net = [] → net' = []) ∧
        (net ≠ [] → readsLeft net' < readsLeft net))
    (h : P s net) (calls : Nat) :
    (∃ k ≤ bound, free k = none ∧ s.onReads free calls net = .error .exit) ∨
      ∃ s' net', s.onReads free calls net = .ok (s', net') ∧ P s' net' ∧ (readsLeft net ≤ calls → net' = []) := by
  induction calls generalizing s net with
  | zero =>
    refine Or.inr ⟨s, net, rfl, h, fun hleft => ?_⟩
    cases net with
    | nil => rfl
    | cons r net =>
      cases r <;>
      · simp only [readsLeft] at hleft
        omega
  | succ calls ih =>
    rcases hstep s net h with ⟨k, hk, hnone, hexit⟩ | ⟨s', net', hread, h', hempty, hfewer⟩
    · refine Or.inl ⟨k, hk, hnone, ?_⟩
      rw [onReads, hexit]
      rfl
    · have hreads : s.onReads free (calls + 1) net = s'.onReads free calls net' := by
        rw [onReads, hread]
        rfl
      rw [hreads]
      rcases ih h' with hexit | ⟨s'', net'', hrest, h'', hdone⟩
      · exact Or.inl hexit
      · refine Or.inr ⟨s'', net'', hrest, h'', fun hleft => hdone ?_⟩
        by_cases hnil : net = []
        · rw [hempty hnil]
          exact Nat.zero_le _
        · have := hfewer hnil
          omega

/-- A connection on which nothing was read yet. -/
structure TcpSocket.Opened (binaryMode : Bool) (s : TcpSocket) : Prop where
  normal : s.stateNormal = true
  mode : s.binaryMode = binaryMode
  open_ : s.closing = false
  message : s.recvMsg = none
  taken : s.nodesTaken = 0
  delivered : s.clientRead = []

def openedSocket (binaryMode : Bool) : TcpSocket where
  sockID := 9
  stateNormal := true
  binaryMode := binaryMode
  recvMsg := none
  uniqueID := 5
  transID := "0a00100000005ff-".toList
  tidIndex := 1
  remoteServerID := 0
  remoteAddr := "127.0.0.1".toList
  remotePort := 9000
  closing := false
  nodesTaken := 0
  clientRead := []

theorem openedSocket_opened (binaryMode : Bool) : (openedSocket binaryMode).Opened binaryMode :=
  ⟨rfl, rfl, rfl, rfl, rfl, rfl⟩

def zeroBuffer : PacketBuffer := ⟨List.replicate packageLenMax 0, List.length_replicate⟩

end MasterAI
