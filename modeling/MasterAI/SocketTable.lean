import MasterAI.StepRuns
import MasterAI.TcpSocket
import Mathlib.Logic.Function.Basic

namespace MasterAI

/-- `SOCK_STATE`, as far as a connection goes through it. -/
inductive SockState
  | init
  | connect
  | normal
  deriving DecidableEq, Repr

/-- What a call of `send` meets: room for some bytes, no room yet, or an error. -/
inductive SocketWrite
  | room (n : Nat)
  | blocked
  | error
  deriving DecidableEq, Repr

/-- `TcpSocket` with the members that opening, sending and closing use. -/
structure ConnSocket where
  sockID : Option Nat
  state : SockState
  uniqueID : Nat
  binaryMode : Bool
  closeActive : Bool
  deriving DecidableEq

/-- How `SendMsg` ends: without a call of `send`, with the whole message sent, or with some bytes left. -/
inductive SendOutcome
  | refused
  | sent
  | failed (nLeftBytes : Nat)
  deriving DecidableEq, Repr

def pktTypeDiscard : Nat := 1

namespace ConnSocket

/-- A socket as its constructor leaves it. -/
def fresh : ConnSocket where
  sockID := none
  state := .init
  uniqueID := 0
  binaryMode := true
  closeActive := false

def send (s : ConnSocket) (nLen : Nat) (write : SocketWrite) : Int :=
  if s.state ≠ .normal then -1
  else if nLen = 0 then -2
  else
    match write with
    | .room n => if n = 0 then -4 else min n nLen
    | .blocked => 0
    | .error => -3

/-- The loop of `SendMsg`: how many bytes are left, and whether they all went out. Where the list of writes ends the
socket stays blocked, until the loop gives up. -/
def sendLoop (s : ConnSocket) : List SocketWrite → Nat → Nat → Nat × Bool
  | [], nLeftBytes, _ => (nLeftBytes, decide (nLeftBytes = 0))
  | write :: writes, nLeftBytes, nDoneTimes =>
    if nLeftBytes = 0 then (0, true)
    else
      let nBytes := s.send nLeftBytes write
      if nBytes < 0 ∨ nBytes > nLeftBytes then (nLeftBytes, false)
      else if nBytes = 0 then
        if nDoneTimes > 3 then (nLeftBytes, false) else s.sendLoop writes nLeftBytes (nDoneTimes + 1)
      else s.sendLoop writes (nLeftBytes - nBytes.toNat) 0

def sendMsg (s : ConnSocket) (p : ListSmg) (writes : List SocketWrite) : SendOutcome :=
  if p.len > packageLenMax - 10 then .refused
  else if s.binaryMode ∧ (unpackFromArray p.cPacketBuffer.1 p.len).elim 0 NetMsgHead.len ≠ p.len then .refused
  else if p.nUniqueID ≠ s.uniqueID then .refused
  else
    match s.sendLoop writes p.len 0 with
    | (_, true) => .sent
    | (nLeftBytes, false) => .failed nLeftBytes

def release (s : ConnSocket) (bCloseFd : Bool) : ConnSocket where
  sockID := if bCloseFd then none else s.sockID
  state := if bCloseFd then .init else s.state
  uniqueID := 0
  binaryMode := true
  closeActive := false

/-- `ActiveClose`. The close event of every open socket is registered. -/
def activeClose (s : ConnSocket) : ConnSocket := { s with closeActive := s.closeActive || s.sockID.isSome }

end ConnSocket

/-- The bytes of a message that were given to the system. -/
def ListSmg.bytesSent (p : ListSmg) : SendOutcome → List UInt8
  | .refused => []
  | .sent => p.content
  | .failed nLeftBytes => p.content.take (p.len - nLeftBytes)

inductive NotifyType
  | accept
  | connect
  | close
  deriving DecidableEq, Repr

/-- `CNotifyFd`. A close that a failed message asks for remembers the connection of the message. -/
structure NotifyFd where
  type : NotifyType
  fd : Nat
  binaryMode : Bool
  cause : Option Nat
  deriving DecidableEq

/-- How the set-up of a connection ends. -/
inductive SetupResult
  | failed
  | inProgress
  | established
  deriving DecidableEq, Repr

/-- A connection that got its unique id, with the sequence number in it. -/
structure ConnNumber where
  conn : Nat
  fd : Nat
  sequence : Nat
  deriving DecidableEq

/-- Where a message came from: the connection, and what the message keeps of it. -/
structure Address where
  conn : Nat
  connfd : Nat
  nUniqueID : Nat
  deriving DecidableEq

/-- The sockets of the process with the queues of the network threads, and what the system knows: the connection
behind each descriptor and the bytes taken for each connection. Connections are numbered as they are opened. -/
structure SocketTable where
  socketCnt : Nat
  dataThreadCnt : Nat
  sequence : Nat
  sockets : Nat → ConnSocket
  lstNotifyFd : Nat → List NotifyFd
  conn : Nat → Option Nat
  opened : Nat
  wire : Nat → List UInt8
  numbered : List ConnNumber
  addresses : List Address

/-- What happens to the sockets. -/
inductive SocketEvent
  | opening (type : NotifyType) (fd : Nat) (binaryMode : Bool)
  | notify (thread time : Nat) (setup : SetupResult)
  | connected (fd : Nat) (succeeded : Bool)
  | activeClose (fd : Nat)
  | closeCallback (fd : Nat)
  | closeConnect (fd : Nat)
  | read (fd : Nat)
  | send (origin : Address) (p : ListSmg) (writes : List SocketWrite)
  deriving DecidableEq

namespace SocketTable

def getDataThread (s : SocketTable) (fd : Nat) : Nat := fd % s.dataThreadCnt

def pushNotifyFd (s : SocketTable) (n : NotifyFd) : SocketTable :=
  let thread := s.getDataThread n.fd
  { s with lstNotifyFd := Function.update s.lstNotifyFd thread (s.lstNotifyFd thread ++ [n]) }

def setSocket (s : SocketTable) (fd : Nat) (socket : ConnSocket) : SocketTable :=
  { s with sockets := Function.update s.sockets fd socket }

/-- `Release(true)` of the socket of a descriptor, which closes the descriptor that the socket holds. -/
def releaseSocket (s : SocketTable) (fd : Nat) : SocketTable :=
  match (s.sockets fd).sockID with
  | none => s.setSocket fd ((s.sockets fd).release true)
  | some id => { s.setSocket fd ((s.sockets fd).release true) with conn := Function.update s.conn id none }

/-- A new descriptor of the system, for which `OnAccept` and `Connect` notify the data thread. -/
def opening (s : SocketTable) (type : NotifyType) (fd : Nat) (binaryMode : Bool) : Option SocketTable :=
  if type ≠ .close ∧ fd < s.socketCnt ∧ s.conn fd = none then
    some ({ s with conn := Function.update s.conn fd (some s.opened), opened := s.opened + 1 }.pushNotifyFd
      ⟨type, fd, binaryMode, none⟩)
  else none

/-- `DoAccept` and `DoConnect`. `Create` fails for a socket that is in use. -/
def doOpen (s : SocketTable) (n : NotifyFd) (time : Nat) (setup : SetupResult) : SocketTable :=
  let socket := s.sockets n.fd
  let socket := if socket.state ≠ .init then socket.release false else socket
  let sequence := (s.sequence + 1) % 65536
  let numbered := match s.conn n.fd with
    | none => s.numbered
    | some c => ⟨c, n.fd, sequence⟩ :: s.numbered
  let socket := { socket with uniqueID := time % 65535 * 65536 + sequence, binaryMode := n.binaryMode }
  let s := { s with sequence := sequence, numbered := numbered }
  if socket.state ≠ .init then (s.setSocket n.fd socket).releaseSocket n.fd
  else
    let socket := { socket with sockID := some n.fd }
    match setup, n.type with
    | .failed, _ => (s.setSocket n.fd socket).releaseSocket n.fd
    | .inProgress, .connect => s.setSocket n.fd { socket with state := .connect }
    | _, _ => s.setSocket n.fd { socket with state := .normal }

/-- `NotifyCallback` of a thread. -/
def notify (s : SocketTable) (thread time : Nat) (setup : SetupResult) : Option SocketTable :=
  match s.lstNotifyFd thread with
  | [] => none
  | n :: rest =>
    let s := { s with lstNotifyFd := Function.update s.lstNotifyFd thread rest }
    some (if n.type = .close then s.setSocket n.fd (s.sockets n.fd).activeClose else s.doOpen n time setup)

/-- `OnConnect`, where the connection was still being set up. -/
def connected (s : SocketTable) (fd : Nat) (succeeded : Bool) : Option SocketTable :=
  if (s.sockets fd).state ≠ .connect then none
  else if succeeded then some (s.setSocket fd { s.sockets fd with state := .normal })
  else some (s.releaseSocket fd)

/-- `CloseCallback`, which runs once the close event is active. -/
def closeCallback (s : SocketTable) (fd : Nat) : Option SocketTable :=
  if (s.sockets fd).closeActive then some (s.releaseSocket fd) else none

/-- `CloseConnect` of a task. The socket may change between its test and the notification. -/
def closeConnect (s : SocketTable) (fd : Nat) : SocketTable := s.pushNotifyFd ⟨.close, fd, true, none⟩

/-- `OnRead` hands a message to the tasks. -/
def read (s : SocketTable) (fd : Nat) : Option SocketTable :=
  match (s.sockets fd).state, (s.sockets fd).sockID.bind s.conn with
  | .normal, some c => some { s with addresses := ⟨c, fd, (s.sockets fd).uniqueID⟩ :: s.addresses }
  | _, _ => none

/-- How `SendMsg` of a message ends. -/
def outcome (s : SocketTable) (p : ListSmg) (writes : List SocketWrite) : SendOutcome :=
  if p.cPacketType = pktTypeDiscard ∨ s.socketCnt ≤ p.connfd then .refused
  else (s.sockets p.connfd).sendMsg p writes

/-- The system takes bytes for the connection behind a socket. -/
def write (s : SocketTable) (fd : Nat) (bytes : List UInt8) : SocketTable :=
  match (s.sockets fd).sockID.bind s.conn with
  | none => s
  | some c => { s with wire := Function.update s.wire c (s.wire c ++ bytes) }

/-- `CSocketManager::Send`. After a failure `SendMsg` asks the data thread to close the connection. -/
def sendMessage (s : SocketTable) (p : ListSmg) (writes : List SocketWrite) : SocketTable :=
  let result := s.outcome p writes
  let t := s.write p.connfd (p.bytesSent result)
  match result, (s.sockets p.connfd).sockID with
  | .failed _, some id => t.pushNotifyFd ⟨.close, id, (s.sockets p.connfd).binaryMode, s.conn id⟩
  | _, _ => t

def step (s : SocketTable) : SocketEvent → Option SocketTable
  | .opening type fd binaryMode => s.opening type fd binaryMode
  | .notify thread time setup => s.notify thread time setup
  | .connected fd succeeded => s.connected fd succeeded
  | .activeClose fd => some (s.setSocket fd (s.sockets fd).activeClose)
  | .closeCallback fd => s.closeCallback fd
  | .closeConnect fd => some (s.closeConnect fd)
  | .read fd => s.read fd
  | .send origin p writes =>
    if origin ∈ s.addresses ∧ p.connfd = origin.connfd ∧ p.nUniqueID = origin.nUniqueID then some (s.sendMessage p writes)
    else none

/-- A process whose sockets are all unused. -/
structure Start (s : SocketTable) : Prop where
  sockets : ∀ fd, s.sockets fd = .fresh
  lstNotifyFd : ∀ thread, s.lstNotifyFd thread = []
  conn : ∀ fd, s.conn fd = none
  wire : ∀ c, s.wire c = []
  numbered : s.numbered = []
  addresses : s.addresses = []

/-- The runs of the network threads and the tasks, in any order of their steps. -/
abbrev Run := StepRun (fun (s : SocketTable) e t => s.step e = some t) Start

end SocketTable

end MasterAI
