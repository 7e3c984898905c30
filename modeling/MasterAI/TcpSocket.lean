import MasterAI.CfrTransport

namespace MasterAI

def tidLen : Nat := 22

def packageHeadLen : Nat := 60

def packageLenMax : Nat := 8192

/-- `cPacketBuffer`. -/
abbrev PacketBuffer := { bytes : List UInt8 // bytes.length = packageLenMax }

/-- Bytes written into a packet buffer. Nothing for a write past its end. -/
def PacketBuffer.store (buffer : PacketBuffer) (offset : Nat) (bytes : List UInt8) : Option PacketBuffer :=
  if h : offset + bytes.length ≤ packageLenMax then
    some ⟨buffer.1.take offset ++ (bytes ++ buffer.1.drop (offset + bytes.length)), by
      simp only [List.length_append, List.length_take, List.length_drop, buffer.2]
      omega⟩
  else none

/-- The string at the start of a packet buffer. -/
def PacketBuffer.text (buffer : PacketBuffer) : List UInt8 := buffer.1.takeWhile (· ≠ 0)

def asciiText (bytes : List UInt8) : List Char := bytes.map fun byte => Char.ofNat byte.toNat

/-- A number in network byte order. -/
def ntoh (bytes : List UInt8) : Nat := bytes.foldl (fun n byte => n * 256 + byte.toNat) 0

structure NetMsgHead where
  len : Nat
  cmd : Nat
  errCode : Nat
  transID : List Char
  cliConnID : Nat
  deriving DecidableEq, Repr

def unpackFromArray (data : List UInt8) (nLen : Nat) : Option NetMsgHead :=
  if nLen < packageHeadLen then none
  else
    some
      { len := ntoh (data.take 4)
        cmd := ntoh ((data.drop 4).take 4)
        errCode := ntoh ((data.drop 8).take 4)
        transID := asciiText ((data.drop 12).take (tidLen - 1))
        cliConnID := ntoh ((data.drop 34).take 8) }

/-- `LISTSMG`, a message node, without its links and the members for delayed messages. -/
structure ListSmg where
  nCmd : Nat
  nErrCode : Nat
  szTransID : List Char
  cPacketType : Nat
  connfd : Nat
  nUniqueID : Nat
  nCliConnID : Nat
  nRemoteServerID : Nat
  sAddr : List Char
  nPort : Nat
  len : Nat
  recvLen : Nat
  cPacketBuffer : PacketBuffer
  deriving DecidableEq

/-- A node after `Reset`, which keeps its old buffer but for the first byte. -/
def ListSmg.reset (old : PacketBuffer) : ListSmg where
  nCmd := 0
  nErrCode := 0
  szTransID := []
  cPacketType := 0
  connfd := 0
  nUniqueID := 0
  nCliConnID := 0
  nRemoteServerID := 0
  sAddr := []
  nPort := 0
  len := 0
  recvLen := 0
  cPacketBuffer := ⟨old.1.set 0 0, by rw [List.length_set, old.2]⟩

/-- The bytes of a node. -/
def ListSmg.content (m : ListSmg) : List UInt8 := m.cPacketBuffer.1.take m.len

/-- What the next calls of `recv` find: bytes of the stream, nothing yet, or an error. -/
inductive SocketRead
  | data (bytes : List UInt8)
  | again
  | error
  deriving DecidableEq, Repr

/-- `TcpSocket`, with the messages that it put into `QUEUE_CLIENT_READ` and the number of nodes that it
took from `QUEUE_FREE`. -/
structure TcpSocket where
  sockID : Nat
  stateNormal : Bool
  binaryMode : Bool
  recvMsg : Option ListSmg
  uniqueID : Nat
  transID : List Char
  tidIndex : Nat
  remoteServerID : Nat
  remoteAddr : List Char
  remotePort : Nat
  closing : Bool
  nodesTaken : Nat
  clientRead : List ListSmg

/-- Why `OnRead` does not return. -/
inductive ReadStop
  | exit
  | overrun
  | endless
  deriving DecidableEq, Repr

namespace TcpSocket

/-- The close event is activated; it runs later. -/
def activeClose (s : TcpSocket) : TcpSocket := { s with closing := true }

def hexDigits (n : Nat) : List Char := [n / 4096 % 16, n / 256 % 16, n / 16 % 16, n % 16].map Nat.digitChar

def nextTransID (s : TcpSocket) : List Char × TcpSocket :=
  ((s.transID ++ hexDigits s.tidIndex).take (tidLen - 1), { s with tidIndex := (s.tidIndex + 1) % 65536 })

/-- `Recv`: its result, the bytes it wrote and what is left to receive. -/
def recv (s : TcpSocket) (nLen : Nat) (net : List SocketRead) : Int × List UInt8 × List SocketRead :=
  if !s.stateNormal then (-1, [], net)
  else if nLen = 0 then (-2, [], net)
  else
    match net with
    | [] => (0, [], [])
    | .again :: rest => (0, [], rest)
    | .error :: rest => (-3, [], rest)
    | .data bytes :: rest =>
      if bytes = [] then (-4, [], rest)
      else if bytes.length ≤ nLen then (bytes.length, bytes, rest)
      else (nLen, bytes.take nLen, .data (bytes.drop nLen) :: rest)

/-- `GetNoBlockNode(QUEUE_FREE)`. The `k`-th call finds the buffer `free k`, or no node. -/
def getNoBlockNode (free : Nat → Option PacketBuffer) (s : TcpSocket) : Except ReadStop (ListSmg × TcpSocket) :=
  match free s.nodesTaken with
  | none => .error .exit
  | some old => .ok (ListSmg.reset old, { s with nodesTaken := s.nodesTaken + 1 })

/-- `OnRead` returns and the message stays with the socket. -/
def keep (s : TcpSocket) (m : ListSmg) : TcpSocket := { s with recvMsg := some m }

/-- A message goes to `QUEUE_CLIENT_READ`. -/
def deliver (s : TcpSocket) (m : ListSmg) : TcpSocket :=
  { s with recvMsg := none, clientRead := s.clientRead ++ [m] }

abbrev ReadResult := Except ReadStop (TcpSocket × List SocketRead)

/-- The part of `OnRead` in binary mode from `RECV_AGAIN` on. The argument is what `goto RECV_AGAIN` does. -/
def recvBinary (goAgain : TcpSocket → ListSmg → List SocketRead → ReadResult) (s : TcpSocket) (m : ListSmg)
    (net : List SocketRead) : ReadResult :=
  let (nBytes, bytes, net) := s.recv (m.len - m.recvLen) net
  match m.cPacketBuffer.store m.recvLen bytes with
  | none => .error .overrun
  | some buffer =>
    let m := { m with cPacketBuffer := buffer }
    if nBytes < 0 then .ok ((s.keep m).activeClose, net)
    else if nBytes = 0 then .ok (s.keep m, net)
    else
      let m := { m with recvLen := (m.recvLen + nBytes.toNat % 65536) % 65536 }
      if m.recvLen = m.len then
        match unpackFromArray m.cPacketBuffer.1 packageHeadLen with
        | none => .ok ((s.keep m).activeClose, net)
        | some head =>
          if head.len < packageHeadLen ∨ head.len > packageLenMax - 200 then .ok ((s.keep m).activeClose, net)
          else if m.len = head.len then
            .ok (s.deliver
              { m with
                len := head.len
                connfd := s.sockID
                cPacketType := 0
                nPort := s.remotePort
                nCmd := head.cmd
                nErrCode := head.errCode
                nUniqueID := s.uniqueID
                nCliConnID := head.cliConnID
                nRemoteServerID := s.remoteServerID
                szTransID := head.transID
                sAddr := s.remoteAddr.take 30 }, net)
          else if packageHeadLen = m.len then
            let m := { m with len := head.len % 65536, nCmd := head.cmd, szTransID := head.transID }
            let s := if m.len > packageLenMax - 100 then s.activeClose else s
            goAgain s m net
          else .ok ((s.keep m).activeClose, net)
      else if m.recvLen < m.len then .ok (s.keep m, net)
      else .ok ((s.keep m).activeClose, net)

/-- `OnRead` in binary mode, which goes to `RECV_AGAIN` at most once. -/
def readBinary (s : TcpSocket) (m : ListSmg) (net : List SocketRead) : ReadResult :=
  if m.len > packageLenMax - 200 ∨ m.recvLen ≥ m.len then .ok ((s.keep m).activeClose, net)
  else s.recvBinary (fun s m net => s.recvBinary (fun s m net => .ok (s.keep m, net)) m net) m net

/-- The kind of a line, with its `nCmd` and its trace id. -/
def lineCommand (s : TcpSocket) (m : ListSmg) : ListSmg × TcpSocket :=
  let text := asciiText m.cPacketBuffer.text
  if "MATCHSTATE".toList <+: text then
    let (id, s) := s.nextTransID
    ({ m with szTransID := id, nCmd := 40012 }, s)
  else if "KeepAlive".toList <+: text then
    let (id, s) := s.nextTransID
    ({ m with szTransID := id, nCmd := 40010 }, s)
  else if "VERSION: ".toList <+: text then
    let (id, s) := s.nextTransID
    ({ m with szTransID := id, nCmd := 40011 }, s)
  else
    ({ m with szTransID := (getValueBykey text "TransID".toList ['#']).take (tidLen - 1), nCmd := 90001 }, s)

/-- The line that is delivered. Nothing for a write past the end of its buffer. -/
def lineMessage (s : TcpSocket) (m : ListSmg) : Option (ListSmg × TcpSocket) :=
  (m.cPacketBuffer.store m.len [0]).map fun buffer =>
    s.lineCommand
      { m with
        connfd := s.sockID
        nPort := s.remotePort
        nUniqueID := s.uniqueID
        nCliConnID := (s.sockID * 4294967296 + s.uniqueID) % 18446744073709551616
        nRemoteServerID := s.remoteServerID
        cPacketBuffer := buffer
        sAddr := s.remoteAddr.take 30 }

/-- The bytes behind a line, copied into a fresh node. -/
def cacheRest (m next : ListSmg) (nLineLen : Nat) : Option ListSmg := do
  let recvLen := (m.len + 65536 - nLineLen) % 65536
  let buffer ← next.cPacketBuffer.store 0 ((m.cPacketBuffer.1.drop nLineLen).take recvLen)
  let buffer ← buffer.store recvLen [0]
  pure { next with recvLen := recvLen, len := recvLen, cPacketBuffer := buffer }

/-- `OnRead` in text mode from `FIND_LINE` on. -/
def findLine (free : Nat → Option PacketBuffer) : Nat → TcpSocket → ListSmg → Except ReadStop TcpSocket
  | 0, _, _ => .error .endless
  | fuel + 1, s, m =>
    match m.cPacketBuffer.text.findIdx? (· = 10) with
    | none => .ok (s.nextTransID.2.keep m)
    | some pLineEnd =>
      let nLineLen := (pLineEnd + 1) % 65536
      if nLineLen < m.len then do
        let (pNextMsg, s) ← s.getNoBlockNode free
        match cacheRest m pNextMsg nLineLen with
        | none => .error .overrun
        | some pNextMsg =>
          match s.lineMessage { m with recvLen := nLineLen, len := nLineLen } with
          | none => .error .overrun
          | some (m, s) => findLine free fuel (s.deliver m) pNextMsg
      else
        match s.lineMessage m with
        | none => .error .overrun
        | some (m, s) => .ok (s.deliver m)

/-- `OnRead` in text mode. -/
def readText (free : Nat → Option PacketBuffer) (s : TcpSocket) (m : ListSmg) (net : List SocketRead) : ReadResult :=
  if m.len > packageLenMax - 200 then .ok ((s.nextTransID.2.keep m).activeClose, net)
  else
    let (nBytes, bytes, net) := s.recv (packageLenMax - m.len - 100) net
    match m.cPacketBuffer.store m.recvLen bytes with
    | none => .error .overrun
    | some buffer =>
      let m := { m with cPacketBuffer := buffer }
      if nBytes < 0 then .ok ((s.nextTransID.2.keep m).activeClose, net)
      else if nBytes = 0 then .ok (s.keep m, net)
      else
        let recvLen := (m.recvLen + nBytes.toNat % 65536) % 65536
        match m.cPacketBuffer.store recvLen [0] with
        | none => .error .overrun
        | some buffer =>
          let m := { m with recvLen := recvLen, len := recvLen, cPacketBuffer := buffer }
          (s.findLine free (m.len + 1) m).map fun s => (s, net)

/-- The message that `OnRead` reads into, a fresh one where there is none. -/
def recvNode (free : Nat → Option PacketBuffer) (s : TcpSocket) : Except ReadStop (ListSmg × TcpSocket) :=
  match s.recvMsg with
  | some m => .ok (m, s)
  | none => do
    let (m, s) ← s.getNoBlockNode free
    pure ({ m with recvLen := 0, len := if s.binaryMode then packageHeadLen else m.len }, s)

def onRead (free : Nat → Option PacketBuffer) (s : TcpSocket) (net : List SocketRead) : ReadResult := do
  let (m, s) ← s.recvNode free
  if s.binaryMode then s.readBinary m net else s.readText free m net

/-- Calls of `OnRead`, one after another. -/
def onReads (free : Nat → Option PacketBuffer) : Nat → TcpSocket → List SocketRead → ReadResult
  | 0, s, net => .ok (s, net)
  | calls + 1, s, net => do
    let (s, net) ← s.onRead free net
    s.onReads free calls net

end TcpSocket

end MasterAI
