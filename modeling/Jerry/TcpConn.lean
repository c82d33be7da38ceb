/-
`net/TcpConn` with its channel, and the server as a list of connections.  A
callback into user code is recorded, and what the handler calls on a connection
is a step of its own: no function goes on to use the connection in a way that a
handler could notice.
-/
import Jerry.BaseBufferFifo

namespace Jerry

/-- `errno` as far as `TcpConn` and its callers tell errors apart. -/
inductive Errno where
  | epipe | econnreset | eagain | eintr | other
deriving DecidableEq, Repr

/-- `SSL_get_error`. -/
inductive SslError where
  | wantRead | wantWrite | other
deriving DecidableEq, Repr

/-- What the kernel, OpenSSL and the rate limiter answer during one call. -/
structure Outside where
  read : ReadResult
  write : WriteResult
  errno : Errno
  sslError : SslError
  shutdownFails : Bool
  limited : Bool
deriving DecidableEq, Repr

/-- Nothing is read or written, and nothing fails but that. -/
def Outside.quiet : Outside :=
  { read := .failed
    write := .failed
    errno := .eagain
    sslError := .wantRead
    shutdownFails := false
    limited := false }

/-- The functions of the user that `TcpServer::Serve` calls. -/
inductive TcpCallback where
  | onTcpConnected | onTcpReceivedData | onTcpDisconnected
deriving DecidableEq, Repr

/-- The events a channel is interested in, and what the poller knows of them.
A channel the poller does not know is not updated. -/
structure Channel where
  reading : Bool
  writing : Bool
  polled : Option (Bool × Bool)
deriving DecidableEq, Repr

namespace Channel

def init : Channel :=
  ⟨false, false, none⟩

def updateChannel (c : Channel) : Channel :=
  { c with polled := c.polled.map fun _ => (c.reading, c.writing) }

def activateReading (c : Channel) : Channel :=
  if c.reading then c else { c with reading := true }.updateChannel

def activateWriting (c : Channel) : Channel :=
  if c.writing then c else { c with writing := true }.updateChannel

def deactivateWriting (c : Channel) : Channel :=
  if c.writing then { c with writing := false }.updateChannel else c

def addToPoller (c : Channel) : Channel :=
  { c with polled := some (c.polled.getD (false, false)) }

def removeFromPoller (c : Channel) : Channel :=
  { c with polled := none }

end Channel

/-- `TcpConn::State`. -/
inductive TcpConn.State where
  | connected | disconnected | shutdown
deriving DecidableEq, Repr

/-- What has happened to a connection.  None of it is in the source.  `refused`
and `peerGone` say that the limiter refused the connection and that a write
reported that the peer is gone. -/
structure ConnHistory where
  callbacks : List TcpCallback
  accepted : List UInt8
  written : List UInt8
  closed : Bool
  refused : Bool
  peerGone : Bool
deriving DecidableEq, Repr

structure TcpConn where
  state : TcpConn.State
  channel : Channel
  sendBuffer : BaseBuffer
  recvBuffer : BaseBuffer
  isEncrypted : Bool
  inIOWorker : Bool
  history : ConnHistory
deriving DecidableEq, Repr

namespace TcpConn

/-- The constructor. -/
def init (isEncrypted : Bool) : TcpConn :=
  { state := .connected
    channel := .init
    sendBuffer := .ofSize 1024
    recvBuffer := .ofSize 1024
    isEncrypted := isEncrypted
    inIOWorker := false
    history := ⟨[], [], [], false, false, false⟩ }

/-- A new client, known to its worker and its poller, before `OnConnected`. -/
def ofClient (isEncrypted : Bool) : TcpConn :=
  let conn := init isEncrypted
  { conn with
    inIOWorker := true
    channel := conn.channel.addToPoller.activateReading }

def isConnected (c : TcpConn) : Bool :=
  c.state = .connected

def exchangeState (c : TcpConn) (state : TcpConn.State) : TcpConn :=
  { c with
    state := state
    history := { c.history with
      closed := c.history.closed || decide (state = .disconnected) } }

def call (c : TcpConn) (callback : TcpCallback) : TcpConn :=
  { c with
    history := { c.history with
      callbacks := c.history.callbacks ++ [callback] } }

def onChannelClose (c : TcpConn) : TcpConn :=
  let c := c.exchangeState .disconnected
  let c := { c with
    channel := c.channel.removeFromPoller
    sendBuffer := c.sendBuffer.release
    recvBuffer := c.recvBuffer.release }
  let c := c.call .onTcpDisconnected
  { c with inIOWorker := false }

def forceClose (c : TcpConn) : TcpConn :=
  c.onChannelClose

def shutdown (c : TcpConn) (o : Outside) : TcpConn :=
  let c := c.exchangeState .shutdown
  let c := { c with channel := c.channel.deactivateWriting }
  if o.shutdownFails then c.forceClose else c

def send (c : TcpConn) (data : List UInt8) : TcpConn :=
  if c.isConnected then
    { c with
      sendBuffer := c.sendBuffer.append data
      channel := c.channel.activateWriting
      history := { c.history with accepted := c.history.accepted ++ data } }
  else c

/-- `callback.OnConnected`. -/
def onConnected (c : TcpConn) (o : Outside) : TcpConn :=
  if o.limited then
    { c with history := { c.history with refused := true } }.shutdown o
  else c.call .onTcpConnected

/-- `callback.OnDataReceived`. -/
def onDataReceived (c : TcpConn) (o : Outside) : TcpConn :=
  if o.limited then c.shutdown o else c.call .onTcpReceivedData

def onChannelReadable (c : TcpConn) (o : Outside) : TcpConn :=
  if c.isConnected then
    if c.isEncrypted then
      let (recvBuffer, n) := c.recvBuffer.readBytesFromSsl o.read
      let c := { c with recvBuffer := recvBuffer }
      if n = 0 then c.shutdown o
      else if n < 0 then
        if o.sslError = .wantRead then c else c.forceClose
      else c.onDataReceived o
    else
      let (recvBuffer, n) := c.recvBuffer.readBytesFromFd o.read
      let c := { c with recvBuffer := recvBuffer }
      if n ≤ 0 then c.forceClose else c.onDataReceived o
  else c

/-- The bytes a write has taken. -/
def taken (c : TcpConn) : WriteResult → List UInt8
  | .wrote n => c.sendBuffer.toStringView.take n
  | .failed => []

/-- Without data to send, writing is deactivated. -/
def deactivateIfDone (c : TcpConn) : TcpConn :=
  if c.sendBuffer.readableBytes = 0 then
    { c with channel := c.channel.deactivateWriting }
  else c

/-- On an encrypted connection an error closes the connection, and the last
check is still made. -/
def onChannelWritable (c : TcpConn) (o : Outside) : TcpConn :=
  if c.isConnected then
    let history := { c.history with
      written := c.history.written ++ c.taken o.write }
    if c.isEncrypted then
      let (sendBuffer, n) := c.sendBuffer.writeBytesToSsl o.write
      let c := { c with sendBuffer := sendBuffer, history := history }
      let c := if n ≤ 0 then c.forceClose else c
      c.deactivateIfDone
    else
      let (sendBuffer, n) := c.sendBuffer.writeBytesToFd o.write
      let c := { c with sendBuffer := sendBuffer, history := history }
      if n < 0 ∧ (o.errno = .epipe ∨ o.errno = .econnreset) then
        { c with history := { c.history with peerGone := true } }.call
          .onTcpDisconnected
      else c.deactivateIfDone
  else c

/-- The bits of `triggered_events`: `kCloseEvent`, `kReadEvent` and
`kWriteEvent`. -/
structure Events where
  close : Bool
  read : Bool
  write : Bool
deriving DecidableEq, Repr

/-- `Channel::HandleEvent`: one callback, whatever else was triggered. -/
def handleEvent (c : TcpConn) (events : Events) (o : Outside) : TcpConn :=
  if events.close then c.onChannelClose
  else if events.read then c.onChannelReadable o
  else if events.write then c.onChannelWritable o
  else c.onChannelClose

end TcpConn

/-- What can happen to a connection: an event of its channel, or a call from a
handler, a timer task or the end of its worker. -/
inductive ConnOp where
  | handleEvent (events : TcpConn.Events) (o : Outside)
  | send (data : List UInt8)
  | shutdown (o : Outside)
  | forceClose
deriving DecidableEq, Repr

namespace ConnOp

/-- A read or write reports no more than it was offered. -/
def Enabled (c : TcpConn) : ConnOp → Prop
  | .handleEvent _ o =>
      if c.isEncrypted then
        (BufferOp.readBytesFromSsl o.read).Enabled c.recvBuffer ∧
          (BufferOp.writeBytesToSsl o.write).Enabled c.sendBuffer
      else
        (BufferOp.readBytesFromFd o.read).Enabled c.recvBuffer ∧
          (BufferOp.writeBytesToFd o.write).Enabled c.sendBuffer
  | _ => True

instance (c : TcpConn) (op : ConnOp) : Decidable (op.Enabled c) := by
  unfold Enabled
  split <;> infer_instance

def exec (c : TcpConn) : ConnOp → TcpConn
  | .handleEvent events o => c.handleEvent events o
  | .send data => c.send data
  | .shutdown o => c.shutdown o
  | .forceClose => c.forceClose

end ConnOp

/-- One connection on its own. -/
def connMachine : Machine TcpConn ConnOp where
  enabled c op := op.Enabled c
  next c op := op.exec c

instance (c : TcpConn) (op : ConnOp) : Decidable (connMachine.enabled c op) :=
  inferInstanceAs (Decidable (op.Enabled c))

/-- The connections a server has accepted, in this order. -/
structure TcpServer where
  useSsl : Bool
  conns : List TcpConn
deriving DecidableEq, Repr

namespace TcpServer

/-- `Acceptor::OnPeerConnect` for a client that was accepted. -/
def onPeerConnect (s : TcpServer) (o : Outside) : TcpServer :=
  { s with conns := s.conns ++ [(TcpConn.ofClient s.useSsl).onConnected o] }

inductive Op where
  | onPeerConnect (o : Outside)
  | conn (i : Nat) (op : ConnOp)
deriving DecidableEq, Repr

/-- The connection at a position, and the operation on it. -/
def Op.Enabled (s : TcpServer) : Op → Prop
  | .onPeerConnect _ => True
  | .conn i op => ∃ c ∈ s.conns[i]?, op.Enabled c

instance (s : TcpServer) (op : Op) : Decidable (op.Enabled s) := by
  unfold Op.Enabled
  split <;> infer_instance

def exec (s : TcpServer) : Op → TcpServer
  | .onPeerConnect o => s.onPeerConnect o
  | .conn i op => { s with conns := s.conns.modify i fun c => op.exec c }

end TcpServer

/-- A server with all its connections. -/
def serverMachine : Machine TcpServer TcpServer.Op where
  enabled s op := op.Enabled s
  next := TcpServer.exec

instance (s : TcpServer) (op : TcpServer.Op) :
    Decidable (serverMachine.enabled s op) :=
  inferInstanceAs (Decidable (op.Enabled s))

end Jerry
