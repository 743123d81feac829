import Muduo.Buffer
import Muduo.Channel

/-!
# `TcpConnection` (`TcpConnection.h`, `TcpConnection.cpp`)

The connection's functions on a `World`: the connection, its loop's poller, and the trace of what it
did to the outside (`::write`, `shutdown(SHUT_WR)`, functors queued in its loop, user callbacks). The
kernel's answers are arguments, and so is what `LOG_ERROR` leaves in `errno`. Where a function reads
`m_state` half-way through it is cut there, so that other threads can be put in between.
-/

namespace Muduo

def EWOULDBLOCK : Errno := 11
def EPIPE : Errno := 32
def ECONNRESET : Errno := 104

/-- `TcpConnection::State`. -/
inductive ConnState
  | disconnected
  | connecting
  | connected
  | disconnecting
deriving DecidableEq, Repr

/-- The functors a connection queues in its loop. -/
inductive Functor
  | writeComplete
  | highWaterMark (len : Nat)
  | sendInLoop (msg : Bytes)
  | shutdownInLoop
deriving DecidableEq, Repr

/-- What a connection does to the outside. -/
inductive Effect
  | write (offered : Bytes) (r : WriteResult)
  /-- `Socket::shutdownWrite`, with the bytes of the output buffer not written by then. -/
  | shutdownWrite (unsent : Bytes)
  | queueInLoop (f : Functor)
  | connectionCallback (isConnected : Bool)
  | messageCallback
  | closeCallback
deriving DecidableEq, Repr

/-- The functors queued, in order. -/
def queued (trace : List Effect) : List Functor :=
  trace.filterMap fun
    | .queueInLoop f => some f
    | _ => none

/-- The callbacks are the user's; the code only tests whether they are set. -/
structure TcpConnection where
  state : ConnState
  channel : Channel
  connectionCallback : Bool
  messageCallback : Bool
  writeCompleteCallback : Bool
  highWaterMarkCallback : Bool
  closeCallback : Bool
  highWaterMark : Nat
  inputBuffer : Buffer
  outputBuffer : Buffer
deriving DecidableEq, Repr

namespace TcpConnection

def kDefaultHighWaterMark : Nat := 64 * 1024 * 1024

/-- The constructor; the server sets the callbacks afterwards. -/
def new (inSockfd : Int) : TcpConnection where
  state := .connecting
  channel := { fd := inSockfd }
  connectionCallback := false
  messageCallback := false
  writeCompleteCallback := false
  highWaterMarkCallback := false
  closeCallback := false
  highWaterMark := kDefaultHighWaterMark
  inputBuffer := .initial
  outputBuffer := .initial

/-- `m_state == State::Connected`. -/
def isConnected (conn : TcpConnection) : Bool := conn.state = .connected

end TcpConnection

structure World (ι : Type) where
  conn : TcpConnection
  /-- The address of the connection's channel. -/
  ptr : ι
  /-- The poller of the connection's loop. -/
  poller : EPollPoller ι
  trace : List Effect

namespace World
variable {ι : Type}

def emit (w : World ι) (e : Effect) : World ι := { w with trace := w.trace ++ [e] }

def setState (w : World ι) (inState : ConnState) : World ι := { w with conn.state := inState }

/-- `m_channel->tie(shared_from_this())`. -/
def tie (w : World ι) : World ι := { w with conn.channel.tied := true }

/-- `m_loop->queueInLoop`, on the loop thread or another. -/
def queueInLoop (w : World ι) (f : Functor) : World ι := w.emit (.queueInLoop f)

def channelOp (w : World ι) (op : ChannelOp) : Except Fault (World ι) := do
  let (p, ch) ← op.exec w.conn.channel w.ptr w.poller
  return { w with poller := p, conn.channel := ch }

def runConnectionCallback (w : World ι) : World ι :=
  if w.conn.connectionCallback then w.emit (.connectionCallback w.conn.isConnected) else w

/-! ### Sending -/

/-- What the direct write leaves behind: `nwrote`, `remaining` and `faultError`. -/
structure DirectWrite (ι : Type) where
  world : World ι
  nwrote : Nat
  remaining : Nat
  faultError : Bool

/-- The condition of the direct write. -/
def writesDirectly (w : World ι) : Bool :=
  !w.conn.channel.isWriting && w.conn.outputBuffer.readableBytes == 0

/-- The errors on which a message is given up: `errno` is tested again after `LOG_ERROR`, which may
have changed it to `logErrno errno`. -/
def isFault (logErrno : Errno → Errno) (errno : Errno) : Bool :=
  errno != EWOULDBLOCK && (logErrno errno == EPIPE || logErrno errno == ECONNRESET)

def writeDirect (logErrno : Errno → Errno) (inData : Bytes) (r : WriteResult) (w : World ι) :
    DirectWrite ι :=
  let w := w.emit (.write inData r)
  match r with
  | .accepted n =>
    let remaining := inData.length - n
    let w := if remaining = 0 ∧ w.conn.writeCompleteCallback then w.queueInLoop .writeComplete else w
    ⟨w, n, remaining, false⟩
  | .error errno => ⟨w, 0, inData.length, isFault logErrno errno⟩

/-- The high-water test: made on the size the output buffer is about to have. -/
def checkHighWater (remaining : Nat) (w : World ι) : World ι :=
  let oldLen := w.conn.outputBuffer.readableBytes
  if addSize oldLen remaining ≥ w.conn.highWaterMark ∧ oldLen < w.conn.highWaterMark ∧
      w.conn.highWaterMarkCallback then
    w.queueInLoop (.highWaterMark (addSize oldLen remaining))
  else w

/-- The last part of `sendInLoop`: what is left of the message goes to the output buffer. -/
def bufferRest (inData : Bytes) (d : DirectWrite ι) : Except Fault (World ι) :=
  if d.faultError = false ∧ d.remaining > 0 then do
    let w := checkHighWater d.remaining d.world
    let out ← w.conn.outputBuffer.append (inData.drop d.nwrote)
    let w := { w with conn.outputBuffer := out }
    if w.conn.channel.isWriting then return w else w.channelOp .enableWriting
  else .ok d.world

/-- `sendInLoop` once it has found `m_state` other than `Disconnected`. -/
def sendOrBuffer (logErrno : Errno → Errno) (inData : Bytes) (r : WriteResult) (w : World ι) :
    Except Fault (World ι) :=
  bufferRest inData
    (if w.writesDirectly then writeDirect logErrno inData r w else ⟨w, 0, inData.length, false⟩)

def sendInLoop (logErrno : Errno → Errno) (inData : Bytes) (r : WriteResult) (w : World ι) :
    Except Fault (World ι) :=
  if w.conn.state = .disconnected then .ok w else sendOrBuffer logErrno inData r w

/-- `send` on the loop thread or on another. -/
def send (logErrno : Errno → Errno) (isInLoopThread : Bool) (inMsg : Bytes) (r : WriteResult)
    (w : World ι) : Except Fault (World ι) :=
  if w.conn.state = .connected then
    if isInLoopThread then sendInLoop logErrno inMsg r w
    else .ok (w.queueInLoop (.sendInLoop inMsg))
  else .ok w

/-! ### Half-close -/

def shutdownInLoop (w : World ι) : World ι :=
  if w.conn.channel.isWriting then w else w.emit (.shutdownWrite w.conn.outputBuffer.readable)

/-- `shutdown` on the loop thread or on another. -/
def shutdown (isInLoopThread : Bool) (w : World ι) : World ι :=
  if w.conn.state = .connected then
    let w := w.setState .disconnecting
    if isInLoopThread then w.shutdownInLoop else w.queueInLoop .shutdownInLoop
  else w

/-! ### Events -/

/-- `handleClose` once it has stored `m_state`. -/
def closeRest (w : World ι) : Except Fault (World ι) := do
  let w ← w.channelOp .disableAll
  let w := w.runConnectionCallback
  return if w.conn.closeCallback then w.emit .closeCallback else w

def handleClose (w : World ι) : Except Fault (World ι) := (w.setState .disconnected).closeRest

/-- `handleError` reads `SO_ERROR` and logs it. -/
def handleError (w : World ι) : World ι := w

/-- `handleRead` up to its call of `handleClose`; the flag says that it is called. -/
def readInput (r : ReadResult) (w : World ι) : Except Fault (World ι × Bool) := do
  let (n, inp) ← w.conn.inputBuffer.readFd r
  let w := { w with conn.inputBuffer := inp }
  if n > 0 then return (if w.conn.messageCallback then w.emit .messageCallback else w, false)
  else if n = 0 then return (w, true)
  else return (w.handleError, false)

def handleRead (r : ReadResult) (w : World ι) : Except Fault (World ι) := do
  let (w, atEnd) ← w.readInput r
  if atEnd then w.handleClose else return w

/-- `handleWrite` up to its test of `m_state`; the flag says that the test is reached. -/
def drain (r : WriteResult) (w : World ι) : Except Fault (World ι × Bool) :=
  if w.conn.channel.isWriting then
    let n := w.conn.outputBuffer.writeFd r
    let w := match w.conn.outputBuffer.writeFdOffer with
      | some offered => w.emit (.write offered r)
      | none => w
    if n > 0 then
      let w := { w with conn.outputBuffer := w.conn.outputBuffer.retrieve n.toNat }
      if w.conn.outputBuffer.readableBytes = 0 then do
        let w ← w.channelOp .disableWriting
        return (if w.conn.writeCompleteCallback then w.queueInLoop .writeComplete else w, true)
      else .ok (w, false)
    else .ok (w, false)
  else .ok (w, false)

/-- The test of `m_state` at the end of `handleWrite`. -/
def finishWrite : World ι × Bool → World ι
  | (w, drained) => if drained ∧ w.conn.state = .disconnecting then w.shutdownInLoop else w

def handleWrite (r : WriteResult) (w : World ι) : Except Fault (World ι) :=
  (w.drain r).map finishWrite

/-! ### The server's calls -/

/-- `connectEstablished` once it has stored `m_state`. -/
def establishRest (w : World ι) : Except Fault (World ι) := do
  let w ← w.tie.channelOp .enableReading
  return w.runConnectionCallback

def connectEstablished (w : World ι) : Except Fault (World ι) :=
  (w.setState .connected).establishRest

/-- What `connectDestroyed` does after storing `m_state` on a connected connection. -/
def destroyConnected (w : World ι) : Except Fault (World ι) := do
  let w ← w.channelOp .disableAll
  return w.runConnectionCallback

def connectDestroyed (w : World ι) : Except Fault (World ι) := do
  let w ← if w.conn.state = .connected then (w.setState .disconnected).destroyConnected else pure w
  w.channelOp .remove

end World
end Muduo
