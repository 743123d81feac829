import Muduo.BufferInv
import Muduo.TcpConnection

/-!
# `TcpServer`, its loops and its connections (`TcpServer.h`, `TcpServer.cpp`)

Loop 0 is the server's own loop, loop `i + 1` the pool's `i`-th. Each loop polls, handles what it
polled, and calls a batch of functors; the loops take steps independently of each other. A job is
either a functor or what is left of a function the loop is in the middle of, so that wherever a
function makes itself known to another loop (it pushes a functor) a step ends. Connections are
numbered as they are accepted, and the number stands for the object and for its channel.
-/

namespace Muduo

inductive Job
  /-- `newConnection`, at its call of `runInLoop`. -/
  | establish (c : Nat)
  | connectEstablished (c : Nat)
  /-- `handleEvent`, with the callbacks still to be made. -/
  | handleEvent (c : Nat) (cbs : List Callback)
  /-- `handleClose`, at its call of the close callback. -/
  | removeConnection (c : Nat)
  | removeConnectionInLoop (c : Nat)
  /-- `removeConnectionInLoop`, at its call of `queueInLoop`. -/
  | queueDestroyed (c : Nat)
  | connectDestroyed (c : Nat)
  /-- The functor of a write-complete or high-water callback. -/
  | userCallback (c : Nat)
  /-- The functors of `send` and `shutdown` on another thread. -/
  | sendInLoop (c : Nat) (msg : Bytes)
  | shutdownInLoop (c : Nat)
deriving DecidableEq, Repr

inductive Phase
  | polling
  | handling
  | calling
deriving DecidableEq, Repr

/-- One loop of the server. The functors `called` live until the end of their batch. -/
structure ServerLoop where
  phase : Phase
  poller : EPollPoller Nat
  active : List (Nat × EventMask)
  /-- What the loop is in the middle of, innermost first. -/
  stack : List Job
  functors : List Job
  called : List Job
  pendingFunctors : List Job
  /-- `m_quit` -/
  quit : Bool
  /-- `loop()` has returned, and the `EventLoop` is gone. -/
  ended : Bool

/-- What happened to a connection; the code keeps no such record. -/
inductive Mark
  | established
  | handler (cb : Callback)
  | closed
  | erased
  | destroyed
deriving DecidableEq, Repr

structure ServerConn where
  name : String
  loop : Nat
  tcp : TcpConnection
  /-- What happened to it so far, oldest first. -/
  log : List Mark

structure TcpServer where
  name : String
  ipPort : String
  /-- `m_loops.size()` of the pool. -/
  numThreads : Nat
  /-- `m_next` of the pool. -/
  next : Nat
  nextConnId : BitVec 32
  connectionCallback : Bool
  messageCallback : Bool
  writeCompleteCallback : Bool
  connections : String → Option Nat
  /-- The number of connections accepted so far. -/
  accepted : Nat
  conn : Nat → ServerConn
  loop : Nat → ServerLoop
  /-- How many `TcpConnectionPtr`s user code holds. -/
  held : Nat → Nat
  /-- The server has not been destroyed. -/
  alive : Bool

inductive ServerStep
  | poll (l : Nat) (events : List (Nat × EventMask))
  | accept (inSockfd : Int)
  /-- The next active channel. -/
  | dispatch (l : Nat)
  /-- The loop goes on with what it is in the middle of, with the kernel's answers. -/
  | proceed (l : Nat) (r : ReadResult) (r' : WriteResult)
  | swap (l : Nat)
  /-- The next functor of the batch. -/
  | call (l : Nat)
  | destroyFunctors (l : Nat)
  /-- User code calls `send` or `shutdown` on the connection's loop. -/
  | send (c : Nat) (inMsg : Bytes) (r : WriteResult)
  | shutdown (c : Nat)
  /-- User code copies or drops a `TcpConnectionPtr`. -/
  | hold (c : Nat)
  | release (c : Nat)
  /-- Another thread calls `send` or `shutdown` through a pointer it holds. -/
  | foreignSend (c : Nat) (inMsg : Bytes)
  | foreignShutdown (c : Nat)
  /-- `~TcpServer` begins, and destroys the map. -/
  | destroyServer
  /-- `~TcpServer` comes to the pool's next thread, whose `~EventLoopThread` calls `quit`. -/
  | quitLoop (l : Nat)
deriving DecidableEq, Repr

namespace Job

/-- The connection a job is about. -/
def conn : Job → Nat
  | .establish c => c
  | .connectEstablished c => c
  | .handleEvent c _ => c
  | .removeConnection c => c
  | .removeConnectionInLoop c => c
  | .queueDestroyed c => c
  | .connectDestroyed c => c
  | .userCallback c => c
  | .sendInLoop c _ => c
  | .shutdownInLoop c => c

/-- A job keeps its connection alive; `send` and `shutdown` queue a plain `this`. -/
def owns : Job → Bool
  | .sendInLoop _ _ => false
  | .shutdownInLoop _ => false
  | _ => true

end Job

/-- The kernel takes a closed fd out of the interest set; `m_channels` is not told. -/
def EPollPoller.forget {ι : Type} (p : EPollPoller ι) (keep : ι → Bool) : EPollPoller ι :=
  { p with interest := fun fd => (p.interest fd).filter fun e => keep e.ptr }

namespace ServerLoop

/-- What a loop has still to do. -/
def jobs (q : ServerLoop) : List Job := q.stack ++ q.functors ++ q.pendingFunctors

def new : ServerLoop := ⟨.polling, .new, [], [], [], [], [], false, false⟩

/-- `threadFunc` has left `loop()`: the `EventLoop` is destroyed with its poller and what is queued. -/
def exited : ServerLoop := { new with quit := true, ended := true }

/-- The loop goes on without the kernel's entries for what `keep` says is closed. -/
def forget (q : ServerLoop) (keep : Nat → Bool) : ServerLoop := { q with poller := q.poller.forget keep }

end ServerLoop

namespace TcpServer

/-! ### Parts of the state -/

def setLoop (s : TcpServer) (l : Nat) (q : ServerLoop) : TcpServer :=
  { s with loop := Function.update s.loop l q }

def queueInLoop (s : TcpServer) (l : Nat) (j : Job) : TcpServer :=
  s.setLoop l { s.loop l with pendingFunctors := (s.loop l).pendingFunctors ++ [j] }

/-- The loop enters a function. -/
def enter (s : TcpServer) (l : Nat) (j : Job) : TcpServer :=
  s.setLoop l { s.loop l with stack := j :: (s.loop l).stack }

/-- `runInLoop` of loop `target` on the thread of loop `l`. -/
def runInLoop (s : TcpServer) (l target : Nat) (j : Job) : TcpServer :=
  if l = target then s.enter l j else s.queueInLoop target j

def mark (s : TcpServer) (c : Nat) (m : Mark) : TcpServer :=
  { s with conn := Function.update s.conn c { s.conn c with log := (s.conn c).log ++ [m] } }

/-- Some `shared_ptr` to the connection exists: in the map, with the user, or with a job that is
queued, running, or kept by its batch. -/
def owned (s : TcpServer) (c : Nat) : Bool :=
  s.connections (s.conn c).name == some c || 0 < s.held c ||
    (List.range (s.numThreads + 1)).any fun l =>
      ((s.loop l).jobs ++ (s.loop l).called).any fun j => j.owns && j.conn == c

/-- The fd of a connection is closed with its last `shared_ptr`. -/
def closeFds (s : TcpServer) : TcpServer := { s with loop := fun l => (s.loop l).forget s.owned }

/-! ### Running a connection's functions -/

/-- The connection's functions see its own state and its loop's poller. -/
def world (s : TcpServer) (c : Nat) : World Nat :=
  ⟨(s.conn c).tcp, c, (s.loop (s.conn c).loop).poller, []⟩

/-- The state after a function of the connection: what it queued goes to its loop, and the close
callback enters `removeConnection`. -/
def absorb (s : TcpServer) (c : Nat) (w : World Nat) : TcpServer :=
  let q := s.loop (s.conn c).loop
  { s with conn := Function.update s.conn c { s.conn c with tcp := w.conn } }.setLoop (s.conn c).loop
    { q with
      poller := w.poller
      stack := (if Effect.closeCallback ∈ w.trace then [Job.removeConnection c] else []) ++ q.stack
      pendingFunctors := q.pendingFunctors ++ (queued w.trace).map fun _ => Job.userCallback c }

def handleClose (s : TcpServer) (c : Nat) (w : World Nat) : Option TcpServer :=
  w.handleClose.toOption.map fun w => (s.mark c .closed).absorb c w

/-- One callback of `handleEvent`. -/
def makeCallback (s : TcpServer) (c : Nat) (cb : Callback) (r : ReadResult) (r' : WriteResult) :
    Option TcpServer :=
  match cb with
  | .close => s.handleClose c (s.world c)
  | .error => some (s.absorb c (s.world c).handleError)
  | .read =>
    if (s.conn c).tcp.inputBuffer.ReadLegal r then
      ((s.world c).readInput r).toOption.bind fun (w, atEnd) =>
        if atEnd then s.handleClose c w else some (s.absorb c w)
    else none
  | .write =>
    if r'.Legal (s.conn c).tcp.outputBuffer.readableBytes then
      ((s.world c).handleWrite r').toOption.map (s.absorb c)
    else none

/-! ### The server's functions -/

/-- `EventLoopThreadPool::getNextLoop`: the loop and the new `m_next`. -/
def getNextLoop (s : TcpServer) : Nat × Nat :=
  if s.numThreads = 0 then (0, s.next)
  else (s.next + 1, if s.next + 1 ≥ s.numThreads then 0 else s.next + 1)

def connName (s : TcpServer) : String :=
  s.name ++ "-" ++ s.ipPort ++ "#" ++ toString s.nextConnId.toInt

/-- `newConnection` up to its call of `runInLoop`. -/
def newConnection (s : TcpServer) (inSockfd : Int) : TcpServer :=
  let tcp := { TcpConnection.new inSockfd with
    connectionCallback := s.connectionCallback
    messageCallback := s.messageCallback
    writeCompleteCallback := s.writeCompleteCallback
    closeCallback := true }
  { s with
    next := s.getNextLoop.2
    nextConnId := s.nextConnId + 1
    accepted := s.accepted + 1
    conn := Function.update s.conn s.accepted ⟨s.connName, s.getNextLoop.1, tcp, []⟩
    connections := Function.update s.connections s.connName (some s.accepted) }.enter 0
      (.establish s.accepted)

theorem newConnection_self (s : TcpServer) (inSockfd : Int) :
    (s.newConnection inSockfd).conn s.accepted = ⟨s.connName, s.getNextLoop.1,
      { TcpConnection.new inSockfd with
        connectionCallback := s.connectionCallback
        messageCallback := s.messageCallback
        writeCompleteCallback := s.writeCompleteCallback
        closeCallback := true }, []⟩ := Function.update_self ..

theorem newConnection_of_ne {s : TcpServer} {c : Nat} {inSockfd : Int} (hc : c ≠ s.accepted) :
    (s.newConnection inSockfd).conn c = s.conn c := Function.update_of_ne hc ..

theorem connections_newConnection (s : TcpServer) (inSockfd : Int) :
    (s.newConnection inSockfd).connections =
      Function.update s.connections s.connName (some s.accepted) := rfl

/-- `m_connections.erase`. -/
def erase (s : TcpServer) (c : Nat) : TcpServer :=
  { s with connections := Function.update s.connections (s.conn c).name none }

theorem connections_erased (s : TcpServer) (c l : Nat) :
    (((s.mark c .erased).erase c).enter l (.queueDestroyed c)).connections =
      Function.update s.connections (s.conn c).name none := by
  show Function.update s.connections (Function.update s.conn c _ c).name none = _
  rw [Function.update_self]

/-- The next part of a job, on the thread of loop `l`. -/
def perform (logErrno : Errno → Errno) (s : TcpServer) (l : Nat) (r : ReadResult)
    (r' : WriteResult) : Job → Option TcpServer
  | .establish c => some (s.runInLoop l (s.conn c).loop (.connectEstablished c))
  | .connectEstablished c =>
    (s.world c).connectEstablished.toOption.map ((s.mark c .established).absorb c)
  | .handleEvent _ [] => some s
  | .handleEvent c (cb :: cbs) =>
    ((s.enter l (.handleEvent c cbs)).mark c (.handler cb)).makeCallback c cb r r'
  | .removeConnection c => some (s.runInLoop l 0 (.removeConnectionInLoop c))
  | .removeConnectionInLoop c => some (((s.mark c .erased).erase c).enter l (.queueDestroyed c))
  | .queueDestroyed c => some (s.queueInLoop (s.conn c).loop (.connectDestroyed c))
  | .connectDestroyed c =>
    (s.world c).connectDestroyed.toOption.map ((s.mark c .destroyed).absorb c)
  | .userCallback _ => some s
  | .sendInLoop c msg =>
    if r'.Legal msg.length then
      ((s.world c).sendInLoop logErrno msg r').toOption.map (s.absorb c)
    else none
  | .shutdownInLoop c => some (s.absorb c (s.world c).shutdownInLoop)

/-- The kernel reports a connection that is registered with the loop. -/
def registered (s : TcpServer) (l c : Nat) : Bool :=
  match (s.loop l).poller.interest (s.conn c).tcp.channel.fd with
  | some e => e.ptr == c
  | none => false

/-- `accept` returns an fd that no living connection has. -/
def freshFd (s : TcpServer) (inSockfd : Int) : Bool :=
  (List.range s.accepted).all fun c => !s.owned c || (s.conn c).tcp.channel.fd != inSockfd

def dispatch (s : TcpServer) (l c : Nat) (revents : EventMask) (rest : List (Nat × EventMask)) :
    TcpServer :=
  let ch := { (s.conn c).tcp.channel with revents := revents }
  let s := { s with conn := Function.update s.conn c { s.conn c with tcp.channel := ch } }
  s.setLoop l { s.loop l with
    active := rest
    stack := [.handleEvent c (ch.handleEvent (s.owned c))] }

/-- What a job uses by a plain pointer is there. A pool loop calls `removeConnection` before it is joined,
and so before the server is gone. -/
def usable (s : TcpServer) (l : Nat) : Job → Bool
  | .establish c => !(s.loop (s.conn c).loop).ended
  | .removeConnection _ => s.alive || l != 0
  | .removeConnectionInLoop _ => s.alive
  | .queueDestroyed c => !(s.loop (s.conn c).loop).ended
  | .sendInLoop c _ => s.owned c
  | .shutdownInLoop c => s.owned c
  | _ => true

/-- A step, before the fds of the connections it destroys are closed. There is none that uses what has been
destroyed: nothing says what it does. -/
def act (logErrno : Errno → Errno) (s : TcpServer) : ServerStep → Option TcpServer
  | .poll l events =>
    if l ≤ s.numThreads ∧ (s.loop l).phase = .polling ∧ (s.loop l).ended = false ∧
        (events.map Prod.fst).Nodup ∧ ∀ e ∈ events, e.1 < s.accepted ∧ s.registered l e.1 then
      some (s.setLoop l { s.loop l with phase := .handling, active := events })
    else none
  | .accept inSockfd =>
    if s.alive ∧ (s.loop 0).phase = .handling ∧ (s.loop 0).stack = [] ∧ 0 ≤ inSockfd ∧
        s.freshFd inSockfd then
      some (s.newConnection inSockfd)
    else none
  | .dispatch l =>
    match (s.loop l).phase, (s.loop l).stack, (s.loop l).active with
    | .handling, [], (c, revents) :: rest =>
      if s.owned c then some (s.dispatch l c revents rest) else none
    | _, _, _ => none
  | .proceed l r r' =>
    match (s.loop l).stack with
    | j :: st =>
      if s.usable l j then (s.setLoop l { s.loop l with stack := st }).perform logErrno l r r' j
      else none
    | [] => none
  | .swap l =>
    if (s.loop l).phase = .handling ∧ (s.loop l).stack = [] ∧ (s.loop l).active = [] then
      some (s.setLoop l { s.loop l with
        phase := .calling
        functors := (s.loop l).pendingFunctors
        pendingFunctors := [] })
    else none
  | .call l =>
    match (s.loop l).phase, (s.loop l).stack, (s.loop l).functors with
    | .calling, [], j :: js =>
      some (s.setLoop l { s.loop l with
        stack := [j], functors := js, called := (s.loop l).called ++ [j] })
    | _, _, _ => none
  | .destroyFunctors l =>
    if (s.loop l).phase = .calling ∧ (s.loop l).stack = [] ∧ (s.loop l).functors = [] then
      -- then `while (!m_quit)`
      some (s.setLoop l (if (s.loop l).quit then .exited
        else { s.loop l with phase := .polling, called := [] }))
    else none
  | .send c inMsg r =>
    if c < s.accepted ∧ s.owned c ∧ (s.loop (s.conn c).loop).ended = false ∧
        r.Legal inMsg.length then
      ((s.world c).send logErrno true inMsg r).toOption.map (s.absorb c)
    else none
  | .shutdown c =>
    if c < s.accepted ∧ s.owned c ∧ (s.loop (s.conn c).loop).ended = false then
      some (s.absorb c ((s.world c).shutdown true))
    else none
  | .hold c =>
    if c < s.accepted ∧ s.owned c then
      some { s with held := Function.update s.held c (s.held c + 1) }
    else none
  | .release c =>
    if 0 < s.held c then some { s with held := Function.update s.held c (s.held c - 1) } else none
  | .foreignSend c inMsg =>
    if 0 < s.held c ∧ (s.loop (s.conn c).loop).ended = false then
      some (if (s.conn c).tcp.isConnected then s.queueInLoop (s.conn c).loop (.sendInLoop c inMsg)
        else s)
    else none
  | .foreignShutdown c =>
    if 0 < s.held c ∧ (s.loop (s.conn c).loop).ended = false then
      some (if (s.conn c).tcp.isConnected then
        (s.absorb c ((s.world c).setState .disconnecting)).queueInLoop (s.conn c).loop
          (.shutdownInLoop c)
        else s)
    else none
  | .destroyServer =>
    if s.alive then some { s with alive := false, connections := fun _ => none } else none
  | .quitLoop l =>
    -- the threads before it have been joined
    if s.alive = false ∧ 0 < l ∧ l ≤ s.numThreads ∧ (s.loop l).quit = false ∧
        ∀ i < l, 0 < i → (s.loop i).ended = true then
      some (s.setLoop l { s.loop l with quit := true })
    else none

def step (logErrno : Errno → Errno) (s : TcpServer) (a : ServerStep) : Option TcpServer :=
  (s.act logErrno a).map closeFds

/-- A server that has been started, with a pool of `numThreads` loops. -/
def started (name ipPort : String) (numThreads : Nat) (connectionCallback messageCallback
    writeCompleteCallback : Bool) : TcpServer where
  name := name
  ipPort := ipPort
  numThreads := numThreads
  next := 0
  nextConnId := 1
  connectionCallback := connectionCallback
  messageCallback := messageCallback
  writeCompleteCallback := writeCompleteCallback
  connections _ := none
  accepted := 0
  conn _ := ⟨"", 0, .new 0, []⟩
  loop _ := .new
  held _ := 0
  alive := true

end TcpServer
end Muduo
