import Muduo.ConnSpec
import Muduo.Lib.Lts

/-!
# One connection between its loop and other threads

Each load and each store of `m_state` is a step, and so is each push of another thread. What the loop
thread does between two of them touches nothing that another thread can see but the end of the
functor queue, and is one step with the access before it. The queue is the functors queued so far less
the first `ran`, which have been run.
-/

namespace Muduo
open Lts

/-- What the loop thread does next, in the middle of a function. -/
inductive Act
  | idle
  /-- At the store of `connectEstablished`. -/
  | establish
  | establishRest
  /-- At the load of `sendInLoop`. -/
  | sendInLoop (inData : Bytes) (r : WriteResult)
  /-- At the store of `shutdown`. -/
  | shutdown
  /-- At the store of `handleClose`. -/
  | close
  | closeRest
  /-- At the load at the end of `handleWrite`. -/
  | finishWrite
  /-- At the store of `connectDestroyed`. -/
  | destroy
  | destroyConnected
  | remove
deriving DecidableEq, Repr

/-- Where another thread is in `send` or `shutdown`, once it has loaded `Connected`. -/
inductive Caller
  | idle
  /-- At the push of `send`. -/
  | send (inMsg : Bytes)
  /-- At the store of `shutdown`. -/
  | shutdown
  /-- At the push of `shutdown`. -/
  | queueShutdown
deriving DecidableEq, Repr

structure Race (ι T : Type) where
  world : World ι
  act : Act
  /-- The callbacks of the event being handled that are still to be made. -/
  callbacks : List Callback
  ran : Nat
  position : T → Caller
  /-- `handleClose` has stored `Disconnected`; the code keeps no such flag. -/
  closed : Bool

inductive RaceStep (T : Type)
  | poll (revents : EventMask)
  /-- The next callback of the event, with the kernel's answers to its calls. -/
  | callback (r : ReadResult) (r' : WriteResult)
  /-- The next functor of the queue. -/
  | functor (r : WriteResult)
  /-- The user calls `send` or `shutdown` on the loop thread, which begins with its load. -/
  | send (inMsg : Bytes) (r : WriteResult)
  | shutdown
  | connectDestroyed
  /-- The loop thread goes on with what it is in the middle of. -/
  | proceed
  /-- Another thread calls `send` or `shutdown`, which begins with its load. -/
  | foreignSend (t : T) (inMsg : Bytes)
  | foreignShutdown (t : T)
  | foreignProceed (t : T)
deriving DecidableEq, Repr

namespace Race
variable {ι T : Type}

/-- At the start of `connectEstablished`. -/
def start (w : World ι) : Race ι T where
  world := w
  act := .establish
  callbacks := []
  ran := 0
  position _ := .idle
  closed := false

def nextFunctor (s : Race ι T) : Option Functor := (queued s.world.trace)[s.ran]?

/-- The end of a function. -/
def done (s : Race ι T) (w : World ι) : Race ι T := { s with world := w, act := .idle }

def registered (s : Race ι T) : Bool := (s.world.poller.interest s.world.conn.channel.fd).isSome

def poll (s : Race ι T) (revents : EventMask) : Option (Race ι T) :=
  if s.act = .idle ∧ s.callbacks = [] ∧ s.registered then
    let w := { s.world with conn.channel.revents := revents }
    some { s with world := w, callbacks := w.conn.channel.handleEvent true }
  else none

def makeCallback (s : Race ι T) (cb : Callback) (r : ReadResult) (r' : WriteResult) :
    Option (Race ι T) :=
  match cb with
  | .close => some { s with act := .close }
  | .error => some { s with world := s.world.handleError }
  | .read => (s.world.readInput r).toOption.map fun (w, atEnd) =>
      { s with world := w, act := if atEnd then .close else .idle }
  | .write =>
    if r'.Legal s.world.conn.outputBuffer.readableBytes then
      (s.world.drain r').toOption.map fun (w, drained) =>
        { s with world := w, act := if drained then .finishWrite else .idle }
    else none

def callback (s : Race ι T) (r : ReadResult) (r' : WriteResult) : Option (Race ι T) :=
  match s.act, s.callbacks with
  | .idle, cb :: cbs => makeCallback { s with callbacks := cbs } cb r r'
  | _, _ => none

/-- A functor that calls back into user code does nothing to the connection by itself. -/
def runFunctor (s : Race ι T) (f : Functor) (r : WriteResult) : Race ι T :=
  match f with
  | .sendInLoop msg => { s with act := .sendInLoop msg r }
  | .shutdownInLoop => { s with world := s.world.shutdownInLoop }
  | .writeComplete => s
  | .highWaterMark _ => s

def functor (s : Race ι T) (r : WriteResult) : Option (Race ι T) :=
  if s.act = .idle ∧ s.callbacks = [] then
    s.nextFunctor.map fun f => { s with ran := s.ran + 1 }.runFunctor f r
  else none

def proceed (logErrno : Errno → Errno) (s : Race ι T) : Option (Race ι T) :=
  match s.act with
  | .idle => none
  | .establish => some { s with world := s.world.setState .connected, act := .establishRest }
  | .establishRest => s.world.establishRest.toOption.map s.done
  | .sendInLoop inData r =>
    if r.Legal inData.length then (s.world.sendInLoop logErrno inData r).toOption.map s.done
    else none
  | .shutdown => some (s.done (s.world.setState .disconnecting).shutdownInLoop)
  | .close =>
    some { s with world := s.world.setState .disconnected, act := .closeRest, closed := true }
  | .closeRest => s.world.closeRest.toOption.map s.done
  | .finishWrite => some (s.done (World.finishWrite (s.world, true)))
  | .destroy => some { s with world := s.world.setState .disconnected, act := .destroyConnected }
  | .destroyConnected =>
    s.world.destroyConnected.toOption.map fun w => { s with world := w, act := .remove }
  | .remove => (s.world.channelOp .remove).toOption.map s.done

variable [DecidableEq T]

def moveTo (s : Race ι T) (t : T) (c : Caller) : Race ι T :=
  { s with position := Function.update s.position t c }

def foreignProceed (s : Race ι T) (t : T) : Option (Race ι T) :=
  match s.position t with
  | .idle => none
  | .send inMsg =>
    some { s.moveTo t .idle with world := s.world.queueInLoop (.sendInLoop inMsg) }
  | .shutdown => some { s.moveTo t .queueShutdown with world := s.world.setState .disconnecting }
  | .queueShutdown => some { s.moveTo t .idle with world := s.world.queueInLoop .shutdownInLoop }

def step (logErrno : Errno → Errno) (s : Race ι T) : RaceStep T → Option (Race ι T)
  | .poll revents => s.poll revents
  | .callback r r' => s.callback r r'
  | .functor r => s.functor r
  | .send inMsg r =>
    if s.act = .idle then
      some { s with act := if s.world.conn.isConnected then .sendInLoop inMsg r else .idle }
    else none
  | .shutdown =>
    if s.act = .idle then
      some { s with act := if s.world.conn.isConnected then .shutdown else .idle }
    else none
  | .connectDestroyed =>
    if s.act = .idle ∧ s.callbacks = [] then
      some { s with act := if s.world.conn.isConnected then .destroy else .remove }
    else none
  | .proceed => s.proceed logErrno
  | .foreignSend t inMsg =>
    if s.position t = .idle then
      some (s.moveTo t (if s.world.conn.isConnected then .send inMsg else .idle))
    else none
  | .foreignShutdown t =>
    if s.position t = .idle then
      some (s.moveTo t (if s.world.conn.isConnected then .shutdown else .idle))
    else none
  | .foreignProceed t => s.foreignProceed t

end Race
end Muduo
