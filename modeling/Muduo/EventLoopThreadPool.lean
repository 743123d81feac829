import Muduo.LoopLifetime
import Muduo.Lib.RoundRobin
import Muduo.TcpServer

/-!
# `EventLoopThreadPool` (`EventLoopThreadPool.h`, `EventLoopThreadPool.cpp`)

`start` creates the threads one after the other, each time waiting in `startLoop` until the thread has
published its loop; the threads created before go on meanwhile, in any interleaving. Loop 0 is the base
loop, loop `i + 1` that of thread `i`. `setThreadNum` and `start` of the server pass their arguments on
to the pool's.
-/

namespace Muduo
open Lts

/-- Where `start` is: not called, at the test of its loop, in `startLoop` of a thread, or returned. -/
inductive StartPc
  | idle
  | creating (i : Nat)
  | waiting (i : Nat)
  | returned
deriving DecidableEq, Repr

structure EventLoopThreadPool (T F : Type) where
  name : String
  started : Bool
  numThreads : BitVec 32
  /-- `m_next` -/
  next : Nat
  /-- `m_threads.size()`, with the names and the threads; thread `i` exists from `i < created` on. -/
  created : Nat
  names : List String
  thread : Nat → EventLoopThread T F
  loops : List Nat
  startPc : StartPc
  /-- The `inCallback` of `start` is not empty. -/
  inCallback : Bool
  /-- The loops `inCallback` has been run on; the code keeps no such record. -/
  calledOn : List Nat

inductive PoolStep (T F : Type)
  | setThreadNum (inNumThreads : BitVec 32)
  /-- `start` up to its loop, or all of it without threads. -/
  | start (inCallback : Bool)
  /-- A thread is created and started. -/
  | newThread
  | startLoopReturns
  | startReturns
  /-- A step of thread `i` or of another party on its loop. -/
  | thread (i : Nat) (a : ThreadStep T F)
  | getNextLoop
deriving DecidableEq, Repr

namespace ThreadStep
variable {T F : Type}

/-- The steps of the owner: `start` takes those of `startLoop`, the destructor comes later. -/
def owners : ThreadStep T F → Bool
  | .startLoop => true
  | .loopReady => true
  | .destroy => true
  | .testLoop => true
  | .join => true
  | .loop a => match a.thread with
    | some none => true
    | _ => false
  | _ => false

/-- `m_callback(&loop)` has returned. -/
def publishes : ThreadStep T F → Bool
  | .publish => true
  | _ => false

end ThreadStep

/-- A call of `getNextLoop`. -/
def PoolStep.calls {T F : Type} : PoolStep T F → Bool
  | .getNextLoop => true
  | _ => false

namespace EventLoopThreadPool
variable {T F : Type}

def new (inNameArg : String) : EventLoopThreadPool T F where
  name := inNameArg
  started := false
  numThreads := 0
  next := 0
  created := 0
  names := []
  thread _ := .new
  loops := []
  startPc := .idle
  inCallback := false
  calledOn := []

/-- `snprintf` of the pool's name, up to a NUL, and the number. -/
def threadName (p : EventLoopThreadPool T F) (i : Nat) : String :=
  String.ofList (p.name.toList.takeWhile (·.val ≠ 0)) ++ toString i

def start (p : EventLoopThreadPool T F) (inCallback : Bool) : EventLoopThreadPool T F :=
  if p.numThreads = 0 ∧ inCallback = true then
    { p with started := true, inCallback := inCallback, calledOn := p.calledOn ++ [0],
             startPc := .returned }
  else { p with started := true, inCallback := inCallback, startPc := .creating 0 }

def getNextLoop (p : EventLoopThreadPool T F) : Except Fault (Nat × EventLoopThreadPool T F) :=
  if p.loops.isEmpty then .ok (0, p)
  else
    match p.loops[p.next]? with
    | some loop =>
      let next := addSize p.next 1
      .ok (loop, { p with next := if next ≥ p.loops.length then 0 else next })
    | none => .error .outOfBounds

def getAllLoops (p : EventLoopThreadPool T F) : List Nat := if p.loops.isEmpty then [0] else p.loops

def setThread (p : EventLoopThreadPool T F) (i : Nat) (t : EventLoopThread T F) :
    EventLoopThreadPool T F :=
  { p with thread := Function.update p.thread i t }

variable [DecidableEq T]

def step (p : EventLoopThreadPool T F) : PoolStep T F → Option (EventLoopThreadPool T F)
  | .setThreadNum inNumThreads =>
    if p.startPc = .idle then some { p with numThreads := inNumThreads } else none
  | .start inCallback => if p.startPc = .idle then some (p.start inCallback) else none
  | .newThread =>
    match p.startPc with
    | .creating i =>
      if (i : Int) < p.numThreads.toInt then
        (EventLoopThread.new.step .startLoop).map fun t =>
          { p.setThread i t with created := p.created + 1, names := p.names ++ [p.threadName i],
                                 startPc := .waiting i }
      else none
    | _ => none
  | .startLoopReturns =>
    match p.startPc with
    | .waiting i =>
      ((p.thread i).step .loopReady).map fun t =>
        { p.setThread i t with loops := p.loops ++ [i + 1], startPc := .creating (i + 1) }
    | _ => none
  | .startReturns =>
    match p.startPc with
    | .creating i =>
      if (i : Int) < p.numThreads.toInt then none else some { p with startPc := .returned }
    | _ => none
  | .thread i a =>
    if i < p.created ∧ a.owners = false then
      ((p.thread i).step a).map fun t =>
        { p.setThread i t with calledOn :=
            if p.inCallback ∧ a.publishes then p.calledOn ++ [i + 1] else p.calledOn }
    else none
  | .getNextLoop =>
    if p.startPc = .returned then p.getNextLoop.toOption.map Prod.snd else none

/-- What a call of `getNextLoop` returns. -/
def assigned (p : EventLoopThreadPool T F) : PoolStep T F → List Nat
  | .getNextLoop => (p.getNextLoop.toOption.map Prod.fst).toList
  | _ => []

end EventLoopThreadPool
end Muduo
