import Muduo.Lib.Lts
import Mathlib.Algebra.Group.Nat.Defs
import Mathlib.Logic.Function.Basic

/-!
# `EventLoop` and its producers (`EventLoop.h`, `EventLoop.cpp`)

One loop thread and any number of other threads, each atomic access a step of its own. `T` is the
type of the other threads; `none` stands for the loop thread, so `isInLoopThread` is `isNone`. A
functor is kept with the thread that queued it, which the code does not look at.
-/

namespace Muduo

/-- Where the loop thread is. `outside` is before `loop()`, `returned` after it. -/
inductive LoopPc
  | outside
  | test
  | polling
  /-- Dispatching the active channels; the flag says that the wakeup channel is still among them. -/
  | handling (woken : Bool)
  | doPending
  | swapping
  | running
  | inFunctor
  /-- At the end of `doPendingFunctors`, where its batch is destroyed. -/
  | destroying
  | returned
deriving DecidableEq, Repr

/-- Where a thread is in its call of `queueInLoop` or `quit`. -/
inductive Position
  | idle
  /-- In `queueInLoop`, the functor pushed and the lock released. -/
  | pushed
  /-- In `quit`, `m_quit` stored. -/
  | quitStored
deriving DecidableEq, Repr

structure EventLoop (T F : Type) where
  pc : LoopPc
  quit : Bool
  callingPendingFunctors : Bool
  pendingFunctors : List (Option T × F)
  /-- The local `functors` of `doPendingFunctors`, less those already called. -/
  functors : List (Option T × F)
  /-- The counter behind `m_wakeupFd`. -/
  wakeupFd : Nat
  position : Option T → Position

inductive LoopStep (T F : Type)
  /-- `loop()` is entered and stores `m_quit`. -/
  | loop
  | testQuit
  | poll (woken : Bool)
  | handleRead
  /-- The last active channel has been handled. -/
  | handled
  /-- `doPendingFunctors` begins, with its own empty vector. -/
  | setCalling
  | swap
  | callFunctor
  | functorReturned
  | clearCalling
  | destroyFunctors
  | queueInLoop (t : Option T) (inCallback : F)
  | runInLoop (t : Option T) (inCallback : F)
  | quit (t : Option T)
  /-- The rest of `queueInLoop` or `quit`: the test, and `wakeup()` if it says so. -/
  | wakeup (t : Option T)
deriving DecidableEq, Repr

namespace EventLoop
variable {T F : Type}

def new : EventLoop T F where
  pc := .outside
  quit := false
  callingPendingFunctors := false
  pendingFunctors := []
  functors := []
  wakeupFd := 0
  position _ := .idle

/-- The greatest value of an eventfd counter. -/
def eventfdMax : Nat := 2 ^ 64 - 2

/-- `wakeup()`: the write of 1 fails with `EAGAIN` on a full counter. -/
def eventfdWrite (n : Nat) : Nat := if n < eventfdMax then n + 1 else n

/-- The loop thread is in user code, from which it may call the loop. -/
def inUserCode : LoopPc → Bool
  | .outside => true
  | .handling _ => true
  | .inFunctor => true
  | .destroying => true
  | .returned => true
  | _ => false

/-- The loop thread is at `pc`, and not inside a call. -/
def At (s : EventLoop T F) (pc : LoopPc) : Prop := s.pc = pc ∧ s.position none = .idle

instance (s : EventLoop T F) (pc : LoopPc) : Decidable (s.At pc) := by
  unfold At; infer_instance

/-- Thread `t` can begin a call. -/
def CanCall (s : EventLoop T F) (t : Option T) : Prop :=
  s.position t = .idle ∧ (t = none → inUserCode s.pc = true)

instance (s : EventLoop T F) : ∀ t, Decidable (s.CanCall t)
  | none => decidable_of_iff (s.position none = .idle ∧ inUserCode s.pc = true) (by simp [CanCall])
  | some t => decidable_of_iff (s.position (some t) = .idle) (by simp [CanCall])

def Enabled (s : EventLoop T F) : LoopStep T F → Prop
  | .loop => s.At .outside ∨ s.At .returned
  | .testQuit => s.At .test
  | .poll woken => s.At .polling ∧ (woken = true → 0 < s.wakeupFd)
  | .handleRead => s.At (.handling true)
  | .handled => s.At (.handling false)
  | .setCalling => s.At .doPending
  | .swap => s.At .swapping
  | .callFunctor => s.At .running ∧ s.functors ≠ []
  | .functorReturned => s.At .inFunctor
  | .clearCalling => s.At .running ∧ s.functors = []
  | .destroyFunctors => s.At .destroying
  | .queueInLoop t _ => s.CanCall t
  | .runInLoop t _ => s.CanCall t
  | .quit t => s.CanCall t
  | .wakeup t => s.position t ≠ .idle

instance (s : EventLoop T F) (a : LoopStep T F) : Decidable (s.Enabled a) := by
  cases a <;> unfold Enabled <;> infer_instance

variable [DecidableEq T]

def goto (s : EventLoop T F) (pc : LoopPc) : EventLoop T F := { s with pc := pc }

def moveTo (s : EventLoop T F) (t : Option T) (p : Position) : EventLoop T F :=
  { s with position := Function.update s.position t p }

theorem moveTo_self {s : EventLoop T F} {t : Option T} {p : Position} :
    (s.moveTo t p).position t = p := by
  simp [moveTo]

theorem moveTo_of_ne {s : EventLoop T F} {t u : Option T} {p : Position} (h : u ≠ t) :
    (s.moveTo t p).position u = s.position u := by
  simp [moveTo, h]

/-- `m_pendingFunctors.emplace_back` under the lock. -/
def push (s : EventLoop T F) (t : Option T) (inCallback : F) : EventLoop T F :=
  { s.moveTo t .pushed with pendingFunctors := s.pendingFunctors ++ [(t, inCallback)] }

theorem push_self {s : EventLoop T F} {t : Option T} {f : F} :
    (s.push t f).position t = .pushed :=
  moveTo_self (s := s)

theorem push_of_ne {s : EventLoop T F} {t u : Option T} {f : F} (h : u ≠ t) :
    (s.push t f).position u = s.position u :=
  moveTo_of_ne (s := s) h

/-- Whether a thread that has pushed or stored `m_quit` calls `wakeup()`. -/
def wakes (s : EventLoop T F) (t : Option T) : Bool :=
  match s.position t with
  | .idle => false
  | .pushed => t.isSome || s.callingPendingFunctors
  | .quitStored => t.isSome

def next (s : EventLoop T F) : LoopStep T F → EventLoop T F
  | .loop => { s with pc := .test, quit := false }
  | .testQuit => s.goto (if s.quit then .returned else .polling)
  | .poll woken => s.goto (.handling woken)
  | .handleRead => { s with pc := .handling false, wakeupFd := 0 }
  | .handled => s.goto .doPending
  | .setCalling => { s with pc := .swapping, functors := [], callingPendingFunctors := true }
  | .swap => { s with pc := .running, functors := s.pendingFunctors, pendingFunctors := s.functors }
  | .callFunctor => { s with pc := .inFunctor, functors := s.functors.tail }
  | .functorReturned => s.goto .running
  | .clearCalling => { s with pc := .destroying, callingPendingFunctors := false }
  | .destroyFunctors => s.goto .test
  | .queueInLoop t inCallback => s.push t inCallback
  | .runInLoop t inCallback => if t.isNone then s else s.push t inCallback
  | .quit t => { s.moveTo t .quitStored with quit := true }
  | .wakeup t =>
    { s.moveTo t .idle with wakeupFd := if s.wakes t then eventfdWrite s.wakeupFd else s.wakeupFd }

theorem wakeup_self {s : EventLoop T F} {t : Option T} :
    (s.next (.wakeup t)).position t = .idle :=
  moveTo_self (s := s)

theorem wakeup_of_ne {s : EventLoop T F} {t u : Option T} (h : u ≠ t) :
    (s.next (.wakeup t)).position u = s.position u :=
  moveTo_of_ne (s := s) h

def step (s : EventLoop T F) (a : LoopStep T F) : Option (EventLoop T F) :=
  if s.Enabled a then some (s.next a) else none

theorem step_eq_some {s s' : EventLoop T F} {a : LoopStep T F} :
    step s a = some s' ↔ s.Enabled a ∧ s.next a = s' := by
  simp [step]

end EventLoop
end Muduo
