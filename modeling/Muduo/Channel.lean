import Muduo.SizeT
import Mathlib.Logic.Function.Basic

/-!
# `Channel` and `EPollPoller` (`Channel.h`, `Channel.cpp`, `EPollPoller.cpp`, `Poller.cpp`)

A channel holds its fd, its event mask and its status; the poller holds `m_channels` and, behind
`m_epollfd`, the kernel's interest set. `ι` is the type of channel pointers. Every `epoll_ctl` call
is logged with its outcome, so that "no call fails" can be said of a run.
-/

namespace Muduo

/-- An epoll event mask, an `int` in the code. -/
abbrev EventMask := BitVec 32

def EPOLLIN : EventMask := 0x001
def EPOLLPRI : EventMask := 0x002
def EPOLLOUT : EventMask := 0x004
def EPOLLERR : EventMask := 0x008
def EPOLLHUP : EventMask := 0x010

/-- `kStatusNew`, `kStatusAdded` and `kStatusDeleted` (`-1`, `1` and `2`). -/
inductive ChannelStatus
  | new
  | added
  | deleted
deriving DecidableEq, Repr

structure Channel where
  fd : Int
  events : EventMask := 0
  revents : EventMask := 0
  status : ChannelStatus := .new
  tied : Bool := false
deriving DecidableEq, Repr

namespace Channel

def kNoneEvent : EventMask := 0
def kReadEvent : EventMask := EPOLLIN ||| EPOLLPRI
def kWriteEvent : EventMask := EPOLLOUT

def isNoneEvent (ch : Channel) : Bool := ch.events == kNoneEvent
def isWriting (ch : Channel) : Bool := ch.events &&& kWriteEvent != 0
def isReading (ch : Channel) : Bool := ch.events &&& kReadEvent != 0

end Channel

/-- The callbacks of a channel. -/
inductive Callback
  | close
  | error
  | read
  | write
deriving DecidableEq, Repr

namespace Channel

/-- The callbacks `handleEventWithGuard` makes, in order. -/
def handleEventWithGuard (ch : Channel) : List Callback :=
  (if ch.revents &&& EPOLLHUP ≠ 0 ∧ ¬ ch.revents &&& EPOLLIN ≠ 0 then [.close] else []) ++
  (if ch.revents &&& EPOLLERR ≠ 0 then [.error] else []) ++
  (if ch.revents &&& (EPOLLIN ||| EPOLLPRI) ≠ 0 then [.read] else []) ++
  (if ch.revents &&& EPOLLOUT ≠ 0 then [.write] else [])

theorem handleEventWithGuard_sublist (ch : Channel) :
    ch.handleEventWithGuard.Sublist [.close, .error, .read, .write] := by
  unfold handleEventWithGuard
  split <;> split <;> split <;> split <;> decide

/-- The callbacks `handleEvent` makes; `guarded` says that `m_tie` could be locked. -/
def handleEvent (ch : Channel) (guarded : Bool) : List Callback :=
  if ch.tied then
    if guarded then ch.handleEventWithGuard else []
  else ch.handleEventWithGuard

end Channel

/-- What the kernel holds for an fd of the interest set. -/
structure EpollEvent (ι : Type) where
  events : EventMask
  ptr : ι
deriving DecidableEq, Repr

/-- `EPOLL_CTL_ADD`, `EPOLL_CTL_MOD` and `EPOLL_CTL_DEL`. -/
inductive CtlOp
  | add
  | mod
  | del
deriving DecidableEq, Repr

/-- A call of `epoll_ctl` and whether it succeeded. -/
structure CtlCall where
  op : CtlOp
  fd : Int
  ok : Bool
deriving DecidableEq, Repr

/-- `epoll_ctl` on the interest set: `ADD` fails on a present fd, `MOD` and `DEL` on an absent
one. -/
def epollCtl {ι : Type} (interest : Int → Option (EpollEvent ι)) (op : CtlOp) (fd : Int)
    (event : EpollEvent ι) : Option (Int → Option (EpollEvent ι)) :=
  match op, interest fd with
  | .add, none => some (Function.update interest fd (some event))
  | .mod, some _ => some (Function.update interest fd (some event))
  | .del, some _ => some (Function.update interest fd none)
  | .add, some _ => none
  | .mod, none => none
  | .del, none => none

structure EPollPoller (ι : Type) where
  /-- `m_channels` -/
  channels : Int → Option ι
  /-- The kernel's interest set. -/
  interest : Int → Option (EpollEvent ι)
  /-- The `epoll_ctl` calls made, oldest first. -/
  calls : List CtlCall

namespace EPollPoller
variable {ι : Type}

def new : EPollPoller ι := ⟨fun _ => none, fun _ => none, []⟩

/-- A failing `DEL` is logged, a failing `ADD` or `MOD` ends in `LOG_FATAL`. -/
def update (p : EPollPoller ι) (operation : CtlOp) (inChannel : ι) (ch : Channel) :
    Except Fault (EPollPoller ι) :=
  match epollCtl p.interest operation ch.fd ⟨ch.events, inChannel⟩ with
  | some interest =>
    .ok { p with interest := interest, calls := p.calls ++ [⟨operation, ch.fd, true⟩] }
  | none =>
    if operation = .del then .ok { p with calls := p.calls ++ [⟨operation, ch.fd, false⟩] }
    else .error .fatal

def updateChannel (p : EPollPoller ι) (inOutChannel : ι) (ch : Channel) :
    Except Fault (EPollPoller ι × Channel) := do
  if ch.status = .new ∨ ch.status = .deleted then
    let p := if ch.status = .new then
        { p with channels := Function.update p.channels ch.fd (some inOutChannel) }
      else p
    let ch := { ch with status := .added }
    let p ← p.update .add inOutChannel ch
    return (p, ch)
  else if ch.isNoneEvent then
    let p ← p.update .del inOutChannel ch
    return ({ p with channels := Function.update p.channels ch.fd none },
      { ch with status := .deleted })
  else
    let p ← p.update .mod inOutChannel ch
    return (p, ch)

def removeChannel (p : EPollPoller ι) (inOutChannel : ι) (ch : Channel) :
    Except Fault (EPollPoller ι × Channel) := do
  let p := { p with channels := Function.update p.channels ch.fd none }
  let p ← if ch.status = .added then p.update .del inOutChannel ch else pure p
  return (p, { ch with status := .new })

/-- `Poller::hasChannel`. -/
def hasChannel [DecidableEq ι] (p : EPollPoller ι) (inChannel : ι) (ch : Channel) : Bool :=
  p.channels ch.fd == some inChannel

end EPollPoller

namespace Channel
variable {ι : Type}

def enableReading (ch : Channel) (ptr : ι) (p : EPollPoller ι) :
    Except Fault (EPollPoller ι × Channel) :=
  p.updateChannel ptr { ch with events := ch.events ||| kReadEvent }

def disableReading (ch : Channel) (ptr : ι) (p : EPollPoller ι) :
    Except Fault (EPollPoller ι × Channel) :=
  p.updateChannel ptr { ch with events := ch.events &&& ~~~kReadEvent }

def enableWriting (ch : Channel) (ptr : ι) (p : EPollPoller ι) :
    Except Fault (EPollPoller ι × Channel) :=
  p.updateChannel ptr { ch with events := ch.events ||| kWriteEvent }

def disableWriting (ch : Channel) (ptr : ι) (p : EPollPoller ι) :
    Except Fault (EPollPoller ι × Channel) :=
  p.updateChannel ptr { ch with events := ch.events &&& ~~~kWriteEvent }

def disableAll (ch : Channel) (ptr : ι) (p : EPollPoller ι) :
    Except Fault (EPollPoller ι × Channel) :=
  p.updateChannel ptr { ch with events := kNoneEvent }

def remove (ch : Channel) (ptr : ι) (p : EPollPoller ι) :
    Except Fault (EPollPoller ι × Channel) :=
  p.removeChannel ptr ch

end Channel

/-- The calls through which a channel's owner changes its registration. -/
inductive ChannelOp
  | enableReading
  | disableReading
  | enableWriting
  | disableWriting
  | disableAll
  | remove
deriving DecidableEq, Repr

def ChannelOp.exec {ι : Type} (op : ChannelOp) (ch : Channel) (ptr : ι) (p : EPollPoller ι) :
    Except Fault (EPollPoller ι × Channel) :=
  match op with
  | .enableReading => ch.enableReading ptr p
  | .disableReading => ch.disableReading ptr p
  | .enableWriting => ch.enableWriting ptr p
  | .disableWriting => ch.disableWriting ptr p
  | .disableAll => ch.disableAll ptr p
  | .remove => ch.remove ptr p

/-- The mask an operation leaves. -/
def ChannelOp.mask (op : ChannelOp) (m : EventMask) : EventMask :=
  match op with
  | .enableReading => m ||| Channel.kReadEvent
  | .disableReading => m &&& ~~~Channel.kReadEvent
  | .enableWriting => m ||| Channel.kWriteEvent
  | .disableWriting => m &&& ~~~Channel.kWriteEvent
  | .disableAll => Channel.kNoneEvent
  | .remove => m

theorem ChannelOp.exec_update {ι : Type} {op : ChannelOp} (h : op ≠ .remove) (ch : Channel) (ptr : ι)
    (p : EPollPoller ι) :
    op.exec ch ptr p = p.updateChannel ptr { ch with events := op.mask ch.events } := by
  cases op <;> first | rfl | exact absurd rfl h

/-! ### The mask tests -/

namespace ChannelOp
variable {m : EventMask}

theorem writing_enableWriting : (enableWriting.mask m).getLsbD 2 = true := by
  have h : Channel.kWriteEvent.getLsbD 2 = true := by decide
  rw [mask, BitVec.getLsbD_or, h, Bool.or_true]

theorem writing_disableWriting : (disableWriting.mask m).getLsbD 2 = false := by
  have h : (~~~Channel.kWriteEvent).getLsbD 2 = false := by decide
  rw [mask, BitVec.getLsbD_and, h, Bool.and_false]

theorem writing_enableReading : (enableReading.mask m).getLsbD 2 = m.getLsbD 2 := by
  have h : Channel.kReadEvent.getLsbD 2 = false := by decide
  rw [mask, BitVec.getLsbD_or, h, Bool.or_false]

theorem writing_disableAll : (disableAll.mask m).getLsbD 2 = false := by
  rw [mask]; decide

end ChannelOp

namespace Channel
variable {ch : Channel} {m : EventMask}

theorem isWriting_eq : ch.isWriting = ch.events.getLsbD 2 := by
  have h : kWriteEvent = BitVec.twoPow 32 2 := by decide
  rw [isWriting, h, BitVec.and_twoPow]
  cases ch.events.getLsbD 2 <;> decide

/-- A mask with a bit in it is not `kNoneEvent`. -/
theorem isNoneEvent_of_getLsbD {i : Nat} (h : ch.events.getLsbD i = true) :
    ch.isNoneEvent = false := by
  rw [isNoneEvent, beq_eq_false_iff_ne]
  intro h0
  rw [h0] at h
  simp [kNoneEvent] at h

end Channel
end Muduo
