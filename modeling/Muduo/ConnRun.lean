import Muduo.ConnSpec
import Muduo.Lib.Lts

/-!
# Runs of one connection

A `ConnStep` is one call made on the connection, with the kernel's answers in it, or an operation on
another channel of the same loop. A call on another thread is one step here: it touches `m_state` and
the functor queue only. `Requires` is what the kernel and the caller owe; under it every step of a
well-formed connection returns.
-/

namespace Muduo
open Lts EPollPoller

inductive ConnStep (ι : Type)
  | send (isInLoopThread : Bool) (inMsg : Bytes) (r : WriteResult)
  | shutdown (isInLoopThread : Bool)
  | sendInLoop (inData : Bytes) (r : WriteResult)
  | shutdownInLoop
  | handleRead (r : ReadResult)
  | handleWrite (r : WriteResult)
  | handleError
  | handleClose
  | connectDestroyed
  | other (c : ι) (ch : Channel) (op : ChannelOp)
deriving DecidableEq, Repr

namespace ConnStep
variable {ι : Type} {logErrno : Errno → Errno} {w w₀ w' t : World ι} {a : ConnStep ι}
  {as : List (ConnStep ι)}

def exec (logErrno : Errno → Errno) (w : World ι) : ConnStep ι → Except Fault (World ι)
  | .send isInLoopThread inMsg r => w.send logErrno isInLoopThread inMsg r
  | .shutdown isInLoopThread => .ok (w.shutdown isInLoopThread)
  | .sendInLoop inData r => w.sendInLoop logErrno inData r
  | .shutdownInLoop => .ok w.shutdownInLoop
  | .handleRead r => w.handleRead r
  | .handleWrite r => w.handleWrite r
  | .handleError => .ok w.handleError
  | .handleClose => w.handleClose
  | .connectDestroyed => w.connectDestroyed
  | .other c ch op => (op.exec ch c w.poller).map fun (p, _) => { w with poller := p }

/-- What the kernel and the callers owe: results within what was offered, buffers below the vector's
maximum size, and other channels on other fds, each in step with the poller. -/
def Requires (w : World ι) : ConnStep ι → Prop
  | .send isInLoopThread inMsg r => isInLoopThread = true →
    r.Legal inMsg.length ∧ w.conn.outputBuffer.NoOverflow inMsg.length
  | .sendInLoop inData r => r.Legal inData.length ∧ w.conn.outputBuffer.NoOverflow inData.length
  | .handleRead r => w.conn.inputBuffer.ReadLegal r ∧ w.conn.inputBuffer.ReadNoOverflow r
  | .handleWrite r => r.Legal w.conn.outputBuffer.readableBytes
  | .other _ ch _ => ch.fd ≠ w.conn.channel.fd ∧ w.poller.Legal ch
  | _ => True

instance (w : World ι) (a : ConnStep ι) : Decidable (a.Requires w) := by
  cases a <;> unfold Requires <;> infer_instance

/-- The part of `Requires` that a step which has returned still rests on. -/
def Offered (w : World ι) : ConnStep ι → Prop
  | .send isInLoopThread inMsg r => isInLoopThread = true → r.Legal inMsg.length
  | .sendInLoop inData r => r.Legal inData.length
  | .other _ ch _ => ch.fd ≠ w.conn.channel.fd ∧ w.poller.Legal ch
  | _ => True

instance (w : World ι) (a : ConnStep ι) : Decidable (a.Offered w) := by
  cases a <;> unfold Offered <;> infer_instance

theorem Requires.offered (h : a.Requires w) : a.Offered w := by
  cases a with
  | send _ _ _ => exact fun hl => (h hl).1
  | sendInLoop _ _ => exact h.1
  | other _ _ _ => exact h
  | handleRead _ | handleWrite _ | shutdown _ | shutdownInLoop | handleError | handleClose
  | connectDestroyed => trivial

def step (logErrno : Errno → Errno) (w : World ι) (a : ConnStep ι) : Option (World ι) :=
  (a.exec logErrno w).toOption

/-- The message a step passes to `sendInLoop`, with the answer to its direct write. -/
def passed (w : World ι) : ConnStep ι → Option (Bytes × WriteResult)
  | .send isInLoopThread inMsg r =>
    if isInLoopThread = true ∧ w.conn.state = .connected then some (inMsg, r) else none
  | .sendInLoop inData r => some (inData, r)
  | _ => none

/-- Everything a step can do to a well-formed connection. -/
inductive Did (logErrno : Errno → Errno) (w : World ι) : ConnStep ι → World ι → Prop
  | sent {a : ConnStep ι} {inData r} {w' : World ι} (hp : a.passed w = some (inData, r))
      (hst : w.conn.state ≠ .disconnected) (h : World.Sent logErrno inData r w w') : Did logErrno w a w'
  | refused {a : ConnStep ι} (hp : a.passed w = none ∨ w.conn.state = .disconnected) : Did logErrno w a w
  | queued {inMsg r} :
      Did logErrno w (.send false inMsg r) (w.queueInLoop (.sendInLoop inMsg))
  | halfClosed (hst : w.conn.state = .connected) :
      Did logErrno w (.shutdown true) (w.setState .disconnecting).shutdownInLoop
  | requested (hst : w.conn.state = .connected) :
      Did logErrno w (.shutdown false) ((w.setState .disconnecting).queueInLoop .shutdownInLoop)
  | shut : Did logErrno w .shutdownInLoop w.shutdownInLoop
  | read {r inp} (hwf : (w.received inp).Wf) : Did logErrno w (.handleRead r) (w.received inp)
  | delivered {r inp} (hwf : (w.received inp).Wf) :
      Did logErrno w (.handleRead r) ((w.received inp).emit .messageCallback)
  | ended {inp} {w' : World ι} (hwf : (w.received inp).Wf) (h : ((w.received inp).setState .disconnected).Closed w') :
      Did logErrno w (.handleRead (.delivered [])) w'
  | drained {r v b} (h : World.Drained r w v b) :
      Did logErrno w (.handleWrite r) (World.finishWrite (v, b))
  | closed {w' : World ι} (h : (w.setState .disconnected).Closed w') : Did logErrno w .handleClose w'
  | destroyed {w' : World ι} (h : w.Destroyed w') : Did logErrno w .connectDestroyed w'
  | other {c ch op p'} (hfd : ch.fd ≠ w.conn.channel.fd) (hf : Frame w.poller ch.fd p') :
      Did logErrno w (.other c ch op) { w with poller := p' }

/-- `sendInLoop`, called directly or by `send`, on the message the step passes to it. -/
theorem sendInLoop_did {inData : Bytes} {r : WriteResult} (h : w.Wf)
    (hp : a.passed w = some (inData, r)) (hr : r.Legal inData.length)
    (ho : w.sendInLoop logErrno inData r = .ok w') : Did logErrno w a w' := by
  rcases World.sendInLoop_ok h hr ho with ⟨hst, rfl⟩ | ⟨hst, hs⟩
  · exact .refused (.inr hst)
  · exact .sent hp hst hs

/-- What a step that returned has done. -/
theorem exec_ok (h : w.Wf) (hof : a.Offered w) (ho : a.exec logErrno w = .ok w') :
    Did logErrno w a w' := by
  cases a with
  | send isInLoopThread inMsg r =>
    simp only [exec, World.send] at ho
    by_cases hst : w.conn.state = .connected
    · rw [if_pos hst] at ho
      cases isInLoopThread with
      | true => exact sendInLoop_did h (by simp [passed, hst]) (hof rfl) ho
      | false => cases ho; exact .queued
    · rw [if_neg hst] at ho
      cases ho
      exact .refused (.inl (by simp [passed, hst]))
  | shutdown isInLoopThread =>
    cases ho
    by_cases hst : w.conn.state = .connected
    · cases isInLoopThread with
      | true => simpa [World.shutdown, hst] using .halfClosed hst
      | false => simpa [World.shutdown, hst] using .requested hst
    · simpa [World.shutdown, hst] using .refused (.inl rfl)
  | sendInLoop inData r => exact sendInLoop_did h rfl hof ho
  | shutdownInLoop => cases ho; exact .shut
  | handleRead r =>
    obtain ⟨⟨v, atEnd⟩, hv, ho⟩ := bind_eq_ok.1 ho
    obtain ⟨inp, hwf, ⟨rfl, rfl | rfl⟩ | ⟨rfl, rfl, rfl⟩⟩ := World.readInput_ok h hv
    · cases ho; exact .read hwf
    · cases ho; exact .delivered hwf
    · exact .ended hwf (World.closeRest_ok (hwf.setState .disconnected) ho)
  | handleWrite r =>
    obtain ⟨⟨v, b⟩, hv, ho⟩ := map_eq_ok.1 ho
    cases ho
    exact .drained (World.drain_ok h hv)
  | handleError => cases ho; exact .refused (.inl rfl)
  | handleClose => exact .closed (World.closeRest_ok (h.setState .disconnected) ho)
  | connectDestroyed =>
    obtain ⟨v, hv, hd⟩ := World.connectDestroyed_spec h
    rw [exec, hv] at ho
    cases ho
    exact .destroyed hd
  | other c ch op =>
    obtain ⟨p', ch', hex, hx⟩ := exec_spec c hof.2 op
    rw [exec, hex] at ho
    cases ho
    exact .other hof.1 hx.frame

theorem sendInLoop_returns {inData : Bytes} {r : WriteResult} (logErrno : Errno → Errno) (h : w.Wf)
    (hreq : r.Legal inData.length ∧ w.conn.outputBuffer.NoOverflow inData.length) :
    ∃ w', w.sendInLoop logErrno inData r = .ok w' := by
  unfold World.sendInLoop
  split
  · exact ⟨w, rfl⟩
  · exact World.sendOrBuffer_returns h hreq.1 hreq.2

theorem exec_returns (logErrno : Errno → Errno) (h : w.Wf) (hreq : a.Requires w) :
    ∃ w', a.exec logErrno w = .ok w' := by
  cases a with
  | send isInLoopThread inMsg r =>
    simp only [exec, World.send]
    split
    · cases isInLoopThread with
      | true => exact sendInLoop_returns logErrno h (hreq rfl)
      | false => exact ⟨_, rfl⟩
    · exact ⟨w, rfl⟩
  | sendInLoop inData r => exact sendInLoop_returns logErrno h hreq
  | handleRead r =>
    obtain ⟨v, atEnd, ho⟩ := World.readInput_returns h hreq.2
    obtain ⟨inp, hwf, ⟨rfl, -⟩ | ⟨rfl, -, rfl⟩⟩ := World.readInput_ok h ho
    · exact ⟨v, by simp only [exec, World.handleRead, ho]; rfl⟩
    · obtain ⟨u, hu, -⟩ := World.closeRest_spec (hwf.setState .disconnected)
      exact ⟨u, by simp only [exec, World.handleRead, ho]; exact hu⟩
  | handleWrite r =>
    obtain ⟨v, b, ho⟩ := World.drain_returns (r := r) h
    exact ⟨_, map_eq_ok.2 ⟨_, ho, rfl⟩⟩
  | handleClose =>
    obtain ⟨w', ho, -⟩ := World.closeRest_spec (h.setState .disconnected)
    exact ⟨w', ho⟩
  | connectDestroyed =>
    obtain ⟨w', ho, -⟩ := World.connectDestroyed_spec h
    exact ⟨w', ho⟩
  | other c ch op =>
    obtain ⟨p', ch', ho, -⟩ := exec_spec c hreq.2 op
    exact ⟨_, map_eq_ok.2 ⟨_, ho, rfl⟩⟩
  | shutdown _ | shutdownInLoop | handleError => exact ⟨_, rfl⟩

/-- Every step returns. -/
theorem exec_did (logErrno : Errno → Errno) (h : w.Wf) (hreq : a.Requires w) :
    ∃ w', a.exec logErrno w = .ok w' ∧ Did logErrno w a w' := by
  obtain ⟨w', ho⟩ := exec_returns logErrno h hreq
  exact ⟨w', ho, exec_ok h hreq.offered ho⟩

theorem Did.wf (h : w.Wf) (hd : Did logErrno w a w') : w'.Wf := by
  cases hd with
  | sent _ _ h => exact h.wf
  | refused _ => exact h
  | queued => exact ⟨h.out, h.inp, h.synced⟩
  | halfClosed _ => exact World.Wf.shutdownInLoop ⟨h.out, h.inp, h.synced⟩
  | requested _ => exact ⟨h.out, h.inp, h.synced⟩
  | shut => exact h.shutdownInLoop
  | read hwf => exact hwf
  | delivered hwf => exact ⟨hwf.out, hwf.inp, hwf.synced⟩
  | ended _ h => exact h.wf
  | drained h => exact h.wf.finishWrite
  | closed h => exact h.wf
  | destroyed h => exact h.wf
  | other hfd hf => exact ⟨h.out, h.inp, h.synced.congr (hf.interest _ (Ne.symm hfd))⟩

theorem step_ok (h : w.Wf) (hof : a.Offered w) (hs : step logErrno w a = some w') :
    Did logErrno w a w' :=
  exec_ok h hof (toOption_eq_some.1 hs)

theorem step_did (h : w.Wf) (hreq : a.Requires w) (hs : step logErrno w a = some w') :
    Did logErrno w a w' :=
  step_ok h hreq.offered hs

theorem step_total (logErrno : Errno → Errno) (h : w.Wf) (hreq : a.Requires w) :
    ∃ w', step logErrno w a = some w' ∧ w'.Wf := by
  obtain ⟨w', ho, hd⟩ := exec_did logErrno h hreq
  exact ⟨w', toOption_eq_some.2 ho, hd.wf h⟩

end ConnStep
end Muduo
