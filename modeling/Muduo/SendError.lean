import Muduo.ConnSpec

/-!
# Send errors and logging

`sendInLoop` reads `errno` before `LOG_ERROR` and again after it, and the second reading decides
whether the message is dropped. What is done with a message is right, and independent of the log
stream, exactly as far as logging leaves `errno` on the same side of that test.
-/

namespace Muduo
namespace World
variable {ι : Type} {w w' : World ι} {inData : Bytes} {errno : Errno} {logErrno log log' : Errno → Errno}

/-- The errors that set `faultError`. -/
def FaultError (errno : Errno) : Prop := errno = EPIPE ∨ errno = ECONNRESET

instance (errno : Errno) : Decidable (FaultError errno) := by unfold FaultError; infer_instance

theorem isFault_iff : isFault logErrno errno = true ↔
    errno ≠ EWOULDBLOCK ∧ FaultError (logErrno errno) := by
  simp [isFault, FaultError]

theorem FaultError.ne (h : FaultError errno) : errno ≠ EWOULDBLOCK := by
  rcases h with rfl | rfl
  · decide
  · decide

/-- What `sendInLoop` owes a message whose direct write fails: it is dropped on `EPIPE` and
`ECONNRESET`, and on another error it is buffered whole, with writing enabled. -/
def ErrorHandled (logErrno : Errno → Errno) (inData : Bytes) (errno : Errno) (w : World ι) : Prop :=
  if FaultError errno then
    w.sendInLoop logErrno inData (.error errno) = .ok (w.emit (.write inData (.error errno)))
  else
    (w.conn.outputBuffer.NoOverflow inData.length →
        ∃ w', w.sendInLoop logErrno inData (.error errno) = .ok w') ∧
      ∀ w', w.sendInLoop logErrno inData (.error errno) = .ok w' →
        w'.unsent = w.unsent ++ inData ∧ w'.conn.channel.isWriting = true

/-! ### The two outcomes -/

theorem sendInLoop_error (hst : w.conn.state ≠ .disconnected) (hd : w.writesDirectly = true) :
    w.sendInLoop logErrno inData (.error errno) =
      bufferRest inData ⟨w.emit (.write inData (.error errno)), 0, inData.length,
        isFault logErrno errno⟩ := by
  rw [sendInLoop, if_neg hst, sendOrBuffer, if_pos hd]
  rfl

/-- Given up, or empty: nothing but the write has happened. -/
theorem sendInLoop_dropped (hst : w.conn.state ≠ .disconnected) (hd : w.writesDirectly = true)
    (h : inData = [] ∨ isFault logErrno errno = true) :
    w.sendInLoop logErrno inData (.error errno) = .ok (w.emit (.write inData (.error errno))) := by
  rw [sendInLoop_error hst hd, bufferRest, if_neg]
  rintro ⟨hf, hpos⟩
  rcases h with rfl | h
  · cases hpos
  · exact Bool.false_ne_true (hf.symm.trans h)

/-- Not given up: the message is in the output buffer and writing is enabled. -/
theorem sendInLoop_buffered (h : w.Wf) (hst : w.conn.state ≠ .disconnected)
    (hd : w.writesDirectly = true) (hne : inData ≠ []) (hf : isFault logErrno errno = false)
    (ho : w.sendInLoop logErrno inData (.error errno) = .ok w') :
    w'.unsent = w.unsent ++ inData ∧ w'.conn.channel.isWriting = true := by
  have hrest : rest logErrno inData (.error errno) w = inData := by simp [rest, hd, hf]
  rcases sendInLoop_ok h (r := .error errno) trivial ho with ⟨hdis, -⟩ | ⟨-, hs⟩
  · exact absurd hdis hst
  · have hw : w.conn.channel.isWriting = false := by
      have := hd
      rw [writesDirectly, Bool.and_eq_true] at this
      simpa using this.1
    refine ⟨by rw [hs.unsent, hrest], ?_⟩
    rw [(hs.enabled (by rwa [hrest]) hw).isWriting]
    exact ChannelOp.writing_enableWriting

/-- A message that is not given up and not empty is not dropped. -/
theorem sendInLoop_ne_dropped (h : w.Wf) (hst : w.conn.state ≠ .disconnected)
    (hd : w.writesDirectly = true) (hne : inData ≠ []) (hf : isFault logErrno errno = false) :
    w.sendInLoop logErrno inData (.error errno) ≠ .ok (w.emit (.write inData (.error errno))) := by
  intro ho
  obtain ⟨hun, -⟩ := sendInLoop_buffered h hst hd hne hf ho
  exact hne (List.append_cancel_left ((List.append_nil _).trans hun)).symm

theorem sendInLoop_returns (h : w.Wf) (hst : w.conn.state ≠ .disconnected)
    (hno : w.conn.outputBuffer.NoOverflow inData.length) :
    ∃ w', w.sendInLoop logErrno inData (.error errno) = .ok w' := by
  rw [sendInLoop, if_neg hst]
  exact sendOrBuffer_returns h trivial hno

/-! ### What logging may change -/

theorem errorHandled_iff (h : w.Wf) (hst : w.conn.state ≠ .disconnected)
    (hd : w.writesDirectly = true) : ErrorHandled logErrno inData errno w ↔
      if inData = [] then FaultError errno
      else errno = EWOULDBLOCK ∨ (FaultError (logErrno errno) ↔ FaultError errno) := by
  unfold ErrorHandled
  by_cases hnil : inData = []
  · rw [if_pos hnil]
    have ho : w.sendInLoop logErrno inData (.error errno) =
        .ok (w.emit (.write inData (.error errno))) := sendInLoop_dropped hst hd (.inl hnil)
    split
    · rename_i he
      exact iff_of_true ho he
    · rename_i he
      refine iff_of_false (fun hbuf => ?_) he
      have hw := (hbuf.2 _ ho).2
      have hidle := hd
      rw [writesDirectly, Bool.and_eq_true] at hidle
      change w.conn.channel.isWriting = true at hw
      simp [hw] at hidle
  · rw [if_neg hnil]
    by_cases he : FaultError errno
    · rw [if_pos he, or_iff_right he.ne, iff_true_right he]
      cases hf : isFault logErrno errno with
      | true => exact iff_of_true (sendInLoop_dropped hst hd (.inr hf)) (isFault_iff.1 hf).2
      | false =>
        refine iff_of_false (sendInLoop_ne_dropped h hst hd hnil hf) fun hlog => ?_
        rw [isFault_iff.2 ⟨he.ne, hlog⟩] at hf
        cases hf
    · rw [if_neg he, iff_false_right he]
      cases hf : isFault logErrno errno with
      | true =>
        obtain ⟨hblock, hlog⟩ := isFault_iff.1 hf
        refine iff_of_false (fun hbuf => ?_) fun hor => hor.elim hblock (· hlog)
        obtain ⟨hun, -⟩ := hbuf.2 _ (sendInLoop_dropped hst hd (.inr hf))
        exact hnil (List.append_cancel_left ((List.append_nil _).trans hun)).symm
      | false =>
        refine iff_of_true ⟨sendInLoop_returns h hst, fun w' ho =>
          sendInLoop_buffered h hst hd hnil hf ho⟩ ?_
        by_cases hblock : errno = EWOULDBLOCK
        · exact .inl hblock
        · refine .inr fun hlog => ?_
          rw [isFault_iff.2 ⟨hblock, hlog⟩] at hf
          cases hf

theorem sendInLoop_log_iff (h : w.Wf) (hst : w.conn.state ≠ .disconnected)
    (hd : w.writesDirectly = true) :
    w.sendInLoop log inData (.error errno) = w.sendInLoop log' inData (.error errno) ↔
      inData = [] ∨ isFault log errno = isFault log' errno := by
  constructor
  · intro heq
    refine or_iff_not_imp_left.2 fun hne => ?_
    cases hf : isFault log errno with
    | true =>
      cases hf' : isFault log' errno with
      | true => rfl
      | false =>
        exact absurd (heq.symm.trans (sendInLoop_dropped hst hd (.inr hf)))
          (sendInLoop_ne_dropped h hst hd hne hf')
    | false =>
      cases hf' : isFault log' errno with
      | true =>
        exact absurd (heq.trans (sendInLoop_dropped hst hd (.inr hf')))
          (sendInLoop_ne_dropped h hst hd hne hf)
      | false => rfl
  · rintro (hnil | hf)
    · rw [sendInLoop_dropped hst hd (.inl hnil), sendInLoop_dropped hst hd (.inl hnil)]
    · rw [sendInLoop_error hst hd, sendInLoop_error hst hd, hf]

/-- A failing direct write in any state of the connection: what becomes of the message is right
exactly when logging leaves `errno` where it was with respect to `EPIPE` and `ECONNRESET`, and two
log streams make no difference exactly when they agree on that. An empty message is never buffered. -/
theorem send_error_iff (h : w.Wf) (hst : w.conn.state ≠ .disconnected)
    (hd : w.writesDirectly = true) (inData : Bytes) (errno : Errno) (log log' : Errno → Errno) :
    (ErrorHandled log inData errno w ↔
        if inData = [] then FaultError errno
        else errno = EWOULDBLOCK ∨ (FaultError (log errno) ↔ FaultError errno)) ∧
      (w.sendInLoop log inData (.error errno) = w.sendInLoop log' inData (.error errno) ↔
        inData = [] ∨ errno = EWOULDBLOCK ∨ (FaultError (log errno) ↔ FaultError (log' errno))) := by
  refine ⟨errorHandled_iff h hst hd, (sendInLoop_log_iff h hst hd).trans (or_congr_right ?_)⟩
  rw [Bool.eq_iff_iff, isFault_iff, isFault_iff, and_congr_right_iff, or_iff_not_imp_left]

/-- A log stream that leaves `errno` alone. -/
theorem send_error_iff_quiet : ErrorHandled id [1, 2] EPIPE (alone 5 ()) ∧
    (alone 5 ()).sendInLoop id [1, 2] (.error EPIPE) =
      (alone 5 ()).sendInLoop (fun e => e) [1, 2] (.error EPIPE) := by
  obtain ⟨hok, hsame⟩ := send_error_iff (alone_constructed 5 ()).wf (by decide) (by decide) [1, 2] EPIPE
    id fun e => e
  exact ⟨hok.2 (by decide), hsame.2 (by decide)⟩

/-- `EBADF` left by the log stream after `EPIPE`: the message is buffered and writing is enabled on the
dead socket. -/
theorem send_error_logged : ∃ w', (alone 5 ()).sendInLoop (fun _ => 9) [1] (.error EPIPE) = .ok w' ∧
    w'.unsent = [1] ∧ w'.conn.channel.isWriting = true ∧
    ¬ ErrorHandled (fun _ => 9) [1] EPIPE (alone 5 ()) ∧
    (alone 5 ()).sendInLoop (fun _ => 9) [1] (.error EPIPE) ≠
      (alone 5 ()).sendInLoop id [1] (.error EPIPE) := by
  have h := (alone_constructed 5 ()).wf
  have hno : (alone 5 ()).conn.outputBuffer.NoOverflow 1 := by
    intro hfull
    change Buffer.initial.writableBytes < 1 at hfull
    have hlen : Buffer.initial.buffer.length = 8 + 1024 := List.length_replicate
    have hwi : Buffer.initial.writerIndex = 8 := rfl
    rw [Buffer.initial_inv.writableBytes_eq] at hfull
    omega
  obtain ⟨w', ho⟩ : ∃ w', (alone 5 ()).sendInLoop (fun _ => 9) [1] (.error EPIPE) = .ok w' :=
    sendInLoop_returns h (by decide) hno
  obtain ⟨hun, hw⟩ := sendInLoop_buffered h (by decide) (by decide) (by decide) (by decide) ho
  refine ⟨w', ho, hun, hw, fun hok => ?_, fun heq => ?_⟩
  · rw [errorHandled_iff h (by decide) (by decide)] at hok
    exact absurd hok (by decide)
  · rw [sendInLoop_log_iff h (by decide) (by decide)] at heq
    exact absurd heq (by decide)

end World
end Muduo
