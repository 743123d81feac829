import Muduo.ConnRun

/-!
# Write interest is exact

While a connection is open its output buffer, its channel's mask and the kernel's interest set say
the same thing: write interest is on exactly while there is something to write, and read interest is
never given up.
-/

namespace Muduo
open Lts EPollPoller

theorem and_EPOLLIN_ne (m : EventMask) : m &&& EPOLLIN ≠ 0 ↔ m.getLsbD 0 = true := by
  have h : EPOLLIN = BitVec.twoPow 32 0 := by decide
  rw [h, BitVec.and_twoPow]
  cases m.getLsbD 0 <;> decide

theorem and_EPOLLOUT_ne (m : EventMask) : m &&& EPOLLOUT ≠ 0 ↔ m.getLsbD 2 = true := by
  have h : EPOLLOUT = BitVec.twoPow 32 2 := by decide
  rw [h, BitVec.and_twoPow]
  cases m.getLsbD 2 <;> decide

namespace World
variable {ι : Type} {w w' : World ι} {logErrno : Errno → Errno} {inData : Bytes} {r : WriteResult}

/-- Open, registered, and writing exactly when there is something to write. -/
structure Flowing (w : World ι) : Prop where
  wf : w.Wf
  status : w.conn.channel.status = .added
  reading : w.conn.channel.events.getLsbD 0 = true
  writing : w.conn.channel.isWriting = true ↔ w.unsent ≠ []

/-- What `Flowing` looks at. -/
theorem Flowing.congr (h : w.Flowing) (hwf : w'.Wf) (hch : w'.conn.channel = w.conn.channel)
    (hun : w'.unsent = w.unsent) : w'.Flowing where
  wf := hwf
  status := by rw [hch]; exact h.status
  reading := by rw [hch]; exact h.reading
  writing := by rw [hch, hun]; exact h.writing

theorem Established.flowing (h : w.Established) : w.Flowing where
  wf := h.wf
  status := h.status
  reading := by rw [h.events]; decide
  writing := by rw [h.unsent, Channel.isWriting, h.events]; decide

/-- Sending keeps write interest exact. -/
theorem Sent.writing (hs : Sent logErrno inData r w w')
    (h : w.conn.channel.isWriting = true ↔ w.unsent ≠ []) :
    w'.conn.channel.isWriting = true ↔ w'.unsent ≠ [] := by
  rw [hs.unsent]
  by_cases hsame : rest logErrno inData r w = [] ∨ w.conn.channel.isWriting = true
  · rw [(hs.same hsame).1]
    rcases hsame with hr | hw
    · rw [hr, List.append_nil]; exact h
    · exact ⟨fun _ => List.append_ne_nil_of_left_ne_nil (h.1 hw) _, fun _ => hw⟩
  · rw [not_or, Bool.not_eq_true] at hsame
    have hon : w'.conn.channel.isWriting = true := by
      rw [(hs.enabled hsame.1 hsame.2).isWriting, ChannelOp.writing_enableWriting]
    exact ⟨fun _ => List.append_ne_nil_of_right_ne_nil _ hsame.1, fun _ => hon⟩

theorem Drained.unsent_ne_nil {b : Bool} (hd : Drained r w w' b) (hb : b = false)
    (hw : w.conn.channel.isWriting = true) (hne : w.unsent ≠ []) : w'.unsent ≠ [] := by
  intro hnil
  have := hd.drained_iff.2 ⟨hw, hne, hnil⟩
  rw [hb] at this
  cases this

theorem Drained.isWriting_eq_false (hd : Drained r w w' true) :
    w'.conn.channel.isWriting = false := by
  rw [(hd.disabled rfl).isWriting, ChannelOp.writing_disableWriting]

/-- Draining keeps write interest exact. -/
theorem Drained.writing {b : Bool} (hd : Drained r w w' b)
    (h : w.conn.channel.isWriting = true ↔ w.unsent ≠ []) :
    w'.conn.channel.isWriting = true ↔ w'.unsent ≠ [] := by
  cases b with
  | false =>
    rw [(hd.same rfl).1]
    constructor
    · intro hw
      exact hd.unsent_ne_nil rfl hw (h.1 hw)
    · intro hne
      refine h.2 fun hnil => hne ?_
      rw [hd.unsent, hnil, List.drop_nil]
  | true =>
    rw [hd.isWriting_eq_false, (hd.drained_iff.1 rfl).2.2]
    simp

theorem Flowing.sent (h : w.Flowing) (hs : Sent logErrno inData r w w') : w'.Flowing := by
  by_cases hsame : rest logErrno inData r w = [] ∨ w.conn.channel.isWriting = true
  · obtain ⟨hch, -⟩ := hs.same hsame
    exact ⟨hs.wf, by rw [hch]; exact h.status, by rw [hch]; exact h.reading, hs.writing h.writing⟩
  · rw [not_or, Bool.not_eq_true] at hsame
    have hd := hs.enabled hsame.1 hsame.2
    refine ⟨hs.wf, hs.added h.status, ?_, hs.writing h.writing⟩
    rw [hd.events, ChannelOp.mask, BitVec.getLsbD_or, h.reading, Bool.true_or]

theorem Flowing.drained {b : Bool} (h : w.Flowing) (hd : Drained r w w' b) : w'.Flowing := by
  cases b with
  | false =>
    obtain ⟨hch, -⟩ := hd.same rfl
    exact ⟨hd.wf, by rw [hch]; exact h.status, by rw [hch]; exact h.reading, hd.writing h.writing⟩
  | true =>
    have hop := hd.disabled rfl
    have hread : (w.conn.channel.events &&& ~~~Channel.kWriteEvent).getLsbD 0 = true := by
      rw [BitVec.getLsbD_and, h.reading]; decide
    exact ⟨hd.wf, hop.added (by decide) hread, by rw [hop.events]; exact hread,
      hd.writing h.writing⟩

theorem Flowing.shutdownInLoop (h : w.Flowing) : w.shutdownInLoop.Flowing := by
  refine h.congr h.wf.shutdownInLoop ?_ ?_
  · rw [shutdownInLoop_eq]
  · rw [shutdownInLoop_eq]; rfl

end World

namespace ConnStep
variable {ι : Type} {logErrno : Errno → Errno} {w w₀ w' t : World ι} {a : ConnStep ι}
  {as : List (ConnStep ι)}

/-- The steps that close the connection: `handleClose`, at the end of the input or by itself, and
`connectDestroyed`. -/
def Closes : ConnStep ι → Prop
  | .handleRead r => r = .delivered []
  | .handleClose => True
  | .connectDestroyed => True
  | _ => False

instance (a : ConnStep ι) : Decidable a.Closes :=
  match a with
  | .handleRead r => inferInstanceAs (Decidable (r = .delivered []))
  | .handleClose | .connectDestroyed => .isTrue trivial
  | .send _ _ _ | .shutdown _ | .sendInLoop _ _ | .shutdownInLoop | .handleWrite _ | .handleError
  | .other _ _ _ => .isFalse not_false

theorem Did.flowing (h : w.Flowing) (hd : Did logErrno w a w') (ha : ¬ a.Closes) : w'.Flowing := by
  have hwf := hd.wf h.wf
  cases hd with
  | sent _ _ hs => exact h.sent hs
  | refused _ => exact h
  | queued => exact h.congr hwf rfl rfl
  | halfClosed _ => exact World.Flowing.shutdownInLoop (h.congr ⟨h.wf.out, h.wf.inp, h.wf.synced⟩ rfl rfl)
  | requested _ => exact h.congr hwf rfl rfl
  | shut => exact h.shutdownInLoop
  | read _ => exact h.congr hwf rfl rfl
  | delivered _ => exact h.congr hwf rfl rfl
  | ended _ _ => exact absurd rfl ha
  | drained hdr =>
    rw [World.finishWrite_eq]
    split
    · exact (h.drained hdr).shutdownInLoop
    · exact h.drained hdr
  | closed _ => exact absurd trivial ha
  | destroyed _ => exact absurd trivial ha
  | other _ _ => exact h.congr hwf rfl rfl

theorem run_flowing (h : w.Flowing)
    (hreq : Along (step logErrno) (fun w a => a.Requires w ∧ ¬ a.Closes) w as) :
    ∃ t, run (step logErrno) w as = some t ∧ t.Flowing := by
  refine run_total (fun s a hc hs => ?_) hreq h
  obtain ⟨v, hv, -⟩ := step_total logErrno hs.wf hc.1
  exact ⟨v, hv, (step_did hs.wf hc.1 hv).flowing hs hc.2⟩

/-- Until the connection is closed the output buffer has something in it exactly when the channel
has write interest; the kernel holds the channel's mask, and read interest is in it. -/
theorem interest_exact (logErrno : Errno → Errno) (as : List (ConnStep ι))
    (h₀ : w₀.Constructed) (he : w₀.connectEstablished = .ok w)
    (hreq : Along (step logErrno) (fun w a => a.Requires w ∧ ¬ a.Closes) w as) :
    ∃ t, run (step logErrno) w as = some t ∧
      (t.conn.outputBuffer.readableBytes ≠ 0 ↔ t.conn.channel.events &&& EPOLLOUT ≠ 0) ∧
      t.conn.channel.events &&& EPOLLIN ≠ 0 ∧
      ∃ e, t.poller.interest t.conn.channel.fd = some e ∧ e.ptr = t.ptr ∧
        (t.conn.outputBuffer.readableBytes ≠ 0 → e.events &&& EPOLLOUT ≠ 0) ∧
        e.events &&& EPOLLIN ≠ 0 := by
  have hw := (World.connectEstablished_ok h₀ he).flowing
  obtain ⟨t, hrun, ht⟩ := run_flowing hw hreq
  have hiff : t.conn.outputBuffer.readableBytes ≠ 0 ↔ t.conn.channel.events &&& EPOLLOUT ≠ 0 := by
    rw [and_EPOLLOUT_ne, ← Channel.isWriting_eq, ht.writing]
    exact not_congr ht.wf.out.readableBytes_eq_zero
  have hin := (and_EPOLLIN_ne _).2 ht.reading
  exact ⟨t, hrun, hiff, hin, _, ht.wf.synced.added ht.status, rfl, hiff.1, hin⟩

/-- Two messages wait behind a full socket, and one write event takes both. -/
theorem interest_exact_two : ∃ w t : World Unit, (World.alone 5 ()).connectEstablished = .ok w ∧
    run (step id) w [.send true [1, 2] (.error EWOULDBLOCK), .sendInLoop [3] (.accepted 0),
      .handleWrite (.accepted 3)] = some t ∧
    (t.conn.outputBuffer.readableBytes ≠ 0 ↔ t.conn.channel.events &&& EPOLLOUT ≠ 0) := by
  obtain ⟨t, hrun, h, -⟩ := interest_exact id [.send true [1, 2] (.error EWOULDBLOCK),
    .sendInLoop [3] (.accepted 0), .handleWrite (.accepted 3)] (World.alone_constructed 5 ()) rfl
    (by decide +kernel)
  exact ⟨_, t, rfl, hrun, h⟩

end ConnStep
end Muduo
