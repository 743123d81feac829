import Muduo.Interest

/-!
# What a connection's functions leave alone

The server sees a connection through its fd, its callbacks and the part of the poller that belongs to
other fds; none of them changes. The close callback is made by `handleClose` alone.
-/

namespace Muduo
open EPollPoller

namespace World
variable {ι : Type} {w w' v : World ι} {logErrno : Errno → Errno} {inData : Bytes} {r : WriteResult}

structure Kept (w w' : World ι) : Prop where
  ptr : w'.ptr = w.ptr
  closeCallback : w'.conn.closeCallback = w.conn.closeCallback
  fd : w'.conn.channel.fd = w.conn.channel.fd
  frame : Frame w.poller w.conn.channel.fd w'.poller

theorem Kept.rfl : Kept w w := ⟨.refl _, .refl _, .refl _, .refl _ _⟩

theorem Kept.trans (h : Kept w v) (h' : Kept v w') : Kept w w' where
  ptr := h'.ptr.trans h.ptr
  closeCallback := h'.closeCallback.trans h.closeCallback
  fd := h'.fd.trans h.fd
  frame := h.frame.trans (h.fd ▸ h'.frame)

/-- A function that leaves the poller and the channel as they are. -/
theorem Kept.of_same (hptr : w'.ptr = w.ptr) (hcl : w'.conn.closeCallback = w.conn.closeCallback)
    (hch : w'.conn.channel = w.conn.channel) (hp : w'.poller = w.poller) : Kept w w' where
  ptr := hptr
  closeCallback := hcl
  fd := by rw [hch]
  frame := by rw [hp]; exact Kept.rfl.frame

/-- A function whose only effect on the poller is an operation on the channel. -/
theorem Kept.of_op {op : ChannelOp} (hptr : w'.ptr = w.ptr)
    (hcl : w'.conn.closeCallback = w.conn.closeCallback) (hd : OpDone w op w') : Kept w w' where
  ptr := hptr
  closeCallback := hcl
  fd := by rw [hd.channel]
  frame := hd.frame

theorem Sent.kept (h : Sent logErrno inData r w w') : Kept w w' := by
  have hptr : w'.ptr = w.ptr := by rw [h.eq]
  have hcl : w'.conn.closeCallback = w.conn.closeCallback := by rw [h.eq]
  by_cases hsame : rest logErrno inData r w = [] ∨ w.conn.channel.isWriting = true
  · obtain ⟨hch, hp⟩ := h.same hsame
    exact .of_same hptr hcl hch hp
  · rw [not_or, Bool.not_eq_true] at hsame
    exact .of_op hptr hcl (h.enabled hsame.1 hsame.2)

theorem Drained.kept {b : Bool} (h : Drained r w w' b) : Kept w w' := by
  have hptr : w'.ptr = w.ptr := by rw [h.eq]
  have hcl : w'.conn.closeCallback = w.conn.closeCallback := by rw [h.eq]
  cases b with
  | false => exact .of_same hptr hcl (h.same rfl).1 (h.same rfl).2
  | true => exact .of_op hptr hcl (h.disabled rfl)

theorem Closed.kept (h : Closed w w') : Kept w w' :=
  .of_op (by rw [h.eq]) (by rw [h.eq]) h.disabled

theorem Destroyed.kept (h : Destroyed w w') : Kept w w' where
  ptr := by rw [h.eq]
  closeCallback := by rw [h.eq]
  fd := by rw [h.channel]
  frame := h.frame

theorem setState_kept (s : ConnState) : Kept w (w.setState s) := .of_same rfl rfl rfl rfl

theorem received_kept (inp : Buffer) : Kept w (w.received inp) := .of_same rfl rfl rfl rfl

theorem shutdownInLoop_kept : Kept w w.shutdownInLoop := by
  rw [shutdownInLoop_eq]
  exact .of_same rfl rfl rfl rfl

theorem finishWrite_kept {b : Bool} : Kept w (finishWrite (w, b)) := by
  rw [finishWrite_eq]
  split
  · exact shutdownInLoop_kept
  · exact .rfl

theorem connectEstablished_kept (h : w.Constructed) (ho : w.connectEstablished = .ok w') :
    Kept w w' := by
  obtain ⟨v, hv, ho⟩ := bind_eq_ok.1 ho
  obtain ⟨heq, -, hd⟩ := channelOp_ok h.synced_tie hv
  rw [runConnectionCallback_eq] at ho
  cases ho
  exact {
    ptr := by rw [heq]; rfl
    closeCallback := by rw [heq]; rfl
    fd := by rw [hd.channel]; rfl
    frame := hd.frame }

/-- The kernel's report is not part of the registration. -/
theorem Wf.revents (h : w.Wf) (revents : EventMask) :
    World.Wf { w with conn.channel.revents := revents } :=
  ⟨h.out, h.inp, ⟨h.synced.added, h.synced.absent⟩⟩

theorem Flowing.revents (h : w.Flowing) (revents : EventMask) :
    World.Flowing { w with conn.channel.revents := revents } :=
  ⟨h.wf.revents revents, h.status, h.reading, h.writing⟩

/-! ### The close callback -/

/-- The close callback has not been made. -/
def Uncalled (w : World ι) : Prop := .closeCallback ∉ w.trace

theorem Uncalled.extend {es : List Effect} (h : w.Uncalled) (ht : w'.trace = w.trace ++ es)
    (hes : .closeCallback ∉ es) : w'.Uncalled := by
  rw [Uncalled, ht, List.mem_append]
  rintro (hm | hm)
  · exact h hm
  · exact hes hm

theorem closeCallback_directEffects : .closeCallback ∉ directEffects inData r w := by
  unfold directEffects
  split
  · cases r with
    | accepted n => split <;> simp
    | error e => simp
  · simp

theorem closeCallback_highWaterEffects {n : Nat} : .closeCallback ∉ highWaterEffects n w := by
  unfold highWaterEffects
  dsimp only
  split <;> simp

theorem closeCallback_drainEffects : .closeCallback ∉ drainEffects r w := by
  unfold drainEffects
  split <;> simp

theorem Sent.uncalled (h : Sent logErrno inData r w w') (hq : w.Uncalled) : w'.Uncalled := by
  refine hq.extend (h.trace.trans (List.append_assoc _ _ _)) ?_
  rw [List.mem_append]
  rintro (hm | hm)
  · exact closeCallback_directEffects hm
  · split at hm
    · cases hm
    · exact closeCallback_highWaterEffects hm

theorem Drained.uncalled {b : Bool} (h : Drained r w w' b) (hq : w.Uncalled) : w'.Uncalled := by
  refine hq.extend (h.trace.trans (List.append_assoc _ _ _)) ?_
  rw [List.mem_append]
  rintro (hm | hm)
  · exact closeCallback_drainEffects hm
  · split at hm
    · simp at hm
    · cases hm

theorem Uncalled.shutdownInLoop (hq : w.Uncalled) : w.shutdownInLoop.Uncalled := by
  rw [shutdownInLoop_eq]
  refine hq.extend rfl ?_
  split <;> simp

theorem Uncalled.finishWrite {b : Bool} (hq : w.Uncalled) : (World.finishWrite (w, b)).Uncalled := by
  rw [finishWrite_eq]
  split
  · exact hq.shutdownInLoop
  · exact hq

theorem Established.uncalled (h : Established w) : w.Uncalled := by
  rw [Uncalled, h.trace]
  split <;> simp

theorem Destroyed.uncalled (h : Destroyed w w') (hq : w.Uncalled) : w'.Uncalled := by
  refine hq.extend h.trace ?_
  split <;> simp

theorem Closed.closeCallback_mem (h : Closed w w') (hcl : w.conn.closeCallback = true) :
    .closeCallback ∈ w'.trace := by
  rw [h.trace, if_pos hcl]
  simp

end World

namespace ConnStep
variable {ι : Type} {logErrno : Errno → Errno} {w w' : World ι} {a : ConnStep ι}

/-- Steps of the connection itself. -/
def Own : ConnStep ι → Prop
  | .other _ _ _ => False
  | _ => True

theorem Did.keeps (hd : Did logErrno w a w') (ha : a.Own) : World.Kept w w' := by
  cases hd with
  | sent _ _ h => exact h.kept
  | refused _ => exact .rfl
  | queued => exact .of_same rfl rfl rfl rfl
  | halfClosed _ => exact (World.setState_kept _).trans World.shutdownInLoop_kept
  | requested _ => exact .of_same rfl rfl rfl rfl
  | shut => exact World.shutdownInLoop_kept
  | read _ => exact .of_same rfl rfl rfl rfl
  | delivered _ => exact .of_same rfl rfl rfl rfl
  | ended _ h => exact ((World.received_kept _).trans (World.setState_kept _)).trans h.kept
  | drained h => exact h.kept.trans World.finishWrite_kept
  | closed h => exact (World.setState_kept _).trans h.kept
  | destroyed h => exact h.kept
  | other _ _ => exact ha.elim

theorem Did.uncalled (hd : Did logErrno w a w') (ha : ¬ a.Closes) (hq : w.Uncalled) : w'.Uncalled := by
  cases hd with
  | sent _ _ h => exact h.uncalled hq
  | refused _ => exact hq
  | queued => exact hq.extend rfl (by simp)
  | halfClosed _ => exact World.Uncalled.shutdownInLoop (w := w.setState .disconnecting) hq
  | requested _ => exact hq.extend rfl (by simp)
  | shut => exact hq.shutdownInLoop
  | read _ => exact hq
  | delivered _ => exact hq.extend rfl (by simp)
  | ended _ _ => exact absurd rfl ha
  | drained h => exact (h.uncalled hq).finishWrite
  | closed _ => exact absurd trivial ha
  | destroyed _ => exact absurd trivial ha
  | other _ _ => exact hq

/-- A step that does not close leaves the state or half-closes. -/
theorem Did.state (hd : Did logErrno w a w') (ha : ¬ a.Closes) :
    w'.conn.state = w.conn.state ∨ w'.conn.state = .disconnecting := by
  cases hd with
  | sent _ _ h => exact .inl (by rw [h.eq])
  | halfClosed _ => exact .inr (by rw [World.shutdownInLoop_conn]; rfl)
  | requested _ => exact .inr rfl
  | shut => exact .inl (by rw [World.shutdownInLoop_conn])
  | ended _ _ => exact absurd rfl ha
  | drained h => exact .inl (by rw [World.finishWrite_conn, h.eq])
  | closed _ => exact absurd trivial ha
  | destroyed _ => exact absurd trivial ha
  | refused _ => exact .inl rfl
  | queued => exact .inl rfl
  | read _ => exact .inl rfl
  | delivered _ => exact .inl rfl
  | other _ _ => exact .inl rfl

end ConnStep
end Muduo
