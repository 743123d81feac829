import Muduo.ConnRun

/-!
# The output stream

What the kernel has accepted followed by what the output buffer still holds: a message enters it
whole, at its end, or not at all, and nothing else changes it.
-/

namespace Muduo
open Lts

namespace World
variable {ι : Type} {w w' : World ι} {logErrno : Errno → Errno} {inData : Bytes} {r : WriteResult}

def stream (w : World ι) : Bytes := accepted w.trace ++ w.unsent

theorem unsent_of_writesDirectly (h : w.Wf) (hd : w.writesDirectly = true) : w.unsent = [] := by
  rw [writesDirectly, Bool.and_eq_true, beq_iff_eq] at hd
  exact h.out.readableBytes_eq_zero.1 hd.2

theorem accepted_highWaterEffects (n : Nat) : accepted (highWaterEffects n w) = [] := by
  unfold highWaterEffects
  dsimp only
  split <;> rfl

theorem accepted_directEffects : accepted (directEffects inData r w) =
    if w.writesDirectly = true then
      match r with
      | .accepted n => inData.take n
      | .error _ => []
    else [] := by
  unfold directEffects
  split
  · cases r with
    | accepted n =>
      rw [← List.singleton_append, accepted_append, accepted_write]
      dsimp only
      split <;> simp
    | error e => rfl
  · rfl

theorem Sent.stream (hwf : w.Wf) (h : Sent logErrno inData r w w') :
    w'.stream = w.stream ++ if faulted logErrno r w = true then [] else inData := by
  have hw : accepted w'.trace = accepted w.trace ++ accepted (directEffects inData r w) := by
    rw [h.trace, accepted_append, accepted_append]
    split <;> simp [accepted_highWaterEffects]
  unfold World.stream
  rw [hw, h.unsent, accepted_directEffects]
  unfold rest faulted
  by_cases hd : w.writesDirectly = true
  · have hun := unsent_of_writesDirectly hwf hd
    simp only [hd, if_true, Bool.true_and, hun, List.nil_append, List.append_nil, List.append_assoc]
    cases r with
    | accepted n => simp
    | error e => simp
  · simp [hd]

theorem accepted_drainEffects :
    accepted (drainEffects r w) ++ w.unsent.drop (taken r w) = w.unsent := by
  unfold drainEffects taken
  by_cases hw : w.conn.channel.isWriting = true
  · by_cases hne : w.unsent = []
    · simp [hne]
    · cases r with
      | accepted n => simp [hw, hne, accepted_write]
      | error e => simp [hw, hne, accepted_write_error]
  · simp [hw]

theorem Drained.stream {b : Bool} (h : Drained r w w' b) : w'.stream = w.stream := by
  have hw : accepted w'.trace = accepted w.trace ++ accepted (drainEffects r w) := by
    rw [h.trace, accepted_append, accepted_append]
    split <;> simp
  unfold World.stream
  rw [hw, h.unsent, List.append_assoc, accepted_drainEffects]

theorem stream_emit {e : Effect} (he : accepted [e] = []) : (w.emit e).stream = w.stream := by
  rw [stream, emit, accepted_append, he, List.append_nil]
  rfl

theorem stream_shutdownInLoop : w.shutdownInLoop.stream = w.stream := by
  unfold shutdownInLoop
  split
  · rfl
  · exact stream_emit rfl

theorem Closed.stream (h : Closed w w') : w'.stream = w.stream := by
  have hw : accepted w'.trace = accepted w.trace := by
    rw [h.trace, accepted_append, accepted_append]
    split <;> split <;> simp [accepted]
  rw [World.stream, hw, unsent, h.eq]
  rfl

theorem Destroyed.stream (h : Destroyed w w') : w'.stream = w.stream := by
  have hw : accepted w'.trace = accepted w.trace := by
    rw [h.trace, accepted_append]
    split <;> simp [accepted]
  rw [World.stream, hw, unsent, h.eq]
  rfl

/-- Nothing has entered the stream of a connection that has just been established. -/
theorem Established.stream_eq_nil (h : w.Established) : w.stream = [] := by
  rw [stream, h.unsent, h.trace]
  split <;> rfl

end World

namespace ConnStep
variable {ι : Type} {logErrno : Errno → Errno} {w w₀ w' t : World ι} {a : ConnStep ι}
  {as : List (ConnStep ι)}

/-- What a step adds to the stream. -/
def kept (logErrno : Errno → Errno) (w : World ι) (a : ConnStep ι) : Bytes :=
  match a.passed w with
  | some (inData, r) =>
    if w.conn.state = .disconnected ∨ World.faulted logErrno r w = true then [] else inData
  | none => []

theorem Did.stream (h : w.Wf) (hd : Did logErrno w a w') :
    w'.stream = w.stream ++ kept logErrno w a := by
  cases hd with
  | sent hp hst hs =>
    rw [hs.stream h, kept, hp]
    simp only [hst, false_or]
  | refused hp =>
    have hk : kept logErrno w a = [] := by
      rw [kept]
      rcases hp with hp | hst
      · rw [hp]
      · split
        · exact if_pos (.inl hst)
        · rfl
    rw [hk, List.append_nil]
  | queued => rw [World.queueInLoop, World.stream_emit rfl]; exact (List.append_nil _).symm
  | halfClosed _ =>
    rw [World.stream_shutdownInLoop]
    exact (List.append_nil _).symm
  | requested _ => rw [World.queueInLoop, World.stream_emit rfl]; exact (List.append_nil _).symm
  | shut => rw [World.stream_shutdownInLoop]; exact (List.append_nil _).symm
  | read _ => exact (List.append_nil _).symm
  | delivered _ => rw [World.stream_emit rfl]; exact (List.append_nil _).symm
  | ended _ hc => rw [hc.stream]; exact (List.append_nil _).symm
  | drained hdr =>
    rw [World.finishWrite_eq]
    split
    · rw [World.stream_shutdownInLoop, hdr.stream]; exact (List.append_nil _).symm
    · rw [hdr.stream]; exact (List.append_nil _).symm
  | closed hc => rw [hc.stream]; exact (List.append_nil _).symm
  | destroyed hc => rw [hc.stream]; exact (List.append_nil _).symm
  | other _ _ => exact (List.append_nil _).symm

/-- Over a run that returns the stream grows by the messages kept, in order. -/
theorem run_stream_of_run (h : w.Wf) (hof : Along (step logErrno) (fun w a => a.Offered w) w as)
    (hr : run (step logErrno) w as = some t) :
    t.stream = w.stream ++ collect (step logErrno) (kept logErrno) w as := by
  refine run_collect (I := World.Wf) ?_ ?_ hof hr h
  · intro s a u hc hs hi
    exact (step_ok hi hc hs).wf hi
  · intro s a u hc hs hi
    exact (step_ok hi hc hs).stream hi

theorem run_stream (h : w.Wf) (hreq : Along (step logErrno) (fun w a => a.Requires w) w as) :
    ∃ t, run (step logErrno) w as = some t ∧ t.Wf ∧
      t.stream = w.stream ++ collect (step logErrno) (kept logErrno) w as := by
  obtain ⟨t, hrun, ht⟩ := run_total (fun s a hc hs => step_total logErrno hs hc) hreq h
  exact ⟨t, hrun, ht, run_stream_of_run h (hreq.mono fun _ _ h => h.offered) hrun⟩

/-- The messages `sendInLoop` gives up, when logging leaves `errno` alone. -/
def Dropped (w : World ι) (r : WriteResult) : Prop :=
  w.conn.state = .disconnected ∨
    w.writesDirectly = true ∧ (r = .error EPIPE ∨ r = .error ECONNRESET)

instance (w : World ι) (r : WriteResult) : Decidable (Dropped w r) := by
  unfold Dropped; infer_instance

def undropped (w : World ι) (a : ConnStep ι) : Bytes :=
  match a.passed w with
  | some (inData, r) => if Dropped w r then [] else inData
  | none => []

theorem isFault_id {e : Errno} : World.isFault id e = true ↔ e = EPIPE ∨ e = ECONNRESET := by
  simp only [World.isFault, id, Bool.and_eq_true, bne_iff_ne, Bool.or_eq_true, beq_iff_eq]
  refine ⟨And.right, fun h => ⟨?_, h⟩⟩
  rcases h with rfl | rfl
  · decide
  · decide

theorem kept_id : kept (ι := ι) id = undropped := by
  funext w a
  unfold kept undropped Dropped World.faulted
  cases a.passed w with
  | none => rfl
  | some p =>
    obtain ⟨inData, r⟩ := p
    refine if_congr (or_congr_right ?_) rfl rfl
    rw [Bool.and_eq_true]
    refine and_congr_right fun _ => ?_
    cases r with
    | accepted n => simp
    | error e => simpa using isFault_id

/-- After any steps the bytes the kernel has accepted, followed by those in the output buffer, are
the messages passed to `sendInLoop` and not dropped, in call order. -/
theorem output_stream (as : List (ConnStep ι)) (h₀ : w₀.Constructed) (he : w₀.connectEstablished = .ok w)
    (hreq : Along (step id) (fun w a => a.Requires w) w as) :
    ∃ t, run (step id) w as = some t ∧
      accepted t.trace ++ t.conn.outputBuffer.readable = collect (step id) undropped w as := by
  have hw := World.connectEstablished_ok h₀ he
  obtain ⟨t, hrun, -, hstr⟩ := run_stream hw.wf hreq
  rw [hw.stream_eq_nil, List.nil_append, kept_id] at hstr
  exact ⟨t, hrun, hstr⟩

/-- A message taken in part, one put behind it, and the write event for both. -/
theorem output_stream_two : ∃ w t : World Unit, (World.alone 5 ()).connectEstablished = .ok w ∧
    run (step id) w [.sendInLoop [1, 2, 3] (.accepted 1), .sendInLoop [4] (.accepted 0),
      .handleWrite (.accepted 2)] = some t ∧
    accepted t.trace ++ t.conn.outputBuffer.readable = [1, 2, 3, 4] := by
  obtain ⟨t, hrun, h⟩ := output_stream [.sendInLoop [1, 2, 3] (.accepted 1), .sendInLoop [4] (.accepted 0),
    .handleWrite (.accepted 2)] (World.alone_constructed 5 ()) rfl (by decide +kernel)
  exact ⟨_, t, rfl, hrun, h.trans (by decide +kernel)⟩

end ConnStep
end Muduo
