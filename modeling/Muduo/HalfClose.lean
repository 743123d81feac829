import Muduo.Interest
import Muduo.Stream

/-!
# Half-closing a connection from its own loop

`shutdown` and `send` are called on the loop thread. The half-close is issued at once when nothing is
waiting to be written, and else by the write event that drains the output buffer; in between the
connection is `Disconnecting` with something in the buffer.
-/

namespace Muduo
open Lts

def isShutdownWrite : Effect → Bool
  | .shutdownWrite _ => true
  | _ => false

/-- Effects that neither half-close nor write. -/
def Silent (es : List Effect) : Prop := ∀ e ∈ es, isShutdownWrite e = false

theorem Silent.append {es es' : List Effect} (h : Silent es) (h' : Silent es') :
    Silent (es ++ es') := by
  intro e he
  rcases List.mem_append.1 he with he | he
  · exact h e he
  · exact h' e he

theorem silent_nil : Silent [] := by simp [Silent]

theorem silent_singleton {e : Effect} (h : isShutdownWrite e = false) : Silent [e] := by
  simpa [Silent] using h

/-- A half-close with nothing like it before or after is the only one. -/
theorem shutdownWrite_unique {pre pre' post post' : List Effect} {u u' : Bytes}
    (h : pre ++ .shutdownWrite u :: post = pre' ++ .shutdownWrite u' :: post') (hpre : Silent pre)
    (hpost : Silent post) : pre = pre' ∧ u = u' ∧ post = post' := by
  rcases List.append_eq_append_iff.1 h with ⟨es, rfl, hes⟩ | ⟨es, rfl, hes⟩
  · cases es with
    | nil => simpa using hes
    | cons e es =>
      obtain ⟨-, rfl⟩ := List.cons.inj hes
      exact absurd (hpost (.shutdownWrite u') (by simp)) (by simp [isShutdownWrite])
  · cases es with
    | nil => simpa [eq_comm] using hes
    | cons e es =>
      obtain ⟨rfl, -⟩ := List.cons.inj hes
      exact absurd (hpre (.shutdownWrite u') (by simp)) (by simp [isShutdownWrite])

namespace World
variable {ι : Type} {w w' : World ι} {logErrno : Errno → Errno} {inData : Bytes} {r : WriteResult}

/-- Not half-closed so far: if it was asked for, there is something to write first. -/
structure Pending (w : World ι) : Prop where
  silent : Silent w.trace
  waiting : w.conn.state = .disconnecting → w.unsent ≠ []

/-- Half-closed once, with nothing to write then or since. -/
structure Shut (w : World ι) : Prop where
  once : ∃ pre post, w.trace = pre ++ .shutdownWrite [] :: post ∧ Silent pre ∧ Silent post ∧
    accepted post = []
  unsent : w.unsent = []
  state : w.conn.state ≠ .connected

structure HalfClose (w : World ι) : Prop where
  wf : w.Wf
  writing : w.conn.state ≠ .disconnected → (w.conn.channel.isWriting = true ↔ w.unsent ≠ [])
  closed : w.conn.state = .disconnected → w.conn.channel.isWriting = false
  phase : w.Pending ∨ w.Shut

theorem Established.halfClose (h : w.Established) : w.HalfClose where
  wf := h.wf
  writing _ := h.flowing.writing
  closed hst := by rw [h.state] at hst; cases hst
  phase := by
    refine .inl ⟨?_, fun hst => by rw [h.state] at hst; cases hst⟩
    rw [h.trace]
    split
    · exact silent_singleton rfl
    · exact silent_nil

theorem Pending.extend {es : List Effect} (h : w.Pending) (ht : w'.trace = w.trace ++ es)
    (hes : Silent es) (hst : w'.conn.state = .disconnecting → w'.unsent ≠ []) : w'.Pending :=
  ⟨ht ▸ h.silent.append hes, hst⟩

theorem Shut.extend {es : List Effect} (h : w.Shut) (ht : w'.trace = w.trace ++ es)
    (hes : Silent es) (hacc : accepted es = []) (hun : w'.unsent = w.unsent)
    (hst : w'.conn.state ≠ .connected) : w'.Shut := by
  obtain ⟨pre, post, htr, hpre, hpost, hnone⟩ := h.once
  refine ⟨⟨pre, post ++ es, ?_, hpre, hpost.append hes, ?_⟩, hun.trans h.unsent, hst⟩
  · rw [ht, htr, List.append_assoc, List.cons_append]
  · rw [accepted_append, hnone, hacc]; rfl

/-- The half-close itself. -/
theorem Pending.shut (h : Silent w.trace) (hun : w.unsent = [])
    (hoff : w.conn.channel.isWriting = false) (hst : w.conn.state ≠ .connected) :
    w.shutdownInLoop.Shut := by
  have ht : w.shutdownInLoop = { w with trace := w.trace ++ [.shutdownWrite []] } := by
    rw [shutdownInLoop_eq, hoff, hun]; rfl
  rw [ht]
  exact ⟨⟨w.trace, [], rfl, h, silent_nil, rfl⟩, hun, hst⟩

theorem silent_directEffects : Silent (directEffects inData r w) := by
  unfold directEffects
  split
  · cases r with
    | accepted n =>
      dsimp only
      split
      · simp [Silent, isShutdownWrite]
      · exact silent_singleton rfl
    | error e => exact silent_singleton rfl
  · exact silent_nil

theorem silent_highWaterEffects (n : Nat) : Silent (highWaterEffects n w) := by
  unfold highWaterEffects
  dsimp only
  split
  · exact silent_singleton rfl
  · exact silent_nil

theorem silent_drainEffects : Silent (drainEffects r w) := by
  unfold drainEffects
  split
  · exact silent_singleton rfl
  · exact silent_nil

/-- A message is sent while the connection is connected, so before any half-close. -/
theorem HalfClose.sent (h : w.HalfClose) (hst : w.conn.state = .connected)
    (hs : Sent logErrno inData r w w') : w'.HalfClose := by
  have hst' : w'.conn.state = .connected := by rw [hs.eq]; exact hst
  have hp : w.Pending := h.phase.resolve_right fun hsh => hsh.state hst
  refine ⟨hs.wf, fun _ => hs.writing (h.writing (by rw [hst]; decide)), ?_, .inl ?_⟩
  · intro hd
    rw [hst'] at hd; cases hd
  · refine hp.extend (by rw [hs.trace, List.append_assoc]) (silent_directEffects.append ?_) ?_
    · split
      · exact silent_nil
      · exact silent_highWaterEffects _
    · intro hd
      rw [hst'] at hd; cases hd

/-- `shutdown` on a connected connection. -/
theorem HalfClose.shutdown (h : w.HalfClose) (hst : w.conn.state = .connected) :
    (w.setState .disconnecting).shutdownInLoop.HalfClose := by
  have hw := h.writing (by rw [hst]; decide)
  have hp : w.Pending := h.phase.resolve_right fun hsh => hsh.state hst
  have hwf : (w.setState .disconnecting).Wf := ⟨h.wf.out, h.wf.inp, h.wf.synced⟩
  refine ⟨hwf.shutdownInLoop, fun _ => ?_, fun hd => ?_, ?_⟩
  · rw [shutdownInLoop_eq]; exact hw
  · rw [shutdownInLoop_eq] at hd; cases hd
  · cases hwr : w.conn.channel.isWriting with
    | true =>
      left
      have hsame : (w.setState .disconnecting).shutdownInLoop = w.setState .disconnecting :=
        if_pos hwr
      rw [hsame]
      exact ⟨hp.silent, fun _ => hw.1 hwr⟩
    | false =>
      right
      refine Pending.shut hp.silent ?_ hwr (by simp [setState])
      by_contra hne
      rw [hw.2 hne] at hwr; cases hwr

theorem Pending.silent_drained {v : World ι} {b : Bool} (h : w.Pending) (hd : Drained r w v b) :
    Silent v.trace := by
  rw [hd.trace]
  refine (h.silent.append silent_drainEffects).append ?_
  split
  · exact silent_singleton rfl
  · exact silent_nil

/-- Nothing is left to drain after the half-close. -/
theorem Shut.drained {v : World ι} {b : Bool} (h : w.Shut) (hd : Drained r w v b) :
    b = false ∧ v.Shut := by
  have hb : b ≠ true := fun hb => (hd.drained_iff.1 hb).2.1 h.unsent
  have hes : drainEffects r w = [] := if_neg fun hc => hc.2 h.unsent
  have htr := hd.trace
  rw [hes, if_neg fun hc => hb hc.1, List.append_nil] at htr
  refine ⟨Bool.eq_false_iff.2 hb, h.extend htr silent_nil rfl ?_ ?_⟩
  · rw [hd.unsent, h.unsent, List.drop_nil]
  · rw [hd.eq]; exact h.state

theorem HalfClose.of_drained {v : World ι} {b : Bool} (h : w.HalfClose) (hd : Drained r w v b)
    (hph : v.Pending ∨ v.Shut) : v.HalfClose := by
  have hst : v.conn.state = w.conn.state := by rw [hd.eq]
  refine ⟨hd.wf, fun hne => hd.writing (h.writing (hst ▸ hne)), fun hdis => ?_, hph⟩
  cases b with
  | false => rw [(hd.same rfl).1, h.closed (hst ▸ hdis)]
  | true => exact hd.isWriting_eq_false

/-- The write event: the last byte of a connection that is `Disconnecting` is followed by the
half-close. -/
theorem HalfClose.drained {v : World ι} {b : Bool} (h : w.HalfClose) (hd : Drained r w v b) :
    (finishWrite (v, b)).HalfClose := by
  have hst : v.conn.state = w.conn.state := by rw [hd.eq]
  rcases h.phase with hp | hs
  · have hsil := hp.silent_drained hd
    cases b with
    | false =>
      rw [finishWrite_eq, if_neg (by simp)]
      refine h.of_drained hd (.inl ⟨hsil, fun hdis => ?_⟩)
      rw [hst] at hdis
      have hne := hp.waiting hdis
      exact hd.unsent_ne_nil rfl ((h.writing (by rw [hdis]; decide)).2 hne) hne
    | true =>
      rw [finishWrite_eq]
      split
      · rename_i hfin
        have hs := Pending.shut hsil (hd.drained_iff.1 rfl).2.2 hd.isWriting_eq_false
          (by rw [hfin.2]; decide)
        have hst' : v.shutdownInLoop.conn.state = .disconnecting := by
          rw [shutdownInLoop_eq]; exact hfin.2
        refine ⟨hd.wf.shutdownInLoop, fun _ => ?_, fun hc => ?_, .inr hs⟩
        · rw [hs.unsent, shutdownInLoop_eq]
          simp [hd.isWriting_eq_false]
        · rw [hst'] at hc; cases hc
      · rename_i hfin
        exact h.of_drained hd (.inl ⟨hsil, fun hdis => absurd ⟨rfl, hdis⟩ hfin⟩)
  · obtain ⟨rfl, hv⟩ := hs.drained hd
    rw [finishWrite_eq, if_neg (by simp)]
    exact h.of_drained hd (.inr hv)

/-- A close: nothing is written or half-closed, and write interest goes off. -/
theorem HalfClose.close {es : List Effect} (h : w.HalfClose) (hwf : w'.Wf)
    (ht : w'.trace = w.trace ++ es) (hes : Silent es) (hacc : accepted es = [])
    (hun : w'.unsent = w.unsent) (hst : w'.conn.state = .disconnected)
    (hoff : w'.conn.channel.isWriting = false) : w'.HalfClose := by
  refine ⟨hwf, fun hne => absurd hst hne, fun _ => hoff, ?_⟩
  rcases h.phase with hp | hs
  · exact .inl (hp.extend ht hes fun hdis => by rw [hst] at hdis; cases hdis)
  · exact .inr (hs.extend ht hes hacc hun (by rw [hst]; decide))

/-- Steps that leave the state, the channel and the output buffer. -/
theorem HalfClose.extend {es : List Effect} (h : w.HalfClose) (hwf : w'.Wf)
    (ht : w'.trace = w.trace ++ es) (hes : Silent es) (hacc : accepted es = [])
    (hun : w'.unsent = w.unsent) (hst : w'.conn.state = w.conn.state)
    (hwr : w'.conn.channel.isWriting = w.conn.channel.isWriting) : w'.HalfClose := by
  refine ⟨hwf, ?_, ?_, ?_⟩
  · rw [hst, hwr, hun]; exact h.writing
  · rw [hst, hwr]; exact h.closed
  · rcases h.phase with hp | hs
    · exact .inl (hp.extend ht hes (by rw [hst, hun]; exact hp.waiting))
    · exact .inr (hs.extend ht hes hacc hun (by rw [hst]; exact hs.state))

theorem HalfClose.closed_by (h : w.HalfClose) (hc : Closed (w.setState .disconnected) w') : w'.HalfClose := by
  have ht := hc.trace
  rw [List.append_assoc] at ht
  refine h.close hc.wf ht ?_ ?_ ?_ (by rw [hc.eq]; rfl) ?_
  · split <;> split <;> simp [Silent, isShutdownWrite]
  · split <;> split <;> simp [accepted]
  · rw [unsent, hc.eq]; rfl
  · rw [hc.disabled.isWriting, ChannelOp.writing_disableAll]

theorem HalfClose.destroyed (h : w.HalfClose) (hd : Destroyed w w') : w'.HalfClose := by
  have hun : w'.unsent = w.unsent := by rw [unsent, hd.eq]; rfl
  by_cases hst : w.conn.state = .connected
  · refine h.close hd.wf hd.trace ?_ ?_ hun (by rw [hd.eq, if_pos hst]) ?_
    · split <;> simp [Silent, isShutdownWrite]
    · split <;> simp [accepted]
    · rw [Channel.isWriting_eq, hd.channel]
      dsimp only
      rw [if_pos hst]; decide
  · refine h.extend hd.wf hd.trace ?_ ?_ hun (by rw [hd.eq]; exact if_neg hst) ?_
    · rw [if_neg fun hc => hst hc.1]; exact silent_nil
    · rw [if_neg fun hc => hst hc.1]; rfl
    · rw [hd.channel, Channel.isWriting, if_neg hst]; rfl

/-! ### What the invariant says of the half-close -/

theorem HalfClose.countP_le (h : w.HalfClose) : w.trace.countP isShutdownWrite ≤ 1 := by
  rcases h.phase with hp | hs
  · rw [List.countP_eq_zero.2 fun e he => by simp [hp.silent e he]]
    exact Nat.zero_le _
  · obtain ⟨pre, post, htr, hpre, hpost, -⟩ := hs.once
    rw [htr, List.countP_append, List.countP_cons, List.countP_eq_zero.2 fun e he => by simp [hpre e he],
      List.countP_eq_zero.2 fun e he => by simp [hpost e he]]
    decide

/-- The stream was at the kernel when the half-close was issued. -/
theorem HalfClose.accepted_before {pre post : List Effect} {u : Bytes} (h : w.HalfClose)
    (htr : w.trace = pre ++ .shutdownWrite u :: post) : u = [] ∧ accepted pre = w.stream := by
  rcases h.phase with hp | hs
  · cases hp.silent (.shutdownWrite u) (by simp [htr])
  · obtain ⟨pre₀, post₀, htr₀, hpre, hpost, hnone⟩ := hs.once
    rw [htr₀] at htr
    obtain ⟨rfl, rfl, rfl⟩ := shutdownWrite_unique htr hpre hpost
    refine ⟨rfl, ?_⟩
    rw [World.stream, hs.unsent, htr₀, List.append_nil, accepted_append]
    show _ = accepted pre₀ ++ accepted ([.shutdownWrite []] ++ post₀)
    rw [accepted_append, hnone]
    exact (List.append_nil _).symm

theorem HalfClose.issued (h : w.HalfClose) (hst : w.conn.state = .disconnecting) (hun : w.unsent = []) :
    ∃ u, .shutdownWrite u ∈ w.trace := by
  rcases h.phase with hp | hs
  · exact absurd hun (hp.waiting hst)
  · obtain ⟨pre, post, htr, -⟩ := hs.once
    exact ⟨[], by simp [htr]⟩

end World

namespace ConnStep
variable {ι : Type} {logErrno : Errno → Errno} {w w₀ w' t : World ι} {a : ConnStep ι}
  {as : List (ConnStep ι)}

/-- Steps with `send` and `shutdown` called on the loop thread only, so that neither queues a
functor. -/
def OnLoop : ConnStep ι → Prop
  | .send isInLoopThread _ _ => isInLoopThread = true
  | .shutdown isInLoopThread => isInLoopThread = true
  | .sendInLoop _ _ => False
  | .shutdownInLoop => False
  | _ => True

instance (a : ConnStep ι) : Decidable a.OnLoop :=
  match a with
  | .send isInLoopThread _ _ => inferInstanceAs (Decidable (isInLoopThread = true))
  | .shutdown isInLoopThread => inferInstanceAs (Decidable (isInLoopThread = true))
  | .sendInLoop _ _ | .shutdownInLoop => .isFalse not_false
  | .handleRead _ | .handleWrite _ | .handleError | .handleClose | .connectDestroyed
  | .other _ _ _ => .isTrue trivial

theorem connected_of_passed {p : Bytes × WriteResult} (ha : a.OnLoop) (hp : a.passed w = some p) :
    w.conn.state = .connected := by
  cases a with
  | send isInLoopThread inMsg r =>
    rw [passed] at hp
    split at hp
    · rename_i hc; exact hc.2
    · cases hp
  | sendInLoop inData r => exact ha.elim
  | _ => cases hp

theorem Did.halfClose (h : w.HalfClose) (hd : Did logErrno w a w') (ha : a.OnLoop) :
    w'.HalfClose := by
  have hwf := hd.wf h.wf
  cases hd with
  | sent hp _ hs => exact h.sent (connected_of_passed ha hp) hs
  | refused _ => exact h
  | queued => cases ha
  | halfClosed hst => exact h.shutdown hst
  | requested _ => cases ha
  | shut => exact ha.elim
  | read _ => exact h.extend hwf (List.append_nil _).symm silent_nil rfl rfl rfl rfl
  | delivered _ => exact h.extend hwf rfl (silent_singleton rfl) rfl rfl rfl rfl
  | ended hwf' hc =>
    refine World.HalfClose.closed_by ?_ hc
    exact h.extend hwf' (List.append_nil _).symm silent_nil rfl rfl rfl rfl
  | drained hdr => exact h.drained hdr
  | closed hc => exact h.closed_by hc
  | destroyed hc => exact h.destroyed hc
  | other _ _ => exact h.extend hwf (List.append_nil _).symm silent_nil rfl rfl rfl rfl

theorem run_halfClose (h : w.HalfClose)
    (hreq : Along (step logErrno) (fun w a => a.Requires w ∧ a.OnLoop) w as) :
    ∃ t, run (step logErrno) w as = some t ∧ t.HalfClose := by
  refine run_total (fun s a hc hs => ?_) hreq h
  obtain ⟨v, hv, -⟩ := step_total logErrno hs.wf hc.1
  exact ⟨v, hv, (step_did hs.wf hc.1 hv).halfClose hs hc.2⟩

/-- `shutdown` on a connected connection is not lost: the connection is `Disconnecting` after it, and with
nothing to write the half-close has been issued. -/
theorem step_shutdown (h : w.HalfClose) (hst : w.conn.state = .connected) :
    ∃ t, step logErrno w (.shutdown true) = some t ∧ t.conn.state = .disconnecting ∧
      ((∃ u, .shutdownWrite u ∈ t.trace) ↔ t.unsent = []) := by
  have ht := h.shutdown hst
  have hdis : (w.setState .disconnecting).shutdownInLoop.conn.state = .disconnecting := by
    rw [World.shutdownInLoop_conn]
    rfl
  have hstep : step logErrno w (.shutdown true) = some (w.setState .disconnecting).shutdownInLoop := by
    simp [step, exec, World.shutdown, hst, Except.toOption]
  refine ⟨_, hstep, hdis, ?_, fun hun => ht.issued hdis hun⟩
  rintro ⟨u, hu⟩
  rcases ht.phase with hp | hs
  · cases hp.silent _ hu
  · exact hs.unsent

/-- The half-close of a run, its stream and what the kernel had accepted by then. -/
theorem run_halfClosed (hw : w.Established)
    (hreq : Along (step logErrno) (fun w a => a.Requires w ∧ a.OnLoop) w as) :
    ∃ t, run (step logErrno) w as = some t ∧ t.HalfClose ∧
      ∀ pre u post, t.trace = pre ++ .shutdownWrite u :: post →
        u = [] ∧ accepted pre = collect (step logErrno) (kept logErrno) w as := by
  obtain ⟨t, hrun, ht⟩ := run_halfClose hw.halfClose hreq
  obtain ⟨t', hrun', -, hstr⟩ := run_stream hw.wf (hreq.mono fun _ _ hc => hc.1)
  obtain rfl : t = t' := by rw [hrun] at hrun'; cases hrun'; rfl
  rw [hw.stream_eq_nil, List.nil_append] at hstr
  exact ⟨t, hrun, ht, fun pre u post htr => hstr ▸ ht.accepted_before htr⟩

/-- The half-close is issued at most once; when it is, the output buffer is empty and everything
`send` has taken and not dropped has been accepted by the kernel; and it has been issued whenever the
connection is `Disconnecting` with an empty output buffer. -/
theorem half_close_graceful (logErrno : Errno → Errno) (as : List (ConnStep ι))
    (h₀ : w₀.Constructed) (he : w₀.connectEstablished = .ok w)
    (hreq : Along (step logErrno) (fun w a => a.Requires w ∧ a.OnLoop) w as) :
    ∃ t, run (step logErrno) w as = some t ∧
      t.trace.countP isShutdownWrite ≤ 1 ∧
      (∀ pre u post, t.trace = pre ++ .shutdownWrite u :: post →
        u = [] ∧ accepted pre = collect (step logErrno) (kept logErrno) w as) ∧
      (t.conn.state = .disconnecting → t.conn.outputBuffer.readableBytes = 0 →
        ∃ u, .shutdownWrite u ∈ t.trace) := by
  obtain ⟨t, hrun, ht, hall⟩ := run_halfClosed (World.connectEstablished_ok h₀ he) hreq
  exact ⟨t, hrun, ht.countP_le, hall,
    fun hdis hempty => ht.issued hdis (ht.wf.out.readableBytes_eq_zero.1 hempty)⟩

/-- Asked for with a message half written, the half-close follows its last byte. -/
theorem half_close_graceful_deferred :
    ∃ w t : World Unit, (World.alone 5 ()).connectEstablished = .ok w ∧
      run (step id) w [.send true [1, 2] (.accepted 1), .shutdown true,
        .handleWrite (.accepted 1)] = some t ∧ t.trace.countP isShutdownWrite = 1 ∧
      ∀ pre u post, t.trace = pre ++ .shutdownWrite u :: post → u = [] ∧ accepted pre = [1, 2] := by
  obtain ⟨w, he⟩ : ∃ w, (World.alone 5 ()).connectEstablished = .ok w := ⟨_, rfl⟩
  obtain ⟨t, hrun, hle, hall, hissued⟩ := half_close_graceful id [.send true [1, 2] (.accepted 1), .shutdown true,
    .handleWrite (.accepted 1)] (World.alone_constructed 5 ()) he (by cases he; decide +kernel)
  have hlast : ((run (step id) w [.send true [1, 2] (.accepted 1), .shutdown true,
      .handleWrite (.accepted 1)]).map fun t => (t.conn.state, t.conn.outputBuffer.readableBytes)) =
      some (.disconnecting, 0) := by
    cases he
    decide +kernel
  rw [hrun] at hlast
  obtain ⟨hst, hempty⟩ := Prod.mk.inj (Option.some.inj hlast)
  obtain ⟨u, hu⟩ := hissued hst hempty
  have hpos : 0 < t.trace.countP isShutdownWrite := List.countP_pos_iff.2 ⟨_, hu, rfl⟩
  refine ⟨w, t, he, hrun, by omega, fun pre u post htr => ?_⟩
  obtain ⟨hnil, hacc⟩ := hall pre u post htr
  exact ⟨hnil, hacc.trans (by cases he; decide +kernel)⟩

/-- With logging that leaves `errno` alone, what had been accepted by then are the messages on which
`::write` did not fail with `EPIPE` or `ECONNRESET`. -/
theorem run_halfClosed_undropped (hw : w.Established)
    (hreq : Along (step id) (fun w a => a.Requires w ∧ a.OnLoop) w as) :
    ∃ t, run (step id) w as = some t ∧ ∀ pre u post, t.trace = pre ++ .shutdownWrite u :: post →
      u = [] ∧ accepted pre = collect (step id) undropped w as := by
  obtain ⟨t, hrun, -, hall⟩ := run_halfClosed hw hreq
  rw [kept_id] at hall
  exact ⟨t, hrun, hall⟩

end ConnStep
end Muduo
