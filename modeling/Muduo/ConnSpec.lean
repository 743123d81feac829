import Muduo.BufferInv
import Muduo.PollerInv
import Muduo.TcpConnection

/-!
# What each connection function does

`Wf` is what every function keeps: both buffers satisfy their invariant and the channel is in step
with the poller. For each function there is one statement of everything it can do to a well-formed
world (`OpDone`, `Sent`, `Drained`, `Closed`, `Read`); the claims about runs are derived from
these and never look at the code again.
-/

namespace Muduo
open EPollPoller

/-- The bytes the kernel has accepted, in order. -/
def accepted (trace : List Effect) : Bytes :=
  trace.flatMap fun
    | .write offered (.accepted n) => offered.take n
    | _ => []

@[simp] theorem accepted_nil : accepted [] = [] := rfl

@[simp] theorem accepted_append (t t' : List Effect) :
    accepted (t ++ t') = accepted t ++ accepted t' := by
  simp [accepted]

theorem accepted_write (d : Bytes) (n : Nat) : accepted [.write d (.accepted n)] = d.take n := by
  simp [accepted]

theorem accepted_write_error (d : Bytes) (e : Errno) : accepted [.write d (.error e)] = [] := rfl

@[simp] theorem accepted_queueInLoop (f : Functor) : accepted [.queueInLoop f] = [] := rfl

namespace World
variable {ι : Type} {w w' : World ι} {op : ChannelOp} {logErrno : Errno → Errno} {inData : Bytes}
  {r : WriteResult}

structure Wf (w : World ι) : Prop where
  out : w.conn.outputBuffer.Inv
  inp : w.conn.inputBuffer.Inv
  synced : w.poller.Synced w.ptr w.conn.channel

/-- The bytes not yet written. -/
def unsent (w : World ι) : Bytes := w.conn.outputBuffer.readable

/-! ### Channel operations -/

/-- What an operation of the connection does to its channel and to the poller. -/
abbrev OpDone (w : World ι) (op : ChannelOp) (w' : World ι) : Prop :=
  Executed w.poller w.ptr w.conn.channel op w'.poller w'.conn.channel

theorem channelOp_spec (h : w.poller.Synced w.ptr w.conn.channel) (op : ChannelOp) :
    ∃ w', w.channelOp op = .ok w' ∧
      w' = { w with poller := w'.poller, conn.channel := w'.conn.channel } ∧
      w'.poller.Synced w'.ptr w'.conn.channel ∧ OpDone w op w' := by
  obtain ⟨p', ch', hex, hd⟩ := exec_spec w.ptr h.legal op
  exact ⟨{ w with poller := p', conn.channel := ch' }, by simp only [channelOp, hex]; rfl, rfl,
    hd.synced, hd⟩

theorem channelOp_ok (h : w.poller.Synced w.ptr w.conn.channel) (ho : w.channelOp op = .ok w') :
    w' = { w with poller := w'.poller, conn.channel := w'.conn.channel } ∧
      w'.poller.Synced w'.ptr w'.conn.channel ∧ OpDone w op w' := by
  obtain ⟨v, hv, hd⟩ := channelOp_spec h op
  rw [hv] at ho; cases ho; exact hd

/-! ### Sending -/

/-- What of a message is left for the output buffer. -/
def rest (logErrno : Errno → Errno) (inData : Bytes) (r : WriteResult) (w : World ι) : Bytes :=
  if w.writesDirectly then
    match r with
    | .accepted n => inData.drop n
    | .error e => if isFault logErrno e then [] else inData
  else inData

/-- The message's own direct write failed with an error on which it is given up. -/
def faulted (logErrno : Errno → Errno) (r : WriteResult) (w : World ι) : Bool :=
  w.writesDirectly && match r with
    | .accepted _ => false
    | .error e => isFault logErrno e

/-- The direct write and, when it takes the whole message, its completion. -/
def directEffects (inData : Bytes) (r : WriteResult) (w : World ι) : List Effect :=
  if w.writesDirectly then
    .write inData r :: match r with
      | .accepted n =>
        if inData.length - n = 0 ∧ w.conn.writeCompleteCallback then [.queueInLoop .writeComplete]
        else []
      | .error _ => []
  else []

/-- The high-water functor of a message of which `remaining` bytes are buffered. -/
def highWaterEffects (remaining : Nat) (w : World ι) : List Effect :=
  let oldLen := w.conn.outputBuffer.readableBytes
  if addSize oldLen remaining ≥ w.conn.highWaterMark ∧ oldLen < w.conn.highWaterMark ∧
      w.conn.highWaterMarkCallback then
    [.queueInLoop (.highWaterMark (addSize oldLen remaining))]
  else []

theorem checkHighWater_eq (n : Nat) (w : World ι) :
    checkHighWater n w = { w with trace := w.trace ++ highWaterEffects n w } := by
  unfold checkHighWater highWaterEffects
  dsimp only
  split
  · rfl
  · rw [List.append_nil]

/-- The first half of `sendOrBuffer`. -/
def attempt (logErrno : Errno → Errno) (inData : Bytes) (r : WriteResult) (w : World ι) :
    DirectWrite ι :=
  if w.writesDirectly then writeDirect logErrno inData r w else ⟨w, 0, inData.length, false⟩

theorem attempt_world :
    (attempt logErrno inData r w).world = { w with trace := w.trace ++ directEffects inData r w } := by
  unfold attempt directEffects
  by_cases hd : w.writesDirectly = true
  · simp only [hd, if_true]
    cases r with
    | accepted n =>
      simp only [writeDirect]
      split
      · rename_i hc
        change inData.length - n = 0 ∧ w.conn.writeCompleteCallback = true at hc
        simp [emit, queueInLoop, hc]
      · rename_i hc
        change ¬ (inData.length - n = 0 ∧ w.conn.writeCompleteCallback = true) at hc
        rw [if_neg hc]
        rfl
    | error e => rfl
  · simp only [hd]
    rw [if_neg (by simp), if_neg (by simp), List.append_nil]

theorem attempt_rest (logErrno : Errno → Errno) (w : World ι) (hr : r.Legal inData.length) :
    ((attempt logErrno inData r w).faultError = false ∧ (attempt logErrno inData r w).remaining > 0 ↔
        rest logErrno inData r w ≠ []) ∧
      ((attempt logErrno inData r w).faultError = false →
        (attempt logErrno inData r w).remaining = (rest logErrno inData r w).length ∧
        inData.drop (attempt logErrno inData r w).nwrote = rest logErrno inData r w) := by
  have pos : ∀ d : Bytes, d.length > 0 ↔ d ≠ [] := fun d => List.length_pos_iff
  unfold attempt rest
  by_cases hd : w.writesDirectly = true
  · simp only [hd, if_true]
    cases r with
    | accepted n =>
      refine ⟨?_, fun _ => ⟨by simp [writeDirect], rfl⟩⟩
      rw [← pos]
      simp [writeDirect]
    | error e =>
      simp only [writeDirect]
      by_cases hf : isFault logErrno e = true
      · simp [hf]
      · simp only [hf, true_and, pos]
        exact ⟨Iff.rfl, fun _ => ⟨rfl, rfl⟩⟩
  · simp only [hd]
    rw [if_neg (by simp), if_neg (by simp)]
    exact ⟨by simp [pos], fun _ => ⟨rfl, rfl⟩⟩

/-- Everything `sendOrBuffer` does. -/
structure Sent (logErrno : Errno → Errno) (inData : Bytes) (r : WriteResult) (w w' : World ι) :
    Prop where
  eq : w' = { w with
    poller := w'.poller
    trace := w'.trace
    conn.outputBuffer := w'.conn.outputBuffer
    conn.channel := w'.conn.channel }
  wf : w'.Wf
  unsent : w'.unsent = w.unsent ++ rest logErrno inData r w
  trace : w'.trace = w.trace ++ directEffects inData r w ++
    if rest logErrno inData r w = [] then []
    else highWaterEffects (rest logErrno inData r w).length w
  same : rest logErrno inData r w = [] ∨ w.conn.channel.isWriting = true →
    w'.conn.channel = w.conn.channel ∧ w'.poller = w.poller
  enabled : rest logErrno inData r w ≠ [] → w.conn.channel.isWriting = false →
    OpDone w .enableWriting w'

theorem Sent.added (h : Sent logErrno inData r w w') (hst : w.conn.channel.status = .added) :
    w'.conn.channel.status = .added := by
  by_cases hsame : rest logErrno inData r w = [] ∨ w.conn.channel.isWriting = true
  · rw [(h.same hsame).1, hst]
  · rw [not_or, Bool.not_eq_true] at hsame
    exact (h.enabled hsame.1 hsame.2).added (by decide) ChannelOp.writing_enableWriting

theorem sendOrBuffer_ok (h : w.Wf) (hr : r.Legal inData.length)
    (ho : sendOrBuffer logErrno inData r w = .ok w') : Sent logErrno inData r w w' := by
  obtain ⟨hpos, hrest⟩ := attempt_rest logErrno w hr
  change bufferRest inData (attempt logErrno inData r w) = .ok w' at ho
  unfold bufferRest at ho
  split at ho
  · rename_i hgo
    obtain ⟨hrem, hdrop⟩ := hrest hgo.1
    have hne := hpos.1 hgo
    rw [hrem, hdrop, attempt_world, checkHighWater_eq] at ho
    obtain ⟨out, hout, ho⟩ := bind_eq_ok.1 ho
    obtain ⟨hinv, hread⟩ := Buffer.append_ok h.out hout
    dsimp only at ho
    split at ho
    · rename_i hw
      cases ho
      exact {
        eq := rfl
        wf := ⟨hinv, h.inp, h.synced⟩
        unsent := hread
        trace := by rw [if_neg hne]; rfl
        same := fun _ => ⟨rfl, rfl⟩
        enabled := fun _ hw' => by rw [hw'] at hw; cases hw }
    · rename_i hw
      obtain ⟨heq, hs, hd⟩ := channelOp_ok (by exact h.synced) ho
      exact {
        eq := by rw [heq]
        wf := ⟨by rw [heq]; exact hinv, by rw [heq]; exact h.inp, hs⟩
        unsent := by rw [World.unsent, heq]; exact hread
        trace := by rw [heq, if_neg hne]; rfl
        same := fun hor => hor.elim (fun he => absurd he hne) fun hw' => absurd hw' hw
        enabled := fun _ _ => hd }
  · rename_i hgo
    have hnil : rest logErrno inData r w = [] := by
      by_contra hne; exact hgo (hpos.2 hne)
    rw [attempt_world] at ho
    cases ho
    exact {
      eq := rfl
      wf := ⟨h.out, h.inp, h.synced⟩
      unsent := by rw [hnil, List.append_nil]; rfl
      trace := by rw [if_pos hnil, List.append_nil]
      same := fun _ => ⟨rfl, rfl⟩
      enabled := fun hne => absurd hnil hne }

theorem length_rest_le : (rest logErrno inData r w).length ≤ inData.length := by
  unfold rest
  split
  · cases r with
    | accepted n => simp
    | error e => dsimp only; split <;> simp
  · exact Nat.le_refl _

theorem sendOrBuffer_returns (h : w.Wf) (hr : r.Legal inData.length)
    (hno : w.conn.outputBuffer.NoOverflow inData.length) :
    ∃ w', sendOrBuffer logErrno inData r w = .ok w' := by
  obtain ⟨-, hrest⟩ := attempt_rest logErrno w hr
  change ∃ w', bufferRest inData (attempt logErrno inData r w) = .ok w'
  unfold bufferRest
  split
  · rename_i hgo
    obtain ⟨hrem, hdrop⟩ := hrest hgo.1
    rw [hrem, hdrop, attempt_world, checkHighWater_eq]
    obtain ⟨out, hout, hinv, -⟩ := Buffer.append_spec h.out (hno.mono length_rest_le)
    dsimp only
    rw [hout]
    show ∃ w', (if w.conn.channel.isWriting = true then _ else _) = _
    split
    · exact ⟨_, rfl⟩
    · obtain ⟨w', hw', -⟩ := channelOp_spec (w := { w with
        trace := _, conn.outputBuffer := out }) (by exact h.synced) .enableWriting
      exact ⟨w', hw'⟩
  · exact ⟨_, rfl⟩

/-- `sendInLoop`: the message is refused, or sent. -/
theorem sendInLoop_ok (h : w.Wf) (hr : r.Legal inData.length)
    (ho : w.sendInLoop logErrno inData r = .ok w') :
    w.conn.state = .disconnected ∧ w' = w ∨
      w.conn.state ≠ .disconnected ∧ Sent logErrno inData r w w' := by
  unfold sendInLoop at ho
  split at ho
  · rename_i hst
    cases ho
    exact .inl ⟨hst, rfl⟩
  · rename_i hst
    exact .inr ⟨hst, sendOrBuffer_ok h hr ho⟩

/-! ### Draining -/

/-- How many bytes of the output buffer `handleWrite` gets written. -/
def taken (r : WriteResult) (w : World ι) : Nat :=
  if w.conn.channel.isWriting then
    match r with
    | .accepted n => n
    | .error _ => 0
  else 0

def drainEffects (r : WriteResult) (w : World ι) : List Effect :=
  if w.conn.channel.isWriting = true ∧ w.unsent ≠ [] then [.write w.unsent r] else []

/-- Everything `drain` does. -/
structure Drained (r : WriteResult) (w w' : World ι) (drained : Bool) : Prop where
  eq : w' = { w with
    poller := w'.poller
    trace := w'.trace
    conn.outputBuffer := w'.conn.outputBuffer
    conn.channel := w'.conn.channel }
  wf : w'.Wf
  unsent : w'.unsent = w.unsent.drop (taken r w)
  trace : w'.trace = w.trace ++ drainEffects r w ++
    if drained = true ∧ w.conn.writeCompleteCallback = true then [.queueInLoop .writeComplete] else []
  drained_iff : drained = true ↔
    w.conn.channel.isWriting = true ∧ w.unsent ≠ [] ∧ w'.unsent = []
  same : drained = false → w'.conn.channel = w.conn.channel ∧ w'.poller = w.poller
  disabled : drained = true → OpDone w .disableWriting w'

theorem writeFd_pos (h : w.Wf) : w.conn.outputBuffer.writeFd r > 0 ↔
    w.unsent ≠ [] ∧ ∃ n, r = .accepted n ∧ 0 < n := by
  rw [Buffer.writeFd_eq h.out, unsent]
  by_cases hne : w.conn.outputBuffer.readable = []
  · simp [hne]
  · rw [if_neg hne]
    cases r with
    | accepted n => simp [hne, WriteResult.count]
    | error e => simp [WriteResult.count]

theorem writeFdOffer_eq (h : w.Wf) :
    w.conn.outputBuffer.writeFdOffer = if w.unsent = [] then none else some w.unsent :=
  if_congr h.out.readableBytes_eq_zero rfl rfl

theorem drain_not_writing (hw : w.conn.channel.isWriting = false) : w.drain r = .ok (w, false) := by
  simp [drain, hw]

/-- Nothing to write: `writeFd` returns 0 without a call. -/
theorem drain_empty (h : w.Wf) (hne : w.unsent = []) : w.drain r = .ok (w, false) := by
  have hn : ¬ w.conn.outputBuffer.writeFd r > 0 := fun hp => ((writeFd_pos h).1 hp).1 hne
  simp [drain, writeFdOffer_eq h, hne, hn]

theorem drain_refused (h : w.Wf) (hw : w.conn.channel.isWriting = true) (hne : w.unsent ≠ [])
    (hpos : ¬ ∃ n, r = .accepted n ∧ 0 < n) :
    w.drain r = .ok (w.emit (.write w.unsent r), false) := by
  have hn : ¬ w.conn.outputBuffer.writeFd r > 0 := fun hp => hpos ((writeFd_pos h).1 hp).2
  simp only [drain, writeFdOffer_eq h, hw, hne, hn, if_true, if_false]

/-- The world of `handleWrite` once the output buffer has given up the `n` bytes written. -/
def wrote (n : Nat) (w : World ι) : World ι :=
  { w.emit (.write w.unsent (.accepted n)) with
    conn.outputBuffer := w.conn.outputBuffer.retrieve n }

theorem unsent_wrote {n : Nat} (h : w.Wf) : (w.wrote n).unsent = w.unsent.drop n :=
  Buffer.readable_retrieve h.out

theorem Wf.wrote {n : Nat} (h : w.Wf) : (w.wrote n).Wf := ⟨h.out.retrieve, h.inp, h.synced⟩

theorem drain_accepted {n : Nat} (h : w.Wf) (hw : w.conn.channel.isWriting = true)
    (hne : w.unsent ≠ []) (hn : 0 < n) :
    w.drain (.accepted n) =
      if w.unsent.drop n = [] then do
        let w ← (w.wrote n).channelOp .disableWriting
        return (if w.conn.writeCompleteCallback then w.queueInLoop .writeComplete else w, true)
      else .ok (w.wrote n, false) := by
  have hcount : w.conn.outputBuffer.writeFd (.accepted n) = n := by
    rw [Buffer.writeFd_eq h.out]; exact if_neg hne
  have hzero : (w.wrote n).conn.outputBuffer.readableBytes = 0 ↔ w.unsent.drop n = [] := by
    rw [h.wrote.out.readableBytes_eq_zero, ← unsent_wrote h]; rfl
  have hpos : (n : Int) > 0 := by omega
  simp only [drain, writeFdOffer_eq h, hw, hne, hcount, hpos, if_true, if_false, Int.toNat_natCast]
  exact if_congr hzero rfl rfl

/-- All accepted: write interest goes off and the completion is queued. -/
theorem drained_all {n : Nat} {drained : Bool} (h : w.Wf) (hw : w.conn.channel.isWriting = true)
    (hne : w.unsent ≠ []) (hall : w.unsent.drop n = [])
    (ho : (do
      let w ← (w.wrote n).channelOp .disableWriting
      return (if w.conn.writeCompleteCallback then w.queueInLoop .writeComplete else w, true)) =
        Except.ok (w', drained)) :
    Drained (.accepted n) w w' drained := by
  obtain ⟨v, hv, ho⟩ := bind_eq_ok.1 ho
  obtain ⟨heq, hs, hd⟩ := channelOp_ok h.wrote.synced hv
  have hcb : v.conn.writeCompleteCallback = w.conn.writeCompleteCallback := by rw [heq]; rfl
  have hw' : w' = { v with trace := v.trace ++ if w.conn.writeCompleteCallback = true then
      [.queueInLoop .writeComplete] else [] } ∧ drained = true := by
    rw [hcb] at ho
    cases ho
    split
    · exact ⟨rfl, rfl⟩
    · exact ⟨by rw [List.append_nil], rfl⟩
  obtain ⟨rfl, rfl⟩ := hw'
  have hun : v.unsent = [] := by
    rw [unsent, heq]; exact (unsent_wrote h).trans hall
  exact {
    eq := by rw [heq]; rfl
    wf := ⟨by rw [heq]; exact h.wrote.out, by rw [heq]; exact h.inp, hs⟩
    unsent := by rw [taken, if_pos hw, hall]; exact hun
    trace := by rw [heq]; simp [wrote, emit, drainEffects, hw, hne]
    drained_iff := ⟨fun _ => ⟨hw, hne, hun⟩, fun _ => rfl⟩
    same := fun hf => by cases hf
    disabled := fun _ => hd }

theorem drain_ok {drained : Bool} (h : w.Wf) (ho : w.drain r = .ok (w', drained)) :
    Drained r w w' drained := by
  cases hw : w.conn.channel.isWriting with
  | false =>
    rw [drain_not_writing hw] at ho
    cases ho
    exact {
      eq := rfl, wf := h
      unsent := by simp [taken, hw]
      trace := by simp [drainEffects, hw]
      drained_iff := by simp [hw]
      same := fun _ => ⟨rfl, rfl⟩
      disabled := fun hc => by cases hc }
  | true =>
    by_cases hne : w.unsent = []
    · rw [drain_empty h hne] at ho
      cases ho
      exact {
        eq := rfl, wf := h
        unsent := by simp [hne]
        trace := by simp [drainEffects, hne]
        drained_iff := by simp [hne]
        same := fun _ => ⟨rfl, rfl⟩
        disabled := fun hc => by cases hc }
    by_cases hpos : ∃ n, r = .accepted n ∧ 0 < n
    · obtain ⟨n, rfl, hn⟩ := hpos
      rw [drain_accepted h hw hne hn] at ho
      split at ho
      · rename_i hall
        exact drained_all h hw hne hall ho
      · rename_i hsome
        cases ho
        have hun := unsent_wrote h (n := n)
        exact {
          eq := rfl, wf := h.wrote
          unsent := by rw [hun, taken, if_pos hw]
          trace := by simp [wrote, emit, drainEffects, hw, hne]
          drained_iff := by rw [hun]; simp [hsome]
          same := fun _ => ⟨rfl, rfl⟩
          disabled := fun hc => by cases hc }
    · rw [drain_refused h hw hne hpos] at ho
      cases ho
      have htaken : taken r w = 0 := by
        cases r with
        | accepted n =>
          have hz : n = 0 := Nat.eq_zero_of_not_pos fun hn => hpos ⟨n, rfl, hn⟩
          simp [taken, hz]
        | error e => simp [taken]
      have hun : (w.emit (.write w.unsent r)).unsent = w.unsent := rfl
      exact {
        eq := rfl, wf := ⟨h.out, h.inp, h.synced⟩
        unsent := by rw [htaken]; rfl
        trace := by simp [emit, drainEffects, hw, hne]
        drained_iff := by rw [hun]; simp [hne]
        same := fun _ => ⟨rfl, rfl⟩
        disabled := fun hc => by cases hc }

theorem drain_returns (h : w.Wf) : ∃ w' drained, w.drain r = .ok (w', drained) := by
  cases hw : w.conn.channel.isWriting with
  | false => exact ⟨_, _, drain_not_writing hw⟩
  | true =>
    by_cases hne : w.unsent = []
    · exact ⟨_, _, drain_empty h hne⟩
    by_cases hpos : ∃ n, r = .accepted n ∧ 0 < n
    · obtain ⟨n, rfl, hn⟩ := hpos
      rw [drain_accepted h hw hne hn]
      split
      · obtain ⟨v, hv, -⟩ := channelOp_spec (h.wrote (n := n)).synced .disableWriting
        exact ⟨_, _, by rw [hv]; rfl⟩
      · exact ⟨_, _, rfl⟩
    · exact ⟨_, _, drain_refused h hw hne hpos⟩

/-! ### Half-closing -/

theorem shutdownInLoop_eq (w : World ι) : w.shutdownInLoop =
    { w with trace := w.trace ++ if w.conn.channel.isWriting = true then []
        else [.shutdownWrite w.unsent] } := by
  unfold shutdownInLoop
  split
  · rw [List.append_nil]
  · rfl

@[simp] theorem shutdownInLoop_conn (w : World ι) : w.shutdownInLoop.conn = w.conn := by
  rw [shutdownInLoop_eq]

@[simp] theorem shutdownInLoop_poller (w : World ι) : w.shutdownInLoop.poller = w.poller := by
  rw [shutdownInLoop_eq]

theorem finishWrite_eq (w : World ι) (b : Bool) : finishWrite (w, b) =
    if b = true ∧ w.conn.state = .disconnecting then w.shutdownInLoop else w := rfl

@[simp] theorem finishWrite_conn (w : World ι) (b : Bool) : (finishWrite (w, b)).conn = w.conn := by
  rw [finishWrite_eq]
  split
  · exact shutdownInLoop_conn w
  · rfl

theorem Wf.shutdownInLoop (h : w.Wf) : w.shutdownInLoop.Wf := by
  rw [shutdownInLoop_eq]
  exact ⟨h.out, h.inp, h.synced⟩

theorem Wf.finishWrite {b : Bool} (h : w.Wf) : (World.finishWrite (w, b)).Wf := by
  rw [finishWrite_eq]
  split
  · exact h.shutdownInLoop
  · exact h

/-! ### Closing, reading, establishing -/

theorem runConnectionCallback_eq (w : World ι) : w.runConnectionCallback =
    { w with trace := w.trace ++ if w.conn.connectionCallback = true then
        [.connectionCallback w.conn.isConnected] else [] } := by
  unfold runConnectionCallback
  split
  · rfl
  · rw [List.append_nil]

/-- Everything `destroyConnected` does: all interest off, then the connection callback. -/
structure Left (w w' : World ι) : Prop where
  eq : w' = { w with poller := w'.poller, trace := w'.trace, conn.channel := w'.conn.channel }
  wf : w'.Wf
  trace : w'.trace = w.trace ++ if w.conn.connectionCallback = true then
    [.connectionCallback w.conn.isConnected] else []
  disabled : OpDone w .disableAll w'

theorem destroyConnected_spec (h : w.Wf) : ∃ w', w.destroyConnected = .ok w' ∧ Left w w' := by
  obtain ⟨v, hv, heq, hs, hd⟩ := channelOp_spec h.synced .disableAll
  have ho : w.destroyConnected = .ok v.runConnectionCallback := bind_eq_ok.2 ⟨v, hv, rfl⟩
  refine ⟨_, ho, ?_⟩
  rw [runConnectionCallback_eq]
  have hcc : v.conn.connectionCallback = w.conn.connectionCallback := by rw [heq]
  have hst : v.conn.isConnected = w.conn.isConnected := by rw [heq]; rfl
  exact {
    eq := by rw [heq]
    wf := ⟨by rw [heq]; exact h.out, by rw [heq]; exact h.inp, hs⟩
    trace := by rw [hcc, hst, heq]
    disabled := hd }

/-- Everything `closeRest` does: the close callback follows. -/
structure Closed (w w' : World ι) : Prop where
  eq : w' = { w with poller := w'.poller, trace := w'.trace, conn.channel := w'.conn.channel }
  wf : w'.Wf
  trace : w'.trace = w.trace ++
    (if w.conn.connectionCallback = true then [.connectionCallback w.conn.isConnected] else []) ++
    if w.conn.closeCallback = true then [.closeCallback] else []
  disabled : OpDone w .disableAll w'

theorem closeRest_eq (w : World ι) : w.closeRest =
    w.destroyConnected.map fun w => if w.conn.closeCallback then w.emit .closeCallback else w := by
  unfold closeRest destroyConnected
  cases w.channelOp .disableAll with
  | error e => rfl
  | ok v => rfl

theorem closeRest_spec (h : w.Wf) : ∃ w', w.closeRest = .ok w' ∧ Closed w w' := by
  obtain ⟨v, hv, hl⟩ := destroyConnected_spec h
  have hcl : v.conn.closeCallback = w.conn.closeCallback := by rw [hl.eq]
  have ho : w.closeRest = .ok { v with
      trace := v.trace ++ if w.conn.closeCallback = true then [.closeCallback] else [] } := by
    rw [closeRest_eq, hv, ← hcl]
    show Except.ok (if v.conn.closeCallback = true then _ else _) = _
    split
    · rfl
    · rw [List.append_nil]
  refine ⟨_, ho, ?_⟩
  exact {
    eq := by rw [hl.eq]
    wf := ⟨hl.wf.out, hl.wf.inp, hl.wf.synced⟩
    trace := by rw [hl.trace]
    disabled := hl.disabled }

theorem closeRest_ok (h : w.Wf) (ho : w.closeRest = .ok w') : Closed w w' := by
  obtain ⟨v, hv, hc⟩ := closeRest_spec h
  rw [hv] at ho; cases ho; exact hc

theorem destroyConnected_ok (h : w.Wf) (ho : w.destroyConnected = .ok w') : Left w w' := by
  obtain ⟨v, hv, hl⟩ := destroyConnected_spec h
  rw [hv] at ho; cases ho; exact hl

theorem Wf.emit (h : w.Wf) (e : Effect) : (w.emit e).Wf := ⟨h.out, h.inp, h.synced⟩

theorem Wf.channelOp (h : w.Wf) (ho : w.channelOp op = .ok w') : w'.Wf := by
  obtain ⟨heq, hs, -⟩ := channelOp_ok h.synced ho
  exact ⟨by rw [heq]; exact h.out, by rw [heq]; exact h.inp, hs⟩

theorem Wf.establishRest (h : w.Wf) (ho : w.establishRest = .ok w') : w'.Wf := by
  obtain ⟨v, hv, ho⟩ := bind_eq_ok.1 ho
  have ht : w.tie.Wf := ⟨h.out, h.inp, ⟨h.synced.added, h.synced.absent⟩⟩
  have hwf := ht.channelOp hv
  rw [runConnectionCallback_eq] at ho
  cases ho
  exact ⟨hwf.out, hwf.inp, hwf.synced⟩

theorem Wf.setState (h : w.Wf) (s : ConnState) : (w.setState s).Wf := ⟨h.out, h.inp, h.synced⟩

/-- The world of `handleRead` once the input buffer has taken the bytes. -/
def received (inp : Buffer) (w : World ι) : World ι := { w with conn.inputBuffer := inp }

/-- Everything `readInput` does: deliver, reach the end of the input, or log. -/
theorem readInput_ok {r : ReadResult} {atEnd : Bool} (h : w.Wf)
    (ho : w.readInput r = .ok (w', atEnd)) : ∃ inp : Buffer, (w.received inp).Wf ∧
      (atEnd = false ∧ (w' = w.received inp ∨ w' = (w.received inp).emit .messageCallback) ∨
        atEnd = true ∧ r = .delivered [] ∧ w' = w.received inp) := by
  obtain ⟨⟨n, inp⟩, hread, ho⟩ := bind_eq_ok.1 ho
  obtain ⟨rfl, hi, -⟩ := Buffer.readFd_ok h.inp hread
  refine ⟨inp, ⟨h.out, hi, h.synced⟩, ?_⟩
  dsimp only at ho
  split at ho
  · cases ho
    refine .inl ⟨rfl, ?_⟩
    split
    · exact .inr rfl
    · exact .inl rfl
  split at ho
  · rename_i hz
    cases ho
    refine .inr ⟨rfl, ?_, rfl⟩
    cases r with
    | delivered data =>
      rw [ReadResult.count, Int.natCast_eq_zero, List.length_eq_zero_iff] at hz
      rw [hz]
    | error e => cases hz
  · cases ho; exact .inl ⟨rfl, .inl rfl⟩

theorem readInput_returns {r : ReadResult} (h : w.Wf)
    (hno : w.conn.inputBuffer.ReadNoOverflow r) :
    ∃ w' atEnd, w.readInput r = .ok (w', atEnd) := by
  obtain ⟨inp, hread, -⟩ := Buffer.readFd_spec h.inp hno
  unfold readInput
  rw [hread]
  show ∃ w' atEnd, (if r.count > 0 then _ else _) = Except.ok (w', atEnd)
  split
  · exact ⟨_, _, rfl⟩
  split
  · exact ⟨_, _, rfl⟩
  · exact ⟨_, _, rfl⟩

/-- Everything `connectDestroyed` does. A connection that is not connected keeps its mask. -/
structure Destroyed (w w' : World ι) : Prop where
  eq : w' = { w with
    poller := w'.poller
    trace := w'.trace
    conn.state := if w.conn.state = .connected then .disconnected else w.conn.state
    conn.channel := w'.conn.channel }
  wf : w'.Wf
  trace : w'.trace = w.trace ++
    if w.conn.state = .connected ∧ w.conn.connectionCallback = true then [.connectionCallback false]
    else []
  channel : w'.conn.channel = { w.conn.channel with
    events := if w.conn.state = .connected then Channel.kNoneEvent else w.conn.channel.events
    status := .new }
  frame : Frame w.poller w.conn.channel.fd w'.poller

theorem connectDestroyed_spec (h : w.Wf) : ∃ w', w.connectDestroyed = .ok w' ∧ Destroyed w w' := by
  by_cases hst : w.conn.state = .connected
  · obtain ⟨v, hv, hl⟩ := destroyConnected_spec (h.setState .disconnected)
    obtain ⟨u, hu, heq, hs, hd⟩ := channelOp_spec hl.wf.synced .remove
    refine ⟨u, ?_, ?_⟩
    · rw [connectDestroyed, if_pos hst]
      exact bind_eq_ok.2 ⟨v, hv, hu⟩
    · have hch := hl.disabled.channel
      have hfd : v.conn.channel.fd = w.conn.channel.fd := by rw [hch]; rfl
      exact {
        eq := by rw [heq, hl.eq]; simp only [if_pos hst]; rfl
        wf := ⟨by rw [heq]; exact hl.wf.out, by rw [heq]; exact hl.wf.inp, hs⟩
        trace := by
          rw [heq, hl.trace]
          simp only [hst, true_and]
          rfl
        channel := by
          rw [hd.channel, hd.status, if_pos rfl]
          dsimp only
          rw [hch, if_pos hst]
          rfl
        frame := hl.disabled.frame.trans (hfd ▸ hd.frame) }
  · obtain ⟨u, hu, heq, hs, hd⟩ := channelOp_spec h.synced .remove
    refine ⟨u, ?_, ?_⟩
    · rw [connectDestroyed, if_neg hst]; exact hu
    exact {
      eq := by rw [heq]; simp only [if_neg hst]
      wf := ⟨by rw [heq]; exact h.out, by rw [heq]; exact h.inp, hs⟩
      trace := by
        rw [heq, if_neg fun hc => hst hc.1, List.append_nil]
      channel := by rw [hd.channel, hd.status, if_pos rfl, if_neg hst]; rfl
      frame := hd.frame }

/-- A connection as its constructor leaves it, on an fd its poller does not know. -/
structure Constructed (w : World ι) : Prop where
  state : w.conn.state = .connecting
  status : w.conn.channel.status = .new
  events : w.conn.channel.events = 0
  input : w.conn.inputBuffer = .initial
  output : w.conn.outputBuffer = .initial
  absent : w.poller.interest w.conn.channel.fd = none
  trace : w.trace = []

/-- A connection constructed on a loop with no other channel. -/
def alone (inSockfd : Int) (ptr : ι) : World ι := ⟨.new inSockfd, ptr, .new, []⟩

theorem alone_constructed (inSockfd : Int) (ptr : ι) : (alone inSockfd ptr).Constructed :=
  ⟨rfl, rfl, rfl, rfl, rfl, rfl, rfl⟩

theorem Constructed.wf (h : w.Constructed) : w.Wf where
  out := h.output ▸ Buffer.initial_inv
  inp := h.input ▸ Buffer.initial_inv
  synced := ⟨fun ha => by simp [h.status] at ha, fun _ => h.absent⟩

/-- A connection at the end of `connectEstablished`. -/
structure Established (w : World ι) : Prop where
  wf : w.Wf
  state : w.conn.state = .connected
  events : w.conn.channel.events = Channel.kReadEvent
  status : w.conn.channel.status = .added
  unsent : w.unsent = []
  trace : w.trace = if w.conn.connectionCallback = true then [.connectionCallback true] else []

theorem Constructed.synced_tie (h : w.Constructed) :
    (w.setState .connected).tie.poller.Synced w.ptr (w.setState .connected).tie.conn.channel :=
  ⟨h.wf.synced.added, h.wf.synced.absent⟩

theorem connectEstablished_ok (h : w.Constructed) (ho : w.connectEstablished = .ok w') :
    w'.Established := by
  obtain ⟨v, hv, ho⟩ := bind_eq_ok.1 ho
  obtain ⟨heq, hs, hd⟩ := channelOp_ok h.synced_tie hv
  rw [runConnectionCallback_eq] at ho
  cases ho
  have hev : v.conn.channel.events = Channel.kReadEvent := by
    have h0 : (w.setState .connected).tie.conn.channel.events = 0 := h.events
    rw [hd.events, h0]; decide
  exact {
    wf := ⟨by rw [heq]; exact h.wf.out, by rw [heq]; exact h.wf.inp, hs⟩
    state := by rw [heq]; rfl
    events := hev
    status := hd.added (i := 0) (by decide) (by rw [← hd.events, hev]; decide)
    unsent := by
      rw [unsent, heq]
      show w.conn.outputBuffer.readable = []
      rw [h.output, Buffer.readable_initial]
    trace := by
      rw [heq]
      show w.trace ++ _ = _
      rw [h.trace]; rfl }

theorem connectEstablished_spec (h : w.Constructed) :
    ∃ w', w.connectEstablished = .ok w' ∧ w'.Established := by
  obtain ⟨v, hv, -⟩ := channelOp_spec h.synced_tie .enableReading
  have ho : w.connectEstablished = .ok v.runConnectionCallback := bind_eq_ok.2 ⟨v, hv, rfl⟩
  exact ⟨_, ho, connectEstablished_ok h ho⟩

end World
end Muduo
