import Muduo.TcpConnection

/-!
# The parts of a connection's functions

Whatever state it finds, a function of the connection is made of operations on its channel, effects, and
assignments to its own fields. What holds of these, and is kept when they follow each other, holds of
every function; the number counts the functors they may queue.
-/

namespace Muduo
open EPollPoller

/-- The functors an effect queues. -/
def Effect.functors : Effect → Nat
  | .queueInLoop _ => 1
  | _ => 0

namespace World
variable {ι : Type} {w w' v : World ι} {logErrno : Errno → Errno} {inData : Bytes} {r : WriteResult}

/-- `R k w w'` relates `w` to what a part that queues at most `k` functors may make of it. -/
structure Parts (R : Nat → World ι → World ι → Prop) : Prop where
  assign : ∀ w conn, R 0 w { w with conn := conn }
  emit : ∀ w e, R e.functors w (w.emit e)
  channelOp : ∀ {w w' op}, w.channelOp op = .ok w' → R 0 w w'
  trans : ∀ {j k u v w}, R j u v → R k v w → R (j + k) u w
  mono : ∀ {j k w w'}, j ≤ k → R j w w' → R k w w'

namespace Parts
variable {R : Nat → World ι → World ι → Prop}

theorem refl (h : Parts R) (w : World ι) : R 0 w w := h.assign w w.conn

theorem setState (h : Parts R) (w : World ι) (st : ConnState) : R 0 w (w.setState st) :=
  h.assign w { w.conn with state := st }

/-- Two parts of which the first queues nothing. -/
theorem after {k : Nat} (h : Parts R) (hv : R 0 w v) (hw : R k v w') : R k w w' :=
  h.mono (by omega) (h.trans hv hw)

theorem runConnectionCallback (h : Parts R) : R 0 w w.runConnectionCallback := by
  unfold World.runConnectionCallback
  split
  · exact h.emit w (.connectionCallback _)
  · exact h.refl w

theorem connectEstablished (h : Parts R) (ho : w.connectEstablished = .ok w') : R 0 w w' := by
  obtain ⟨v, hv, ho⟩ := bind_eq_ok.1 ho
  cases ho
  have htie : R 0 (w.setState .connected) (w.setState .connected).tie := h.assign _ _
  exact h.after ((h.after (h.setState w _) htie)) (h.after (h.channelOp hv) h.runConnectionCallback)

theorem destroyConnected (h : Parts R) (ho : w.destroyConnected = .ok w') : R 0 w w' := by
  obtain ⟨v, hv, ho⟩ := bind_eq_ok.1 ho
  cases ho
  exact h.after (h.channelOp hv) h.runConnectionCallback

theorem connectDestroyed (h : Parts R) (ho : w.connectDestroyed = .ok w') : R 0 w w' := by
  by_cases hst : w.conn.state = .connected
  · rw [World.connectDestroyed, if_pos hst] at ho
    obtain ⟨v, hv, ho⟩ := bind_eq_ok.1 ho
    exact h.after (h.setState w _) (h.after (h.destroyConnected hv) (h.channelOp ho))
  · rw [World.connectDestroyed, if_neg hst] at ho
    exact h.channelOp ho

theorem handleClose (h : Parts R) (ho : w.handleClose = .ok w') : R 0 w w' := by
  obtain ⟨v, hv, ho⟩ := bind_eq_ok.1 ho
  cases ho
  have hrun : R 0 w v.runConnectionCallback :=
    h.after (h.setState w _) (h.after (h.channelOp hv) h.runConnectionCallback)
  split
  · exact h.after hrun (h.emit _ .closeCallback)
  · exact hrun

theorem writeDirect (h : Parts R) : R 1 w (w.writeDirect logErrno inData r).world := by
  have hwrite : R 0 w (w.emit (.write inData r)) := h.emit w (.write inData r)
  unfold World.writeDirect
  cases r with
  | accepted n =>
    dsimp only
    split
    · exact h.after hwrite (h.emit _ (.queueInLoop .writeComplete))
    · exact h.mono (Nat.zero_le 1) hwrite
  | error e => exact h.mono (Nat.zero_le 1) hwrite

theorem checkHighWater {n : Nat} (h : Parts R) : R 1 w (w.checkHighWater n) := by
  unfold World.checkHighWater
  dsimp only
  split
  · exact h.emit w (.queueInLoop (.highWaterMark _))
  · exact h.mono (Nat.zero_le 1) (h.refl w)

theorem bufferRest {d : DirectWrite ι} (h : Parts R) (ho : World.bufferRest inData d = .ok w') :
    R 1 d.world w' := by
  unfold World.bufferRest at ho
  split at ho
  · obtain ⟨out, -, ho⟩ := bind_eq_ok.1 ho
    dsimp only at ho
    have hbuf : R 1 d.world { d.world.checkHighWater d.remaining with conn.outputBuffer := out } :=
      h.trans h.checkHighWater (h.assign _ _)
    split at ho
    · cases ho
      exact hbuf
    · exact h.trans hbuf (h.channelOp ho)
  · cases ho
    exact h.mono (Nat.zero_le 1) (h.refl _)

theorem sendInLoop (h : Parts R) (ho : w.sendInLoop logErrno inData r = .ok w') : R 2 w w' := by
  unfold World.sendInLoop at ho
  split at ho
  · cases ho
    exact h.mono (Nat.zero_le 2) (h.refl w)
  · unfold World.sendOrBuffer at ho
    split at ho
    · exact h.trans h.writeDirect (h.bufferRest ho)
    · exact h.mono (by omega) (h.bufferRest ho)

theorem send (h : Parts R) (ho : w.send logErrno true inData r = .ok w') : R 2 w w' := by
  unfold World.send at ho
  split at ho
  · exact h.sendInLoop ho
  · cases ho
    exact h.mono (Nat.zero_le 2) (h.refl w)

theorem shutdownInLoop (h : Parts R) : R 0 w w.shutdownInLoop := by
  unfold World.shutdownInLoop
  split
  · exact h.refl w
  · exact h.emit w (.shutdownWrite _)

theorem shutdown (h : Parts R) : R 0 w (w.shutdown true) := by
  unfold World.shutdown
  split
  · exact h.after (h.setState w _) h.shutdownInLoop
  · exact h.refl w

theorem readInput {r : ReadResult} {atEnd : Bool} (h : Parts R)
    (ho : w.readInput r = .ok (w', atEnd)) : R 0 w w' := by
  obtain ⟨⟨n, inp⟩, -, ho⟩ := bind_eq_ok.1 ho
  have hread : R 0 w { w with conn.inputBuffer := inp } := h.assign w _
  dsimp only at ho
  split at ho
  · cases ho
    split
    · exact h.after hread (h.emit _ .messageCallback)
    · exact hread
  split at ho
  · cases ho
    exact hread
  · cases ho
    exact hread

/-- `drain` after its `::write`, of which `n` bytes were taken. -/
theorem drained {n : Int} {b : Bool} (h : Parts R)
    (ho : (if n > 0 then
        if (w.conn.outputBuffer.retrieve n.toNat).readableBytes = 0 then do
          let w ← World.channelOp { w with conn.outputBuffer := w.conn.outputBuffer.retrieve n.toNat }
            .disableWriting
          return (if w.conn.writeCompleteCallback then w.queueInLoop .writeComplete else w, true)
        else .ok ({ w with conn.outputBuffer := w.conn.outputBuffer.retrieve n.toNat }, false)
      else .ok (w, false)) = .ok (w', b)) : R 1 w w' := by
  split at ho
  · have hret : R 0 w { w with conn.outputBuffer := w.conn.outputBuffer.retrieve n.toNat } :=
      h.assign w _
    split at ho
    · obtain ⟨u, hu, ho⟩ := bind_eq_ok.1 ho
      cases ho
      refine h.after (h.after hret (h.channelOp hu)) ?_
      split
      · exact h.emit u (.queueInLoop .writeComplete)
      · exact h.mono (Nat.zero_le 1) (h.refl u)
    · cases ho
      exact h.mono (Nat.zero_le 1) hret
  · cases ho
    exact h.mono (Nat.zero_le 1) (h.refl w)

theorem drain {b : Bool} (h : Parts R) (ho : w.drain r = .ok (w', b)) : R 1 w w' := by
  unfold World.drain at ho
  split at ho
  · cases hoff : w.conn.outputBuffer.writeFdOffer with
    | none =>
      simp only [hoff] at ho
      exact h.drained ho
    | some offered =>
      simp only [hoff] at ho
      exact h.after (h.emit w (.write offered r)) (h.drained ho)
  · cases ho
    exact h.mono (Nat.zero_le 1) (h.refl w)

theorem handleWrite (h : Parts R) (ho : w.handleWrite r = .ok w') : R 1 w w' := by
  obtain ⟨⟨v, b⟩, hv, rfl⟩ := map_eq_ok.1 ho
  have hfinish : R 0 v (finishWrite (v, b)) := by
    unfold World.finishWrite
    dsimp only
    split
    · exact h.shutdownInLoop
    · exact h.refl v
  exact h.trans (h.drain hv) hfinish

end Parts

/-! ### Functors -/

/-- At most `k` functors are queued. -/
def Queues (k : Nat) (w w' : World ι) : Prop := (queued w'.trace).length ≤ (queued w.trace).length + k

theorem parts_queues : Parts (Queues (ι := ι)) where
  assign _ _ := Nat.le_refl _
  emit w e := by
    unfold Queues World.emit
    rw [queued, queued, List.filterMap_append, List.length_append]
    cases e <;> simp [Effect.functors]
  channelOp ho := by
    obtain ⟨⟨p, ch⟩, -, ho⟩ := bind_eq_ok.1 ho
    cases ho
    exact Nat.le_refl _
  trans h h' := by unfold Queues at *; omega
  mono hle h := by unfold Queues at *; omega

end World

/-! ### Poller entries -/

namespace EPollPoller
variable {ι : Type} {p p' : EPollPoller ι} {ptr : ι} {ch ch' : Channel}

/-- Every entry of the poller is an old one, or belongs to the channel `ptr`. -/
structure OldOrOwn (p : EPollPoller ι) (ptr : ι) (p' : EPollPoller ι) : Prop where
  interest : ∀ fd e, p'.interest fd = some e → p.interest fd = some e ∨ e.ptr = ptr
  channels : ∀ fd i, p'.channels fd = some i → p.channels fd = some i ∨ i = ptr

theorem OldOrOwn.rfl : OldOrOwn p ptr p := ⟨fun _ _ => .inl, fun _ _ => .inl⟩

theorem OldOrOwn.trans {p'' : EPollPoller ι} (h : OldOrOwn p ptr p') (h' : OldOrOwn p' ptr p'') :
    OldOrOwn p ptr p'' where
  interest fd e he := (h'.interest fd e he).elim (h.interest fd e) .inr
  channels fd i hi := (h'.channels fd i hi).elim (h.channels fd i) .inr

theorem update_eq_some {α : Type} {f : Int → Option α} {fd fd' : Int} {x : Option α} {a : α}
    (h : Function.update f fd x fd' = some a) : f fd' = some a ∨ x = some a := by
  by_cases hfd : fd' = fd
  · rw [hfd, Function.update_self] at h
    exact .inr h
  · rw [Function.update_of_ne hfd] at h
    exact .inl h

theorem oldOrOwn_update {operation : CtlOp} (h : p.update operation ptr ch = .ok p') :
    OldOrOwn p ptr p' := by
  rw [update] at h
  split at h
  · rename_i interest hctl
    cases h
    refine ⟨fun fd e he => ?_, fun _ _ => .inl⟩
    change interest fd = some e at he
    unfold epollCtl at hctl
    split at hctl
    · cases hctl
      exact (update_eq_some he).imp_right fun hx => by cases hx; rfl
    · cases hctl
      exact (update_eq_some he).imp_right fun hx => by cases hx; rfl
    · cases hctl
      exact (update_eq_some he).imp_right fun hx => by cases hx
    · cases hctl
    · cases hctl
    · cases hctl
  · split at h
    · cases h
      exact ⟨fun _ _ => .inl, fun _ _ => .inl⟩
    · cases h

/-- The map alone changes, under one fd. -/
theorem oldOrOwn_channels {fd : Int} {x : Option ι} (hx : x = none ∨ x = some ptr) :
    OldOrOwn p ptr { p with channels := Function.update p.channels fd x } := by
  refine ⟨fun _ _ => .inl, fun fd' i hi => (update_eq_some hi).imp_right fun h => ?_⟩
  rcases hx with rfl | rfl
  · cases h
  · exact (Option.some.inj h).symm

theorem oldOrOwn_updateChannel (h : p.updateChannel ptr ch = .ok (p', ch')) : OldOrOwn p ptr p' := by
  unfold updateChannel at h
  split at h
  · obtain ⟨q, hq, h⟩ := bind_eq_ok.1 h
    cases h
    refine .trans ?_ (oldOrOwn_update hq)
    split
    · exact oldOrOwn_channels (.inr rfl)
    · exact .rfl
  split at h
  · obtain ⟨q, hq, h⟩ := bind_eq_ok.1 h
    cases h
    exact (oldOrOwn_update hq).trans (oldOrOwn_channels (.inl rfl))
  · obtain ⟨q, hq, h⟩ := bind_eq_ok.1 h
    cases h
    exact oldOrOwn_update hq

theorem oldOrOwn_removeChannel (h : p.removeChannel ptr ch = .ok (p', ch')) : OldOrOwn p ptr p' := by
  have herase : OldOrOwn p ptr { p with channels := Function.update p.channels ch.fd none } :=
    oldOrOwn_channels (.inl rfl)
  refine herase.trans ?_
  by_cases hs : ch.status = .added
  · simp only [removeChannel, hs, if_true] at h
    obtain ⟨q, hq, h⟩ := bind_eq_ok.1 h
    cases h
    exact oldOrOwn_update hq
  · simp only [removeChannel, hs, if_false] at h
    cases h
    exact .rfl

theorem oldOrOwn_exec {op : ChannelOp} (h : op.exec ch ptr p = .ok (p', ch')) : OldOrOwn p ptr p' := by
  by_cases hop : op = .remove
  · rw [hop] at h
    exact oldOrOwn_removeChannel h
  · rw [ChannelOp.exec_update hop] at h
    exact oldOrOwn_updateChannel h

end EPollPoller

namespace World
variable {ι : Type} {w w' : World ι}

/-- No entry but the connection's own is put into the poller. -/
structure Within (w w' : World ι) : Prop where
  ptr : w'.ptr = w.ptr
  poller : OldOrOwn w.poller w.ptr w'.poller

theorem parts_within : Parts fun _ => Within (ι := ι) where
  assign _ _ := ⟨rfl, .rfl⟩
  emit _ _ := ⟨rfl, .rfl⟩
  channelOp ho := by
    obtain ⟨⟨p, ch⟩, hop, ho⟩ := bind_eq_ok.1 ho
    cases ho
    exact ⟨rfl, oldOrOwn_exec hop⟩
  trans h h' := ⟨h'.ptr.trans h.ptr, h.poller.trans (h.ptr ▸ h'.poller)⟩
  mono _ h := h

end World
end Muduo
