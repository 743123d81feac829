import Muduo.PollerRefs

/-!
# Calls of `send` and `shutdown` on other threads

On a thread that is not the loop's, `send` and `shutdown` load the state and push their functor later, so
that in between the connection may be closed and destroyed, all but for the pointer the thread calls
through. The functors hold a plain `this`, as does the one that `removeConnection` queues.
-/

namespace Muduo
open EPollPoller ServerLoop Lts

/-- A call of `send` or `shutdown` that has loaded `Connected`. -/
inductive UserCall
  /-- At the push of `send`. -/
  | send (c : Nat) (inMsg : Bytes)
  /-- At the store of `shutdown`. -/
  | shutdown (c : Nat)
  /-- At the push of `shutdown`. -/
  | queueShutdown (c : Nat)
deriving DecidableEq, Repr

def UserCall.conn : UserCall → Nat
  | .send c _ => c
  | .shutdown c => c
  | .queueShutdown c => c

/-- A server, and the calls that other threads are in the middle of. -/
structure Users where
  server : TcpServer
  calls : List UserCall

inductive UserStep
  | server (a : ServerStep)
  /-- A thread calls `send` or `shutdown` through a pointer, which begins with its load. -/
  | send (c : Nat) (inMsg : Bytes)
  | shutdown (c : Nat)
  /-- The `i`-th call goes on. -/
  | proceed (i : Nat)
deriving DecidableEq, Repr

namespace Users

/-- A call goes through a pointer to the connection. -/
def busy (s : Users) (c : Nat) : Bool := s.calls.any fun call => call.conn == c

/-- The last pointer is not dropped while a call goes through it. -/
def serverStep (logErrno : Errno → Errno) (s : Users) : ServerStep → Option TcpServer
  | .foreignSend _ _ => none
  | .foreignShutdown _ => none
  | .release c =>
    if s.server.held c = 1 ∧ s.busy c then none else s.server.step logErrno (.release c)
  | a => s.server.step logErrno a

/-- The loop that a call is about to push to is there. -/
def reaches (s : Users) : UserCall → Bool
  | .shutdown _ => true
  | call => !(s.server.loop (s.server.conn call.conn).loop).ended

/-- The call is over once it has pushed its functor. -/
def proceed (s : Users) (i : Nat) : UserCall → Users
  | .send c inMsg =>
    ⟨s.server.queueInLoop (s.server.conn c).loop (.sendInLoop c inMsg), s.calls.eraseIdx i⟩
  | .shutdown c =>
    ⟨s.server.absorb c ((s.server.world c).setState .disconnecting), s.calls.set i (.queueShutdown c)⟩
  | .queueShutdown c =>
    ⟨s.server.queueInLoop (s.server.conn c).loop (.shutdownInLoop c), s.calls.eraseIdx i⟩

/-- The load of the state, at the start of a call. -/
def load (s : Users) (call : UserCall) : Option Users :=
  if 0 < s.server.held call.conn then
    some (if (s.server.conn call.conn).tcp.isConnected then { s with calls := s.calls ++ [call] } else s)
  else none

def step (logErrno : Errno → Errno) (s : Users) : UserStep → Option Users
  | .server a => (s.serverStep logErrno a).map fun t => { s with server := t }
  | .send c inMsg => s.load (.send c inMsg)
  | .shutdown c => s.load (.shutdown c)
  | .proceed i => s.calls[i]?.bind fun call => if s.reaches call then some (s.proceed i call) else none

/-- The connections and the server that the functors being run point to are there. -/
def Intact (s : TcpServer) : Prop := ∀ l, ∀ j ∈ (s.loop l).stack,
  (j.owns = false → s.owned j.conn = true) ∧ ∀ c, j = .removeConnectionInLoop c → s.alive = true

end Users

/-! ### Which functions call the close callback -/

namespace World
variable {ι : Type} {w w' : World ι} {logErrno : Errno → Errno} {inData : Bytes} {r : WriteResult}

theorem channelOp_trace {op : ChannelOp} (ho : w.channelOp op = .ok w') : w'.trace = w.trace := by
  obtain ⟨⟨p, ch⟩, -, ho⟩ := bind_eq_ok.1 ho
  cases ho
  rfl

theorem Uncalled.channelOp {op : ChannelOp} (h : w.Uncalled) (ho : w.channelOp op = .ok w') :
    w'.Uncalled := by
  rw [Uncalled, channelOp_trace ho]
  exact h

theorem Uncalled.emit {e : Effect} (h : w.Uncalled) (he : e ≠ .closeCallback) :
    (w.emit e).Uncalled :=
  h.extend rfl fun hm => he (List.mem_singleton.1 hm).symm

theorem Uncalled.runConnectionCallback (h : w.Uncalled) : w.runConnectionCallback.Uncalled := by
  unfold World.runConnectionCallback
  split
  · exact h.emit (by simp)
  · exact h

theorem Uncalled.connectEstablished (h : w.Uncalled) (ho : w.connectEstablished = .ok w') :
    w'.Uncalled := by
  obtain ⟨v, hv, ho⟩ := bind_eq_ok.1 ho
  cases ho
  exact (Uncalled.channelOp (w := (w.setState .connected).tie) h hv).runConnectionCallback

theorem Uncalled.connectDestroyed (h : w.Uncalled) (ho : w.connectDestroyed = .ok w') :
    w'.Uncalled := by
  by_cases hst : w.conn.state = .connected
  · rw [World.connectDestroyed, if_pos hst] at ho
    obtain ⟨v, hv, ho⟩ := bind_eq_ok.1 ho
    obtain ⟨u, hu, hv⟩ := bind_eq_ok.1 hv
    cases hv
    have hq := Uncalled.channelOp (w := w.setState .disconnected) h hu
    exact hq.runConnectionCallback.channelOp ho
  · rw [World.connectDestroyed, if_neg hst] at ho
    exact h.channelOp ho

theorem Uncalled.checkHighWater {n : Nat} (h : w.Uncalled) : (w.checkHighWater n).Uncalled := by
  unfold World.checkHighWater
  dsimp only
  split
  · exact h.emit (by simp)
  · exact h

theorem Uncalled.writeDirect (h : w.Uncalled) : (w.writeDirect logErrno inData r).world.Uncalled := by
  have hw : (w.emit (.write inData r)).Uncalled := h.emit (by simp)
  unfold World.writeDirect
  cases r with
  | accepted n =>
    dsimp only
    split
    · exact hw.emit (by simp)
    · exact hw
  | error e => exact hw

theorem Uncalled.bufferRest {d : DirectWrite ι} (h : d.world.Uncalled)
    (ho : World.bufferRest inData d = .ok w') : w'.Uncalled := by
  unfold World.bufferRest at ho
  split at ho
  · obtain ⟨out, -, ho⟩ := bind_eq_ok.1 ho
    dsimp only at ho
    split at ho
    · cases ho
      exact h.checkHighWater
    · refine Uncalled.channelOp ?_ ho
      exact h.checkHighWater
  · cases ho
    exact h

theorem Uncalled.sendInLoop (h : w.Uncalled) (ho : w.sendInLoop logErrno inData r = .ok w') :
    w'.Uncalled := by
  unfold World.sendInLoop at ho
  split at ho
  · cases ho
    exact h
  · refine Uncalled.bufferRest ?_ ho
    split
    · exact h.writeDirect
    · exact h

theorem Uncalled.send (h : w.Uncalled) (ho : w.send logErrno true inData r = .ok w') :
    w'.Uncalled := by
  unfold World.send at ho
  split at ho
  · exact h.sendInLoop ho
  · cases ho
    exact h

theorem Uncalled.shutdown (h : w.Uncalled) : (w.shutdown true).Uncalled := by
  unfold World.shutdown
  split
  · exact Uncalled.shutdownInLoop (w := w.setState .disconnecting) h
  · exact h

theorem Uncalled.readInput {r : ReadResult} {atEnd : Bool} (h : w.Uncalled)
    (ho : w.readInput r = .ok (w', atEnd)) : w'.Uncalled := by
  obtain ⟨⟨n, inp⟩, -, ho⟩ := bind_eq_ok.1 ho
  dsimp only at ho
  split at ho
  · cases ho
    split
    · exact Uncalled.emit (w := { w with conn.inputBuffer := inp }) h (by simp)
    · exact h
  split at ho
  · cases ho; exact h
  · cases ho; exact h

/-- The end of the input is a read of no bytes. -/
theorem readInput_end {r : ReadResult} (ho : w.readInput r = .ok (w', true)) : r = .delivered [] := by
  obtain ⟨⟨n, inp⟩, hread, ho⟩ := bind_eq_ok.1 ho
  have hn : n = 0 := by
    dsimp only at ho
    split at ho
    · cases ho
    split at ho
    · assumption
    · cases ho
  cases r with
  | error e =>
    cases hread
    cases hn
  | delivered data =>
    have hlen : n = data.length := by
      obtain ⟨v, -, hread⟩ := bind_eq_ok.1 hread
      split at hread
      · cases hread; rfl
      · obtain ⟨u, -, hread⟩ := bind_eq_ok.1 hread
        cases hread; rfl
    rw [hlen] at hn
    rw [List.length_eq_zero_iff.1 (Int.natCast_eq_zero.1 hn)]

/-- `drain` after its `::write`, of which `n` bytes were taken. -/
theorem Uncalled.drained {n : Int} {b : Bool} (h : w.Uncalled)
    (ho : (if n > 0 then
        if (w.conn.outputBuffer.retrieve n.toNat).readableBytes = 0 then do
          let w ← World.channelOp { w with conn.outputBuffer := w.conn.outputBuffer.retrieve n.toNat }
            .disableWriting
          return (if w.conn.writeCompleteCallback then w.queueInLoop .writeComplete else w, true)
        else .ok ({ w with conn.outputBuffer := w.conn.outputBuffer.retrieve n.toNat }, false)
      else .ok (w, false)) = .ok (w', b)) : w'.Uncalled := by
  split at ho
  · split at ho
    · obtain ⟨u, hu, ho⟩ := bind_eq_ok.1 ho
      have hq : u.Uncalled := by
        refine Uncalled.channelOp ?_ hu
        exact h
      cases ho
      split
      · exact hq.emit (by simp)
      · exact hq
    · cases ho; exact h
  · cases ho; exact h

theorem Uncalled.drain {b : Bool} (h : w.Uncalled) (ho : w.drain r = .ok (w', b)) : w'.Uncalled := by
  unfold World.drain at ho
  split at ho
  · cases hoff : w.conn.outputBuffer.writeFdOffer with
    | none =>
      simp only [hoff] at ho
      exact h.drained ho
    | some offered =>
      simp only [hoff] at ho
      exact (h.emit (e := .write offered r) (by simp)).drained ho
  · cases ho; exact h

theorem Uncalled.handleWrite (h : w.Uncalled) (ho : w.handleWrite r = .ok w') : w'.Uncalled := by
  obtain ⟨⟨v, b⟩, hv, rfl⟩ := map_eq_ok.1 ho
  exact (h.drain hv).finishWrite

end World
end Muduo
