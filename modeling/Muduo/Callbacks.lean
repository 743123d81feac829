import Muduo.ConnFrame

/-!
# The user's callbacks

One connection as its loop and the server drive it: established once, dispatched to while its fd is
registered, destroyed once for each close callback. What the user sees is one connection callback with
the connection up, messages, one with it down, as long as no dispatch both closes the connection and
reads from it.
-/

namespace Muduo
open Lts

/-- The calls a connection makes of its user and of the server. -/
def Effect.isCall : Effect → Bool
  | .connectionCallback _ => true
  | .messageCallback => true
  | .closeCallback => true
  | _ => false

def calls (trace : List Effect) : List Effect := trace.filter Effect.isCall

@[simp] theorem calls_append (t t' : List Effect) : calls (t ++ t') = calls t ++ calls t' :=
  List.filter_append ..

/-- The calls of the user alone. -/
def userCallbacks (trace : List Effect) : List Effect :=
  (calls trace).filter (· ≠ .closeCallback)

def Callback.handler {ι : Type} (r : ReadResult) (r' : WriteResult) : Callback → ConnStep ι
  | .close => .handleClose
  | .error => .handleError
  | .read => .handleRead r
  | .write => .handleWrite r'

namespace World
variable {ι : Type} {w w' : World ι} {logErrno : Errno → Errno} {inData : Bytes} {r : WriteResult}
  {n : Nat}

def upCallbacks (w : World ι) : List Effect :=
  if w.conn.connectionCallback = true then [.connectionCallback true] else []

def downCallbacks (w : World ι) : List Effect :=
  if w.conn.connectionCallback = true then [.connectionCallback false] else []

def closeCallbacks (w : World ι) : List Effect :=
  if w.conn.closeCallback = true then [.closeCallback] else []

theorem calls_directEffects : calls (directEffects inData r w) = [] := by
  unfold directEffects
  split
  · cases r with
    | accepted n => dsimp only; split <;> rfl
    | error e => rfl
  · rfl

theorem calls_highWaterEffects (n : Nat) : calls (highWaterEffects n w) = [] := by
  unfold highWaterEffects
  dsimp only
  split <;> rfl

theorem calls_drainEffects : calls (drainEffects r w) = [] := by
  unfold drainEffects
  split <;> rfl

theorem Sent.calls_eq (h : Sent logErrno inData r w w') : calls w'.trace = calls w.trace := by
  rw [h.trace, calls_append, calls_append, calls_directEffects, List.append_nil]
  split
  · exact List.append_nil _
  · rw [calls_highWaterEffects, List.append_nil]

theorem Drained.calls_eq {b : Bool} (h : Drained r w w' b) : calls w'.trace = calls w.trace := by
  rw [h.trace, calls_append, calls_append, calls_drainEffects, List.append_nil]
  split <;> exact List.append_nil _

theorem shutdownInLoop_calls : calls w.shutdownInLoop.trace = calls w.trace := by
  rw [shutdownInLoop_eq, calls_append]
  split <;> exact List.append_nil _

theorem finishWrite_calls {b : Bool} : calls (finishWrite (w, b)).trace = calls w.trace := by
  rw [finishWrite_eq]
  split
  · exact shutdownInLoop_calls
  · rfl

/-- Established and not closed, `n` messages so far. -/
structure Up (n : Nat) (w : World ι) : Prop where
  flowing : w.Flowing
  calls : calls w.trace = w.upCallbacks ++ List.replicate n .messageCallback

/-- Closed, after `n` messages: out of the poller, and never in it again. -/
structure Down (n : Nat) (w : World ι) : Prop where
  wf : w.Wf
  state : w.conn.state = .disconnected
  status : w.conn.channel.status ≠ .added
  writing : w.conn.channel.isWriting = false
  calls : calls w.trace = w.upCallbacks ++ List.replicate n .messageCallback ++ w.downCallbacks ++
    w.closeCallbacks

end World

namespace ConnStep
variable {ι : Type} {logErrno : Errno → Errno} {w w' : World ι} {a : ConnStep ι} {n : Nat}

/-- No step sets the user's callbacks. -/
theorem Did.callbacks (hd : Did logErrno w a w') :
    w'.conn.connectionCallback = w.conn.connectionCallback ∧
      w'.conn.closeCallback = w.conn.closeCallback := by
  cases hd with
  | sent _ _ h => rw [h.eq]; exact ⟨rfl, rfl⟩
  | halfClosed _ => rw [World.shutdownInLoop_conn]; exact ⟨rfl, rfl⟩
  | shut => rw [World.shutdownInLoop_conn]; exact ⟨rfl, rfl⟩
  | ended _ h => rw [h.eq]; exact ⟨rfl, rfl⟩
  | drained h => rw [World.finishWrite_conn, h.eq]; exact ⟨rfl, rfl⟩
  | closed h => rw [h.eq]; exact ⟨rfl, rfl⟩
  | destroyed h => rw [h.eq]; exact ⟨rfl, rfl⟩
  | refused _ | queued | requested _ | read _ | delivered _ | other _ _ => exact ⟨rfl, rfl⟩

theorem Did.up_eq (hd : Did logErrno w a w') : w'.upCallbacks = w.upCallbacks := by
  rw [World.upCallbacks, hd.callbacks.1]; rfl

theorem Did.down_eq (hd : Did logErrno w a w') : w'.downCallbacks = w.downCallbacks := by
  rw [World.downCallbacks, hd.callbacks.1]; rfl

theorem Did.close_eq (hd : Did logErrno w a w') : w'.closeCallbacks = w.closeCallbacks := by
  rw [World.closeCallbacks, hd.callbacks.2]; rfl

/-- `handleClose` and the end of the input, on an open connection. -/
theorem up_closed {v : World ι} (hv : v.Flowing)
    (hc : calls v.trace = v.upCallbacks ++ List.replicate n .messageCallback)
    (h : (v.setState .disconnected).Closed w') : w'.Down n := by
  have hch := h.disabled.channel
  have hadd : (v.setState .disconnected).conn.channel.status = .added := hv.status
  have hev : w'.conn.channel.events = 0 := by
    rw [h.disabled.events]; rfl
  exact {
    wf := h.wf
    state := by rw [h.eq]; rfl
    status := by
      rw [h.disabled.status, if_neg (by decide), if_pos ⟨hadd, rfl⟩]
      decide
    writing := by rw [Channel.isWriting, hev]; rfl
    calls := by
      have hcc : w'.conn.connectionCallback = v.conn.connectionCallback := by rw [h.eq]; rfl
      have hcl : w'.conn.closeCallback = v.conn.closeCallback := by rw [h.eq]; rfl
      rw [h.trace, calls_append, calls_append]
      show calls v.trace ++ _ ++ _ = _
      rw [hc, World.upCallbacks, World.upCallbacks, World.downCallbacks, World.closeCallbacks, hcc, hcl]
      congr 1
      · congr 1
        show calls (if v.conn.connectionCallback = true then [.connectionCallback false] else []) = _
        split <;> rfl
      · show calls (if v.conn.closeCallback = true then [.closeCallback] else []) = _
        split <;> rfl }

/-- An open connection stays open, delivers a message, or goes down. -/
theorem Did.of_up (h : w.Up n) (hd : Did logErrno w a w') (ha : a ≠ .connectDestroyed) :
    w'.Up n ∨ w'.Up (n + 1) ∨ w'.Down n := by
  have hup := hd.up_eq
  -- what does not close and calls no one
  have quiet : ¬ a.Closes → calls w'.trace = calls w.trace → w'.Up n := fun hcl hc =>
    ⟨hd.flowing h.flowing hcl, by rw [hc, h.calls, hup]⟩
  cases hd with
  | sent hp _ hs =>
    refine .inl (quiet ?_ hs.calls_eq)
    rintro hcl
    cases a <;> first | exact hcl | cases hp
  | refused hp => exact .inl h
  | queued => exact .inl (quiet id (by rw [World.queueInLoop, World.emit, calls_append]; exact List.append_nil _))
  | halfClosed _ => exact .inl (quiet id World.shutdownInLoop_calls)
  | requested _ =>
    exact .inl (quiet id (by rw [World.queueInLoop, World.emit, calls_append]; exact List.append_nil _))
  | shut => exact .inl (quiet id World.shutdownInLoop_calls)
  | read hwf => exact .inl ⟨h.flowing.congr hwf rfl rfl, h.calls⟩
  | @delivered r inp hwf =>
    refine .inr (.inl ⟨h.flowing.congr (hwf.emit _) rfl rfl, ?_⟩)
    show calls (w.trace ++ [.messageCallback]) = _
    rw [calls_append, h.calls, List.append_assoc, List.replicate_succ']
    rfl
  | @ended inp _ hwf hc =>
    have hfl : (w.received inp).Flowing := h.flowing.congr hwf rfl rfl
    exact .inr (.inr (up_closed hfl h.calls hc))
  | drained hdr => exact .inl (quiet id (World.finishWrite_calls.trans hdr.calls_eq))
  | closed hc => exact .inr (.inr (up_closed h.flowing h.calls hc))
  | destroyed _ => exact absurd rfl ha
  | other _ _ => exact .inl (quiet id rfl)

/-- Steps that make no call once the connection is down. -/
def Still : ConnStep ι → Prop
  | .handleRead r => ∃ e, r = .error e
  | .handleClose => False
  | _ => True

theorem step_handleRead_error {e : Errno} : step logErrno w (.handleRead (.error e)) = some w := rfl

theorem Down_congr (h : w.Down n) (hd : Did logErrno w a w') (hwf : w'.Wf)
    (hst : w'.conn.state = w.conn.state) (hch : w'.conn.channel = w.conn.channel)
    (hc : calls w'.trace = calls w.trace) : w'.Down n where
  wf := hwf
  state := hst.trans h.state
  status := by rw [hch]; exact h.status
  writing := by rw [hch]; exact h.writing
  calls := by rw [hc, h.calls, hd.up_eq, hd.down_eq, hd.close_eq]

/-- A closed connection stays as it is. -/
theorem Did.of_down (h : w.Down n) (hd : Did logErrno w a w') (ha : a.Still)
    (hr : ∀ r, a ≠ .handleRead r) : w'.Down n := by
  have hwf := hd.wf h.wf
  have keep := Down_congr h hd hwf
  have hup := hd.up_eq; have hdown := hd.down_eq; have hclose := hd.close_eq
  have hnc : w.conn.state ≠ .connected := by rw [h.state]; decide
  cases hd with
  | sent _ hst _ => exact absurd h.state hst
  | refused _ => exact h
  | queued =>
    exact keep rfl rfl (by
      rw [World.queueInLoop, World.emit, calls_append]; exact List.append_nil _)
  | halfClosed hst => exact absurd hst hnc
  | requested hst => exact absurd hst hnc
  | shut =>
    exact keep (by rw [World.shutdownInLoop_conn]) (by rw [World.shutdownInLoop_conn])
      World.shutdownInLoop_calls
  | read _ => exact absurd rfl (hr _)
  | delivered _ => exact absurd rfl (hr _)
  | ended _ _ => exact absurd rfl (hr _)
  | @drained _ v b hdr =>
    -- a channel that does not write drains nothing
    have hb : b = false := by
      by_contra hb
      rw [Bool.not_eq_false] at hb
      have hw := (hdr.drained_iff.1 hb).1
      rw [h.writing] at hw
      cases hw
    refine keep ?_ ?_ (World.finishWrite_calls.trans hdr.calls_eq)
    · rw [World.finishWrite_conn, hdr.eq]
    · rw [World.finishWrite_conn, (hdr.same hb).1]
  | closed _ => exact ha.elim
  | destroyed hdest =>
    exact {
      wf := hwf
      state := by rw [hdest.eq]; simp only [if_neg hnc]; exact h.state
      status := by rw [hdest.channel]; exact fun he => by cases he
      writing := by
        rw [hdest.channel, if_neg hnc]
        exact h.writing
      calls := by
        have ht : w'.trace = w.trace := by
          rw [hdest.trace, if_neg fun hc => hnc hc.1, List.append_nil]
        rw [ht, h.calls, hup, hdown, hclose] }
  | other _ _ => exact keep rfl rfl rfl

/-! ### One dispatch -/

theorem run_of_ite {p : Prop} [Decidable p]
    (h : run (step logErrno) w (if p then [a] else []) = some w') :
    p ∧ step logErrno w a = some w' ∨ ¬ p ∧ w' = w := by
  split at h
  · rename_i hp
    obtain ⟨v, hv, hr⟩ := run_cons_some.1 h
    cases hr
    exact .inl ⟨hp, hv⟩
  · rename_i hp
    cases h
    exact .inr ⟨hp, rfl⟩

/-- Up or down, with the messages delivered so far. -/
def Phase (w : World ι) : Prop := ∃ n, w.Up n ∨ w.Down n

theorem Phase.wf (h : Phase w) : w.Wf := by
  obtain ⟨n, h | h⟩ := h
  · exact h.flowing.wf
  · exact h.wf

/-- A step that is harmless once the connection is down. -/
theorem Phase.step (h : Phase w) (hof : a.Offered w) (ha : a.Still) (hr : ∀ r, a ≠ .handleRead r)
    (hdes : a = .connectDestroyed → ∃ n, w.Down n) (hs : ConnStep.step logErrno w a = some w') :
    Phase w' := by
  have hd := step_ok h.wf hof hs
  obtain ⟨n, h | h⟩ := h
  · by_cases hcd : a = .connectDestroyed
    · obtain ⟨m, hdown⟩ := hdes hcd
      exact ⟨m, .inr (hd.of_down hdown ha hr)⟩
    · rcases hd.of_up h hcd with hu | hu | hu
      · exact ⟨n, .inl hu⟩
      · exact ⟨n + 1, .inl hu⟩
      · exact ⟨n, .inr hu⟩
  · exact ⟨n, .inr (hd.of_down h ha hr)⟩

/-- The handlers of one dispatch on an open connection, when it does not both close and read. -/
theorem dispatch_phase {p q u v : Prop} [Decidable p] [Decidable q] [Decidable u] [Decidable v]
    {r : ReadResult} {r' : WriteResult} (h : w.Up n) (hpu : p → u → ∃ e, r = .error e)
    (hs : run (ConnStep.step logErrno) w
      ((if p then [.handleClose] else []) ++ (if q then [.handleError] else []) ++
        (if u then [.handleRead r] else []) ++ if v then [.handleWrite r'] else []) = some w') :
    Phase w' := by
  obtain ⟨w₃, hs, h₄⟩ := run_append_some.1 hs
  obtain ⟨w₂, hs, h₃⟩ := run_append_some.1 hs
  obtain ⟨w₁, h₁, h₂⟩ := run_append_some.1 hs
  have hclose : p ∧ w₁.Down n ∨ ¬ p ∧ w₁.Up n := by
    rcases run_of_ite h₁ with ⟨hp, ho⟩ | ⟨hp, rfl⟩
    · have hc := World.closeRest_ok (h.flowing.wf.setState .disconnected) (toOption_eq_some.1 ho)
      exact .inl ⟨hp, up_closed h.flowing h.calls hc⟩
    · exact .inr ⟨hp, h⟩
  -- `handleError` changes nothing
  have herr : w₂ = w₁ := by
    rcases run_of_ite h₂ with ⟨-, ho⟩ | ⟨-, rfl⟩
    · cases ho; rfl
    · rfl
  rw [herr] at h₃
  have hread : Phase w₃ := by
    rcases run_of_ite h₃ with ⟨hu, ho⟩ | ⟨-, rfl⟩
    · rcases hclose with ⟨hp, hdown⟩ | ⟨-, hup⟩
      · obtain ⟨e, rfl⟩ := hpu hp hu
        rw [step_handleRead_error] at ho
        cases ho
        exact ⟨n, .inr hdown⟩
      · rcases (step_ok (a := .handleRead r) hup.flowing.wf trivial ho).of_up hup (by simp) with hx | hx | hx
        · exact ⟨n, .inl hx⟩
        · exact ⟨n + 1, .inl hx⟩
        · exact ⟨n, .inr hx⟩
    · rcases hclose with ⟨-, hdown⟩ | ⟨-, hup⟩
      · exact ⟨n, .inr hdown⟩
      · exact ⟨n, .inl hup⟩
  rcases run_of_ite h₄ with ⟨-, ho⟩ | ⟨-, rfl⟩
  · exact hread.step (a := .handleWrite r') trivial trivial (by simp) (by simp) ho
  · exact hread

/-- What user code, functors and other channels of the loop do between dispatches. -/
def Between : ConnStep ι → Prop
  | .send _ _ _ => True
  | .shutdown _ => True
  | .sendInLoop _ _ => True
  | .shutdownInLoop => True
  | .other _ _ _ => True
  | _ => False

instance : (a : ConnStep ι) → Decidable a.Between
  | .send _ _ _ | .shutdown _ | .sendInLoop _ _ | .shutdownInLoop | .other _ _ _ => .isTrue trivial
  | .handleRead _ | .handleWrite _ | .handleError | .handleClose | .connectDestroyed =>
    .isFalse not_false

end ConnStep

/-- A connection, whether it has been established, and how many `connectDestroyed` have run. -/
structure Served (ι : Type) where
  world : World ι
  established : Bool
  destroyed : Nat

inductive ServedStep (ι : Type)
  | connectEstablished
  /-- `handleEvent` on `revents`, with the answers to its read and its write. -/
  | dispatch (revents : EventMask) (r : ReadResult) (r' : WriteResult)
  | connectDestroyed
  | between (a : ConnStep ι)
deriving DecidableEq, Repr

namespace Served
variable {ι : Type} {logErrno : Errno → Errno} {s t : Served ι} {a : ServedStep ι}
  {as : List (ServedStep ι)} {w w₀ : World ι}

/-- The fd is in the kernel's interest set. -/
def registered (w : World ι) : Bool := (w.poller.interest w.conn.channel.fd).isSome

/-- The calls that `handleEvent` makes when the kernel reports `revents`. -/
def handlers (w : World ι) (revents : EventMask) (r : ReadResult) (r' : WriteResult) :
    List (ConnStep ι) :=
  (Channel.handleEvent { w.conn.channel with revents := revents } true).map (Callback.handler r r')

/-- The server queues one `connectDestroyed` for each close callback. -/
def step (logErrno : Errno → Errno) (s : Served ι) : ServedStep ι → Option (Served ι)
  | .connectEstablished =>
    if s.established = false then
      s.world.connectEstablished.toOption.map fun w => ⟨w, true, s.destroyed⟩
    else none
  | .dispatch revents r r' =>
    if registered s.world = true then
      (run (ConnStep.step logErrno) { s.world with conn.channel.revents := revents }
        (handlers s.world revents r r')).map fun w => { s with world := w }
    else none
  | .connectDestroyed =>
    if s.destroyed < s.world.trace.count .closeCallback then
      s.world.connectDestroyed.toOption.map fun w =>
        { s with world := w, destroyed := s.destroyed + 1 }
    else none
  | .between a =>
    if s.established = true ∧ a.Between ∧ a.Offered s.world then
      (a.step logErrno s.world).map fun w => { s with world := w }
    else none

/-- A dispatch that closes the connection and goes on to read finds nothing to read. -/
def ReadFails : ServedStep ι → Prop
  | .dispatch revents r _ => revents &&& EPOLLHUP ≠ 0 → revents &&& EPOLLIN = 0 →
    revents &&& EPOLLPRI ≠ 0 → r.count < 0
  | _ => True

instance : (a : ServedStep ι) → Decidable (ReadFails a)
  | .dispatch _ _ _ => inferInstanceAs (Decidable (_ → _ → _ → _))
  | .connectEstablished | .connectDestroyed | .between _ => .isTrue trivial

theorem handlers_eq (w : World ι) (revents : EventMask) (r : ReadResult) (r' : WriteResult) :
    handlers w revents r r' =
      (if revents &&& EPOLLHUP ≠ 0 ∧ ¬ revents &&& EPOLLIN ≠ 0 then [.handleClose] else []) ++
      (if revents &&& EPOLLERR ≠ 0 then [.handleError] else []) ++
      (if revents &&& (EPOLLIN ||| EPOLLPRI) ≠ 0 then [.handleRead r] else []) ++
      (if revents &&& EPOLLOUT ≠ 0 then [.handleWrite r'] else []) := by
  have hguard : Channel.handleEvent { w.conn.channel with revents := revents } true =
      Channel.handleEventWithGuard { w.conn.channel with revents := revents } := by
    unfold Channel.handleEvent
    split <;> rfl
  rw [handlers, hguard, Channel.handleEventWithGuard, List.map_append, List.map_append,
    List.map_append, apply_ite (List.map _), apply_ite (List.map _), apply_ite (List.map _),
    apply_ite (List.map _)]
  rfl

theorem count_calls (trace : List Effect) :
    trace.count .closeCallback = (calls trace).count .closeCallback := by
  rw [calls, List.count_filter rfl]

/-- An established connection is up or down; one that is not has nothing to its name. -/
def Inv (s : Served ι) : Prop :=
  if s.established = true then ConnStep.Phase s.world else s.world.Constructed

theorem up_of_registered (h : ConnStep.Phase w) (hreg : registered w = true) : ∃ n, w.Up n := by
  obtain ⟨n, h | h⟩ := h
  · exact ⟨n, h⟩
  · rw [registered, h.wf.synced.absent h.status] at hreg
    cases hreg

theorem down_of_closed (h : ConnStep.Phase w) (hc : 0 < w.trace.count .closeCallback) :
    ∃ n, w.Down n := by
  obtain ⟨n, h | h⟩ := h
  · rw [count_calls, h.calls, List.count_append, List.count_replicate] at hc
    have hup : w.upCallbacks.count .closeCallback = 0 := by
      unfold World.upCallbacks
      split <;> rfl
    rw [hup] at hc
    simp at hc
  · exact ⟨n, h⟩

theorem up_revents {n : Nat} (h : w.Up n) (revents : EventMask) :
    World.Up n { w with conn.channel.revents := revents } :=
  ⟨h.flowing.revents revents, h.calls⟩

theorem and_PRI_ne {m : EventMask} (hin : m &&& EPOLLIN = 0) (h : m &&& (EPOLLIN ||| EPOLLPRI) ≠ 0) :
    m &&& EPOLLPRI ≠ 0 := by
  intro hpri
  rw [BitVec.and_or_distrib_left, hin, hpri] at h
  exact h rfl

theorem Inv.step (hi : s.Inv) (hC : ReadFails a) (hs : s.step logErrno a = some t) : t.Inv := by
  unfold Inv at hi
  cases a with
  | connectEstablished =>
    obtain ⟨he, hs⟩ := Option.ite_none_right_eq_some.1 hs
    obtain ⟨w, hw, rfl⟩ := Option.map_eq_some_iff.1 hs
    rw [he, if_neg (by decide)] at hi
    have hest := World.connectEstablished_ok hi (toOption_eq_some.1 hw)
    refine ⟨0, .inl ⟨hest.flowing, ?_⟩⟩
    show calls w.trace = _
    rw [hest.trace, World.upCallbacks]
    split <;> rfl
  | dispatch revents r r' =>
    obtain ⟨hreg, hs⟩ := Option.ite_none_right_eq_some.1 hs
    obtain ⟨w, hw, rfl⟩ := Option.map_eq_some_iff.1 hs
    by_cases he : s.established = true
    · rw [if_pos he] at hi
      obtain ⟨n, hup⟩ := up_of_registered hi hreg
      rw [handlers_eq] at hw
      show if s.established = true then _ else _
      rw [if_pos he]
      refine ConnStep.dispatch_phase (up_revents hup revents) (fun hp hu => ?_) hw
      have hin : revents &&& EPOLLIN = 0 := not_not.1 hp.2
      have hneg := hC hp.1 hin (and_PRI_ne hin hu)
      cases r with
      | error e => exact ⟨e, rfl⟩
      | delivered data =>
        rw [ReadResult.count] at hneg
        omega
    · rw [if_neg he] at hi
      rw [registered, hi.absent] at hreg
      cases hreg
  | connectDestroyed =>
    obtain ⟨hlt, hs⟩ := Option.ite_none_right_eq_some.1 hs
    obtain ⟨w, hw, rfl⟩ := Option.map_eq_some_iff.1 hs
    by_cases he : s.established = true
    · rw [if_pos he] at hi
      show if s.established = true then _ else _
      rw [if_pos he]
      exact hi.step (a := .connectDestroyed) trivial trivial (by simp)
        (fun _ => down_of_closed hi (Nat.zero_lt_of_lt hlt))
        (show ConnStep.step logErrno s.world .connectDestroyed = some w from hw)
    · rw [if_neg he] at hi
      rw [hi.trace] at hlt
      exact absurd hlt (Nat.not_lt_zero _)
  | between a =>
    obtain ⟨⟨he, hb, hof⟩, hs⟩ := Option.ite_none_right_eq_some.1 hs
    obtain ⟨w, hw, rfl⟩ := Option.map_eq_some_iff.1 hs
    rw [if_pos he] at hi
    show if s.established = true then _ else _
    rw [if_pos he]
    refine hi.step hof ?_ ?_ ?_ hw
    · cases a with
      | handleRead _ | handleClose => exact hb.elim
      | _ => trivial
    · rintro r rfl
      exact hb
    · rintro rfl
      exact hb.elim

theorem filter_calls_replicate (n : Nat) :
    (List.replicate n Effect.messageCallback).filter (· ≠ .closeCallback) =
      List.replicate n .messageCallback := by
  rw [List.filter_replicate]
  rfl

theorem filter_upCallbacks (w : World ι) :
    w.upCallbacks.filter (· ≠ .closeCallback) = w.upCallbacks := by
  unfold World.upCallbacks
  split <;> rfl

theorem filter_downCallbacks (w : World ι) :
    w.downCallbacks.filter (· ≠ .closeCallback) = w.downCallbacks := by
  unfold World.downCallbacks
  split <;> rfl

theorem filter_closeCallbacks (w : World ι) : w.closeCallbacks.filter (· ≠ .closeCallback) = [] := by
  unfold World.closeCallbacks
  split <;> rfl

/-- What a phase says of the callbacks made so far. -/
theorem prefix_of_phase (h : ConnStep.Phase w) :
    (∃ n, userCallbacks w.trace <+:
      w.upCallbacks ++ List.replicate n .messageCallback ++ w.downCallbacks) ∧
      w.trace.count .closeCallback ≤ 1 := by
  obtain ⟨n, h | h⟩ := h
  · refine ⟨⟨n, ?_⟩, ?_⟩
    · rw [userCallbacks, h.calls, List.filter_append, filter_upCallbacks, filter_calls_replicate]
      exact List.prefix_append _ _
    · rw [count_calls, h.calls, World.upCallbacks]
      split <;> simp [List.count_replicate]
  · refine ⟨⟨n, ?_⟩, ?_⟩
    · have hall : userCallbacks w.trace =
          w.upCallbacks ++ List.replicate n .messageCallback ++ w.downCallbacks := by
        rw [userCallbacks, h.calls, List.filter_append, List.filter_append, List.filter_append,
          filter_upCallbacks, filter_calls_replicate, filter_downCallbacks, filter_closeCallbacks,
          List.append_nil]
      exact hall ▸ List.prefix_rfl
    · rw [count_calls, h.calls, World.upCallbacks, World.downCallbacks, World.closeCallbacks]
      split <;> split <;> simp [List.count_replicate]

/-- In every run in which no dispatch that closes the connection reads from it as well, the user sees
one connection callback with the connection up, messages, one with it down, and nothing after that;
the close callback is made at most once. -/
theorem callback_protocol (logErrno : Errno → Errno) (as : List (ServedStep ι)) (h₀ : w₀.Constructed)
    (hC : Along (step logErrno) (fun _ a => ReadFails a) ⟨w₀, false, 0⟩ as)
    (hr : run (step logErrno) ⟨w₀, false, 0⟩ as = some s) :
    (∃ n, userCallbacks s.world.trace <+:
      s.world.upCallbacks ++ List.replicate n .messageCallback ++ s.world.downCallbacks) ∧
      s.world.trace.count .closeCallback ≤ 1 := by
  have hi : s.Inv := run_inv_along (fun _ _ _ hC hs hi => Inv.step hi hC hs) hC hr h₀
  unfold Inv at hi
  split at hi
  · exact prefix_of_phase hi
  · rw [hi.trace]
    exact ⟨⟨0, List.nil_prefix⟩, Nat.zero_le _⟩

/-- A connection on a loop of its own, with every callback set. -/
def watched : World Unit :=
  { World.alone 5 () with
    conn.connectionCallback := true
    conn.messageCallback := true
    conn.closeCallback := true }

theorem watched_constructed : watched.Constructed := ⟨rfl, rfl, rfl, rfl, rfl, rfl, rfl⟩

/-- Two messages, the end of the input, and `connectDestroyed`. -/
theorem callback_protocol_closed : ∃ s,
    run (step id) ⟨watched, false, 0⟩ [.connectEstablished,
      .dispatch EPOLLIN (.delivered [1]) (.accepted 0),
      .dispatch (EPOLLIN ||| EPOLLPRI) (.delivered [2, 3]) (.accepted 0),
      .dispatch (EPOLLIN ||| EPOLLHUP) (.delivered []) (.accepted 0), .connectDestroyed] = some s ∧
    s.world.trace.count .closeCallback ≤ 1 := by
  obtain ⟨s, hr⟩ : ∃ s, run (step id) ⟨watched, false, 0⟩ [.connectEstablished,
      .dispatch EPOLLIN (.delivered [1]) (.accepted 0),
      .dispatch (EPOLLIN ||| EPOLLPRI) (.delivered [2, 3]) (.accepted 0),
      .dispatch (EPOLLIN ||| EPOLLHUP) (.delivered []) (.accepted 0), .connectDestroyed] = some s :=
    Option.isSome_iff_exists.1 (by decide +kernel)
  exact ⟨s, hr, (callback_protocol id _ watched_constructed (by decide +kernel) hr).2⟩

/-- One dispatch of `EPOLLHUP | EPOLLPRI` takes the connection down and then delivers a message, or
at the end of the input takes it down twice. -/
theorem callback_after_down :
    (run (step id) ⟨watched, false, 0⟩ [.connectEstablished,
      .dispatch (EPOLLHUP ||| EPOLLPRI) (.delivered [1]) (.accepted 0)]).map
        (fun s => s.world.trace) = some [.connectionCallback true, .connectionCallback false,
          .closeCallback, .messageCallback] ∧
    (run (step id) ⟨watched, false, 0⟩ [.connectEstablished,
      .dispatch (EPOLLHUP ||| EPOLLPRI) (.delivered []) (.accepted 0)]).map
        (fun s => s.world.trace) = some [.connectionCallback true, .connectionCallback false,
          .closeCallback, .connectionCallback false, .closeCallback] := by
  decide +kernel

end Served
end Muduo
