import Muduo.ConnRace

/-!
# What becomes of a closed connection

`Disconnected` is final as long as no other thread is caught between the test and the store of
`shutdown`, no half-close is left in the queue, and the event that closed the connection has no
reading to do any more. `Spares` says that a step is none of the three.
-/

namespace Muduo
open Lts EPollPoller

/-- Writing to the socket, or half-closing it. -/
def isOutput : Effect → Bool
  | .write _ _ => true
  | .shutdownWrite _ => true
  | _ => false

namespace World
variable {ι : Type} {w w' w'' : World ι}

/-- Nothing is written or half-closed from `w` to `w'`, and nothing registered. -/
structure Quiet (w w' : World ι) : Prop where
  trace : ∃ es, w'.trace = w.trace ++ es ∧ ∀ e ∈ es, isOutput e = false
  calls : ∃ ks, w'.poller.calls = w.poller.calls ++ ks ∧ ∀ k ∈ ks, k.op = .del

theorem Quiet.of_eq (ht : w'.trace = w.trace) (hp : w'.poller.calls = w.poller.calls) : Quiet w w' :=
  ⟨⟨[], by rw [ht, List.append_nil], by simp⟩, ⟨[], by rw [hp, List.append_nil], by simp⟩⟩

theorem Quiet.refl (w : World ι) : Quiet w w := .of_eq rfl rfl

theorem Quiet.trans (h : Quiet w w') (h' : Quiet w' w'') : Quiet w w'' := by
  obtain ⟨⟨es, ht, hes⟩, ⟨ks, hc, hks⟩⟩ := h
  obtain ⟨⟨es', ht', hes'⟩, ⟨ks', hc', hks'⟩⟩ := h'
  refine ⟨⟨es ++ es', by rw [ht', ht, List.append_assoc], fun e he => ?_⟩,
    ⟨ks ++ ks', by rw [hc', hc, List.append_assoc], fun k hk => ?_⟩⟩
  · rcases List.mem_append.1 he with he | he
    · exact hes e he
    · exact hes' e he
  · rcases List.mem_append.1 hk with hk | hk
    · exact hks k hk
    · exact hks' k hk

/-- Closing a registered channel takes it out of the interest set. -/
theorem Closed.quiet (h : Closed w w') (hst : w.conn.channel.status = .added) : Quiet w w' := by
  have ht := h.trace
  rw [List.append_assoc] at ht
  refine ⟨⟨_, ht, fun e he => ?_⟩, ⟨_, h.disabled.calls, fun k hk => ?_⟩⟩
  · split at he <;> split at he <;> simp only [List.mem_append, List.mem_singleton, List.not_mem_nil,
      or_false, false_or] at he
    · rcases he with rfl | rfl
      · rfl
      · rfl
    · rw [he]; rfl
    · rw [he]; rfl
  · simp only [opCalls, updateCalls, hst] at hk
    rw [List.mem_singleton.1 hk]
    rfl

theorem Closed.unregistered (h : Closed w w') (hst : w.conn.channel.status = .added) :
    w'.conn.channel.isWriting = false ∧ w'.conn.channel.status ≠ .added := by
  have hdel : w'.conn.channel.status = .deleted := by
    rw [h.disabled.status, hst]; rfl
  rw [h.disabled.isWriting, ChannelOp.writing_disableAll, hdel]
  exact ⟨rfl, by decide⟩

end World

namespace Race
variable {ι T : Type} {s t : Race ι T} {w₀ : World ι}

/-- What the loop thread can be in the middle of after `handleClose` has stored `Disconnected`. -/
def afterClose : Act → Bool
  | .idle => true
  | .sendInLoop _ _ => true
  | .closeRest => true
  | .remove => true
  | _ => false

/-- What it is in the middle of outside any event. -/
def outsideEvents : Act → Bool
  | .establish => true
  | .establishRest => true
  | .destroy => true
  | .destroyConnected => true
  | .remove => true
  | _ => false

/-- A connection after the store of `handleClose`. -/
structure Final (s : Race ι T) : Prop where
  state : s.world.conn.state = .disconnected
  act : afterClose s.act = true
  callbacks : .close ∉ s.callbacks
  closing : s.act = .closeRest → s.world.conn.channel.status = .added
  channel : s.act ≠ .closeRest →
    s.world.conn.channel.isWriting = false ∧ s.world.conn.channel.status ≠ .added

structure Inv (s : Race ι T) : Prop where
  wf : s.world.Wf
  order : s.callbacks.Sublist [.close, .error, .read, .write]
  outside : outsideEvents s.act = true → s.callbacks = []
  /-- An event is only being handled on a registered channel. -/
  event : s.closed = false → s.callbacks ≠ [] ∨ s.act = .close →
    s.world.conn.channel.status = .added
  closing : s.act = .close → .close ∉ s.callbacks
  rest : s.act = .closeRest → s.closed = true
  final : s.closed = true → s.Final

/-- A step to `t` keeps the invariant, and is quiet on a closed connection. -/
structure Keeps (s t : Race ι T) : Prop where
  inv : t.Inv
  quiet : s.closed = true → t.closed = true ∧ World.Quiet s.world t.world

/-- Steps of an open connection. -/
theorem Inv.keeps_open (hc : s.closed ≠ true) (hcl : t.closed = s.closed) (hwf : t.world.Wf)
    (hord : t.callbacks.Sublist [.close, .error, .read, .write])
    (hout : outsideEvents t.act = true → t.callbacks = [])
    (hev : t.callbacks ≠ [] ∨ t.act = .close → t.world.conn.channel.status = .added)
    (hclose : t.act = .close → .close ∉ t.callbacks) (hrest : t.act ≠ .closeRest) : Keeps s t where
  inv := ⟨hwf, hord, hout, fun _ => hev, hclose, fun hr => absurd hr hrest,
    fun ht => absurd (hcl ▸ ht) hc⟩
  quiet ht := absurd ht hc

/-- Steps of an open connection between its handlers, where no callback is left to be made. -/
theorem Inv.keeps_outside (h : s.Inv) (hc : s.closed ≠ true) (hact : outsideEvents s.act = true)
    (hcl : t.closed = s.closed) (hcb : t.callbacks = s.callbacks) (hwf : t.world.Wf)
    (hclose : t.act ≠ .close) (hrest : t.act ≠ .closeRest) : Keeps s t := by
  have hnil : t.callbacks = [] := hcb.trans (h.outside hact)
  refine Inv.keeps_open hc hcl hwf (hcb ▸ h.order) (fun _ => hnil) (fun hev => ?_)
    (fun ha => absurd ha hclose) hrest
  exact absurd hnil (hev.resolve_right hclose)

/-- Steps that leave the connection's state and its channel alone. -/
theorem Inv.keeps (h : s.Inv) (es : List Effect) (hwf : t.world.Wf) (hcb : t.callbacks = s.callbacks)
    (hout : outsideEvents t.act = true → s.callbacks = []) (hnc : t.act = .close → s.act = .close)
    (hrest : t.act = .closeRest ↔ s.act = .closeRest) (hcl : t.closed = s.closed)
    (hch : t.world.conn.channel = s.world.conn.channel) (htr : t.world.trace = s.world.trace ++ es)
    (hpo : t.world.poller = s.world.poller)
    (hfin : s.closed = true → t.world.conn.state = .disconnected ∧ afterClose t.act = true ∧
      ∀ e ∈ es, isOutput e = false) : Keeps s t := by
  constructor
  · refine ⟨hwf, hcb ▸ h.order, hcb ▸ hout, fun hc hev => ?_, fun hc => hcb ▸ h.closing (hnc hc),
      fun hr => hcl.trans (h.rest (hrest.1 hr)), fun hc => ?_⟩
    · rw [hch]
      exact h.event (hcl ▸ hc) (hev.imp (hcb ▸ ·) hnc)
    · obtain ⟨hst, hac, -⟩ := hfin (hcl ▸ hc)
      have hf := h.final (hcl ▸ hc)
      exact ⟨hst, hac, hcb ▸ hf.callbacks, fun hcr => hch ▸ hf.closing (hrest.1 hcr),
        fun hcr => hch ▸ hf.channel fun hs => hcr (hrest.2 hs)⟩
  · intro hc
    obtain ⟨-, -, hes⟩ := hfin hc
    exact ⟨hcl.trans hc, ⟨es, htr, hes⟩, ⟨[], by rw [hpo, List.append_nil], by simp⟩⟩

/-- Steps of the control alone. -/
theorem Inv.keeps_act (h : s.Inv) (hw : t.world = s.world) (hcb : t.callbacks = s.callbacks)
    (hout : outsideEvents t.act = true → s.callbacks = []) (hnc : t.act = .close → s.act = .close)
    (hrest : t.act = .closeRest ↔ s.act = .closeRest) (hcl : t.closed = s.closed)
    (hfin : s.closed = true → afterClose t.act = true) : Keeps s t :=
  h.keeps [] (hw ▸ h.wf) hcb hout hnc hrest hcl (by rw [hw]) (by rw [hw, List.append_nil])
    (by rw [hw]) fun hc => ⟨by rw [hw]; exact (h.final hc).state, hfin hc, by simp⟩

/-! ### The steps of the loop thread -/

theorem Inv.registered (h : s.Inv) (hr : s.registered = true) :
    s.world.conn.channel.status = .added := by
  by_contra hst
  rw [Race.registered, h.wf.synced.absent hst] at hr
  cases hr

theorem Inv.poll {revents : EventMask} (h : s.Inv) (hs : s.poll revents = some t) : Keeps s t := by
  unfold Race.poll at hs
  split at hs
  · rename_i hen
    obtain ⟨hact, -, hreg⟩ := hen
    cases hs
    have hst := h.registered hreg
    have hopen : s.closed ≠ true := by
      intro hc
      exact ((h.final hc).channel (by rw [hact]; decide)).2 hst
    refine Inv.keeps_open hopen rfl ⟨h.wf.out, h.wf.inp, h.wf.synced.added, h.wf.synced.absent⟩ ?_ ?_
      (fun _ => hst) ?_ ?_
    · have hsub := Channel.handleEventWithGuard_sublist
        { s.world.conn.channel with revents := revents }
      unfold Channel.handleEvent
      simpa using hsub
    · intro ho
      change outsideEvents s.act = true at ho
      rw [hact] at ho; cases ho
    · intro hc
      change s.act = .close at hc
      rw [hact] at hc; cases hc
    · show s.act ≠ .closeRest
      rw [hact]; decide
  · cases hs

/-- The invariant with the first callback taken off the event, and what is known of it. -/
theorem Inv.pop {cb : Callback} {cbs : List Callback} (h : s.Inv) (hact : s.act = .idle)
    (hcb : s.callbacks = cb :: cbs) :
    Inv { s with callbacks := cbs } ∧ .close ∉ cbs ∧
      (s.closed = false → s.world.conn.channel.status = .added) ∧
      (cb = .close → s.closed = false) ∧ (cb = .write → cbs = []) := by
  have hev : s.closed = false → s.world.conn.channel.status = .added :=
    fun hc => h.event hc (.inl (by rw [hcb]; simp))
  have hsub := h.order
  rw [hcb] at hsub
  have htail : cbs.Sublist [.error, .read, .write] := hsub.tail
  have hnot : .close ∉ cbs := fun hm => by simpa using htail.subset hm
  refine ⟨⟨h.wf, (List.sublist_cons_self _ _).trans hsub, ?_, fun hc _ => hev hc, fun _ => hnot,
    h.rest, ?_⟩, hnot, hev, ?_, ?_⟩
  · intro ho
    change outsideEvents s.act = true at ho
    rw [hact] at ho; cases ho
  · intro hc
    have hf := h.final hc
    exact ⟨hf.state, hf.act, hnot, hf.closing, hf.channel⟩
  · rintro rfl
    rw [Bool.eq_false_iff]
    intro hc
    exact (h.final hc).callbacks (by rw [hcb]; simp)
  · rintro rfl
    simpa [List.sublist_cons_iff] using hsub

/-- `handleClose` is called. -/
theorem Inv.toClose {w : World ι} (h : s.Inv) (hwf : w.Wf)
    (hch : w.conn.channel = s.world.conn.channel) (hopen : s.closed = false)
    (hst : s.world.conn.channel.status = .added) (hnot : .close ∉ s.callbacks) :
    Keeps s { s with world := w, act := .close } :=
  Inv.keeps_open (by rw [hopen]; decide) rfl hwf h.order nofun (fun _ => hch ▸ hst) (fun _ => hnot)
    nofun

theorem Inv.makeCallback {cb : Callback} {r : ReadResult} {r' : WriteResult} (h : s.Inv)
    (hact : s.act = .idle) (hnot : .close ∉ s.callbacks)
    (hst : s.closed = false → s.world.conn.channel.status = .added)
    (hclose : cb = .close → s.closed = false) (hwrite : cb = .write → s.callbacks = [])
    (hread : s.closed = true → ¬ (cb = .read ∧ r = .delivered []))
    (hs : s.makeCallback cb r r' = some t) : Keeps s t := by
  have hrest : Act.idle = .closeRest ↔ s.act = .closeRest := by rw [hact]
  cases cb with
  | close =>
    cases hs
    exact h.toClose h.wf rfl (hclose rfl) (hst (hclose rfl)) hnot
  | error =>
    cases hs
    exact h.keeps_act rfl rfl h.outside id Iff.rfl rfl fun hc => (h.final hc).act
  | read =>
    obtain ⟨⟨w, atEnd⟩, ho, hs⟩ := Option.map_eq_some_iff.1 hs
    cases hs
    obtain ⟨inp, hwf, ⟨rfl, rfl | rfl⟩ | ⟨rfl, rfl, rfl⟩⟩ :=
      World.readInput_ok h.wf (toOption_eq_some.1 ho)
    · exact h.keeps [] hwf rfl nofun nofun hrest rfl rfl (List.append_nil _).symm rfl
        fun hc => ⟨(h.final hc).state, rfl, by simp⟩
    · exact h.keeps [.messageCallback] (hwf.emit _) rfl nofun nofun hrest rfl rfl rfl rfl
        fun hc => ⟨(h.final hc).state, rfl, by simp [isOutput]⟩
    · have hopen : s.closed = false :=
        Bool.eq_false_iff.2 fun hc => hread hc ⟨rfl, rfl⟩
      exact h.toClose hwf rfl hopen (hst hopen) hnot
  | write =>
    change (if r'.Legal _ then _ else _) = some t at hs
    split at hs
    · obtain ⟨⟨w, drained⟩, ho, hs⟩ := Option.map_eq_some_iff.1 hs
      cases hs
      have ho' := toOption_eq_some.1 ho
      by_cases hc : s.closed = true
      · -- The channel writes no more.
        have hoff := ((h.final hc).channel (by rw [hact]; decide)).1
        rw [World.drain_not_writing hoff] at ho'
        cases ho'
        exact h.keeps_act rfl rfl nofun nofun hrest rfl fun _ => rfl
      · have hd := World.drain_ok h.wf ho'
        have hac : (if drained = true then Act.finishWrite else .idle) ≠ .close ∧
            (if drained = true then Act.finishWrite else .idle) ≠ .closeRest := by
          split <;> decide
        refine Inv.keeps_open hc rfl hd.wf h.order (fun _ => hwrite rfl) ?_ (fun hcl => absurd hcl hac.1)
          hac.2
        rintro (hev | hev)
        · exact absurd (hwrite rfl) hev
        · exact absurd hev hac.1
    · cases hs

/-- A callback of an event. On a closed connection it must not read the end of the input. -/
theorem Inv.callback {r : ReadResult} {r' : WriteResult} (h : s.Inv)
    (hsp : s.closed = true → ¬ (s.callbacks.head? = some .read ∧ r = .delivered []))
    (hs : s.callback r r' = some t) : Keeps s t := by
  unfold Race.callback at hs
  split at hs
  · rename_i cb cbs hact hcb
    obtain ⟨hinv, hnot, hst, hclose, hwrite⟩ := h.pop hact hcb
    have hk := hinv.makeCallback hact hnot hst hclose hwrite
      (fun hc hr => hsp hc ⟨by rw [hcb, ← hr.1]; rfl, hr.2⟩) hs
    exact ⟨hk.inv, hk.quiet⟩
  · cases hs

/-- A functor of the queue. On a closed connection it must not be a half-close. -/
theorem Inv.functor {r : WriteResult} (h : s.Inv)
    (hsp : s.closed = true → s.nextFunctor ≠ some .shutdownInLoop)
    (hs : s.functor r = some t) : Keeps s t := by
  unfold Race.functor at hs
  split at hs
  · rename_i hen
    obtain ⟨hact, hcb⟩ := hen
    obtain ⟨f, hf, hs⟩ := Option.map_eq_some_iff.1 hs
    subst hs
    have hkeep : Keeps s { s with ran := s.ran + 1 } :=
      h.keeps_act rfl rfl h.outside id Iff.rfl rfl fun hc => (h.final hc).act
    cases f with
    | sendInLoop msg =>
      exact h.keeps_act rfl rfl nofun nofun (by rw [hact]; simp [runFunctor]) rfl fun _ => rfl
    | shutdownInLoop =>
      exact h.keeps _ h.wf.shutdownInLoop rfl h.outside id Iff.rfl rfl
        (congrArg (·.channel) (World.shutdownInLoop_conn _))
        (congrArg World.trace (World.shutdownInLoop_eq _)) (World.shutdownInLoop_poller _)
        fun hc => absurd hf (hsp hc)
    | writeComplete => exact hkeep
    | highWaterMark len => exact hkeep
  · cases hs

/-- The store of `handleClose`. -/
theorem Inv.close (h : s.Inv) (hact : s.act = .close) :
    Keeps s { s with world := s.world.setState .disconnected, act := .closeRest, closed := true } := by
  have hc : s.closed ≠ true := by
    intro hc
    have := (h.final hc).act
    rw [hact] at this; cases this
  have hst := h.event (Bool.eq_false_iff.2 hc) (.inr hact)
  refine ⟨⟨h.wf.setState _, h.order, nofun, nofun, nofun, fun _ => rfl, fun _ => ?_⟩,
    fun hc' => absurd hc' hc⟩
  exact ⟨rfl, rfl, h.closing hact, fun _ => hst, fun hn => absurd rfl hn⟩

theorem Inv.closeRest {w : World ι} (h : s.Inv) (hact : s.act = .closeRest)
    (ho : s.world.closeRest = .ok w) : Keeps s (s.done w) := by
  have hc := h.rest hact
  have hf := h.final hc
  have hst := hf.closing hact
  have hcl := World.closeRest_ok h.wf ho
  refine ⟨⟨hcl.wf, h.order, nofun, fun ho => ?_, nofun, nofun, fun _ => ?_⟩,
    fun _ => ⟨hc, hcl.quiet hst⟩⟩
  · change s.closed = false at ho
    rw [hc] at ho; cases ho
  · refine ⟨?_, rfl, hf.callbacks, nofun, fun _ => hcl.unregistered hst⟩
    show w.conn.state = _
    rw [hcl.eq]
    exact hf.state

/-- The end of `connectDestroyed`. -/
theorem Inv.remove {w : World ι} (h : s.Inv) (hact : s.act = .remove)
    (ho : s.world.channelOp .remove = .ok w) : Keeps s (s.done w) := by
  have hnil := h.outside (by rw [hact]; rfl)
  obtain ⟨heq, -, hd⟩ := World.channelOp_ok h.wf.synced ho
  refine ⟨⟨h.wf.channelOp ho, h.order, nofun, fun _ hev => ?_, nofun, nofun, fun hc => ?_⟩,
    fun hc => ⟨hc, ?_⟩⟩
  · rcases hev with hev | hev
    · exact absurd hnil hev
    · cases hev
  · have hf := h.final hc
    have hch := hf.channel (by rw [hact]; decide)
    refine ⟨?_, rfl, hf.callbacks, nofun, fun _ => ⟨?_, ?_⟩⟩
    · show w.conn.state = _
      rw [heq]
      exact hf.state
    · show w.conn.channel.isWriting = _
      rw [hd.isWriting, ← hch.1, Channel.isWriting_eq]
      rfl
    · show w.conn.channel.status ≠ _
      rw [hd.status, if_pos rfl]
      decide
  · have hch := (h.final hc).channel (by rw [hact]; decide)
    refine .of_eq (by show w.trace = _; rw [heq]) ?_
    show w.poller.calls = _
    rw [hd.calls, opCalls, if_pos rfl, removeCalls, if_neg hch.2, List.append_nil]

theorem Inv.proceed {logErrno : Errno → Errno} (h : s.Inv) (hs : s.proceed logErrno = some t) :
    Keeps s t := by
  have hopen : afterClose s.act = false → s.closed ≠ true := by
    intro ha hc
    rw [(h.final hc).act] at ha; cases ha
  unfold Race.proceed at hs
  split at hs
  · cases hs
  · rename_i hact
    cases hs
    exact h.keeps_outside (hopen (by rw [hact]; rfl)) (by rw [hact]; rfl) rfl rfl (h.wf.setState _)
      nofun nofun
  · rename_i hact
    obtain ⟨w, ho, hs⟩ := Option.map_eq_some_iff.1 hs
    cases hs
    exact h.keeps_outside (hopen (by rw [hact]; rfl)) (by rw [hact]; rfl) rfl rfl
      (h.wf.establishRest (toOption_eq_some.1 ho)) nofun nofun
  · rename_i inData r hact
    split at hs
    · rename_i hr
      obtain ⟨w, ho, hs⟩ := Option.map_eq_some_iff.1 hs
      cases hs
      have hrest : Act.idle = .closeRest ↔ s.act = .closeRest := by rw [hact]; simp
      rcases World.sendInLoop_ok h.wf hr (toOption_eq_some.1 ho) with ⟨-, rfl⟩ | ⟨hst, hsent⟩
      · exact h.keeps_act rfl rfl nofun nofun hrest rfl fun _ => rfl
      · have hc : s.closed ≠ true := fun hc => hst (h.final hc).state
        refine Inv.keeps_open hc rfl hsent.wf h.order nofun (fun hev => ?_) nofun nofun
        exact hsent.added (h.event (Bool.eq_false_iff.2 hc) (.inl (hev.resolve_right nofun)))
    · cases hs
  · rename_i hact
    cases hs
    have hc := hopen (by rw [hact]; rfl)
    refine Inv.keeps_open hc rfl (h.wf.setState _).shutdownInLoop h.order nofun (fun hev => ?_) nofun
      nofun
    show (World.shutdownInLoop _).conn.channel.status = _
    rw [World.shutdownInLoop_conn]
    exact h.event (Bool.eq_false_iff.2 hc) (.inl (hev.resolve_right nofun))
  · rename_i hact
    cases hs
    exact h.close hact
  · rename_i hact
    obtain ⟨w, ho, hs⟩ := Option.map_eq_some_iff.1 hs
    cases hs
    exact h.closeRest hact (toOption_eq_some.1 ho)
  · rename_i hact
    cases hs
    have hc := hopen (by rw [hact]; rfl)
    refine Inv.keeps_open hc rfl h.wf.finishWrite h.order nofun (fun hev => ?_) nofun nofun
    show (World.finishWrite _).conn.channel.status = _
    rw [World.finishWrite_conn]
    exact h.event (Bool.eq_false_iff.2 hc) (.inl (hev.resolve_right nofun))
  · rename_i hact
    cases hs
    exact h.keeps_outside (hopen (by rw [hact]; rfl)) (by rw [hact]; rfl) rfl rfl (h.wf.setState _)
      nofun nofun
  · rename_i hact
    obtain ⟨w, ho, hs⟩ := Option.map_eq_some_iff.1 hs
    cases hs
    exact h.keeps_outside (hopen (by rw [hact]; rfl)) (by rw [hact]; rfl) rfl rfl
      (World.destroyConnected_ok h.wf (toOption_eq_some.1 ho)).wf nofun nofun
  · rename_i hact
    obtain ⟨w, ho, hs⟩ := Option.map_eq_some_iff.1 hs
    cases hs
    exact h.remove hact (toOption_eq_some.1 ho)

theorem Inv.isConnected (h : s.Inv) (hc : s.closed = true) : s.world.conn.isConnected = false := by
  rw [TcpConnection.isConnected, (h.final hc).state]
  rfl

theorem inv_start (h : w₀.Constructed) : (start w₀ : Race ι T).Inv where
  wf := h.wf
  order := List.nil_sublist _
  outside _ := rfl
  event _ hev := absurd rfl (hev.resolve_right nofun)
  closing := nofun
  rest := nofun
  final := nofun

/-! ### The steps of other threads, and runs -/

variable [DecidableEq T] {logErrno : Errno → Errno} {a : RaceStep T} {as : List (RaceStep T)}

/-- Another thread moves on, and the loop thread stays where it is. -/
theorem Inv.moveTo (h : s.Inv) (c : T) (p : Caller) : Keeps s (s.moveTo c p) :=
  h.keeps_act rfl rfl h.outside id Iff.rfl rfl fun hc => (h.final hc).act

/-- A step of another thread. On a closed connection it must not be the store of `shutdown`. -/
theorem Inv.foreignProceed {c : T} (h : s.Inv) (hsp : s.closed = true → s.position c ≠ .shutdown)
    (hs : s.foreignProceed c = some t) : Keeps s t := by
  unfold Race.foreignProceed at hs
  split at hs
  · cases hs
  · cases hs
    exact h.keeps [_] (h.wf.emit _) rfl h.outside id Iff.rfl rfl rfl rfl rfl
      fun hc => ⟨(h.final hc).state, (h.final hc).act, by simp [isOutput]⟩
  · rename_i hpos
    cases hs
    exact h.keeps [] (h.wf.setState _) rfl h.outside id Iff.rfl rfl rfl (List.append_nil _).symm rfl
      fun hc => absurd hpos (hsp hc)
  · cases hs
    exact h.keeps [_] (h.wf.emit _) rfl h.outside id Iff.rfl rfl rfl rfl rfl
      fun hc => ⟨(h.final hc).state, (h.final hc).act, by simp [isOutput]⟩

/-- The steps that a closed connection does not bear: the callback that reads the end of the input,
the functor of a half-close, and the store of another thread's `shutdown`. -/
def Spares (s : Race ι T) : RaceStep T → Prop
  | .callback r _ => s.closed = true → ¬ (s.callbacks.head? = some .read ∧ r = .delivered [])
  | .functor _ => s.closed = true → s.nextFunctor ≠ some .shutdownInLoop
  | .foreignProceed c => s.closed = true → s.position c ≠ .shutdown
  | _ => True

instance (s : Race ι T) (a : RaceStep T) : Decidable (s.Spares a) := by
  cases a <;> unfold Spares <;> infer_instance

theorem Inv.step (h : s.Inv) (hsp : s.Spares a) (hs : step logErrno s a = some t) : Keeps s t := by
  cases a with
  | poll revents => exact h.poll hs
  | callback r r' => exact h.callback hsp hs
  | functor r => exact h.functor hsp hs
  | proceed => exact h.proceed hs
  | foreignProceed c => exact h.foreignProceed hsp hs
  | foreignSend c inMsg =>
    simp only [Race.step] at hs
    split at hs
    · cases hs; exact h.moveTo c _
    · cases hs
  | foreignShutdown c =>
    simp only [Race.step] at hs
    split at hs
    · cases hs; exact h.moveTo c _
    · cases hs
  | send inMsg r =>
    simp only [Race.step] at hs
    split at hs
    · rename_i hact
      cases hs
      cases hcon : s.world.conn.isConnected with
      | true => exact h.keeps_act rfl rfl nofun nofun (by rw [hact]; simp) rfl fun _ => rfl
      | false => exact h.keeps_act rfl rfl nofun nofun (by rw [hact]; simp) rfl fun _ => rfl
    · cases hs
  | shutdown =>
    simp only [Race.step] at hs
    split at hs
    · rename_i hact
      cases hs
      cases hcon : s.world.conn.isConnected with
      | true =>
        refine h.keeps_act rfl rfl nofun nofun (by rw [hact]; simp) rfl fun hc => ?_
        rw [h.isConnected hc] at hcon; cases hcon
      | false => exact h.keeps_act rfl rfl nofun nofun (by rw [hact]; simp) rfl fun _ => rfl
    · cases hs
  | connectDestroyed =>
    simp only [Race.step] at hs
    split at hs
    · rename_i hen
      obtain ⟨hact, hcb⟩ := hen
      cases hs
      cases hcon : s.world.conn.isConnected with
      | true =>
        refine h.keeps_act rfl rfl (fun _ => hcb) nofun (by rw [hact]; simp) rfl fun hc => ?_
        rw [h.isConnected hc] at hcon; cases hcon
      | false =>
        exact h.keeps_act rfl rfl (fun _ => hcb) nofun (by rw [hact]; simp) rfl fun _ => rfl
    · cases hs

theorem run_inv_final (h : s.Inv) (hC : Along (step logErrno) Spares s as)
    (hr : run (step logErrno) s as = some t) : t.Inv :=
  run_inv_along (fun _ _ _ hsp hs hi => (hi.step hsp hs).inv) hC hr h

/-- A run from a closed connection is quiet. -/
theorem run_quiet (h : s.Inv) (hc : s.closed = true) (hC : Along (step logErrno) Spares s as)
    (hr : run (step logErrno) s as = some t) : t.closed = true ∧ World.Quiet s.world t.world := by
  have hI : t.Inv ∧ t.closed = true ∧ World.Quiet s.world t.world := by
    refine run_inv_along (I := fun u => u.Inv ∧ u.closed = true ∧ World.Quiet s.world u.world)
      (fun u a v hsp hs hu => ?_) hC hr ⟨h, hc, .refl _⟩
    obtain ⟨hi, huc, hq⟩ := hu
    have hk := hi.step hsp hs
    obtain ⟨hvc, hq'⟩ := hk.quiet huc
    exact ⟨hk.inv, hvc, hq.trans hq'⟩
  exact hI.2

/-- In a run that spares closed connections: once `handleClose` has stored `Disconnected` the state
stays so, nothing is written to the socket or half-closed, and the channel is not registered again. -/
theorem disconnected_final (logErrno : Errno → Errno) (as bs : List (RaceStep T))
    (h₀ : w₀.Constructed) (hC : Along (step logErrno) Spares (start w₀) (as ++ bs))
    (hr : run (step logErrno) (start w₀) as = some s) (hc : s.closed = true)
    (hr' : run (step logErrno) s bs = some t) :
    t.world.conn.state = .disconnected ∧
      (∃ es, t.world.trace = s.world.trace ++ es ∧ ∀ e ∈ es, isOutput e = false) ∧
      ∃ ks, t.world.poller.calls = s.world.poller.calls ++ ks ∧ ∀ k ∈ ks, k.op = .del := by
  obtain ⟨hCa, hCb⟩ := hC.append
  have hs := run_inv_final (inv_start h₀) hCa hr
  obtain ⟨htc, hq⟩ := run_quiet hs hc (hCb s hr) hr'
  have ht := run_inv_final hs (hCb s hr) hr'
  exact ⟨(ht.final htc).state, hq.trace, hq.calls⟩

set_option maxRecDepth 20000 in
/-- A connection closed with another thread between a send and its answer, and nothing else going
on. -/
theorem disconnected_final_eof : ∃ s t : Race Unit Bool,
    run (step id) (start (World.alone 5 ())) [.proceed, .proceed, .foreignSend false [1, 2],
      .poll EPOLLIN, .callback (.delivered []) (.accepted 0), .proceed] = some s ∧
    run (step id) s [.proceed, .foreignProceed false, .functor (.accepted 2), .proceed] = some t ∧
    t.world.conn.state = .disconnected := by
  refine ⟨_, _, rfl, rfl, ?_⟩
  exact (disconnected_final id [.proceed, .proceed, .foreignSend false [1, 2], .poll EPOLLIN,
    .callback (.delivered []) (.accepted 0), .proceed] [.proceed, .foreignProceed false,
    .functor (.accepted 2), .proceed] (World.alone_constructed 5 ()) (by decide +kernel) rfl rfl rfl).1

set_option maxRecDepth 20000 in
/-- Thread `true` is in `shutdown`, its test behind it and its store ahead, when the connection is
closed: `Disconnecting` is stored over `Disconnected`, and a message of thread `false` is then written
to the socket and the channel registered again. -/
theorem disconnected_overwritten : ∃ s t : Race Unit Bool,
    run (step id) (start (World.alone 5 ())) [.proceed, .proceed, .foreignSend false [1, 2],
      .foreignShutdown true, .poll EPOLLIN, .callback (.delivered []) (.accepted 0),
      .proceed] = some s ∧
    s.closed = true ∧ s.world.conn.state = .disconnected ∧
    run (step id) s [.proceed, .foreignProceed true, .foreignProceed false, .functor (.accepted 1),
      .proceed] = some t ∧
    t.world.conn.state = .disconnecting ∧
    t.world.trace = s.world.trace ++
      [.queueInLoop (.sendInLoop [1, 2]), .write [1, 2] (.accepted 1)] ∧
    t.world.poller.calls = s.world.poller.calls ++ [⟨.del, 5, true⟩, ⟨.add, 5, true⟩] := by
  refine ⟨_, _, rfl, rfl, rfl, rfl, ?_, ?_, ?_⟩
  · decide +kernel
  · decide +kernel
  · decide +kernel

end Race
end Muduo
