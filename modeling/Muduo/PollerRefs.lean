import Muduo.Lib.Lts
import Muduo.ServerRoots

/-!
# No poller refers to a destroyed channel

`~TcpServer` drops the map and ends the pool: no `connectDestroyed` is queued for the connections in the map,
as `removeConnectionInLoop` queues one. A connection that is not closed and has no other pointer goes
with the map, and its channel stays with its poller; a `connectDestroyed` that waits in a loop of the pool may
go with the loop. The same happens wherever else the last pointer to such a connection is dropped; over the
runs in which none is, `Rooted` holds, and every connection that a poller refers to has an owner.
-/

namespace Muduo
open EPollPoller ServerLoop Lts

namespace TcpServer
variable {s t : TcpServer} {c l : Nat} {w : World Nat} {a : ServerStep} {as : List ServerStep}
  {rest : List Job} {logErrno : Errno → Errno}

/-! ### Handlers -/

theorem Rooted.handling (h : s.Rooted)
    (hl : ((s.loop l).view c).active ≠ [] ∨ ((s.loop l).view c).events ≠ []) :
    l = (s.conn c).loop ∧ (s.conn c).tcp.state ≠ .connecting ∧ s.Present c := by
  by_cases hc : c < s.accepted
  · exact (h.roots c hc).handling l hl
  · rw [h.fresh c (Nat.le_of_not_lt hc)] at hl
    simp at hl

/-- The loop goes on with the jobs it has. -/
theorem Rooted.moved {q : ServerLoop} (h : s.Rooted) (hp : q.poller = (s.loop l).poller)
    (he : q.ended = (s.loop l).ended) (hq : q.Shape) (hview : ∀ c, q.view c = (s.loop l).view c) :
    (s.setLoop l q).Rooted := by
  refine h.setLoop (.inl ⟨hp, he⟩) hq (fun c => by rw [hview]) fun c hev => h.handling ?_
  rwa [hview] at hev

/-- A loop in the middle of something has not ended. -/
theorem Rooted.running (h : s.Rooted) (hbusy : (s.loop l).phase ≠ .polling) :
    (s.loop l).ended = false := Bool.eq_false_iff.2 fun he => hbusy ((h.shape l).ended he)

/-- Any function of an established connection but those that close it. -/
theorem Rooted.did {a : ConnStep Nat} (logErrno : Errno → Errno) (h : s.Rooted) (hp : s.Present c)
    (hend : (s.loop (s.conn c).loop).ended = false) (hne : (s.conn c).tcp.state ≠ .connecting)
    (hd : ConnStep.Did logErrno (s.world c) a w) (ha : ¬ a.Closes) (ho : a.Own) (he : World.EntryKept (s.world c) w)
    (hst : w.conn.state = (s.conn c).tcp.state ∨
      (s.conn c).tcp.state = .connected ∧ w.conn.state = .disconnecting) :
    (s.absorb c w).Rooted := by
  refine h.absorb hp (hd.keeps ho) (hd.uncalled ha (uncalled_world s c)) he hst ?_
  have hs := (h.root hp).standing hp hend
  have hwf := hd.wf hs.wf
  have forget : World.Wf { w with trace := [] } := ⟨hwf.out, hwf.inp, hwf.synced⟩
  have flowing (hf : (s.world c).Flowing) : World.Flowing { w with trace := [] } :=
    (hd.flowing hf ha).congr forget rfl rfl
  rcases hst with heq | ⟨hcon, heq⟩
  · rw [heq]
    revert hs hne
    cases (s.conn c).tcp.state with
    | connecting => exact fun hne => absurd rfl hne
    | connected => exact fun _ hs => flowing hs
    | disconnecting => exact fun _ hs => flowing hs
    | disconnected => exact fun _ _ => forget
  · rw [heq]
    rw [hcon] at hs
    exact flowing hs

/-- The log does not count. -/
theorem Rooted.mark_handler (h : s.Rooted) (hp : s.Present c) (cb : Callback) :
    (s.mark c (.handler cb)).Rooted := by
  have hr := h.root hp
  have hconn := conn_mark_self s c (.handler cb)
  have hpt : (s.mark c (.handler cb)).Present c := by rw [Present, hconn]; exact hp
  refine h.touch .mark hp h.shape ⟨?_, ?_, ?_, fun _ hend => ?_, fun l hl => ?_, .inl hpt, fun hst => ?_⟩
    (fun c' hr' => ⟨h.refs_own hp hr', hpt⟩) fun c' hne _ hh => ?_
  · rw [hconn]; exact hr.loop_le
  · rw [hconn]; exact hr.closeCallback
  · rw [hconn]; exact hr.scheduled
  · rw [hconn] at hend
    rw [world_mark, hconn]
    exact hr.standing hp hend
  · obtain ⟨hl', hne, -⟩ := hr.handling l hl
    rw [hconn]
    exact ⟨hl', hne, hpt⟩
  · rw [hconn] at hst
    rw [Held, hconn]
    exact hr.held hst
  · rw [Held, show (s.mark c _).conn c' = s.conn c' from Function.update_of_ne hne ..]
    exact hh

/-- `handleClose`, called by itself or at the end of the input. -/
theorem Rooted.handleClose (h : s.Rooted) (hp : s.Present c)
    (hne : (s.conn c).tcp.state ≠ .connecting) (hbusy : (s.loop (s.conn c).loop).phase ≠ .polling)
    (hwf : w.Wf) (hk : World.Kept (s.world c) w) (hpoller : w.poller = (s.world c).poller)
    (ho : s.handleClose c w = some t) : t.Rooted := by
  obtain ⟨v, hv, rfl⟩ := Option.map_eq_some_iff.1 ho
  have hc := World.closeRest_ok (hwf.setState .disconnected) (toOption_eq_some.1 hv)
  have hfd : w.conn.channel.fd = (s.world c).conn.channel.fd := hk.fd
  have hentry : World.EntryKept (s.world c) v := by
    intro i hi
    rw [← hfd] at hi ⊢
    rcases World.EntryKept.of_op hc.disabled i hi with hptr | hold
    · exact .inl (hptr.trans hk.ptr)
    · exact .inr (hpoller ▸ hold)
  exact h.closed hp hne hbusy ((hk.trans (World.setState_kept _)).trans hc.kept)
    (hc.closeCallback_mem (hk.closeCallback.trans (h.root hp).closeCallback)) hentry hc.wf
    (by rw [hc.eq]; rfl)

theorem Rooted.makeCallback {cb : Callback} {r : ReadResult} {r' : WriteResult} (h : s.Rooted)
    (hp : s.Present c) (hne : (s.conn c).tcp.state ≠ .connecting)
    (hbusy : (s.loop (s.conn c).loop).phase ≠ .polling) (ho : s.makeCallback c cb r r' = some t) :
    t.Rooted := by
  have hend := h.running hbusy
  have hwf := ((h.root hp).standing hp hend).wf
  cases makeCallback_some ho with
  | close ho => exact h.handleClose hp hne hbusy hwf .rfl rfl ho
  | error =>
    rw [World.handleError, absorb_world]
    exact h
  | read hv =>
    obtain ⟨inp, hwf, ⟨-, hw⟩ | ⟨hend, -⟩⟩ := World.readInput_ok hwf hv
    · rcases hw with rfl | rfl
      · exact h.did id hp hend hne (.read (r := .delivered [0]) hwf) (by simp [ConnStep.Closes]) trivial
          (.of_same rfl) (.inl rfl)
      · exact h.did id hp hend hne (.delivered (r := .delivered [0]) hwf) (by simp [ConnStep.Closes])
          trivial (.of_same rfl) (.inl rfl)
    · cases hend
  | readEnd hv ho =>
    obtain ⟨inp, hwf, ⟨hmore, -⟩ | ⟨-, -, rfl⟩⟩ := World.readInput_ok hwf hv
    · cases hmore
    · exact h.handleClose hp hne hbusy hwf (World.received_kept inp) rfl ho
  | write hv =>
    obtain ⟨u, b, hu⟩ := World.drain_returns (r := r') hwf
    rw [World.handleWrite, hu] at hv
    cases hv
    have hd := World.drain_ok hwf hu
    exact h.did id hp hend hne (.drained hd) not_false trivial hd.entryKept
      (.inl (by rw [World.finishWrite_conn, hd.eq]; rfl))

theorem Rooted.inHandler {cb : Callback} {cbs : List Callback} (h : s.Rooted)
    (hst : (s.loop l).stack = .handleEvent c (cb :: cbs) :: rest) :
    ((s.setLoop l ((s.loop l).pop rest)).enter l (.handleEvent c cbs)).Rooted := by
  have hpop := view_pop_event hst
  rw [enter_setLoop]
  refine h.setLoop (.inl ⟨rfl, rfl⟩) ((h.shape l).handler hst) (fun c' => ?_) fun c' hev => ?_
  · by_cases hc : c' = c
    · rw [hc, view_push_event, hpop]
    · rw [view_push_of_ne (Ne.symm hc), view_pop_of_ne hst (Ne.symm hc)]
  · refine h.handling ?_
    by_cases hc : c' = c
    · rw [hc, hpop]
      exact .inr (List.cons_ne_nil _ _)
    · rwa [view_push_of_ne (Ne.symm hc), view_pop_of_ne hst (Ne.symm hc)] at hev

theorem Rooted.handleEvent {cb : Callback} {cbs : List Callback} {r : ReadResult} {r' : WriteResult}
    (h : s.Rooted) (hst : (s.loop l).stack = .handleEvent c (cb :: cbs) :: rest)
    (ho : (((s.setLoop l ((s.loop l).pop rest)).enter l (.handleEvent c cbs)).mark c
      (.handler cb)).makeCallback c cb r r' = some t) : t.Rooted := by
  have hin := h.inHandler hst
  have hbusy : (((s.setLoop l ((s.loop l).pop rest)).enter l (.handleEvent c cbs)).loop l).phase ≠
      .polling := by
    rw [enter_setLoop, loop_setLoop, if_pos rfl]
    exact (h.shape l).not_polling hst
  obtain ⟨hl, hne, hp⟩ := hin.handling (l := l) (c := c) <| .inr <| by
    rw [enter_setLoop, loop_setLoop, if_pos rfl, view_push_event]
    exact List.cons_ne_nil _ _
  refine (hin.mark_handler hp cb).makeCallback ?_ ?_ ?_ ho
  · rw [Present, conn_mark_self]; exact hp
  · rw [conn_mark_self]; exact hne
  · rw [conn_mark_self, ← hl]; exact hbusy

/-- The job in hand is dropped: a user's callback, or a handler that has no more to do. -/
theorem Rooted.finish {j : Job} (h : s.Rooted) (hst : (s.loop l).stack = j :: rest)
    (hj : j = .userCallback c ∨ j = .handleEvent c []) :
    (s.setLoop l ((s.loop l).pop rest)).Rooted := by
  refine h.setLoop (.inl ⟨rfl, rfl⟩) ((h.shape l).pop hst) (fun c' => ?_) fun c' hev => ?_
  · rw [view_pop hst]
    rcases hj with rfl | rfl
    · rfl
    · rfl
  · refine h.handling (hev.imp (fun ha => ?_) fun he => ?_)
    · rw [view_pop hst]; exact ha
    · rw [view_pop hst]; simp [he]

/-! ### Jobs -/

/-- The key that the loop is about to erase from the map. -/
def erasing (s : TcpServer) (l : Nat) : Option String :=
  match (s.loop l).stack with
  | .removeConnectionInLoop c :: _ => some (s.conn c).name
  | _ => none

/-- The loop's next part of a job calls the close callback. -/
def closingNext (s : TcpServer) (l : Nat) (r : ReadResult) : Bool :=
  match (s.loop l).stack with
  | .handleEvent _ (.close :: _) :: _ => true
  | .handleEvent _ (.read :: _) :: _ => r = .delivered []
  | _ => false

/-- Every connection of the loop has been established, and been destroyed if it is closed. -/
def Finished (s : TcpServer) (l : Nat) : Prop :=
  ∀ l' ≤ s.numThreads, ∀ j ∈ (s.loop l').jobs, j.lifecycle = true → (s.conn j.conn).loop ≠ l

instance (s : TcpServer) (l : Nat) : Decidable (s.Finished l) := by unfold Finished; infer_instance

/-- No connection that is not closed loses its last pointer but a loop's: by the server's end, by the
user's dropping it, or by another connection's entry in the map under its name or that entry's erasure. The
server is not destroyed with a removal on its way, nor is a connection closed after that, and a loop ends
only when it is finished. No other thread calls `send` or `shutdown`. -/
def KeepsOpen (s : TcpServer) : ServerStep → Prop
  | .accept _ => ∀ c < s.accepted, s.Unclosed c → s.connections s.connName = some c → 0 < s.held c
  | .proceed l r _ => (s.closingNext l r = true → s.alive = true) ∧
      ∀ c < s.accepted, s.Unclosed c → s.erasing l = some (s.conn c).name →
        s.connections (s.conn c).name = some c → 0 < s.held c
  | .release c => s.Unclosed c → s.held c = 1 → s.connections (s.conn c).name = some c
  | .foreignSend _ _ => False
  | .foreignShutdown _ => False
  | .destroyServer => (∀ l ≤ s.numThreads, ∀ j ∈ (s.loop l).jobs, j.removal = false) ∧
      ∀ c < s.accepted, s.Unclosed c → 0 < s.held c
  | .destroyFunctors l => (s.loop l).quit = true → s.Finished l
  | _ => True

instance (s : TcpServer) : (a : ServerStep) → Decidable (s.KeepsOpen a)
  | .accept _ => by dsimp only [KeepsOpen]; infer_instance
  | .proceed _ _ _ => by dsimp only [KeepsOpen]; infer_instance
  | .release _ => by dsimp only [KeepsOpen]; infer_instance
  | .destroyServer => by dsimp only [KeepsOpen]; infer_instance
  | .destroyFunctors _ => by dsimp only [KeepsOpen]; infer_instance
  | .foreignSend _ _ | .foreignShutdown _ => .isFalse id
  | .poll _ _ | .dispatch _ | .swap _ | .call _ | .send _ _ _ | .shutdown _ | .hold _ | .quitLoop _ =>
    .isTrue trivial

theorem Rooted.perform {j : Job} {r : ReadResult} {r' : WriteResult} (h : s.Rooted)
    (ha : s.KeepsOpen (.proceed l r r')) (hst : (s.loop l).stack = j :: rest)
    (ho : (s.setLoop l ((s.loop l).pop rest)).perform logErrno l r r' j = some t) : t.Rooted := by
  cases j with
  | establish c =>
    cases ho
    exact h.establish (h.inHand hst rfl)
  | connectEstablished c =>
    obtain ⟨w, hw, rfl⟩ := Option.map_eq_some_iff.1 ho
    exact h.connectEstablished (h.inHand hst rfl) (toOption_eq_some.1 hw)
  | handleEvent c cbs =>
    cases cbs with
    | nil =>
      cases ho
      exact h.finish hst (.inr rfl)
    | cons cb cbs => exact h.handleEvent hst ho
  | removeConnection c =>
    cases ho
    exact h.removeConnection (h.inHand hst rfl)
  | removeConnectionInLoop c =>
    cases ho
    refine h.removeConnectionInLoop (h.inHand hst rfl) fun c' hopen hname hmap => ?_
    exact ha.2 c' hopen.1 hopen (by rw [hname, erasing, hst]) hmap
  | queueDestroyed c =>
    cases ho
    exact h.queueDestroyed (h.inHand hst rfl)
  | connectDestroyed c =>
    obtain ⟨w, hw, rfl⟩ := Option.map_eq_some_iff.1 ho
    exact h.connectDestroyed (h.inHand hst rfl) (toOption_eq_some.1 hw)
  | userCallback c =>
    cases ho
    exact h.finish hst (.inl rfl)
  | sendInLoop c msg =>
    have := (h.shape l).stack_owns hst
    cases this
  | shutdownInLoop c =>
    have := (h.shape l).stack_owns hst
    cases this

/-! ### Owners -/

theorem Held.owned (h : s.Held c) : s.owned c = true := by
  rw [owned_iff]
  exact h.imp_right .inl

/-- A connection that is present has not been destroyed. -/
theorem Rooted.owned (h : s.Rooted) (hp : s.Present c) : s.owned c = true := by
  have hr := h.root hp
  by_cases hst : (s.conn c).tcp.state = .disconnected
  · obtain ⟨l, hl⟩ := hp.2.resolve_left fun hne => hne hst
    obtain ⟨j, hj⟩ := List.exists_mem_of_ne_nil _ hl
    obtain ⟨-, hcl⟩ := hr.scheduled.closing (by simp [hst]) hj
    obtain ⟨hjobs, hjc⟩ := List.mem_filter.1 hj
    rw [Bool.and_eq_true, beq_iff_eq] at hjc
    have hle : l ≤ s.numThreads := by
      rcases hcl with ⟨-, rfl⟩ | ⟨-, rfl⟩ | ⟨-, rfl⟩ | ⟨-, rfl⟩
      · exact hr.loop_le
      · exact Nat.zero_le _
      · exact Nat.zero_le _
      · exact hr.loop_le
    exact HasOwner.owned (.inr ⟨l, hle, j, hjobs, (h.shape l).owns j hjobs, hjc.2⟩)
  · exact (hr.held hst).owned

/-- No connection that is present has the fd. -/
theorem Rooted.fd_ne {inSockfd : Int} (h : s.Rooted) (hfresh : s.freshFd inSockfd = true)
    (hp : s.Present c) : (s.conn c).tcp.channel.fd ≠ inSockfd := by
  have := List.all_eq_true.1 hfresh c (List.mem_range.2 hp.1)
  rw [h.owned hp] at this
  simpa using this

/-! ### Accepting and polling -/

theorem Rooted.accept {inSockfd : Int} (h : s.Rooted) (hp : (s.loop 0).phase ≠ .polling)
    (hfresh : s.freshFd inSockfd = true) (ha : s.KeepsOpen (.accept inSockfd)) :
    (s.newConnection inSockfd).Rooted := by
  have hfree : s.Free s.accepted := fun l => by rw [h.fresh _ (Nat.le_refl _)]
  have hself := newConnection_self s inSockfd
  have old (c : Nat) (hc : c < s.accepted) :
      (s.newConnection inSockfd).conn c = s.conn c ∧
        ∀ l, ((s.newConnection inSockfd).loop l).view c = (s.loop l).view c := by
    have hne : c ≠ s.accepted := Nat.ne_of_lt hc
    exact ⟨newConnection_of_ne hne, view_newConnection_of_ne hne⟩
  have present (c : Nat) (hc : c < s.accepted) :
      (s.newConnection inSockfd).Present c ↔ s.Present c := by
    rw [Present, Present, (old c hc).1]
    simp only [(old c hc).2]
    show c < s.accepted + 1 ∧ _ ↔ _
    constructor
    · exact fun hpc => ⟨hc, hpc.2⟩
    · exact fun hpc => ⟨Nat.lt_succ_of_lt hc, hpc.2⟩
  have lt_or_eq (c : Nat) (hc : c < s.accepted + 1) : c < s.accepted ∨ c = s.accepted := by omega
  have hnew : (s.newConnection inSockfd).Present s.accepted := by
    refine ⟨Nat.lt_succ_self _, .inl ?_⟩
    simp [hself, TcpConnection.new]
  refine ⟨(getNextLoop_le h.next).2, shape_enter (s := s) h.shape hp ⟨rfl, rfl, by simp⟩,
    fun c hc l => ?_, fun c hc => ?_, fun l fd c hr => ?_, fun c c' hc hc' heq => ?_⟩
  · have hle : s.accepted + 1 ≤ c := hc
    rw [view_newConnection_of_ne (by omega)]
    exact h.fresh c (by omega) l
  · rcases lt_or_eq c hc with hlt | rfl
    · refine (h.roots c hlt).congr rfl ⟨fun _ => hlt, fun _ => hc⟩ (old c hlt).1 (old c hlt).2
        (parts_flags.enter s 0 _ |>.ended _) (fun _ => ?_) fun hst hh => ?_
      · show ((s.newConnection inSockfd).loop _).poller.interest _ = _
        rw [poller_newConnection, (old c hlt).1]
        rfl
      · rw [Held, (old c hlt).1, connections_newConnection]
        rcases hh with hmap | huser
        · by_cases hn : (s.conn c).name = s.connName
          · exact .inr (ha c hlt ⟨hlt, hst⟩ (hn ▸ hmap))
          · rw [Function.update_of_ne hn]
            exact .inl hmap
        · exact .inr huser
    · refine ⟨?_, ?_, ?_, fun _ _ => ?_, fun l hl => ?_, .inl hnew, fun _ => .inl ?_⟩
      · rw [hself]; exact (getNextLoop_le h.next).1
      · rw [hself]
      · rw [hself]
        exact ⟨0, _, .inl ⟨rfl, rfl⟩, fun l => by dsimp only; rw [view_newConnection_self hfree]⟩
      · rw [hself]
        refine constructed_newConnection ?_
        cases he : (s.loop s.getNextLoop.1).poller.interest inSockfd with
        | none => rfl
        | some e =>
          obtain ⟨hpe, -, hfd⟩ := h.refs _ _ e.ptr (.inr ⟨e, he, rfl⟩)
          exact absurd hfd (h.fd_ne hfresh hpe)
      · rw [view_newConnection_self hfree, h.fresh _ (Nat.le_refl _)] at hl
        simp at hl
      · rw [hself, connections_newConnection, Function.update_self]
  · rw [Refers, poller_newConnection] at hr
    obtain ⟨hpc, hloop, hfd⟩ := h.refs l fd c hr
    rw [(old c hpc.1).1, present c hpc.1]
    exact ⟨hpc, hloop, hfd⟩
  · have was (c : Nat) (hc : (s.newConnection inSockfd).Present c) : c = s.accepted ∨ s.Present c := by
      rcases lt_or_eq c hc.1 with hlt | heq
      · exact .inr ((present c hlt).1 hc)
      · exact .inl heq
    exact fds_newConnection (fun c hp => Nat.ne_of_lt hp.1) h.fds (fun c hp => h.fd_ne hfresh hp)
      (was c hc) (was c' hc') heq

theorem Rooted.registered (h : s.Rooted) (hreg : s.registered l c = true)
    (hend : (s.loop l).ended = false) : l = (s.conn c).loop ∧ (s.conn c).tcp.state ≠ .connecting ∧ s.Present c := by
  unfold TcpServer.registered at hreg
  split at hreg
  · rename_i e he
    rw [beq_iff_eq] at hreg
    obtain ⟨hp, hl, -⟩ := h.refs l _ c (.inr ⟨e, he, hreg⟩)
    refine ⟨hl.symm, fun hcon => ?_, hp⟩
    have hs := (h.root hp).standing hp (hl ▸ hend)
    rw [hcon] at hs
    have habsent : (s.loop (s.conn c).loop).poller.interest (s.conn c).tcp.channel.fd = none :=
      World.Constructed.absent hs
    rw [hl, he] at habsent
    cases habsent
  · cases hreg

theorem Rooted.poll {events : List (Nat × EventMask)} (h : s.Rooted)
    (hp : (s.loop l).phase = .polling) (hreg : ∀ e ∈ events, s.registered l e.1 = true)
    (hend : (s.loop l).ended = false) : (s.setLoop l ((s.loop l).polled events)).Rooted := by
  refine h.setLoop (.inl ⟨rfl, rfl⟩) ((h.shape l).polled hp hend) (fun _ => rfl) fun c hc => ?_
  rcases hc with ha | he
  · obtain ⟨e, he⟩ := List.exists_mem_of_ne_nil _ ha
    obtain ⟨he, hc⟩ := List.mem_filter.1 he
    rw [beq_iff_eq] at hc
    rw [← hc]
    exact h.registered (hreg e he) hend
  · exact h.handling (.inr he)

theorem Rooted.dispatch {revents : EventMask} {active : List (Nat × EventMask)} (h : s.Rooted)
    (hp : (s.loop l).phase = .handling) (hstack : (s.loop l).stack = [])
    (hactive : (s.loop l).active = (c, revents) :: active) :
    (s.dispatch l c revents active).Rooted := by
  obtain ⟨rfl, hne, hpres⟩ := h.handling (l := l) (c := c) <| .inl <| by
    rw [ServerLoop.view, hactive, List.filter_cons_of_pos (by simp)]
    exact List.cons_ne_nil _ _
  obtain ⟨cbs, -, hdispatch⟩ := s.dispatch_eq (s.conn c).loop c revents active
  rw [hdispatch]
  clear hdispatch
  have hr := h.root hpres
  have hconn := conn_setTcp_self s c { (s.conn c).tcp with channel.revents := revents }
  have hu : Touched s c ((s.setTcp c { (s.conn c).tcp with channel.revents := revents }).setLoop
      (s.conn c).loop ((s.loop (s.conn c).loop).dispatched c cbs active)) :=
    .setTcp rfl (World.Kept.rfl (w := s.world c)).frame rfl fun c' hne => by
      rw [view_dispatched hstack hactive, if_neg hne]
  have life (l : Nat) : ((((s.setTcp c { (s.conn c).tcp with channel.revents := revents }).setLoop
      (s.conn c).loop ((s.loop (s.conn c).loop).dispatched c cbs active)).loop l).view c).lifecycle =
        ((s.loop l).view c).lifecycle := by
    rw [loop_setLoop]
    split
    · rename_i hl
      rw [hl, view_dispatched hstack hactive, if_pos rfl]
    · rfl
  have pollers (l : Nat) : (((s.setTcp c { (s.conn c).tcp with channel.revents := revents }).setLoop
      (s.conn c).loop ((s.loop (s.conn c).loop).dispatched c cbs active)).loop l).poller =
        (s.loop l).poller :=
    poller_setLoop (s := s.setTcp c { (s.conn c).tcp with channel.revents := revents })
      (q := (s.loop (s.conn c).loop).dispatched c cbs active) rfl l
  have hpt : ((s.setTcp c { (s.conn c).tcp with channel.revents := revents }).setLoop
      (s.conn c).loop ((s.loop (s.conn c).loop).dispatched c cbs active)).Present c := by
    rw [Present, conn_setLoop, hconn]
    simp only [life]
    exact hpres
  refine h.touch hu hpres (shape_setLoop h.shape ((h.shape _).dispatched hp hstack))
    ⟨?_, ?_, ?_, fun _ _ => ?_, fun l hl => ?_, .inl hpt, fun hst => ?_⟩
    (fun c' hr' => ⟨?_, hpt⟩) fun c' hc' _ hh => ?_
  · rw [conn_setLoop, hconn]; exact hr.loop_le
  · rw [conn_setLoop, hconn]; exact hr.closeCallback
  · simp only [conn_setLoop, hconn, life]
    exact hr.scheduled
  · rw [world, conn_setLoop, hconn, pollers]
    have hs := hr.standing hpres (h.running (by rw [hp]; decide))
    revert hs hne
    cases (s.conn c).tcp.state with
    | connecting => exact fun hne => absurd rfl hne
    | connected => exact fun _ hs => World.Flowing.revents (w := s.world c) hs revents
    | disconnecting => exact fun _ hs => World.Flowing.revents (w := s.world c) hs revents
    | disconnected => exact fun _ hs => World.Wf.revents (w := s.world c) hs revents
  · rw [conn_setLoop, hconn]
    refine ⟨?_, hne, hpt⟩
    by_contra hlne
    rw [loop_setLoop, if_neg hlne] at hl
    exact hlne (h.handling (l := l) hl).1
  · rw [conn_setLoop, hconn] at hst
    rw [Held, conn_setLoop, hconn]
    exact hr.held hst
  · rw [Refers, pollers] at hr'
    exact h.refs_own hpres hr'
  · rw [Held, conn_setLoop, show (s.setTcp c _).conn c' = s.conn c' from Function.update_of_ne hc' ..]
    exact hh

/-! ### The users' calls -/

theorem Rooted.send {inMsg : Bytes} {r : WriteResult} (h : s.Rooted) (hc : c < s.accepted)
    (hend : (s.loop (s.conn c).loop).ended = false) (hr : r.Legal inMsg.length)
    (ho : (s.world c).send logErrno true inMsg r = .ok w) : (s.absorb c w).Rooted := by
  by_cases hst : (s.world c).conn.state = .connected
  · have hcon : (s.conn c).tcp.state = .connected := hst
    have hp : s.Present c := ⟨hc, .inl (by simp [hcon])⟩
    rw [World.send, if_pos hst, if_pos rfl] at ho
    rcases World.sendInLoop_ok ((h.root hp).standing hp hend).wf hr ho with ⟨hd, -⟩ | ⟨hne, hs⟩
    · rw [hst] at hd; cases hd
    · exact h.did logErrno hp hend (by simp [hcon])
        (.sent (a := .send true inMsg r) (by simp [ConnStep.passed, hst]) hne hs) not_false trivial
        hs.entryKept (.inl (by rw [hs.eq]; rfl))
  · rw [World.send, if_neg hst] at ho
    cases ho
    rw [absorb_world]
    exact h

theorem Rooted.shutdown (h : s.Rooted) (hc : c < s.accepted)
    (hend : (s.loop (s.conn c).loop).ended = false) :
    (s.absorb c ((s.world c).shutdown true)).Rooted := by
  by_cases hst : (s.world c).conn.state = .connected
  · have hcon : (s.conn c).tcp.state = .connected := hst
    have hshut : (((s.world c).setState .disconnecting).shutdownInLoop).conn.state = .disconnecting := by
      rw [World.shutdownInLoop_conn]; rfl
    rw [World.shutdown, if_pos hst]
    exact h.did id ⟨hc, .inl (by simp [hcon])⟩ hend (by simp [hcon]) (.halfClosed hst) not_false
      trivial (.of_same (World.shutdownInLoop_poller _)) (.inr ⟨hcon, hshut⟩)
  · rw [World.shutdown, if_neg hst, absorb_world]
    exact h

theorem Rooted.release (h : s.Rooted) (ha : s.KeepsOpen (.release c)) : TcpServer.Rooted
    { s with held := Function.update s.held c (s.held c - 1) } := by
  refine h.congr rfl rfl rfl rfl rfl fun c' hopen hh => ?_
  rcases hh with hmap | huser
  · exact .inl hmap
  by_cases hc : c' = c
  · subst hc
    by_cases hone : s.held c' = 1
    · exact .inl (ha hopen hone)
    · refine .inr ?_
      show 0 < Function.update s.held c' (s.held c' - 1) c'
      rw [Function.update_self]
      omega
  · refine .inr ?_
    show 0 < Function.update s.held c (s.held c - 1) c'
    rw [Function.update_of_ne hc]
    exact huser

theorem Rooted.hold (h : s.Rooted) (c : Nat) : TcpServer.Rooted
    { s with held := Function.update s.held c (s.held c + 1) } := by
  refine h.congr rfl rfl rfl rfl rfl fun c' _ hh => hh.imp_right fun huser => ?_
  show 0 < Function.update s.held c (s.held c + 1) c'
  rw [Function.update_apply]
  split
  · exact Nat.succ_pos _
  · exact huser

/-! ### Steps and runs -/

/-- A lifecycle job is the connection's own loop's, or loop 0's. -/
theorem Rooted.home {j : Job} (h : s.Rooted) (hj : j ∈ ((s.loop l).view c).lifecycle) :
    l = 0 ∨ l = (s.conn c).loop := by
  have hc : c < s.accepted := by
    by_contra hge
    rw [h.fresh c (Nat.le_of_not_lt hge)] at hj
    cases hj
  have hs := (h.roots c hc).scheduled
  by_cases hcon : (s.conn c).tcp.state = .connecting
  · rw [hcon] at hs
    obtain ⟨l₀, i, hi, heq⟩ := hs
    have hl : l = l₀ := by
      by_contra hne
      have heq' : ((s.loop l).view c).lifecycle = _ := heq l
      rw [heq', if_neg hne] at hj
      cases hj
    exact hl ▸ hi.imp And.right And.right
  · obtain ⟨-, hcl⟩ := hs.closing hcon hj
    rcases hcl with ⟨-, hl⟩ | ⟨-, hl⟩ | ⟨-, hl⟩ | ⟨-, hl⟩
    · exact .inr hl
    · exact .inl hl
    · exact .inl hl
    · exact .inr hl

/-- A loop of the pool that is finished ends. -/
theorem Rooted.leave (h : s.Rooted) (hl : 0 < l ∧ l ≤ s.numThreads) (hdone : s.Finished l) :
    (s.setLoop l .exited).Rooted := by
  refine h.setLoop (.inr rfl) shape_exited (fun c => ?_) fun c hev => ?_
  · refine (List.eq_nil_iff_forall_not_mem.2 fun j hj => ?_).symm
    have hhome : l = (s.conn c).loop := (h.home hj).resolve_left (by omega)
    obtain ⟨hjobs, hjc⟩ := List.mem_filter.1 hj
    rw [Bool.and_eq_true, beq_iff_eq] at hjc
    exact hdone l hl.2 j hjobs hjc.1 (hjc.2 ▸ hhome.symm)
  · rcases hev with ha | he
    · exact absurd rfl ha
    · exact absurd rfl he

/-- No fd is closed that the kernel still has. -/
theorem Rooted.closeFds (h : s.Rooted) : s.closeFds = s :=
  closeFds_of_owned fun l fd e he => h.owned (h.refs l fd e.ptr (.inr ⟨e, he, rfl⟩)).1

theorem stepped_rooted (he : s.Ending) (ha : s.KeepsOpen a) (hs : Stepped logErrno s a t) (h : s.Rooted) :
    t.Rooted := by
  cases hs with
  | poll hl hp hnd hreg hend => exact h.poll hp (fun e he => (hreg e he).2) hend
  | accept halive hp hstack hfd hfresh => exact h.accept (by simp [hp]) hfresh ha
  | dispatch hp hstack hactive => exact h.dispatch hp hstack hactive
  | proceed hst ho => exact h.perform ha hst ho
  | swap hp hstack hactive =>
    exact h.moved rfl rfl ((h.shape _).swapped hp hstack hactive)
      fun _ => view_swapped ((h.shape _).handling hp)
  | @call l j js hp hstack hfun =>
    have hj : j.isEvent = false := (h.shape l).batch j (by simp [hfun])
    exact h.moved rfl rfl ((h.shape l).taking hp hstack hfun) fun _ => view_taking hj hstack hfun
  | destroyFunctors hp hstack hfun =>
    exact h.moved rfl rfl ((h.shape _).batchDone hp hstack hfun) fun _ => rfl
  | @leave l hp hstack hfun hq => exact h.leave (he.quit l hq).2 (ha hq)
  | send hc ho hr hw hend => exact h.send hc hend hr hw
  | shutdown hc ho hend => exact h.shutdown hc hend
  | hold hc ho => exact h.hold _
  | release hheld => exact h.release ha
  | foreignSend hheld => exact ha.elim
  | foreignShutdown hheld => exact ha.elim
  | destroyServer halive =>
    exact h.congr rfl rfl rfl rfl rfl fun c hopen _ => .inr (ha.2 c hopen.1 hopen)
  | @quitLoop l hdead hl hq hbefore =>
    have hs := h.shape l
    exact h.moved rfl rfl ⟨hs.polling, hs.handling, hs.calling, hs.leaving, hs.batch, hs.owns, hs.ended⟩
      fun _ => rfl

theorem step_rooted (he : s.Ending) (ha : s.KeepsOpen a) (hs : step logErrno s a = some t) (h : s.Rooted) :
    t.Rooted := by
  obtain ⟨u, hu, rfl⟩ := step_some hs
  have ht := stepped_rooted he ha hu h
  rw [ht.closeFds]
  exact ht

theorem started_rooted (name ipPort : String) (numThreads : Nat) (cb cb' cb'' : Bool) :
    (started name ipPort numThreads cb cb' cb'').Rooted where
  next := Nat.eq_zero_or_pos numThreads
  shape := (started_inv name ipPort numThreads cb cb' cb'').shape
  fresh c _ l := rfl
  roots c hc := absurd hc (Nat.not_lt_zero c)
  refs l fd c hr := by
    rcases hr with hr | ⟨e, he, -⟩
    · cases hr
    · cases he
  fds c c' hc := absurd hc.1 (Nat.not_lt_zero c)

/-- `connectDestroyed` is a job of the connection's own loop. -/
theorem Rooted.destroyed_on_loop (h : s.Rooted) (hmem : .connectDestroyed c ∈ (s.loop l).stack) :
    l = (s.conn c).loop := by
  have hlife : .connectDestroyed c ∈ ((s.loop l).view c).lifecycle :=
    List.mem_filter.2 ⟨mem_jobs_stack hmem, by simp [Job.lifecycle, Job.conn]⟩
  have hc : c < s.accepted := by
    by_contra hge
    rw [h.fresh c (Nat.le_of_not_lt hge)] at hlife
    cases hlife
  obtain ⟨-, hcl⟩ := (h.roots c hc).closed hlife (by simp) (by simp)
  simpa [Closing] using hcl

/-- In every run of a server whose last pointers to unclosed connections are not dropped, the pollers
refer to living connections only, and none dies but through `connectDestroyed`, on its own loop. -/
theorem pollers_refer_to_living (logErrno : Errno → Errno) (name ipPort : String) (numThreads : Nat)
    (cb cb' cb'' : Bool) (as : List ServerStep)
    (hkeep : Along (step logErrno) KeepsOpen (started name ipPort numThreads cb cb' cb'') as)
    (hr : run (step logErrno) (started name ipPort numThreads cb cb' cb'') as = some t) :
    (∀ l fd c, (t.loop l).poller.channels fd = some c → t.owned c = true) ∧
      (∀ c < t.accepted, t.owned c = false → .destroyed ∈ (t.conn c).log) ∧
      ∀ l c, .connectDestroyed c ∈ (t.loop l).stack → l = (t.conn c).loop := by
  obtain ⟨h, -⟩ : t.Rooted ∧ t.Ending :=
    run_inv_along (I := fun s => s.Rooted ∧ s.Ending)
      (fun _ _ _ ha hs hi => ⟨step_rooted hi.2 ha hs hi.1, step_ending hs hi.2⟩) hkeep hr
      ⟨started_rooted .., started_ending ..⟩
  refine ⟨fun l fd c hc => h.owned (h.refs l fd c (.inl hc)).1, fun c hc hdead => ?_,
    fun l c hc => h.destroyed_on_loop hc⟩
  refine (h.roots c hc).finished.resolve_left fun hp => ?_
  rw [h.owned hp] at hdead
  cases hdead

/-- A connection of the server's own loop, established and then open. -/
def opening : List ServerStep :=
  [.poll 0 [], .accept 5, .proceed 0 (.delivered []) (.accepted 0),
    .proceed 0 (.delivered []) (.accepted 0), .swap 0, .destroyFunctors 0]

set_option maxRecDepth 20000 in
theorem held_after_server : ∃ t, run (step id) (started "s" "ip" 0 true true true)
    (opening ++ [.hold 0, .destroyServer]) = some t ∧ t.alive = false ∧
      (t.loop 0).poller.channels 5 = some 0 ∧ t.owned 0 = true := by
  have hrun : (run (step id) (started "s" "ip" 0 true true true)
      (opening ++ [.hold 0, .destroyServer])).map (fun t => (t.alive, (t.loop 0).poller.channels 5)) =
        some (false, some 0) := by decide +kernel
  obtain ⟨t, hr, ht⟩ := Option.map_eq_some_iff.1 hrun
  obtain ⟨halive, hch⟩ := Prod.mk.inj ht
  obtain ⟨href, -⟩ := pollers_refer_to_living id "s" "ip" 0 true true true _ (by decide +kernel) hr
  exact ⟨t, hr, halive, hch, href 0 5 0 hch⟩

set_option maxRecDepth 20000 in
/-- The server is destroyed with a connection open. -/
theorem server_leaves_channel : ∃ t, run (step id) (started "s" "ip" 0 true true true)
    (opening ++ [.destroyServer]) = some t ∧
      (t.loop 0).poller.channels 5 = some 0 ∧ t.owned 0 = false ∧ .established ∈ (t.conn 0).log ∧
      .destroyed ∉ (t.conn 0).log := by
  have hrun : (run (step id) (started "s" "ip" 0 true true true) (opening ++ [.destroyServer])).map
      (fun t => ((t.loop 0).poller.channels 5, t.owned 0, (t.conn 0).log)) =
        some (some 0, false, [.established]) := by decide +kernel
  obtain ⟨t, hr, ht⟩ := Option.map_eq_some_iff.1 hrun
  simp only [Prod.mk.injEq] at ht
  obtain ⟨hch, howned, hlog⟩ := ht
  exact ⟨t, hr, hch, howned, by rw [hlog]; decide, by rw [hlog]; decide⟩

set_option maxRecDepth 20000 in
-- With a pool: the `connectDestroyed` of a closed connection goes with the queue of its loop.
example : (run (step id) (started "s" "ip" 1 true true true) (lifeOfOne.take 20 ++
    [.swap 0, .call 0, .proceed 0 (.delivered []) (.accepted 0),
      .proceed 0 (.delivered []) (.accepted 0), .destroyFunctors 0, .destroyServer, .quitLoop 1,
      .destroyFunctors 1])).map (fun t => (t.owned 0, (t.conn 0).log.filter Mark.lifecycle)) =
        some (false, [.established, .closed, .erased]) := by decide +kernel

end TcpServer
end Muduo
