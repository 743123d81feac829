import Muduo.ServerEnd

/-!
# The life of a connection

Over every run of a server in which the kernel and the users keep to what they owe, each accepted
connection is established, closed, erased and destroyed, in this order and each at most once, its
handlers run in between, and it is owned all along.
-/

namespace Muduo
open Lts EPollPoller ServerLoop
namespace TcpServer
variable {s t : TcpServer} {c l : Nat} {st : Nat → Stage} {a : ServerStep} {as : List ServerStep}
  {logErrno : Errno → Errno}

/-- What the users and the kernel owe: names are unique, `EPOLLHUP` with `EPOLLPRI` comes with
`EPOLLIN`, `send` and `shutdown` are called on the connection's loop, and the server lives on. -/
def Permits (s : TcpServer) : ServerStep → Prop
  | .poll _ events => ∀ e ∈ events, Plain e.2
  | .accept _ => ∀ c < s.accepted, (s.conn c).name ≠ s.connName
  | .foreignSend _ _ => False
  | .foreignShutdown _ => False
  | .destroyServer => False
  | _ => True

instance (s : TcpServer) (a : ServerStep) : Decidable (s.Permits a) := by
  cases a <;> unfold Permits <;> infer_instance

/-! ### Ownership -/

/-- The server's own `shared_ptr`s to the connection: the map's, or a job's. -/
def HasOwner (s : TcpServer) (c : Nat) : Prop :=
  s.connections (s.conn c).name = some c ∨
    ∃ l ≤ s.numThreads, ∃ j ∈ (s.loop l).jobs, j.owns = true ∧ j.conn = c

theorem owned_iff : s.owned c = true ↔ s.connections (s.conn c).name = some c ∨ 0 < s.held c ∨
    ∃ l ≤ s.numThreads, ∃ j ∈ (s.loop l).jobs ++ (s.loop l).called, j.owns = true ∧ j.conn = c := by
  simp only [TcpServer.owned, Bool.or_eq_true, beq_iff_eq, decide_eq_true_eq, List.any_eq_true,
    List.mem_range, Nat.lt_succ_iff, Bool.and_eq_true, or_assoc]

theorem HasOwner.owned (h : s.HasOwner c) : s.owned c = true := by
  rw [owned_iff]
  rcases h with hmap | ⟨l, hl, j, hj, ho, hc⟩
  · exact .inl hmap
  · exact .inr (.inr ⟨l, hl, j, List.mem_append_left _ hj, ho, hc⟩)

/-- The job a connection is due keeps it alive. -/
theorem Inv.hasOwner_of_due {j : Job} (h : Inv st s) (hl : l ≤ s.numThreads)
    (hdue : (st c).due c (s.conn c).loop l = [j]) (hc : j.conn = c) : s.HasOwner c := by
  have hmem : j ∈ ((s.loop l).view c).lifecycle := by
    rw [(h.placed c l).lifecycle, hdue]
    exact List.mem_singleton.2 rfl
  obtain ⟨hj, -⟩ := List.mem_filter.1 hmem
  exact .inr ⟨l, hl, j, hj, (h.shape l).owns j hj, hc⟩

theorem Inv.hasOwner (h : Inv st s) (hlive : (st c).Live) : s.HasOwner c := by
  have hok := h.conns c hlive.1
  have mapped : (st c).Mapped → s.HasOwner c := fun hm => .inl ((h.connections _ _).2 ⟨hm, rfl⟩)
  rcases hst : st c
  case absent => exact absurd hst hlive.1
  case erased => exact h.hasOwner_of_due (l := 0) (Nat.zero_le _) (by rw [hst]; rfl) rfl
  case leaving =>
    exact h.hasOwner_of_due (j := .connectDestroyed c) hok.loop_le (by rw [hst]; exact if_pos rfl) rfl
  case destroyed => exact absurd hst hlive.2
  all_goals exact mapped (by rw [hst]; decide)

/-! ### The loop's own steps -/

theorem filter_key {events : List (Nat × EventMask)} {e : Nat × EventMask}
    (hnd : (events.map Prod.fst).Nodup) (he : e ∈ events) :
    events.filter (fun e' => e'.1 == e.1) = [e] := by
  induction events with
  | nil => cases he
  | cons e' events ih =>
    obtain ⟨hnot, hnd⟩ := List.nodup_cons.1 hnd
    rcases List.mem_cons.1 he with rfl | he
    · rw [List.filter_cons_of_pos (by simp)]
      refine congrArg _ (List.filter_eq_nil_iff.2 fun e' he' => ?_)
      rw [beq_iff_eq]
      intro heq
      exact hnot (heq ▸ List.mem_map_of_mem he')
    · have hne : e'.1 ≠ e.1 := fun heq => hnot (heq ▸ List.mem_map_of_mem he)
      rw [List.filter_cons_of_neg (by simpa using hne)]
      exact ih hnd he

/-- The kernel reports open connections only. -/
theorem Inv.registered (h : Inv st s) (hreg : s.registered l c = true) :
    st c = .opened ∧ (s.conn c).loop = l := by
  unfold TcpServer.registered at hreg
  split at hreg
  · rename_i e he
    rw [beq_iff_eq] at hreg
    obtain ⟨hst, hl, -⟩ := h.entries l _ e he
    rw [← hreg]
    exact ⟨hst, hl⟩
  · cases hreg

theorem Inv.poll {events : List (Nat × EventMask)} (h : Inv st s)
    (hplain : ∀ e ∈ events, Plain e.2) (hp : (s.loop l).phase = .polling)
    (hnd : (events.map Prod.fst).Nodup) (hreg : ∀ e ∈ events, s.registered l e.1 = true)
    (he : (s.loop l).ended = false) : Inv st (s.setLoop l ((s.loop l).polled events)) := by
  refine h.setLoop rfl ((h.shape l).polled hp he) fun c => ⟨(h.placed c l).lifecycle, ?_, .inl ?_⟩
  · by_cases hc : ∃ revents, (c, revents) ∈ events
    · obtain ⟨revents, hmem⟩ := hc
      obtain ⟨hst, hl⟩ := h.registered (hreg _ hmem)
      exact .inr ⟨hl.symm, hst, revents, hplain _ hmem, filter_key hnd hmem⟩
    · refine .inl (List.filter_eq_nil_iff.2 fun e he => ?_)
      rw [beq_iff_eq]
      rintro rfl
      exact hc ⟨_, he⟩
  · show (s.loop l).stack.filter _ = []
    rw [((h.shape l).polling hp).1]
    rfl

theorem Inv.swap (h : Inv st s) (hp : (s.loop l).phase = .handling) (hstack : (s.loop l).stack = [])
    (hactive : (s.loop l).active = []) : Inv st (s.setLoop l (s.loop l).swapped) := by
  refine h.setLoop rfl ((h.shape l).swapped hp hstack hactive) fun c => ?_
  rw [view_swapped ((h.shape l).handling hp)]
  exact h.placed c l

theorem Inv.call {j : Job} {js : List Job} (h : Inv st s) (hp : (s.loop l).phase = .calling)
    (hstack : (s.loop l).stack = []) (hfun : (s.loop l).functors = j :: js) :
    Inv st (s.setLoop l ((s.loop l).taking j js)) := by
  refine h.setLoop rfl ((h.shape l).taking hp hstack hfun) fun c => ?_
  rw [view_taking ((h.shape l).batch j (by simp [hfun])) hstack hfun]
  exact h.placed c l

theorem Inv.destroyFunctors (h : Inv st s) (hp : (s.loop l).phase = .calling)
    (hstack : (s.loop l).stack = []) (hfun : (s.loop l).functors = []) :
    Inv st (s.setLoop l (s.loop l).batchDone) :=
  h.setLoop rfl ((h.shape l).batchDone hp hstack hfun) fun c => h.placed c l

theorem Inv.congr (h : Inv st s) (hn : t.numThreads = s.numThreads) (hnext : t.next = s.next)
    (hacc : t.accepted = s.accepted) (hconn : t.conn = s.conn) (hmap : t.connections = s.connections)
    (hloop : t.loop = s.loop) : Inv st t where
  next := by rw [hn, hnext]; exact h.next
  shape := by rw [hloop]; exact h.shape
  placed := by rw [hconn, hloop]; exact h.placed
  conns c hc := (h.conns c hc).congr hn (by rw [hconn]) (by rw [hloop]; exact fun _ => rfl)
  absent := by rw [hacc]; exact h.absent
  entries := by rw [hconn, hloop]; exact h.entries
  calls := by rw [hloop]; exact h.calls
  fds := by rw [hconn]; exact h.fds
  connections := by rw [hconn, hmap]; exact h.connections

/-! ### Accepting and dispatching -/

theorem getNextLoop_le (h : s.numThreads = 0 ∨ s.next < s.numThreads) :
    s.getNextLoop.1 ≤ s.numThreads ∧
      (s.numThreads = 0 ∨ s.getNextLoop.2 < s.numThreads) := by
  unfold getNextLoop
  split
  · rename_i h0
    exact ⟨Nat.zero_le _, .inl h0⟩
  · dsimp only
    split <;> omega

/-- No living connection has the fd. -/
theorem Inv.fd_ne {inSockfd : Int} (h : Inv st s) (hfresh : s.freshFd inSockfd = true)
    (hlive : (st c).Live) : (s.conn c).tcp.channel.fd ≠ inSockfd := by
  have hlt : c < s.accepted := by
    by_contra hge
    exact hlive.1 ((h.absent c).2 (Nat.le_of_not_lt hge))
  have := List.all_eq_true.1 hfresh c (List.mem_range.2 hlt)
  rw [(h.hasOwner hlive).owned] at this
  simpa using this

theorem poller_newConnection (s : TcpServer) (inSockfd : Int) (l : Nat) :
    ((s.newConnection inSockfd).loop l).poller = (s.loop l).poller :=
  poller_setLoop (s := s) (q := (s.loop 0).push _) rfl l

theorem view_newConnection_of_ne {inSockfd : Int} (hc : c ≠ s.accepted) (l : Nat) :
    ((s.newConnection inSockfd).loop l).view c = (s.loop l).view c :=
  (Touched.enter (s := s) (l := 0) (j := .establish s.accepted) rfl).views c hc l

theorem view_newConnection_self {inSockfd : Int} (hf : s.Free s.accepted) (l : Nat) :
    ((s.newConnection inSockfd).loop l).view s.accepted =
      { (s.loop l).view s.accepted with
        lifecycle := if l = 0 then [.establish s.accepted] else [] } :=
  view_enter hf rfl rfl l

theorem constructed_newConnection {inSockfd : Int}
    (h : (s.loop s.getNextLoop.1).poller.interest inSockfd = none) :
    ((s.newConnection inSockfd).world s.accepted).Constructed := by
  rw [world, newConnection_self]
  refine ⟨rfl, rfl, rfl, rfl, rfl, ?_, rfl⟩
  rw [poller_newConnection]
  exact h

/-- The new connection's fd is none that is in use. -/
theorem fds_newConnection {P : Nat → Prop} {c c' : Nat} {inSockfd : Int}
    (hne : ∀ c, P c → c ≠ s.accepted)
    (hfds : ∀ c c', P c → P c' → (s.conn c).tcp.channel.fd = (s.conn c').tcp.channel.fd → c = c')
    (hfresh : ∀ c, P c → (s.conn c).tcp.channel.fd ≠ inSockfd)
    (hc : c = s.accepted ∨ P c) (hc' : c' = s.accepted ∨ P c')
    (heq : ((s.newConnection inSockfd).conn c).tcp.channel.fd =
      ((s.newConnection inSockfd).conn c').tcp.channel.fd) : c = c' := by
  have hself : ((s.newConnection inSockfd).conn s.accepted).tcp.channel.fd = inSockfd := by
    rw [newConnection_self]
    rfl
  rcases hc with rfl | hc
  · rcases hc' with rfl | hc'
    · rfl
    · rw [hself, newConnection_of_ne (hne c' hc')] at heq
      exact absurd heq.symm (hfresh c' hc')
  · rw [newConnection_of_ne (hne c hc)] at heq
    rcases hc' with rfl | hc'
    · exact absurd (heq.trans hself) (hfresh c hc)
    · rw [newConnection_of_ne (hne c' hc')] at heq
      exact hfds c c' hc hc' heq

theorem Inv.connections_accept {inSockfd : Int} (h : Inv st s)
    (hname : ∀ c < s.accepted, (s.conn c).name ≠ s.connName) (n : String) (c : Nat) :
    (s.newConnection inSockfd).connections n = some c ↔
      (Function.update st s.accepted .creating c).Mapped ∧
        ((s.newConnection inSockfd).conn c).name = n := by
  rw [connections_newConnection, Function.update_apply]
  by_cases hc : c = s.accepted
  · rw [hc, Function.update_self, newConnection_self]
    split
    · rename_i hn
      exact ⟨fun _ => ⟨by decide, hn.symm⟩, fun _ => rfl⟩
    · rename_i hn
      constructor
      · intro hs
        have := ((h.connections n _).1 hs).1
        rw [(h.absent _).2 (Nat.le_refl _)] at this
        exact absurd this (by decide)
      · intro hm
        exact absurd hm.2.symm hn
  · rw [Function.update_of_ne hc, newConnection_of_ne hc, ← h.connections]
    split
    · rename_i hn
      constructor
      · intro hs
        exact absurd (Option.some.inj hs).symm hc
      · intro hs
        obtain ⟨hm, hname'⟩ := (h.connections n c).1 hs
        have hlt : c < s.accepted := by
          by_contra hge
          rw [(h.absent c).2 (Nat.le_of_not_lt hge)] at hm
          exact absurd hm (by decide)
        exact absurd (hname'.trans hn) (hname c hlt)
    · exact Iff.rfl

theorem Inv.accept {inSockfd : Int} (h : Inv st s) (hp : (s.loop 0).phase = .handling)
    (hfresh : s.freshFd inSockfd = true)
    (hname : ∀ c < s.accepted, (s.conn c).name ≠ s.connName) :
    Inv (Function.update st s.accepted .creating) (s.newConnection inSockfd) := by
  have habsent : st s.accepted = .absent := (h.absent _).2 (Nat.le_refl _)
  have hfree : s.Free s.accepted := fun l => by
    rw [(h.placed _ l).lifecycle, habsent]
    rfl
  have hself := newConnection_self s inSockfd
  have hlive : ∀ c, (st c).Live → c ≠ s.accepted := by
    rintro c hl rfl
    exact hl.1 habsent
  have hconstructed : ((s.newConnection inSockfd).world s.accepted).Constructed := by
    refine constructed_newConnection ?_
    cases he : (s.loop s.getNextLoop.1).poller.interest inSockfd with
    | none => rfl
    | some e =>
      obtain ⟨hst, -, hfd⟩ := h.entries _ _ e he
      exact absurd hfd (h.fd_ne hfresh (by rw [hst]; decide))
  have live : ∀ c, (Function.update st s.accepted .creating c).Live →
      c = s.accepted ∨ (st c).Live := by
    intro c hl
    by_cases hc : c = s.accepted
    · exact .inl hc
    · rw [Function.update_of_ne hc] at hl
      exact .inr hl
  refine ⟨(getNextLoop_le h.next).2, shape_enter (s := s) h.shape (by rw [hp]; decide) ⟨rfl, rfl, by simp⟩,
    fun c l => ?_, fun c hst => ?_, fun c => ?_, fun l fd e he => ?_, fun l => ?_,
    fun c c' hc hc' heq => ?_, h.connections_accept hname⟩
  · by_cases hc : c = s.accepted
    · subst hc
      have hold := h.placed s.accepted l
      rw [habsent] at hold
      rw [Function.update_self, hself, view_newConnection_self hfree]
      refine ⟨rfl, ?_, ?_⟩
      · rcases hold.active with hnil | ⟨-, hst, -⟩
        · exact .inl hnil
        · cases hst
      · rcases hold.events with hnil | ⟨-, -, cbs, hcbs, -⟩
        · exact .inl hnil
        · simp [Stage.Handling] at hcbs
    · rw [Function.update_of_ne hc, newConnection_of_ne hc, view_newConnection_of_ne hc]
      exact h.placed c l
  · by_cases hc : c = s.accepted
    · subst hc
      rw [Function.update_self]
      refine ⟨?_, ?_, hconstructed, ?_, ?_⟩
      · rw [hself]; exact (getNextLoop_le h.next).1
      · rw [hself]
      · rw [hself]; rfl
      · rw [hself]; exact handled_nil
    · rw [Function.update_of_ne hc] at hst ⊢
      exact (h.conns c hst).congr rfl (newConnection_of_ne hc) (poller_newConnection s inSockfd)
  · show _ ↔ s.accepted + 1 ≤ c
    by_cases hc : c = s.accepted
    · rw [hc, Function.update_self]
      constructor
      · intro hst; cases hst
      · intro hle; omega
    · rw [Function.update_of_ne hc, h.absent]
      omega
  · rw [poller_newConnection] at he
    obtain ⟨hst, hl, hfd⟩ := h.entries l fd e he
    have hne : e.ptr ≠ s.accepted := hlive _ (by rw [hst]; decide)
    rw [Function.update_of_ne hne, newConnection_of_ne hne]
    exact ⟨hst, hl, hfd⟩
  · rw [poller_newConnection]
    exact h.calls l
  · exact fds_newConnection hlive h.fds (fun c hl => h.fd_ne hfresh hl) (live c hc) (live c' hc') heq

theorem and_or_ne (m a b : EventMask) : m &&& (a ||| b) ≠ 0 → m &&& a ≠ 0 ∨ m &&& b ≠ 0 := by
  intro h
  by_contra hno
  rw [not_or, not_not, not_not] at hno
  rw [BitVec.and_or_distrib_left, hno.1, hno.2] at h
  exact h rfl

/-- Of the callbacks of one event only one may close the connection. -/
theorem closers_handleEvent {ch : Channel} (h : Plain ch.revents) (guarded : Bool) :
    (closers (ch.handleEvent guarded)).length ≤ 1 := by
  have hguard : (closers ch.handleEventWithGuard).length ≤ 1 := by
    by_cases hclose : ch.revents &&& EPOLLHUP ≠ 0 ∧ ¬ ch.revents &&& EPOLLIN ≠ 0
    · have hread : ¬ ch.revents &&& (EPOLLIN ||| EPOLLPRI) ≠ 0 := by
        intro hread
        rcases and_or_ne _ _ _ hread with hin | hpri
        · exact hclose.2 hin
        · exact h ⟨hclose.1, hpri, not_not.1 hclose.2⟩
      unfold Channel.handleEventWithGuard
      rw [if_pos hclose, if_neg hread]
      split <;> split <;> decide
    · unfold Channel.handleEventWithGuard
      rw [if_neg hclose]
      split <;> split <;> split <;> decide
  unfold Channel.handleEvent
  split
  · split
    · exact hguard
    · exact Nat.zero_le _
  · exact hguard

theorem dispatch_eq (s : TcpServer) (l c : Nat) (revents : EventMask)
    (active : List (Nat × EventMask)) :
    ∃ cbs, (Plain revents → (closers cbs).length ≤ 1) ∧ s.dispatch l c revents active =
      (s.setTcp c { (s.conn c).tcp with channel.revents := revents }).setLoop l
        ((s.loop l).dispatched c cbs active) :=
  ⟨_, fun h => closers_handleEvent h _, rfl⟩

theorem Inv.dispatch {revents : EventMask} {active : List (Nat × EventMask)} (h : Inv st s)
    (hp : (s.loop l).phase = .handling) (hstack : (s.loop l).stack = [])
    (hactive : (s.loop l).active = (c, revents) :: active) :
    Inv st (s.dispatch l c revents active) := by
  have hview : ((s.loop l).view c).active = (c, revents) :: active.filter fun e => e.1 == c := by
    rw [view, hactive, List.filter_cons_of_pos (by simp)]
  obtain ⟨hl, hst, hplain, hrest⟩ : l = (s.conn c).loop ∧ st c = .opened ∧ Plain revents ∧
      (active.filter fun e => e.1 == c) = [] := by
    rcases (h.placed c l).active with hnil | ⟨hl, hst, _, hplain, heq⟩
    · rw [hview] at hnil; cases hnil
    · rw [hview] at heq
      obtain ⟨he, hnil⟩ := List.cons.inj heq
      cases he
      exact ⟨hl, hst, hplain, hnil⟩
  obtain ⟨cbs, hcbs, hdispatch⟩ := s.dispatch_eq l c revents active
  rw [hdispatch]
  clear hdispatch
  subst hl
  have hok := h.conns c (by rw [hst]; decide)
  have hok' : ((s.setTcp c { (s.conn c).tcp with channel.revents := revents }).setLoop (s.conn c).loop
      ((s.loop (s.conn c).loop).dispatched c cbs active)).ConnOk (st c) c := by
    refine ⟨?_, ?_, ?_, ?_, ?_⟩
    · rw [conn_setLoop, conn_setTcp_self]; exact hok.loop_le
    · rw [conn_setLoop, conn_setTcp_self]; exact hok.closeCallback
    · rw [world, conn_setLoop, conn_setTcp_self, poller_setLoop (by rfl), hst]
      exact ⟨(h.opened hst).1.revents revents, (h.opened hst).2⟩
    · rw [conn_setLoop, conn_setTcp_self]; exact hok.marks
    · rw [conn_setLoop, conn_setTcp_self]; exact hok.handled
  have hu : Touched s c ((s.setTcp c { (s.conn c).tcp with channel.revents := revents }).setLoop
      (s.conn c).loop ((s.loop (s.conn c).loop).dispatched c cbs active)) :=
    .setTcp rfl (World.Kept.rfl (w := s.world c)).frame rfl fun c' hne => by
      rw [view_dispatched hstack hactive, if_neg hne]
  have := h.move hu (by rw [hst]; decide) (by rw [hst]; decide)
    (shape_setLoop h.shape ((h.shape _).dispatched hp hstack)) (fun l => ?_) hok' rfl Iff.rfl
  · rwa [Function.update_eq_self] at this
  · rw [loop_setLoop]
    split
    · rename_i hl
      rw [hl, view_dispatched hstack hactive, if_pos rfl, hrest]
      exact ⟨(h.placed c _).lifecycle, .inl rfl, .inr ⟨rfl, rfl, cbs, .inl ⟨hst, hcbs hplain⟩, rfl⟩⟩
    · exact h.placed c l

/-! ### The users' calls -/

/-- Only an open connection is connected. -/
theorem Inv.opened_of_connected (h : Inv st s) (hc : c < s.accepted)
    (hst : (s.conn c).tcp.state = .connected) : st c = .opened := by
  have hpresent : st c ≠ .absent := by
    rw [ne_eq, h.absent]
    omega
  have hh := (h.conns c hpresent).holds
  have ended : ¬ Stage.Ended (s.world c) := fun he => by
    have := hst.symm.trans he.state
    cases this
  have constructed : ¬ (s.world c).Constructed := fun hw => by
    have := hst.symm.trans hw.state
    cases this
  generalize st c = g at hpresent hh
  cases g with
  | absent => exact absurd rfl hpresent
  | creating => exact absurd hh constructed
  | queued => exact absurd hh constructed
  | opened => rfl
  | closing => exact absurd hh ended
  | removing => exact absurd hh ended
  | erased => exact absurd hh ended
  | leaving => exact absurd hh ended
  | destroyed =>
    have := hst.symm.trans hh
    cases this

theorem Inv.send {inMsg : Bytes} {r : WriteResult} {w : World Nat} (h : Inv st s)
    (hc : c < s.accepted) (hr : r.Legal inMsg.length)
    (ho : (s.world c).send logErrno true inMsg r = .ok w) : Inv st (s.absorb c w) := by
  by_cases hst : (s.world c).conn.state = .connected
  · have hopen := h.opened_of_connected hc hst
    rw [World.send, if_pos hst, if_pos rfl] at ho
    rcases World.sendInLoop_ok (h.opened hopen).1.wf hr ho with ⟨hd, -⟩ | ⟨hne, hs⟩
    · rw [hst] at hd; cases hd
    · exact h.did logErrno (a := .send true inMsg r) hopen (.sent (by simp [ConnStep.passed, hst]) hne hs)
        not_false trivial
  · rw [World.send, if_neg hst] at ho
    cases ho
    rw [absorb_world]
    exact h

theorem Inv.shutdown (h : Inv st s) (hc : c < s.accepted) :
    Inv st (s.absorb c ((s.world c).shutdown true)) := by
  by_cases hst : (s.world c).conn.state = .connected
  · rw [World.shutdown, if_pos hst]
    exact h.did id (h.opened_of_connected hc hst) (.halfClosed hst) not_false trivial
  · rw [World.shutdown, if_neg hst, absorb_world]
    exact h

/-! ### Steps and runs -/

/-- The job in hand is dropped: a user's callback, or a handler that has no more to do. -/
theorem Inv.finish {j : Job} {rest : List Job} (h : Inv st s) (hst : (s.loop l).stack = j :: rest)
    (hj : j = .userCallback c ∨ j = .handleEvent c []) :
    Inv st (s.setLoop l ((s.loop l).pop rest)) := by
  refine h.setLoop rfl ((h.shape l).pop hst) fun c' => ?_
  have hold := h.placed c' l
  rcases hj with rfl | rfl
  · rw [view_pop hst] at hold
    exact hold
  · by_cases hc : c' = c
    · rw [hc, view_pop_event hst] at hold
      rw [hc]
      refine ⟨hold.lifecycle, hold.active, .inl ?_⟩
      rcases hold.events with hnil | ⟨-, -, cbs, -, he⟩
      · cases hnil
      · exact (List.cons.inj he).2
    · rw [view_pop_of_ne hst (Ne.symm hc)]
      exact hold

theorem Inv.perform {j : Job} {rest : List Job} {r : ReadResult} {r' : WriteResult} (h : Inv st s)
    (hst : (s.loop l).stack = j :: rest)
    (ho : (s.setLoop l ((s.loop l).pop rest)).perform logErrno l r r' j = some t) :
    ∃ st', Inv st' t := by
  cases j with
  | establish c =>
    cases ho
    exact ⟨_, h.establish (h.taken hst rfl rfl)⟩
  | connectEstablished c =>
    obtain ⟨w, hw, rfl⟩ := Option.map_eq_some_iff.1 ho
    exact ⟨_, h.connectEstablished (h.taken hst rfl rfl) (toOption_eq_some.1 hw)⟩
  | handleEvent c cbs =>
    cases cbs with
    | nil =>
      cases ho
      exact ⟨st, h.finish hst (.inr rfl)⟩
    | cons cb cbs => exact (h.inHandler hst).mark.makeCallback ho
  | removeConnection c =>
    cases ho
    exact ⟨_, h.removeConnection (h.taken hst rfl rfl)⟩
  | removeConnectionInLoop c =>
    cases ho
    exact ⟨_, h.removeConnectionInLoop (h.taken hst rfl rfl)⟩
  | queueDestroyed c =>
    cases ho
    exact ⟨_, h.queueDestroyed (h.taken hst rfl rfl)⟩
  | connectDestroyed c =>
    obtain ⟨w, hw, rfl⟩ := Option.map_eq_some_iff.1 ho
    exact ⟨_, h.connectDestroyed hst (h.taken hst rfl rfl) (toOption_eq_some.1 hw)⟩
  | userCallback c =>
    cases ho
    exact ⟨st, h.finish hst (.inl rfl)⟩
  | sendInLoop c msg =>
    have := (h.shape l).stack_owns hst
    cases this
  | shutdownInLoop c =>
    have := (h.shape l).stack_owns hst
    cases this

/-- The kernel has no fd that has been closed. -/
theorem Inv.closeFds (h : Inv st s) : s.closeFds = s := by
  refine closeFds_of_owned fun l fd e he => (h.hasOwner ?_).owned
  rw [(h.entries l fd e he).1]
  decide

/-- The server is in the middle of its life. -/
structure Serving (s : TcpServer) : Prop where
  inv : ∃ st, Inv st s
  alive : s.alive = true
  ending : s.Ending

theorem stepped_inv (ha : s.Permits a) (hs : Stepped logErrno s a t) (hserving : s.Serving) :
    ∃ st', Inv st' t := by
  obtain ⟨st, h⟩ := hserving.inv
  cases hs with
  | poll hl hp hnd hreg he => exact ⟨st, h.poll ha hp hnd (fun e he => (hreg e he).2) he⟩
  | accept halive hp hstack hfd hfresh => exact ⟨_, h.accept hp hfresh ha⟩
  | dispatch hp hstack hactive => exact ⟨st, h.dispatch hp hstack hactive⟩
  | proceed hst ho => exact h.perform hst ho
  | swap hp hstack hactive => exact ⟨st, h.swap hp hstack hactive⟩
  | call hp hstack hfun => exact ⟨st, h.call hp hstack hfun⟩
  | destroyFunctors hp hstack hfun => exact ⟨st, h.destroyFunctors hp hstack hfun⟩
  | @leave l hp hstack hfun hq =>
    rw [(hserving.ending.goes_on hserving.alive l).1] at hq
    cases hq
  | send hc ho hr hw => exact ⟨st, h.send hc hr hw⟩
  | shutdown hc ho => exact ⟨st, h.shutdown hc⟩
  | hold hc ho => exact ⟨st, h.congr rfl rfl rfl rfl rfl rfl⟩
  | release hheld => exact ⟨st, h.congr rfl rfl rfl rfl rfl rfl⟩
  | foreignSend hheld => exact ha.elim
  | foreignShutdown hheld => exact ha.elim
  | destroyServer halive => exact ha.elim
  | quitLoop hdead =>
    rw [hserving.alive] at hdead
    cases hdead

theorem step_serving (ha : s.Permits a) (hs : step logErrno s a = some t) (h : s.Serving) :
    t.Serving := by
  obtain ⟨u, hu, rfl⟩ := step_some hs
  obtain ⟨st, hi⟩ := stepped_inv ha hu h
  refine ⟨⟨st, by rw [hi.closeFds]; exact hi⟩, (step_alive hs fun hd => ?_).trans h.alive,
    step_ending hs h.ending⟩
  subst hd
  exact ha

theorem run_lifecycle (h : s.Serving) (hper : Along (step logErrno) Permits s as)
    (hr : run (step logErrno) s as = some t) : t.Serving :=
  run_inv_along (I := Serving) (fun _ _ _ ha hs h => step_serving ha hs h) hper hr h

theorem started_inv (name ipPort : String) (numThreads : Nat) (cb cb' cb'' : Bool) :
    Inv (fun _ => .absent) (started name ipPort numThreads cb cb' cb'') where
  next := by
    rcases Nat.eq_zero_or_pos numThreads with h | h
    · exact .inl h
    · exact .inr h
  shape l := {
    polling := fun _ => ⟨rfl, rfl, rfl⟩
    handling := fun _ => rfl
    calling := fun hp => by cases hp
    leaving := fun c hc => by cases hc
    batch := fun j hj => by cases hj
    owns := fun j hj => by cases hj
    ended := fun _ => rfl }
  placed c l := ⟨rfl, .inl rfl, .inl rfl⟩
  conns c hc := absurd rfl hc
  absent c := ⟨fun _ => Nat.zero_le c, fun _ => rfl⟩
  entries l fd e he := by cases he
  calls l k hk := by cases hk
  fds c c' hc := absurd rfl hc.1
  connections n c := by
    constructor
    · intro hn; cases hn
    · intro hm; exact absurd hm.1 (by decide)

theorem started_serving (name ipPort : String) (numThreads : Nat) (cb cb' cb'' : Bool) :
    (started name ipPort numThreads cb cb' cb'').Serving :=
  ⟨⟨_, started_inv ..⟩, rfl, started_ending ..⟩

/-- Established, and not closed. -/
def IsOpen (s : TcpServer) (c : Nat) : Prop :=
  .established ∈ (s.conn c).log ∧ .closed ∉ (s.conn c).log ∧
    ((s.conn c).tcp.state = .connected ∨ (s.conn c).tcp.state = .disconnecting)

instance (s : TcpServer) (c : Nat) : Decidable (s.IsOpen c) := by unfold IsOpen; infer_instance

theorem Stage.marks_prefix (g : Stage) :
    g.marks <+: [.established, .closed, .erased, .destroyed] := by
  cases g <;> decide

/-- With no job left anywhere a connection is open, or it has been destroyed. -/
theorem Inv.quiescent (h : Inv st s) (hjobs : ∀ l ≤ s.numThreads, (s.loop l).jobs = [])
    (hc : c < s.accepted) : st c = .opened ∨ st c = .destroyed := by
  have hnone : ∀ l ≤ s.numThreads, (st c).due c (s.conn c).loop l = [] := by
    intro l hl
    rw [← (h.placed c l).lifecycle, view, hjobs l hl]
    rfl
  have hpresent : st c ≠ .absent := by
    rw [ne_eq, h.absent]
    omega
  have h0 := hnone 0 (Nat.zero_le _)
  have hio := hnone (s.conn c).loop (h.conns c hpresent).loop_le
  revert h0 hio hpresent
  cases st c <;> simp [Stage.due]

theorem Inv.isOpen (h : Inv st s) (hst : st c = .opened) : s.IsOpen c := by
  have hok := h.conns c (by rw [hst]; decide)
  rw [hst] at hok
  refine ⟨(mem_marks hok rfl).2 (by decide), ?_, (h.opened hst).2⟩
  rw [mem_marks hok rfl]
  decide

theorem Inv.opened_of_isOpen (h : Inv st s) (hpresent : st c ≠ .absent) (ho : s.IsOpen c) :
    st c = .opened := by
  obtain ⟨he, hcl, -⟩ := ho
  have hok := h.conns c hpresent
  rw [mem_marks hok rfl] at he hcl
  revert he hcl
  cases st c <;> decide

/-- What a loop is in the middle of finds all it uses. -/
theorem Serving.usable (h : s.Serving) {j : Job} (hj : j.owns = true) : s.usable l j = true := by
  have hloop (c : Nat) : (!(s.loop (s.conn c).loop).ended) = true := by
    rw [(h.ending.goes_on h.alive _).2]
    rfl
  cases j with
  | establish c => exact hloop c
  | removeConnection c => rw [TcpServer.usable, h.alive]; rfl
  | removeConnectionInLoop c => exact h.alive
  | queueDestroyed c => exact hloop c
  | connectEstablished c => rfl
  | handleEvent c cbs => rfl
  | connectDestroyed c => rfl
  | userCallback c => rfl
  | sendInLoop c msg => cases hj
  | shutdownInLoop c => cases hj

/-- The loop's step is the next part of the job in hand. -/
theorem Serving.proceed_some {j : Job} {rest : List Job} (h : s.Serving)
    (hst : (s.loop l).stack = j :: rest) {r : ReadResult} {r' : WriteResult}
    (ho : ∃ t, (s.setLoop l ((s.loop l).pop rest)).perform logErrno l r r' j = some t) :
    ∃ t, step logErrno s (.proceed l r r') = some t := by
  obtain ⟨t, ht⟩ := ho
  obtain ⟨st, hi⟩ := h.inv
  refine ⟨t.closeFds, Option.map_eq_some_iff.2 ⟨t, ?_, rfl⟩⟩
  rw [act, hst]
  exact (if_pos (h.usable ((hi.shape l).stack_owns hst))).trans ht

/-- No job of a connection's life can fail, whatever the kernel answers. -/
theorem Inv.lifecycle_enabled {j : Job} {rest : List Job} (h : Inv st s)
    (hst : (s.loop l).stack = j :: rest) (hj : j.lifecycle = true) (r : ReadResult) (r' : WriteResult) :
    ∃ t, (s.setLoop l ((s.loop l).pop rest)).perform logErrno l r r' j = some t := by
  cases j with
  | connectEstablished c =>
    have tk := h.taken (c := c) hst rfl rfl
    obtain ⟨hg, -⟩ : st c = .queued ∧ l = (s.conn c).loop := by simpa using Stage.of_due tk.due
    have hok := tk.connOk (h.conns c (by rw [hg]; decide))
    rw [hg] at hok
    obtain ⟨w, hw, -⟩ := World.connectEstablished_spec hok.holds
    exact ⟨_, Option.map_eq_some_iff.2 ⟨w, toOption_eq_some.2 hw, rfl⟩⟩
  | connectDestroyed c =>
    have tk := h.taken (c := c) hst rfl rfl
    obtain ⟨hg, -⟩ : st c = .leaving ∧ l = (s.conn c).loop := by simpa using Stage.of_due tk.due
    have hok := tk.connOk (h.conns c (by rw [hg]; decide))
    rw [hg] at hok
    obtain ⟨w, hw, -⟩ := World.connectDestroyed_spec (show Stage.Ended _ from hok.holds).wf
    exact ⟨_, Option.map_eq_some_iff.2 ⟨w, toOption_eq_some.2 hw, rfl⟩⟩
  | establish c => exact ⟨_, rfl⟩
  | removeConnection c => exact ⟨_, rfl⟩
  | removeConnectionInLoop c => exact ⟨_, rfl⟩
  | queueDestroyed c => exact ⟨_, rfl⟩
  | handleEvent c cbs => cases hj
  | userCallback c => cases hj
  | sendInLoop c msg => cases hj
  | shutdownInLoop c => cases hj

/-- A connection's life over any run: `connectEstablished`, `handleClose`, the erasure and
`connectDestroyed` come in this order, each at most once; its handlers come between the first and the
last; until the last it has an owner, and while the last runs its functor is kept by the batch. With no
job left in any loop the map has the open connections, and every other has been destroyed. -/
theorem lifecycle (logErrno : Errno → Errno) (name ipPort : String) (numThreads : Nat)
    (cb cb' cb'' : Bool) (as : List ServerStep)
    (hper : Along (step logErrno) Permits (started name ipPort numThreads cb cb' cb'') as)
    (hr : run (step logErrno) (started name ipPort numThreads cb cb' cb'') as = some t) :
    (∀ c < t.accepted,
      (t.conn c).log.filter Mark.lifecycle <+: [.established, .closed, .erased, .destroyed] ∧
      (∀ pre cb post, (t.conn c).log = pre ++ .handler cb :: post →
        .established ∈ pre ∧ .destroyed ∉ pre) ∧
      (.destroyed ∉ (t.conn c).log → t.HasOwner c)) ∧
    (∀ l c, .connectDestroyed c ∈ (t.loop l).stack → .connectDestroyed c ∈ (t.loop l).called) ∧
    ((∀ l ≤ t.numThreads, (t.loop l).jobs = []) →
      (∀ n c, t.connections n = some c ↔ c < t.accepted ∧ (t.conn c).name = n ∧ t.IsOpen c) ∧
      (∀ c < t.accepted, ¬ t.IsOpen c →
        .destroyed ∈ (t.conn c).log ∧ (t.conn c).tcp.state = .disconnected) ∧
      ((∀ l ≤ t.numThreads, (t.loop l).called = []) → ∀ c,
        t.owned c = true ↔ t.connections (t.conn c).name = some c ∨ 0 < t.held c)) := by
  obtain ⟨st, h⟩ := (run_lifecycle (started_serving ..) hper hr).inv
  have present : ∀ c < t.accepted, st c ≠ .absent := by
    intro c hc
    rw [ne_eq, h.absent]
    omega
  refine ⟨fun c hc => ⟨?_, ?_, fun hd => ?_⟩, fun l c hc => ((h.shape l).leaving c hc).2, fun hjobs =>
    ⟨fun n c => ?_, fun c hc hno => ?_, fun hcalled c => ?_⟩⟩
  · rw [(h.conns c (present c hc)).marks]
    exact Stage.marks_prefix _
  · exact (h.conns c (present c hc)).handled
  · refine h.hasOwner ⟨present c hc, fun hst => hd ?_⟩
    rw [mem_marks (h.conns c (present c hc)) rfl, hst]
    decide
  · rw [h.connections]
    constructor
    · rintro ⟨hm, hn⟩
      have hc : c < t.accepted := by
        by_contra hge
        rw [(h.absent c).2 (Nat.le_of_not_lt hge)] at hm
        exact absurd hm (by decide)
      rcases h.quiescent hjobs hc with hst | hst
      · exact ⟨hc, hn, h.isOpen hst⟩
      · rw [hst] at hm
        exact absurd hm (by decide)
    · rintro ⟨hc, hn, ho⟩
      rw [h.opened_of_isOpen (present c hc) ho]
      exact ⟨by decide, hn⟩
  · rcases h.quiescent hjobs hc with hst | hst
    · exact absurd (h.isOpen hst) hno
    · have hok := h.conns c (present c hc)
      rw [hst] at hok
      exact ⟨(mem_marks hok rfl).2 (by decide), hok.holds⟩
  · rw [owned_iff, ← or_assoc, or_iff_left]
    rintro ⟨l, hl, j, hj, -⟩
    rw [hjobs l hl, hcalled l hl] at hj
    cases hj

/-- The life of one connection of a pool loop: its peer sends two bytes and closes. -/
def lifeOfOne : List ServerStep :=
  [.poll 0 [], .accept 5, .proceed 0 (.delivered []) (.accepted 0), .poll 1 [], .swap 1, .call 1,
    .proceed 1 (.delivered []) (.accepted 0), .destroyFunctors 1, .poll 1 [(0, EPOLLIN)], .dispatch 1,
    .proceed 1 (.delivered [1, 2]) (.accepted 0), .proceed 1 (.delivered []) (.accepted 0), .swap 1,
    .destroyFunctors 1, .poll 1 [(0, EPOLLIN)], .dispatch 1,
    .proceed 1 (.delivered []) (.accepted 0), .proceed 1 (.delivered []) (.accepted 0),
    .proceed 1 (.delivered []) (.accepted 0), .swap 1, .destroyFunctors 1, .swap 0, .call 0,
    .proceed 0 (.delivered []) (.accepted 0), .proceed 0 (.delivered []) (.accepted 0),
    .destroyFunctors 0, .poll 1 [], .swap 1, .call 1, .proceed 1 (.delivered []) (.accepted 0),
    .destroyFunctors 1]

set_option maxRecDepth 20000 in
theorem lifecycle_of_one : ∃ t, run (step id) (started "s" "ip" 1 true true true) lifeOfOne = some t ∧
    t.accepted = 1 ∧ .destroyed ∈ (t.conn 0).log ∧ t.connections (t.conn 0).name ≠ some 0 := by
  have hrun : (run (step id) (started "s" "ip" 1 true true true) lifeOfOne).map (fun t =>
      (t.accepted, t.numThreads, decide (t.IsOpen 0), (t.loop 0).jobs, (t.loop 1).jobs)) =
        some (1, 1, false, [], []) := by decide +kernel
  obtain ⟨t, hr, ht⟩ := Option.map_eq_some_iff.1 hrun
  simp only [Prod.mk.injEq, decide_eq_false_iff_not] at ht
  obtain ⟨hacc, hnum, hclosed, h0, h1⟩ := ht
  obtain ⟨-, -, hquiet⟩ := lifecycle id "s" "ip" 1 true true true lifeOfOne (by decide +kernel) hr
  have hjobs : ∀ l ≤ t.numThreads, (t.loop l).jobs = [] := by
    intro l hl
    obtain rfl | rfl : l = 0 ∨ l = 1 := by omega
    · exact h0
    · exact h1
  obtain ⟨hmap, hdead, -⟩ := hquiet hjobs
  exact ⟨t, hr, hacc, (hdead 0 (by omega) hclosed).1, fun hn => hclosed ((hmap _ 0).1 hn).2.2⟩

end TcpServer
end Muduo
