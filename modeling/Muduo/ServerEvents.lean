import Muduo.ServerJobs

/-!
# What a connection's functions do to the server

`absorb` puts a connection's function back into the server. Unless the close callback was called the
connection stays at its stage; `connectEstablished`, `handleClose` and `connectDestroyed` are the
functions that take it further.
-/

namespace Muduo
open EPollPoller ServerLoop
namespace TcpServer
variable {s t : TcpServer} {c l : Nat} {st : Nat → Stage} {g : Stage} {w w' : World Nat}
  {rest : List Job}

theorem uncalled_world (s : TcpServer) (c : Nat) : (s.world c).Uncalled := by
  simp [World.Uncalled, world]

def setTcp (s : TcpServer) (c : Nat) (tcp : TcpConnection) : TcpServer :=
  { s with conn := Function.update s.conn c { s.conn c with tcp := tcp } }

/-- The connection's loop after its function, but for the close callback. -/
def afterwards (s : TcpServer) (c : Nat) (w : World Nat) : ServerLoop :=
  ({ s.loop (s.conn c).loop with poller := w.poller } : ServerLoop).queue
    ((queued w.trace).map fun _ => .userCallback c)

theorem absorb_uncalled (h : w.Uncalled) :
    s.absorb c w = (s.setTcp c w.conn).setLoop (s.conn c).loop (s.afterwards c w) := by
  unfold absorb
  dsimp only
  rw [if_neg h, List.nil_append]
  rfl

theorem absorb_called (h : .closeCallback ∈ w.trace) : s.absorb c w =
    (s.setTcp c w.conn).setLoop (s.conn c).loop ((s.afterwards c w).push (.removeConnection c)) := by
  unfold absorb
  dsimp only
  rw [if_pos h]
  rfl

theorem view_afterwards (c' : Nat) :
    (s.afterwards c w).view c' = (s.loop (s.conn c).loop).view c' := by
  have hnil : ((queued w.trace).map fun _ => Job.userCallback c).filter
      (fun j => j.lifecycle && j.conn == c') = [] := by
    rw [List.filter_eq_nil_iff]
    intro j hj
    obtain ⟨_, -, rfl⟩ := List.mem_map.1 hj
    simp [Job.lifecycle]
  rw [afterwards, view_queue, hnil, List.append_nil]
  rfl

theorem shape_afterwards (h : ∀ l, (s.loop l).Shape) : (s.afterwards c w).Shape := by
  refine (h (s.conn c).loop).poller.queue fun j hj => ?_
  obtain ⟨_, -, rfl⟩ := List.mem_map.1 hj
  exact ⟨rfl, rfl⟩

theorem conn_setTcp_self (s : TcpServer) (c : Nat) (tcp : TcpConnection) :
    (s.setTcp c tcp).conn c = { s.conn c with tcp := tcp } := Function.update_self ..

theorem conn_absorb (s : TcpServer) (c : Nat) (w : World Nat) :
    (s.absorb c w).conn c = { s.conn c with tcp := w.conn } := Function.update_self ..

theorem poller_absorb (s : TcpServer) (c : Nat) (w : World Nat) :
    ((s.absorb c w).loop (s.conn c).loop).poller = w.poller := by
  show ((setLoop _ (s.conn c).loop _).loop _).poller = _
  rw [loop_setLoop, if_pos rfl]

theorem world_absorb (hptr : w.ptr = c) : (s.absorb c w).world c = { w with trace := [] } := by
  rw [world, conn_absorb, poller_absorb, hptr]

theorem conn_setLoop (s : TcpServer) (l : Nat) (q : ServerLoop) : (s.setLoop l q).conn = s.conn := rfl

theorem Touched.setTcp {tcp : TcpConnection} {q : ServerLoop}
    (hfd : tcp.channel.fd = (s.conn c).tcp.channel.fd)
    (hf : Frame (s.loop (s.conn c).loop).poller (s.conn c).tcp.channel.fd q.poller)
    (he : q.ended = (s.loop (s.conn c).loop).ended)
    (hv : ∀ c', c' ≠ c → q.view c' = (s.loop (s.conn c).loop).view c') :
    Touched s c ((s.setTcp c tcp).setLoop (s.conn c).loop q) where
  numThreads := rfl
  next := rfl
  accepted := rfl
  others _ hne := Function.update_of_ne hne ..
  name := by rw [conn_setLoop, conn_setTcp_self]
  loop := by rw [conn_setLoop, conn_setTcp_self]
  fd := by rw [conn_setLoop, conn_setTcp_self]; exact hfd
  pollers l' hl := by rw [loop_setLoop, if_neg hl]; rfl
  frame := by rw [loop_setLoop, if_pos rfl]; exact hf
  views c' hne l' := by
    rw [loop_setLoop]
    split
    · rename_i hl; rw [hv c' hne, hl]
    · rfl
  ended l' := by
    rw [loop_setLoop]
    split
    · rename_i hl; rw [he, hl]
    · rfl

theorem Touched.absorb (hk : World.Kept (s.world c) w) : Touched s c (s.absorb c w) := by
  by_cases hm : .closeCallback ∈ w.trace
  · rw [absorb_called hm]
    refine .setTcp hk.fd hk.frame rfl fun c' hne => ?_
    rw [view_push_of_ne (Ne.symm hne), view_afterwards]
  · rw [absorb_uncalled hm]
    exact .setTcp hk.fd hk.frame rfl fun c' _ => view_afterwards c'

theorem ConnOk.absorb (hok : s.ConnOk g c) (hk : World.Kept (s.world c) w) {g' : Stage}
    (hm : g'.marks = g.marks) (hh : g'.Holds { w with trace := [] }) : (s.absorb c w).ConnOk g' c := by
  refine ⟨?_, ?_, ?_, ?_, ?_⟩
  · rw [conn_absorb]; exact hok.loop_le
  · rw [conn_absorb]; exact hk.closeCallback.trans hok.closeCallback
  · rw [world_absorb (show w.ptr = c from hk.ptr)]; exact hh
  · rw [conn_absorb, hm]; exact hok.marks
  · rw [conn_absorb]; exact hok.handled

theorem view_absorb_uncalled (h : w.Uncalled) (c' l' : Nat) :
    ((s.absorb c w).loop l').view c' = (s.loop l').view c' := by
  rw [absorb_uncalled h, loop_setLoop]
  split
  · rename_i hl; rw [view_afterwards, hl]
  · rfl

theorem view_absorb_called (h : .closeCallback ∈ w.trace) (hf : s.Free c) (l' : Nat) :
    ((s.absorb c w).loop l').view c = { (s.loop l').view c with
      lifecycle := if l' = (s.conn c).loop then [.removeConnection c] else [] } := by
  rw [absorb_called h, loop_setLoop]
  split
  · rename_i hl
    refine (view_push_lifecycle (j := .removeConnection c) rfl).trans ?_
    rw [show (Job.removeConnection c).conn = c from rfl, view_afterwards, ← hl, hf]
  · rw [← hf l']
    rfl

/-- Any function that does not call the close callback and that the stage survives. -/
theorem Inv.absorb (h : Inv st s) (hlive : (st c).Live) (hk : World.Kept (s.world c) w)
    (hq : w.Uncalled) (hh : (st c).Holds { w with trace := [] }) : Inv st (s.absorb c w) := by
  have hshape : ∀ l, ((s.absorb c w).loop l).Shape := by
    rw [absorb_uncalled hq]
    exact shape_setLoop h.shape (shape_afterwards h.shape)
  have hplaced : ∀ l, Placed (st c) c (s.conn c).loop l (((s.absorb c w).loop l).view c) := by
    intro l
    rw [view_absorb_uncalled hq]
    exact h.placed c l
  have := h.move (.absorb hk) hlive hlive hshape hplaced ((h.conns c hlive.1).absorb hk rfl hh) rfl Iff.rfl
  rwa [Function.update_eq_self] at this

theorem absorb_world (s : TcpServer) (c : Nat) : s.absorb c (s.world c) = s := by
  have hloop : s.afterwards c (s.world c) = s.loop (s.conn c).loop := by
    show ServerLoop.mk _ _ _ _ _ _ (_ ++ []) _ _ = _
    rw [List.append_nil]
    rfl
  have hconn : s.setTcp c (s.world c).conn = s := by
    show ({ s with conn := Function.update s.conn c (s.conn c) } : TcpServer) = s
    rw [Function.update_eq_self]
  rw [absorb_uncalled (uncalled_world s c), hconn, hloop, setLoop, Function.update_eq_self]

/-! ### Establishing, closing and destroying -/

/-- A function of the connection with the mark of the stage it leads to. -/
theorem ConnOk.mark_absorb {m : Mark} {g' : Stage} (hok : s.ConnOk g c)
    (hk : World.Kept (s.world c) w) (hm : m.lifecycle = true) (hg : g'.marks = g.marks ++ [m])
    (hh : g'.Holds { w with trace := [] }) : ((s.mark c m).absorb c w).ConnOk g' c := by
  have hconn : ((s.mark c m).absorb c w).conn c =
      { s.conn c with tcp := w.conn, log := (s.conn c).log ++ [m] } := by
    rw [conn_absorb, conn_mark_self]
  refine ⟨?_, ?_, ?_, ?_, ?_⟩
  · rw [hconn]; exact hok.loop_le
  · rw [hconn]; exact hk.closeCallback.trans hok.closeCallback
  · rw [world_absorb (show w.ptr = c from hk.ptr)]; exact hh
  · rw [hconn]; exact marks_concat hok.marks hm hg
  · rw [hconn]; exact handled_lifecycle hok.handled hm

theorem Inv.connectEstablished (h : Inv st s) (tk : Taken s l c (.connectEstablished c) st t)
    (ho : (t.world c).connectEstablished = .ok w) :
    Inv (Function.update st c .opened) ((t.mark c .established).absorb c w) := by
  obtain ⟨hst, -⟩ : st c = .queued ∧ l = (s.conn c).loop := by simpa using Stage.of_due tk.due
  have hok := tk.connOk (h.conns c (by rw [hst]; decide))
  rw [hst] at hok
  have hk := World.connectEstablished_kept hok.holds ho
  have he := World.connectEstablished_ok hok.holds ho
  have hshape : ∀ l, (((t.mark c .established).absorb c w).loop l).Shape := by
    rw [absorb_uncalled he.uncalled]
    exact shape_setLoop tk.shape (shape_afterwards tk.shape)
  have hu := (tk.touched.trans (Touched.mark (m := .established))).trans
    (.absorb (by rw [world_mark]; exact hk))
  have hopen : Stage.opened.Holds { w with trace := [] } :=
    Stage.Holds.forget (g := .opened) ⟨he.flowing, .inl he.state⟩ (by decide)
  refine h.move hu (by rw [hst]; decide) (by decide) hshape
    (fun l' => (h.placed c l').hop ?_ ?_ ?_) (hok.mark_absorb hk rfl rfl hopen) tk.connections (by rw [hst]; decide)
  · rw [view_absorb_uncalled he.uncalled]
    exact tk.view l'
  · rw [hst]; decide
  · rw [hst]
    intro cbs hcbs
    simp [Stage.Handling] at hcbs

/-- The connection is in its handler, or in none, and will not close again. -/
def LastHandler (s : TcpServer) (c : Nat) : Prop :=
  ∀ l, ((s.loop l).view c).active = [] ∧ (((s.loop l).view c).events = [] ∨
    l = (s.conn c).loop ∧ ∃ cbs, closers cbs = [] ∧ ((s.loop l).view c).events = [.handleEvent c cbs])

theorem Inv.closed (h : Inv st s) (hst : st c = .opened) (hlast : s.LastHandler c)
    (hbusy : (s.loop (s.conn c).loop).phase ≠ .polling) (hk : World.Kept (s.world c) w)
    (hm : .closeCallback ∈ w.trace) (hend : Stage.Ended w) :
    Inv (Function.update st c .closing) ((s.mark c .closed).absorb c w) := by
  have hok := h.conns c (by rw [hst]; decide)
  rw [hst] at hok
  have hshape : ∀ l, (((s.mark c .closed).absorb c w).loop l).Shape := by
    rw [absorb_called hm]
    have hafter := shape_afterwards (s := s.mark c .closed) (c := c) (w := w) h.shape
    refine shape_setLoop h.shape (hafter.push (j := .removeConnection c) ?_ ⟨rfl, rfl, by simp⟩)
    show (s.loop ((s.mark c .closed).conn c).loop).phase ≠ .polling
    rw [conn_mark_self]
    exact hbusy
  have hu : Touched s c ((s.mark c .closed).absorb c w) :=
    Touched.mark.trans (.absorb (by rw [world_mark]; exact hk))
  have hview : ∀ l, (((s.mark c .closed).absorb c w).loop l).view c =
      { (s.loop l).view c with lifecycle := Stage.closing.due c (s.conn c).loop l } := by
    intro l
    have hfree : (s.mark c .closed).Free c := fun l => by
      show ((s.loop l).view c).lifecycle = []
      rw [(h.placed c l).lifecycle, hst]
      rfl
    rw [view_absorb_called hm hfree, conn_mark_self]
    rfl
  have hending : Stage.closing.Holds { w with trace := [] } :=
    Stage.Holds.forget (g := .closing) hend (by decide)
  refine h.move hu (by rw [hst]; decide) (by decide) hshape (fun l => ?_)
    (hok.mark_absorb hk rfl rfl hending) rfl (by rw [hst]; decide)
  rw [hview]
  refine ⟨rfl, .inl (hlast l).1, ?_⟩
  · rcases (hlast l).2 with hnil | ⟨hl, cbs, hcbs, he⟩
    · exact .inl hnil
    · exact .inr ⟨hl, (hlast l).1, cbs, .inr ⟨by decide, hcbs⟩, he⟩

theorem Inv.connectDestroyed (h : Inv st s) (hst : (s.loop l).stack = .connectDestroyed c :: rest)
    (tk : Taken s l c (.connectDestroyed c) st t) (ho : (t.world c).connectDestroyed = .ok w) :
    Inv (Function.update st c .destroyed) ((t.mark c .destroyed).absorb c w) := by
  obtain ⟨hg, hl⟩ : st c = .leaving ∧ l = (s.conn c).loop := by simpa using Stage.of_due tk.due
  have hok := tk.connOk (h.conns c (by rw [hg]; decide))
  rw [hg] at hok
  have hend : Stage.Ended (t.world c) := hok.holds
  obtain ⟨v, hv, hd⟩ := World.connectDestroyed_spec hend.wf
  rw [hv] at ho; cases ho
  have hq : w.Uncalled := hd.uncalled (uncalled_world t c)
  have hdead : w.conn.state = .disconnected := by
    rw [hd.eq, hend.state]
    rfl
  have hshape : ∀ l, (((t.mark c .destroyed).absorb c w).loop l).Shape := by
    rw [absorb_uncalled hq]
    exact shape_setLoop tk.shape (shape_afterwards tk.shape)
  have hu := (tk.touched.trans (Touched.mark (m := .destroyed))).trans
    (.absorb (by rw [world_mark]; exact hd.kept))
  have hview : ∀ l', (((t.mark c .destroyed).absorb c w).loop l').view c =
      { (s.loop l').view c with lifecycle := Stage.destroyed.due c (s.conn c).loop l' } := by
    intro l'
    rw [view_absorb_uncalled hq]
    exact tk.view l'
  -- The functor runs in a batch, and no handler does.
  have hevents : ∀ l', ((s.loop l').view c).events = [] := by
    intro l'
    rcases (h.placed c l').events with hnil | ⟨hl', -⟩
    · exact hnil
    · have hcalling := ((h.shape l).leaving c (by rw [hst]; simp)).1
      show List.filter _ _ = []
      rw [List.filter_eq_nil_iff, hl', ← hl]
      intro j hj
      rw [((h.shape l).calling hcalling).2 j hj]
      simp
  refine h.touch hu (by rw [hg]; decide) (by decide) hshape (fun l' => ?_)
    (hok.mark_absorb hd.kept rfl rfl hdead) ?_ (h.connections_update tk.connections (by rw [hg]; decide))
  · rw [hview]
    refine ⟨rfl, ?_, .inl (hevents l')⟩
    rcases (h.placed c l').active with hnil | ⟨-, hopen, -⟩
    · exact .inl hnil
    · rw [hg] at hopen; cases hopen
  · intro e he
    have hp : (((t.mark c .destroyed).absorb c w).loop (s.conn c).loop).poller = w.poller := by
      rw [← tk.conn, ← poller_absorb (t.mark c .destroyed) c w, conn_mark_self]
    have hfd : w.conn.channel.fd = (s.conn c).tcp.channel.fd := by
      rw [hd.kept.fd, ← tk.conn]
      rfl
    have hnew : w.conn.channel.status ≠ .added := by rw [hd.channel]; simp
    rw [hp, ← hfd, hd.wf.synced.absent hnew] at he
    cases he

/-! ### Events -/

theorem Inv.opened (h : Inv st s) (hst : st c = .opened) : (s.world c).Flowing ∧
    ((s.world c).conn.state = .connected ∨ (s.world c).conn.state = .disconnecting) := by
  have hh := (h.conns c (by rw [hst]; decide)).holds
  rw [hst] at hh
  exact hh

theorem Inv.ended (h : Inv st s) (hst : st c ∈ [Stage.closing, .removing, .erased, .leaving]) :
    Stage.Ended (s.world c) := by
  have hh := (h.conns c (by rintro hg; rw [hg] at hst; revert hst; decide)).holds
  revert hst hh
  cases st c <;> first | exact fun _ hh => hh | exact fun hg => absurd hg (by decide)

/-- A function after which an open connection is open. -/
theorem Inv.absorb_opened (h : Inv st s) (hst : st c = .opened) (hk : World.Kept (s.world c) w)
    (hq : w.Uncalled) (hf : w.Flowing)
    (hstate : w.conn.state = (s.world c).conn.state ∨ w.conn.state = .disconnecting) :
    Inv st (s.absorb c w) := by
  have hopen : w.conn.state = .connected ∨ w.conn.state = .disconnecting := by
    rcases hstate with heq | heq
    · rw [heq]; exact (h.opened hst).2
    · exact .inr heq
  refine h.absorb (by rw [hst]; decide) hk hq ?_
  rw [hst]
  exact Stage.Holds.forget (g := .opened) ⟨hf, hopen⟩ (by decide)

theorem Inv.did (logErrno : Errno → Errno) {a : ConnStep Nat} (h : Inv st s) (hst : st c = .opened)
    (hd : ConnStep.Did logErrno (s.world c) a w) (ha : ¬ a.Closes) (ho : a.Own) :
    Inv st (s.absorb c w) :=
  h.absorb_opened hst (hd.keeps ho) (hd.uncalled ha (uncalled_world s c))
    (hd.flowing (h.opened hst).1 ha) (hd.state ha)

theorem ended_of_closed (hc : World.Closed w w') (hst : w.conn.state = .disconnected)
    (hadded : w.conn.channel.status = .added) : Stage.Ended w' where
  wf := hc.wf
  state := by rw [hc.eq]; exact hst
  idle := by rw [hc.disabled.isWriting, ChannelOp.writing_disableAll]
  unregistered := by
    rw [hc.disabled.status, if_neg (by decide), if_pos ⟨hadded, rfl⟩]
    decide

/-- `handleClose`, called by itself or at the end of the input. -/
theorem Inv.handleClose (h : Inv st s) (hst : st c = .opened) (hlast : s.LastHandler c)
    (hbusy : (s.loop (s.conn c).loop).phase ≠ .polling) (hwf : w.Wf) (hk : World.Kept (s.world c) w)
    (hadded : w.conn.channel.status = .added) (ho : s.handleClose c w = some t) :
    ∃ st', Inv st' t := by
  obtain ⟨v, hv, rfl⟩ := Option.map_eq_some_iff.1 ho
  have hc := World.closeRest_ok (hwf.setState .disconnected) (toOption_eq_some.1 hv)
  have hcl : w.conn.closeCallback = true :=
    hk.closeCallback.trans (h.conns c (by rw [hst]; decide)).closeCallback
  exact ⟨_, h.closed hst hlast hbusy ((hk.trans (World.setState_kept _)).trans hc.kept)
    (hc.closeCallback_mem hcl) (ended_of_closed hc rfl hadded)⟩

/-! ### Handlers -/

theorem mem_marks {m : Mark} (hok : s.ConnOk g c) (hm : m.lifecycle = true) :
    m ∈ (s.conn c).log ↔ m ∈ g.marks := by
  rw [← hok.marks, List.mem_filter, and_iff_left hm]

theorem Inv.mark_handler {cbs : List Callback} {cb : Callback} (h : Inv st s)
    (hh : (st c).Handling cbs) : Inv st (s.mark c (.handler cb)) := by
  have hlive : (st c).Live := by
    rcases hh with ⟨hg, -⟩ | ⟨hg, -⟩
    · rw [hg]; decide
    · revert hg
      cases st c <;> decide
  have hok := h.conns c hlive.1
  have hmarks := hh.marks
  rw [← mem_marks hok rfl, ← mem_marks hok rfl] at hmarks
  have hok' : (s.mark c (.handler cb)).ConnOk (st c) c := by
    refine ⟨?_, ?_, ?_, ?_, ?_⟩
    · rw [conn_mark_self]; exact hok.loop_le
    · rw [conn_mark_self]; exact hok.closeCallback
    · rw [world_mark]; exact hok.holds
    · rw [conn_mark_self, List.filter_append, hok.marks]
      exact List.append_nil _
    · rw [conn_mark_self]
      exact hok.handled.concat fun _ _ => hmarks
  have := h.move .mark hlive hlive h.shape (h.placed c) hok' rfl Iff.rfl
  rwa [Function.update_eq_self] at this

theorem enter_setLoop (s : TcpServer) (l : Nat) (q : ServerLoop) (j : Job) :
    (s.setLoop l q).enter l j = s.setLoop l (q.push j) := by
  rw [TcpServer.enter, loop_setLoop, if_pos rfl, setLoop, setLoop, Function.update_idem]
  rfl

/-- A loop about to make the callback `cb`, with `cbs` still to come. -/
structure InHandler (s : TcpServer) (l c : Nat) (cb : Callback) (cbs : List Callback)
    (st : Nat → Stage) : Prop where
  inv : Inv st s
  loop : l = (s.conn c).loop
  busy : (s.loop l).phase ≠ .polling
  handling : (st c).Handling (cb :: cbs)
  last : closers cbs = [] → s.LastHandler c

theorem Inv.inHandler {cb : Callback} {cbs : List Callback} (h : Inv st s)
    (hst : (s.loop l).stack = .handleEvent c (cb :: cbs) :: rest) : InHandler
      ((s.setLoop l ((s.loop l).pop rest)).enter l (.handleEvent c cbs)) l c cb cbs st := by
  have hq := view_pop_event hst
  obtain ⟨hl, hactive, hh, hnil⟩ : l = (s.conn c).loop ∧ ((s.loop l).view c).active = [] ∧
      (st c).Handling (cb :: cbs) ∧ (((s.loop l).pop rest).view c).events = [] := by
    rcases (h.placed c l).events with hnil | ⟨hl, ha, cbs', hh, he⟩
    · rw [hq] at hnil; cases hnil
    · rw [hq] at he
      obtain ⟨hj, hnil⟩ := List.cons.inj he
      cases hj
      exact ⟨hl, ha, hh, hnil⟩
  have hview : ∀ l', ((s.setLoop l (((s.loop l).pop rest).push (.handleEvent c cbs))).loop l').view c =
      { (s.loop l').view c with events := if l' = l then [.handleEvent c cbs] else [] } := by
    intro l'
    rw [loop_setLoop]
    split
    · rename_i hl'
      rw [view_push_event, hl', hq, hnil]
    · rename_i hl'
      rcases (h.placed c l').events with hnil | ⟨hio, -⟩
      · rw [← hnil]
      · exact absurd (hio.trans hl.symm) hl'
  rw [enter_setLoop]
  have hinv : Inv st (s.setLoop l (((s.loop l).pop rest).push (.handleEvent c cbs))) := by
    refine h.setLoop rfl ((h.shape l).handler hst) fun c' => ?_
    by_cases hc : c' = c
    · rw [hc, view_push_event, hnil]
      rw [hq] at hactive
      have hlife := (h.placed c l).lifecycle
      rw [hq] at hlife
      exact ⟨hlife, .inl hactive, .inr ⟨hl, hactive, cbs, hh.tail, rfl⟩⟩
    · rw [view_push_of_ne (Ne.symm hc), view_pop_of_ne hst (Ne.symm hc)]
      exact h.placed c' l
  exact {
    inv := hinv
    loop := hl
    busy := by rw [loop_setLoop, if_pos rfl]; exact (h.shape l).not_polling hst
    handling := hh
    last := fun hcbs l' => by
      rw [hview]
      by_cases hl' : l' = l
      · rw [if_pos hl', hl']
        exact ⟨hactive, .inr ⟨hl, cbs, hcbs, rfl⟩⟩
      · refine ⟨?_, .inl (if_neg hl')⟩
        rcases (h.placed c l').active with hnil | ⟨hio, -⟩
        · exact hnil
        · exact absurd (hio.trans hl.symm) hl' }

theorem InHandler.mark {cb : Callback} {cbs : List Callback} (h : InHandler s l c cb cbs st) :
    InHandler (s.mark c (.handler cb)) l c cb cbs st where
  inv := h.inv.mark_handler h.handling
  loop := by rw [conn_mark_self]; exact h.loop
  busy := h.busy
  handling := h.handling
  last hcbs l' := by
    rw [conn_mark_self]
    exact h.last hcbs l'

/-- What one callback of a handler was. -/
inductive Called (s : TcpServer) (c : Nat) (r : ReadResult) (r' : WriteResult) :
    Callback → TcpServer → Prop
  | close {t : TcpServer} (ho : s.handleClose c (s.world c) = some t) : Called s c r r' .close t
  | error : Called s c r r' .error (s.absorb c (s.world c).handleError)
  | read {v : World Nat} (hv : (s.world c).readInput r = .ok (v, false)) :
      Called s c r r' .read (s.absorb c v)
  | readEnd {v : World Nat} {t : TcpServer} (hv : (s.world c).readInput r = .ok (v, true))
      (ho : s.handleClose c v = some t) : Called s c r r' .read t
  | write {v : World Nat} (hv : (s.world c).handleWrite r' = .ok v) :
      Called s c r r' .write (s.absorb c v)

theorem makeCallback_some {cb : Callback} {r : ReadResult} {r' : WriteResult}
    (ho : s.makeCallback c cb r r' = some t) : Called s c r r' cb t := by
  cases cb with
  | close => exact .close ho
  | error =>
    cases ho
    exact .error
  | read =>
    rw [TcpServer.makeCallback] at ho
    split at ho
    · obtain ⟨⟨v, atEnd⟩, hv, ho⟩ := Option.bind_eq_some_iff.1 ho
      replace hv := toOption_eq_some.1 hv
      cases atEnd with
      | true => exact .readEnd hv ho
      | false =>
        cases ho
        exact .read hv
    · cases ho
  | write =>
    rw [TcpServer.makeCallback] at ho
    split at ho
    · obtain ⟨v, hv, rfl⟩ := Option.map_eq_some_iff.1 ho
      exact .write (toOption_eq_some.1 hv)
    · cases ho

theorem InHandler.makeCallback {cb : Callback} {cbs : List Callback} {r : ReadResult}
    {r' : WriteResult} (h : InHandler s l c cb cbs st) (ho : s.makeCallback c cb r r' = some t) :
    ∃ st', Inv st' t := by
  have hbusy := h.loop ▸ h.busy
  cases makeCallback_some ho with
  | close ho =>
    obtain ⟨hst, hcbs⟩ := h.handling.closer (.inl rfl)
    obtain ⟨hf, -⟩ := h.inv.opened hst
    exact h.inv.handleClose hst (h.last hcbs) hbusy hf.wf .rfl hf.status ho
  | error => exact ⟨st, by rw [World.handleError, absorb_world]; exact h.inv⟩
  | read hv =>
    obtain ⟨hst, -⟩ := h.handling.closer (.inr rfl)
    obtain ⟨hf, -⟩ := h.inv.opened hst
    obtain ⟨inp, hwf, ⟨-, hw⟩ | ⟨hend, -⟩⟩ := World.readInput_ok hf.wf hv
    · rcases hw with rfl | rfl
      · exact ⟨st, h.inv.absorb_opened hst (World.received_kept inp) (uncalled_world s c)
          (hf.congr hwf rfl rfl) (.inl rfl)⟩
      · have hq : (((s.world c).received inp).emit .messageCallback).Uncalled := by
          simp [World.Uncalled, World.emit, World.received, world]
        exact ⟨st, h.inv.absorb_opened hst (.of_same rfl rfl rfl rfl) hq
          (hf.congr (hwf.emit _) rfl rfl) (.inl rfl)⟩
    · cases hend
  | readEnd hv ho =>
    obtain ⟨hst, hcbs⟩ := h.handling.closer (.inr rfl)
    obtain ⟨hf, -⟩ := h.inv.opened hst
    obtain ⟨inp, hwf, ⟨hmore, -⟩ | ⟨-, -, rfl⟩⟩ := World.readInput_ok hf.wf hv
    · cases hmore
    · exact h.inv.handleClose hst (h.last hcbs) hbusy hwf (World.received_kept inp) hf.status ho
  | write hv =>
    rcases h.handling with ⟨hst, -⟩ | ⟨hst, -⟩
    · obtain ⟨hf, -⟩ := h.inv.opened hst
      obtain ⟨u, b, hu⟩ := World.drain_returns (r := r') hf.wf
      rw [World.handleWrite, hu] at hv
      cases hv
      exact ⟨st, h.inv.did id hst (.drained (World.drain_ok hf.wf hu)) not_false trivial⟩
    · rw [World.handleWrite, World.drain_not_writing (h.inv.ended hst).idle] at hv
      cases hv
      exact ⟨st, by rw [World.finishWrite_eq, if_neg (by simp), absorb_world]; exact h.inv⟩

end TcpServer
end Muduo
