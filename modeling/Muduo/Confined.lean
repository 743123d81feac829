import Muduo.Lifecycle
import Muduo.ConnParts

/-!
# Where a connection's work is done

Every job, every polled event and every entry of a poller is about an accepted connection and in the
loop that belongs to it. `Confined` says so of every run, also of one in which the server is destroyed
under its connections, descriptors come back, or other threads call.
-/

namespace Muduo
open EPollPoller ServerLoop Lts

namespace TcpServer
variable {s t u : TcpServer} {c l l' : Nat} {w : World Nat} {j : Job} {rest : List Job}
  {logErrno : Errno → Errno} {a : ServerStep} {as : List ServerStep}

/-! ### Where everything is -/

/-- The loop that the job belongs to: the map is the server's own loop's, the rest the connection's. -/
def home (s : TcpServer) : Job → Nat
  | .establish _ => 0
  | .removeConnectionInLoop _ => 0
  | .queueDestroyed _ => 0
  | j => (s.conn j.conn).loop

/-- A connection that has been accepted, and is loop `l`'s. -/
def Of (s : TcpServer) (l c : Nat) : Prop := c < s.accepted ∧ (s.conn c).loop = l

structure Confined (s : TcpServer) : Prop where
  loop_le : ∀ c < s.accepted, (s.conn c).loop ≤ s.numThreads
  jobs : ∀ l, ∀ j ∈ (s.loop l).jobs, j.conn < s.accepted ∧ s.home j = l
  active : ∀ l, ∀ e ∈ (s.loop l).active, s.Of l e.1
  interest : ∀ l fd e, (s.loop l).poller.interest fd = some e → s.Of l e.ptr
  channels : ∀ l fd c, (s.loop l).poller.channels fd = some c → s.Of l c
  held : ∀ c, 0 < s.held c → c < s.accepted

/-- Whatever is new in a loop belongs there. -/
structure Arrived (s : TcpServer) (l : Nat) (q : ServerLoop) : Prop where
  jobs : ∀ j ∈ q.jobs, j ∈ (s.loop l).jobs ∨ j.conn < s.accepted ∧ s.home j = l
  active : ∀ e ∈ q.active, e ∈ (s.loop l).active ∨ s.Of l e.1
  interest : ∀ fd e, q.poller.interest fd = some e →
    (s.loop l).poller.interest fd = some e ∨ s.Of l e.ptr
  channels : ∀ fd c, q.poller.channels fd = some c →
    (s.loop l).poller.channels fd = some c ∨ s.Of l c

theorem Arrived.rfl : Arrived s l (s.loop l) :=
  ⟨fun _ => .inl, fun _ => .inl, fun _ _ => .inl, fun _ _ => .inl⟩

theorem Arrived.exited : Arrived s l .exited where
  jobs j hj := by cases hj
  active e he := by cases he
  interest fd e he := by cases he
  channels fd c hc := by cases hc

theorem home_congr (h : (t.conn j.conn).loop = (s.conn j.conn).loop) : t.home j = s.home j := by
  cases j <;> first | rfl | exact h

/-- No connection changes its loop, and what is new in a loop belongs there. -/
theorem Confined.of_arrived (h : s.Confined) (hn : t.numThreads = s.numThreads)
    (hacc : t.accepted = s.accepted) (hloop : ∀ c < s.accepted, (t.conn c).loop = (s.conn c).loop)
    (hheld : ∀ c, 0 < t.held c → 0 < s.held c ∨ c < s.accepted)
    (hnew : ∀ l, Arrived s l (t.loop l)) : t.Confined := by
  have keep : ∀ l c, s.Of l c → t.Of l c := fun l c ⟨hc, hl⟩ => ⟨hacc ▸ hc, (hloop c hc).trans hl⟩
  refine ⟨fun c hc => ?_, fun l j hj => ?_, fun l e he => ?_, fun l fd e he => ?_, fun l fd c hc => ?_,
    fun c hc => ?_⟩
  · rw [hacc] at hc
    rw [hloop c hc, hn]
    exact h.loop_le c hc
  · obtain ⟨hc, hl⟩ := ((hnew l).jobs j hj).elim (h.jobs l j) id
    exact ⟨hacc ▸ hc, (home_congr (hloop _ hc)).trans hl⟩
  · exact keep l e.1 (((hnew l).active e he).elim (h.active l e) id)
  · exact keep l e.ptr (((hnew l).interest fd e he).elim (h.interest l fd e) id)
  · exact keep l c (((hnew l).channels fd c hc).elim (h.channels l fd c) id)
  · rw [hacc]
    exact (hheld c hc).elim (h.held c) id

theorem Confined.setLoop {q : ServerLoop} (h : s.Confined) (hq : Arrived s l q) :
    (s.setLoop l q).Confined := by
  refine h.of_arrived rfl rfl (fun _ _ => rfl) (fun _ => .inl) fun l' => ?_
  rw [loop_setLoop]
  split
  · rename_i hl
    exact hl ▸ hq
  · exact .rfl

/-- The loop only moves its jobs about. -/
theorem Confined.moved {q : ServerLoop} (h : s.Confined) (hp : q.poller = (s.loop l).poller)
    (hactive : q.active ⊆ (s.loop l).active) (hjobs : q.jobs ⊆ (s.loop l).jobs) :
    (s.setLoop l q).Confined :=
  h.setLoop ⟨fun _ hj => .inl (hjobs hj), fun _ he => .inl (hactive he), fun _ _ he => .inl (hp ▸ he),
    fun _ _ hc => .inl (hp ▸ hc)⟩

theorem Confined.enter (h : s.Confined) (hc : j.conn < s.accepted) (hj : s.home j = l) :
    (s.enter l j).Confined := by
  refine h.setLoop { Arrived.rfl with jobs := fun i hi => ?_ }
  rcases List.mem_cons.1 hi with rfl | hi
  · exact .inr ⟨hc, hj⟩
  · exact .inl hi

theorem Confined.queueInLoop (h : s.Confined) (hc : j.conn < s.accepted) (hj : s.home j = l) :
    (s.queueInLoop l j).Confined := by
  refine h.setLoop { Arrived.rfl with jobs := fun i hi => ?_ }
  rw [ServerLoop.jobs, ← List.append_assoc, List.mem_append, List.mem_singleton] at hi
  rcases hi with hi | rfl
  · exact .inl hi
  · exact .inr ⟨hc, hj⟩

theorem Confined.runInLoop (h : s.Confined) (hc : j.conn < s.accepted) (hj : s.home j = l') :
    (s.runInLoop l l' j).Confined := by
  unfold TcpServer.runInLoop
  split
  · rename_i hl
    exact h.enter hc (hj.trans hl.symm)
  · exact h.queueInLoop hc hj

theorem loop_mark (s : TcpServer) (c : Nat) (m : Mark) (c' : Nat) :
    ((s.mark c m).conn c').loop = (s.conn c').loop := by
  show (Function.update s.conn c _ c').loop = _
  by_cases hc : c' = c
  · rw [hc, Function.update_self]
  · rw [Function.update_of_ne hc]

theorem Confined.mark (h : s.Confined) (c : Nat) (m : Mark) : (s.mark c m).Confined :=
  h.of_arrived rfl rfl (fun _ _ => loop_mark s c m _) (fun _ => .inl) fun _ => .rfl

theorem Confined.erase (h : s.Confined) (c : Nat) : (s.erase c).Confined :=
  h.of_arrived rfl rfl (fun _ _ => rfl) (fun _ => .inl) fun _ => .rfl

theorem loop_setTcp (s : TcpServer) (c : Nat) (tcp : TcpConnection) (c' : Nat) :
    ((s.setTcp c tcp).conn c').loop = (s.conn c').loop := by
  show (Function.update s.conn c _ c').loop = _
  by_cases hc : c' = c
  · rw [hc, Function.update_self]
  · rw [Function.update_of_ne hc]

theorem mem_jobs_absorbed {js : List Job} {w : World Nat}
    (hj : j ∈ ((js ++ (s.loop l).stack) ++ (s.loop l).functors ++
      ((s.loop l).pendingFunctors ++ (queued w.trace).map fun _ => Job.userCallback c))) :
    j ∈ (s.loop l).jobs ∨ j ∈ js ∨ j = .userCallback c := by
  simp only [List.mem_append, List.mem_map, ServerLoop.jobs] at hj ⊢
  grind

/-- A function of the connection, run on its loop. -/
theorem Confined.absorb (h : s.Confined) (hc : c < s.accepted) (hw : World.Within (s.world c) w) :
    (s.absorb c w).Confined := by
  refine h.of_arrived rfl rfl (fun c' _ => loop_setTcp s c w.conn c') (fun _ => .inl) fun l => ?_
  show Arrived s l (((s.setTcp c w.conn).setLoop (s.conn c).loop _).loop l)
  rw [loop_setLoop]
  split
  · rename_i hl
    subst hl
    refine ⟨fun j hj => ?_, fun _ => .inl, fun fd e he => ?_, fun fd i hi => ?_⟩
    · refine (mem_jobs_absorbed hj).imp_right fun hj => ?_
      rcases hj with hj | rfl
      · split at hj
        · rw [List.mem_singleton.1 hj]
          exact ⟨hc, rfl⟩
        · cases hj
      · exact ⟨hc, rfl⟩
    · exact (hw.poller.interest fd e he).imp_right fun hptr => by rw [hptr]; exact ⟨hc, rfl⟩
    · exact (hw.poller.channels fd i hi).imp_right fun hptr => by rw [hptr]; exact ⟨hc, rfl⟩
  · exact .rfl

theorem Confined.handleClose (h : s.Confined) (hc : c < s.accepted) (hw : World.Within (s.world c) w)
    (ho : s.handleClose c w = some t) : t.Confined := by
  obtain ⟨v, hv, rfl⟩ := Option.map_eq_some_iff.1 ho
  have hclose := World.parts_within.handleClose (toOption_eq_some.1 hv)
  have hwithin : World.Within (s.world c) v := World.parts_within.after (k := 0) hw hclose
  exact (h.mark c .closed).absorb hc (by rw [world_mark]; exact hwithin)

theorem Confined.makeCallback {cb : Callback} {r : ReadResult} {r' : WriteResult} (h : s.Confined)
    (hc : c < s.accepted) (ho : s.makeCallback c cb r r' = some t) : t.Confined := by
  cases makeCallback_some ho with
  | close ho => exact h.handleClose hc (World.parts_within.refl _) ho
  | error => exact h.absorb hc (World.parts_within.refl _)
  | read hv => exact h.absorb hc (World.parts_within.readInput hv)
  | readEnd hv ho => exact h.handleClose hc (World.parts_within.readInput hv) ho
  | write hv => exact h.absorb hc (World.parts_within.handleWrite hv)

theorem Confined.pop (h : s.Confined) (hst : (s.loop l).stack = j :: rest) :
    (s.setLoop l ((s.loop l).pop rest)).Confined := by
  refine h.moved rfl (List.Subset.refl _) fun i hi => ?_
  simp only [ServerLoop.jobs, ServerLoop.pop, hst, List.mem_append, List.mem_cons] at hi ⊢
  grind

theorem Confined.perform {r : ReadResult} {r' : WriteResult} (h : s.Confined)
    (hst : (s.loop l).stack = j :: rest)
    (ho : (s.setLoop l ((s.loop l).pop rest)).perform logErrno l r r' j = some t) : t.Confined := by
  have hp := h.pop hst
  obtain ⟨hc, hl⟩ := h.jobs l j (mem_jobs_stack (by rw [hst]; exact List.mem_cons_self ..))
  cases j with
  | establish c =>
    cases ho
    exact hp.runInLoop hc rfl
  | connectEstablished c =>
    obtain ⟨w, hw, rfl⟩ := Option.map_eq_some_iff.1 ho
    refine (hp.mark c .established).absorb hc ?_
    rw [world_mark]
    exact World.parts_within.connectEstablished (toOption_eq_some.1 hw)
  | handleEvent c cbs =>
    cases cbs with
    | nil =>
      cases ho
      exact hp
    | cons cb cbs =>
      have he := (hp.enter (j := .handleEvent c cbs) hc hl).mark c (.handler cb)
      exact he.makeCallback hc ho
  | removeConnection c =>
    cases ho
    exact hp.runInLoop hc rfl
  | removeConnectionInLoop c =>
    cases ho
    exact ((hp.mark c .erased).erase c).enter hc hl
  | queueDestroyed c =>
    cases ho
    exact hp.queueInLoop hc rfl
  | connectDestroyed c =>
    obtain ⟨w, hw, rfl⟩ := Option.map_eq_some_iff.1 ho
    refine (hp.mark c .destroyed).absorb hc ?_
    rw [world_mark]
    exact World.parts_within.connectDestroyed (toOption_eq_some.1 hw)
  | userCallback c =>
    cases ho
    exact hp
  | sendInLoop c msg =>
    unfold TcpServer.perform at ho
    dsimp only at ho
    split at ho
    · obtain ⟨w, hw, rfl⟩ := Option.map_eq_some_iff.1 ho
      exact hp.absorb hc (World.parts_within.sendInLoop (toOption_eq_some.1 hw))
    · cases ho
  | shutdownInLoop c =>
    cases ho
    exact hp.absorb hc World.parts_within.shutdownInLoop

theorem Confined.newConnection (h : s.Confined) (hturn : s.getNextLoop.1 ≤ s.numThreads)
    (inSockfd : Int) : (s.newConnection inSockfd).Confined := by
  have hconn : ∀ c < s.accepted, (s.newConnection inSockfd).conn c = s.conn c :=
    fun c hc => newConnection_of_ne (by omega)
  have keep : ∀ l c, s.Of l c → (s.newConnection inSockfd).Of l c :=
    fun l c ⟨hc, hl⟩ => ⟨Nat.lt_succ_of_lt hc, by rw [hconn c hc]; exact hl⟩
  have old : ∀ l, (s.newConnection inSockfd).loop l = s.loop l ∨ l = 0 ∧
      (s.newConnection inSockfd).loop l = (s.loop 0).push (.establish s.accepted) := by
    intro l
    by_cases hl : l = 0
    · rw [hl]
      refine .inr ⟨rfl, ?_⟩
      rw [TcpServer.newConnection, TcpServer.enter, loop_setLoop, if_pos rfl]
      rfl
    · left
      rw [TcpServer.newConnection, TcpServer.enter, loop_setLoop, if_neg hl]
  have poller : ∀ l, ((s.newConnection inSockfd).loop l).poller = (s.loop l).poller := by
    intro l
    rcases old l with hl | ⟨rfl, hl⟩
    · rw [hl]
    · rw [hl]; rfl
  refine ⟨fun c hc => ?_, fun l j hj => ?_, fun l e he => ?_, fun l fd e he => ?_, fun l fd c hc => ?_,
    fun c hc => Nat.lt_succ_of_lt (h.held c hc)⟩
  · rcases Nat.lt_succ_iff_lt_or_eq.1 hc with hc | rfl
    · rw [hconn c hc]
      exact h.loop_le c hc
    · rw [newConnection_self]
      exact hturn
  · have hnew : j ∈ (s.loop l).jobs ∨ l = 0 ∧ j = .establish s.accepted := by
      rcases old l with hl | ⟨rfl, hl⟩
      · exact .inl (hl ▸ hj)
      · rw [hl] at hj
        exact (List.mem_cons.1 hj).elim (fun hj => .inr ⟨rfl, hj⟩) .inl
    rcases hnew with hj | ⟨rfl, rfl⟩
    · obtain ⟨hc, hl⟩ := h.jobs l j hj
      exact ⟨Nat.lt_succ_of_lt hc, (home_congr (by rw [hconn _ hc])).trans hl⟩
    · exact ⟨Nat.lt_succ_self _, rfl⟩
  · refine keep l e.1 (h.active l e ?_)
    rcases old l with hl | ⟨rfl, hl⟩
    · exact hl ▸ he
    · rw [hl] at he; exact he
  · rw [poller] at he
    exact keep l e.ptr (h.interest l fd e he)
  · rw [poller] at hc
    exact keep l c (h.channels l fd c hc)

theorem Confined.poll {events : List (Nat × EventMask)} (h : s.Confined)
    (hreg : ∀ e ∈ events, e.1 < s.accepted ∧ s.registered l e.1 = true) :
    (s.setLoop l ((s.loop l).polled events)).Confined := by
  refine h.setLoop { Arrived.rfl with active := fun e he => .inr ?_ }
  obtain ⟨hc, hr⟩ := hreg e he
  unfold registered at hr
  split at hr
  · rename_i x hx
    rw [← beq_iff_eq.1 hr]
    exact h.interest l _ x hx
  · cases hr

theorem Confined.dispatch {revents : EventMask} {active : List (Nat × EventMask)} (h : s.Confined)
    (hactive : (s.loop l).active = (c, revents) :: active) :
    (s.dispatch l c revents active).Confined := by
  obtain ⟨hc, hl⟩ := h.active l (c, revents) (by rw [hactive]; exact List.mem_cons_self ..)
  obtain ⟨cbs, -, heq⟩ := dispatch_eq s l c revents active
  rw [heq]
  refine Confined.setLoop (s := s.setTcp c _) ?_ ?_
  · exact h.of_arrived rfl rfl (fun c' _ => loop_setTcp s c _ c') (fun _ => .inl) fun _ => .rfl
  · refine ⟨fun j hj => ?_, fun e he => .inl ?_, fun _ _ => .inl, fun _ _ => .inl⟩
    · rcases List.mem_cons.1 hj with rfl | hj
      · exact .inr ⟨hc, (loop_setTcp s c _ c).trans hl⟩
      · left
        exact (List.mem_append.1 hj).elim (fun hj => mem_jobs_functors hj) fun hj => mem_jobs_pending hj
    · show e ∈ (s.loop l).active
      rw [hactive]
      exact List.mem_cons_of_mem _ he

theorem update_pos {f : Nat → Nat} {c' n : Nat} (h : 0 < Function.update f c n c') :
    0 < f c' ∨ c' = c := by
  by_cases hc : c' = c
  · exact .inr hc
  · rw [Function.update_of_ne hc] at h
    exact .inl h

/-- Closing fds only takes entries away. -/
theorem Confined.closeFds (h : s.Confined) : s.closeFds.Confined := by
  refine h.of_arrived rfl rfl (fun _ _ => rfl) (fun _ => .inl) fun l =>
    { Arrived.rfl with interest := fun fd e he => .inl ?_ }
  exact (Option.filter_eq_some_iff.1 he).1

theorem stepped_confined (hturn : s.getNextLoop.1 ≤ s.numThreads) (hs : Stepped logErrno s a t)
    (h : s.Confined) : t.Confined := by
  cases hs with
  | poll hl hp hnd hreg => exact h.poll hreg
  | accept halive hp hstack hfd hfresh => exact h.newConnection hturn _
  | dispatch hp hstack hactive => exact h.dispatch hactive
  | proceed hst ho => exact h.perform hst ho
  | @swap l hp hstack hactive =>
    refine h.moved rfl (List.Subset.refl _) fun j hj => ?_
    simp only [ServerLoop.jobs, ServerLoop.swapped, List.mem_append] at hj ⊢
    grind
  | call hp hstack hfun =>
    refine h.moved rfl (List.Subset.refl _) ?_
    rw [jobs_taking hstack hfun]
    exact List.Subset.refl _
  | destroyFunctors hp hstack hfun =>
    exact h.moved rfl (List.Subset.refl _) (List.Subset.refl _)
  | leave => exact h.setLoop .exited
  | send hc ho hr hw => exact h.absorb hc (World.parts_within.send hw)
  | shutdown hc ho => exact h.absorb hc World.parts_within.shutdown
  | hold hc ho =>
    refine h.of_arrived rfl rfl (fun _ _ => rfl) (fun c' hc' => ?_) fun _ => .rfl
    exact (update_pos hc').imp_right fun heq => by rw [heq]; exact hc
  | @release c hheld =>
    refine h.of_arrived rfl rfl (fun _ _ => rfl) (fun c' hc' => ?_) fun _ => .rfl
    exact (update_pos hc').imp_right fun heq => by rw [heq]; exact h.held c hheld
  | @foreignSend c inMsg hheld =>
    split
    · exact h.queueInLoop (h.held c hheld) rfl
    · exact h
  | @foreignShutdown c hheld =>
    have hc := h.held c hheld
    split
    · have hw : World.Within (s.world c) ((s.world c).setState .disconnecting) :=
        World.parts_within.setState _ _
      refine (h.absorb hc hw).queueInLoop hc ?_
      exact loop_setTcp s c _ c
    · exact h
  | destroyServer halive => exact h.of_arrived rfl rfl (fun _ _ => rfl) (fun _ => .inl) fun _ => .rfl
  | quitLoop => exact h.moved rfl (List.Subset.refl _) (List.Subset.refl _)

theorem step_confined (hturn : s.getNextLoop.1 ≤ s.numThreads) (hs : step logErrno s a = some t)
    (h : s.Confined) : t.Confined := by
  obtain ⟨u, hu, rfl⟩ := step_some hs
  exact (stepped_confined hturn hu h).closeFds

end TcpServer
end Muduo
