import Muduo.Confined
import Muduo.Lib.RoundRobin

/-!
# One loop per connection

A connection is given its loop when it is accepted, by turns, and from then on only that loop's thread
touches it. What two threads share is the ends of the queues, which a mutex protects, and the atomic
`m_state`; the map and the counters are loop 0's alone.
-/

namespace Muduo
open EPollPoller ServerLoop Lts RoundRobin
namespace TcpServer
variable {s t u : TcpServer} {c l l' : Nat} {w : World Nat} {j : Job} {rest : List Job}
  {logErrno : Errno → Errno} {a : ServerStep} {as : List ServerStep}

/-! ### What a step leaves alone -/

/-- What no step but `accept` changes. -/
structure Settled (s t : TcpServer) : Prop where
  server : t.name = s.name
  ipPort : t.ipPort = s.ipPort
  numThreads : t.numThreads = s.numThreads
  accepted : t.accepted = s.accepted
  next : t.next = s.next
  nextConnId : t.nextConnId = s.nextConnId
  loop : ∀ c, (t.conn c).loop = (s.conn c).loop
  name : ∀ c, (t.conn c).name = (s.conn c).name

/-- The loop has at most been given functors, and none if it has ended. -/
def Fed (q q' : ServerLoop) : Prop := ∃ js, q' = q.queue js ∧ (js ≠ [] → q.ended = false)

/-- The connections of other loops are as they were, and other loops have at most been given functors. -/
structure Moved (s : TcpServer) (l : Nat) (t : TcpServer) : Prop where
  settled : Settled s t
  conns : ∀ c, (s.conn c).loop ≠ l → (t.conn c).tcp = (s.conn c).tcp
  loops : ∀ l' ≠ l, Fed (s.loop l') (t.loop l')
  connections : l ≠ 0 → t.connections = s.connections

theorem Settled.rfl : Settled s s :=
  ⟨.refl _, .refl _, .refl _, .refl _, .refl _, .refl _, fun _ => .refl _, fun _ => .refl _⟩

theorem Settled.trans (h : Settled s t) (h' : Settled t u) : Settled s u where
  server := h'.server.trans h.server
  ipPort := h'.ipPort.trans h.ipPort
  numThreads := h'.numThreads.trans h.numThreads
  accepted := h'.accepted.trans h.accepted
  next := h'.next.trans h.next
  nextConnId := h'.nextConnId.trans h.nextConnId
  loop c := (h'.loop c).trans (h.loop c)
  name c := (h'.name c).trans (h.name c)

theorem queue_nil (q : ServerLoop) : q.queue [] = q := by
  show { q with pendingFunctors := q.pendingFunctors ++ [] } = q
  rw [List.append_nil]

theorem queue_queue (q : ServerLoop) (js js' : List Job) :
    (q.queue js).queue js' = q.queue (js ++ js') := by
  simp only [ServerLoop.queue, List.append_assoc]

theorem Fed.rfl {q : ServerLoop} : Fed q q := ⟨[], (queue_nil q).symm, fun h => absurd (Eq.refl []) h⟩

theorem Fed.trans {q q' q'' : ServerLoop} (h : Fed q q') (h' : Fed q' q'') : Fed q q'' := by
  obtain ⟨js, rfl, he⟩ := h
  obtain ⟨js', rfl, he'⟩ := h'
  refine ⟨js ++ js', queue_queue q js js', fun hne => ?_⟩
  by_cases hjs : js = []
  · exact he' fun hjs' => hne (by rw [hjs, hjs']; exact List.append_nil _)
  · exact he hjs

theorem fed_setLoop {q : ServerLoop} (h : Fed (s.loop l) q) (l' : Nat) :
    Fed (s.loop l') ((s.setLoop l q).loop l') := by
  rw [loop_setLoop]
  split
  · rename_i hl
    exact hl ▸ h
  · exact .rfl

theorem fed_queueInLoop {l : Nat} {j : Job} (he : (s.loop l).ended = false) (l' : Nat) :
    Fed (s.loop l') ((s.queueInLoop l j).loop l') := fed_setLoop ⟨[j], .refl _, fun _ => he⟩ l'

theorem Moved.rfl : Moved s l s := ⟨.rfl, fun _ _ => .refl _, fun _ _ => .rfl, fun _ => .refl _⟩

theorem Moved.trans (h : Moved s l t) (h' : Moved t l u) : Moved s l u where
  settled := h.settled.trans h'.settled
  conns c hc := (h'.conns c (by rw [h.settled.loop]; exact hc)).trans (h.conns c hc)
  loops l' hl := (h.loops l' hl).trans (h'.loops l' hl)
  connections hl := (h'.connections hl).trans (h.connections hl)

theorem moved_setLoop (s : TcpServer) (l : Nat) (q : ServerLoop) : Moved s l (s.setLoop l q) where
  settled := ⟨rfl, rfl, rfl, rfl, rfl, rfl, fun _ => rfl, fun _ => rfl⟩
  conns _ _ := rfl
  loops l' hl := by rw [loop_setLoop, if_neg hl]; exact .rfl
  connections _ := rfl

theorem moved_enter (s : TcpServer) (l : Nat) (j : Job) : Moved s l (s.enter l j) :=
  moved_setLoop s l _

theorem moved_queueInLoop (l : Nat) {target : Nat} (he : (s.loop target).ended = false) (j : Job) :
    Moved s l (s.queueInLoop target j) where
  settled := ⟨rfl, rfl, rfl, rfl, rfl, rfl, fun _ => rfl, fun _ => rfl⟩
  conns _ _ := rfl
  loops l' _ := fed_queueInLoop he l'
  connections _ := rfl

theorem moved_runInLoop (l : Nat) {target : Nat} (he : (s.loop target).ended = false) (j : Job) :
    Moved s l (s.runInLoop l target j) := by
  unfold TcpServer.runInLoop
  split
  · exact moved_enter s l j
  · exact moved_queueInLoop l he j

theorem name_mark (s : TcpServer) (c : Nat) (m : Mark) (c' : Nat) :
    ((s.mark c m).conn c').name = (s.conn c').name := by
  show (Function.update s.conn c _ c').name = _
  by_cases hc : c' = c
  · rw [hc, Function.update_self]
  · rw [Function.update_of_ne hc]

theorem tcp_mark (s : TcpServer) (c : Nat) (m : Mark) (c' : Nat) :
    ((s.mark c m).conn c').tcp = (s.conn c').tcp := by
  show (Function.update s.conn c _ c').tcp = _
  by_cases hc : c' = c
  · rw [hc, Function.update_self]
  · rw [Function.update_of_ne hc]

theorem moved_mark (s : TcpServer) (l c : Nat) (m : Mark) : Moved s l (s.mark c m) where
  settled := ⟨rfl, rfl, rfl, rfl, rfl, rfl, loop_mark s c m, name_mark s c m⟩
  conns c' _ := tcp_mark s c m c'
  loops _ _ := .rfl
  connections _ := rfl

theorem moved_erase (s : TcpServer) (c : Nat) : Moved s 0 (s.erase c) where
  settled := ⟨rfl, rfl, rfl, rfl, rfl, rfl, fun _ => rfl, fun _ => rfl⟩
  conns _ _ := rfl
  loops _ _ := .rfl
  connections h := absurd rfl h

theorem moved_setTcp (s : TcpServer) (c : Nat) (tcp : TcpConnection) :
    Moved s (s.conn c).loop (s.setTcp c tcp) where
  settled := by
    refine ⟨rfl, rfl, rfl, rfl, rfl, rfl, loop_setTcp s c tcp, fun c' => ?_⟩
    show (Function.update s.conn c _ c').name = _
    by_cases hc : c' = c
    · rw [hc, Function.update_self]
    · rw [Function.update_of_ne hc]
  conns c' hc := by
    show (Function.update s.conn c _ c').tcp = _
    rw [Function.update_of_ne fun heq => hc (by rw [heq])]
  loops _ _ := .rfl
  connections _ := rfl

theorem moved_absorb (s : TcpServer) (c : Nat) (w : World Nat) :
    Moved s (s.conn c).loop (s.absorb c w) :=
  (moved_setTcp s c w.conn).trans (moved_setLoop _ _ _)

/-- A function of the connection, with its mark. -/
theorem moved_mark_absorb (hl : (s.conn c).loop = l) (m : Mark) (w : World Nat) :
    Moved s l ((s.mark c m).absorb c w) := by
  refine (moved_mark s l c m).trans ?_
  have h := moved_absorb (s.mark c m) c w
  rwa [loop_mark, hl] at h

theorem moved_handleClose (hl : (s.conn c).loop = l) (ho : s.handleClose c w = some t) :
    Moved s l t := by
  obtain ⟨v, -, rfl⟩ := Option.map_eq_some_iff.1 ho
  exact moved_mark_absorb hl .closed v

theorem moved_makeCallback {cb : Callback} {r : ReadResult} {r' : WriteResult}
    (hl : (s.conn c).loop = l) (ho : s.makeCallback c cb r r' = some t) : Moved s l t := by
  cases makeCallback_some ho with
  | close ho => exact moved_handleClose hl ho
  | error => exact hl ▸ moved_absorb s c _
  | read _ => exact hl ▸ moved_absorb s c _
  | readEnd _ ho => exact moved_handleClose hl ho
  | write _ => exact hl ▸ moved_absorb s c _

/-- The loops that a job pushes to are there. -/
def Reaches (s : TcpServer) : Job → Prop
  | .establish c => (s.loop (s.conn c).loop).ended = false
  | .removeConnection _ => (s.loop 0).ended = false
  | .queueDestroyed c => (s.loop (s.conn c).loop).ended = false
  | _ => True

theorem Ending.reaches (h : s.Ending) (huse : s.usable l j = true) : s.Reaches j := by
  have hloop (k : Nat) (hk : (!(s.loop k).ended) = true) : (s.loop k).ended = false := by
    simpa using hk
  cases j with
  | establish c => exact hloop _ huse
  | removeConnection c =>
    exact Bool.eq_false_iff.2 fun he => absurd (h.quit 0 (h.ended 0 he)).2.1 (Nat.lt_irrefl 0)
  | queueDestroyed c => exact hloop _ huse
  | _ => trivial

theorem Reaches.setLoop {q : ServerLoop} (h : s.Reaches j) (hq : q.ended = (s.loop l).ended) :
    (s.setLoop l q).Reaches j := by
  have hloop (k : Nat) : ((s.setLoop l q).loop k).ended = (s.loop k).ended := by
    rw [loop_setLoop]
    split
    · rename_i hk; rw [hk, hq]
    · rfl
  cases j with
  | establish c => exact (hloop _).trans h
  | removeConnection c => exact (hloop _).trans h
  | queueDestroyed c => exact (hloop _).trans h
  | _ => trivial

theorem moved_perform {r : ReadResult} {r' : WriteResult} (hl : s.home j = l) (hto : s.Reaches j)
    (ho : s.perform logErrno l r r' j = some t) : Moved s l t := by
  cases j with
  | establish c =>
    cases ho
    exact moved_runInLoop l hto _
  | connectEstablished c =>
    obtain ⟨w, -, rfl⟩ := Option.map_eq_some_iff.1 ho
    exact moved_mark_absorb hl .established w
  | handleEvent c cbs =>
    cases cbs with
    | nil =>
      cases ho
      exact .rfl
    | cons cb cbs =>
      have h : Moved s l ((s.enter l (.handleEvent c cbs)).mark c (.handler cb)) :=
        (moved_enter s l _).trans (moved_mark _ l c _)
      exact h.trans (moved_makeCallback ((loop_mark _ c _ c).trans hl) ho)
  | removeConnection c =>
    cases ho
    exact moved_runInLoop l hto _
  | removeConnectionInLoop c =>
    cases ho
    obtain rfl : 0 = l := hl
    exact ((moved_mark s 0 c .erased).trans (moved_erase _ c)).trans (moved_enter _ 0 _)
  | queueDestroyed c =>
    cases ho
    exact moved_queueInLoop l hto _
  | connectDestroyed c =>
    obtain ⟨w, -, rfl⟩ := Option.map_eq_some_iff.1 ho
    exact moved_mark_absorb hl .destroyed w
  | userCallback c =>
    cases ho
    exact .rfl
  | sendInLoop c msg =>
    unfold TcpServer.perform at ho
    dsimp only at ho
    split at ho
    · obtain ⟨w, -, rfl⟩ := Option.map_eq_some_iff.1 ho
      exact hl ▸ moved_absorb s c w
    · cases ho
  | shutdownInLoop c =>
    cases ho
    exact hl ▸ moved_absorb s c _

/-! ### Threads -/

/-- The loop whose thread takes the step; the others are the user's, on any thread. -/
def threadOf (s : TcpServer) : ServerStep → Option Nat
  | .poll l _ => some l
  | .accept _ => some 0
  | .dispatch l => some l
  | .proceed l _ _ => some l
  | .swap l => some l
  | .call l => some l
  | .destroyFunctors l => some l
  | .send c _ _ => some (s.conn c).loop
  | .shutdown c => some (s.conn c).loop
  | .hold _ => none
  | .release _ => none
  | .foreignSend _ _ => none
  | .foreignShutdown _ => none
  | .destroyServer => none
  | .quitLoop _ => none

/-- What a step on the thread of loop `l` leaves to the other threads: the connections of other loops,
the other loops but for what is pushed behind their queues, and the server itself but to loop 0. -/
structure Local (s : TcpServer) (l : Nat) (t : TcpServer) : Prop where
  placed : ∀ c < s.accepted, (t.conn c).loop = (s.conn c).loop ∧ (t.conn c).name = (s.conn c).name
  conns : ∀ c < s.accepted, (s.conn c).loop ≠ l → (t.conn c).tcp = (s.conn c).tcp
  loops : ∀ l' ≠ l, Fed (s.loop l') (t.loop l')
  server : l ≠ 0 → t.connections = s.connections ∧ t.accepted = s.accepted ∧ t.next = s.next ∧
    t.nextConnId = s.nextConnId

/-- What a user's thread may change: the atomic state of a connection, the ends of the queues, the
pointers users hold, and where it destroys the server the map and the loops' atomic `m_quit`. -/
structure Foreign (s t : TcpServer) : Prop where
  settled : Settled s t
  conns : ∀ c, (t.conn c).tcp = { (s.conn c).tcp with state := (t.conn c).tcp.state }
  loops : ∀ l, Fed { s.loop l with quit := (t.loop l).quit } (t.loop l)
  connections : t.connections = s.connections ∨ t.alive = false ∧ ∀ n, t.connections n = none

theorem Moved.toLocal (h : Moved s l t) : Local s l t where
  placed c _ := ⟨h.settled.loop c, h.settled.name c⟩
  conns c _ := h.conns c
  loops := h.loops
  server hl := ⟨h.connections hl, h.settled.accepted, h.settled.next, h.settled.nextConnId⟩

theorem local_newConnection (s : TcpServer) (inSockfd : Int) : Local s 0 (s.newConnection inSockfd) where
  placed c hc := by rw [newConnection_of_ne (by omega)]; exact ⟨rfl, rfl⟩
  conns c hc _ := by rw [newConnection_of_ne (by omega)]
  loops l hl := by
    rw [TcpServer.newConnection, TcpServer.enter, loop_setLoop, if_neg hl]
    exact .rfl
  server h := absurd rfl h

/-- A step of a loop's thread but `accept`. -/
theorem moved_step (h : s.Confined) (he : s.Ending) (hs : Stepped logErrno s a t)
    (ha : ∀ fd, a ≠ .accept fd) (hl : s.threadOf a = some l) : Moved s l t := by
  cases hs with
  | poll _ _ _ _ => cases hl; exact moved_setLoop s _ _
  | accept _ _ _ _ _ => exact absurd rfl (ha _)
  | @dispatch l c revents active _ _ hactive =>
    cases hl
    obtain ⟨cbs, -, heq⟩ := dispatch_eq s l c revents active
    rw [heq]
    refine .trans ?_ (moved_setLoop _ _ _)
    have hc := (h.active l (c, revents) (by rw [hactive]; exact List.mem_cons_self ..)).2
    have hm := moved_setTcp s c { (s.conn c).tcp with channel.revents := revents }
    rwa [hc] at hm
  | @proceed l r r' j rest _ hst ho huse =>
    cases hl
    have hj := (h.jobs l j (mem_jobs_stack (by rw [hst]; exact List.mem_cons_self ..))).2
    have hto : (s.setLoop l ((s.loop l).pop rest)).Reaches j := (he.reaches huse).setLoop rfl
    exact (moved_setLoop s l _).trans (moved_perform hj hto ho)
  | swap _ _ _ => cases hl; exact moved_setLoop s _ _
  | call _ _ _ => cases hl; exact moved_setLoop s _ _
  | destroyFunctors _ _ _ => cases hl; exact moved_setLoop s _ _
  | leave _ _ _ => cases hl; exact moved_setLoop s _ _
  | send _ _ _ _ => cases hl; exact moved_absorb s _ _
  | shutdown _ _ => cases hl; exact moved_absorb s _ _
  | hold _ _ => cases hl
  | release _ => cases hl
  | foreignSend _ => cases hl
  | foreignShutdown _ => cases hl
  | destroyServer _ => cases hl
  | quitLoop _ _ _ _ => cases hl

theorem foreign_rfl : Foreign s s := ⟨.rfl, fun _ => .refl _, fun _ => .rfl, .inl (.refl _)⟩

theorem foreign_queueInLoop (h : Foreign s t) (he : (t.loop l).ended = false) (j : Job) :
    Foreign s (t.queueInLoop l j) where
  settled := h.settled.trans (moved_queueInLoop l he j).settled
  conns := h.conns
  loops l' := by
    have hquit : ((t.queueInLoop l j).loop l').quit = (t.loop l').quit :=
      (parts_flags.queueInLoop t l j).quit l'
    rw [hquit]
    exact (h.loops l').trans (fed_queueInLoop he l')
  connections := h.connections

/-- The store of `m_state` by `shutdown`. -/
theorem foreign_setState (s : TcpServer) (c : Nat) :
    Foreign s (s.absorb c ((s.world c).setState .disconnecting)) where
  settled := (moved_absorb s c _).settled
  conns c' := by
    by_cases hc : c' = c
    · rw [hc, conn_absorb]; rfl
    · have h : (s.absorb c ((s.world c).setState .disconnecting)).conn c' = s.conn c' :=
        Function.update_of_ne hc ..
      rw [h]
  loops l := by
    have hloop : (s.absorb c ((s.world c).setState .disconnecting)).loop l = s.loop l := by
      rw [absorb_uncalled (w := (s.world c).setState .disconnecting) (uncalled_world s c), loop_setLoop]
      split
      · rename_i hl
        rw [hl]
        exact queue_nil _
      · rfl
    rw [hloop]
    exact .rfl
  connections := .inl rfl

theorem foreign_step (hs : Stepped logErrno s a t) (hl : s.threadOf a = none) : Foreign s t := by
  cases hs with
  | poll _ _ _ _ => cases hl
  | accept _ _ _ _ _ => cases hl
  | dispatch _ _ _ => cases hl
  | proceed _ _ => cases hl
  | swap _ _ _ => cases hl
  | call _ _ _ => cases hl
  | destroyFunctors _ _ _ => cases hl
  | leave _ _ _ => cases hl
  | send _ _ _ _ => cases hl
  | shutdown _ _ => cases hl
  | hold _ _ =>
    exact ⟨⟨rfl, rfl, rfl, rfl, rfl, rfl, fun _ => rfl, fun _ => rfl⟩, fun _ => rfl, fun _ => .rfl, .inl rfl⟩
  | release _ =>
    exact ⟨⟨rfl, rfl, rfl, rfl, rfl, rfl, fun _ => rfl, fun _ => rfl⟩, fun _ => rfl, fun _ => .rfl, .inl rfl⟩
  | foreignSend _ he =>
    split
    · exact foreign_queueInLoop foreign_rfl he _
    · exact foreign_rfl
  | @foreignShutdown c _ he =>
    split
    · refine foreign_queueInLoop (foreign_setState s c) ?_ _
      exact ((parts_flags.absorb s c _).ended _).trans he
    · exact foreign_rfl
  | destroyServer _ =>
    exact ⟨⟨rfl, rfl, rfl, rfl, rfl, rfl, fun _ => rfl, fun _ => rfl⟩, fun _ => rfl, fun _ => .rfl,
      .inr ⟨rfl, fun _ => rfl⟩⟩
  | @quitLoop l _ _ _ _ =>
    refine ⟨(moved_setLoop s l _).settled, fun _ => rfl, fun l' => ?_, .inl rfl⟩
    rw [loop_setLoop]
    split
    · rename_i hl
      rw [hl]; exact .rfl
    · exact .rfl

/-! ### Turns -/

/-- The loop that a server with `n` loops in its pool gives to its `c`-th connection. -/
def turnOf (n c : Nat) : Nat := if n = 0 then 0 else c % n + 1

structure Assigned (s : TcpServer) : Prop where
  next : s.numThreads ≠ 0 → s.next = s.accepted % s.numThreads
  loops : ∀ c < s.accepted, (s.conn c).loop = turnOf s.numThreads c

theorem Assigned.settled (h : s.Assigned) (hs : Settled s t) : t.Assigned where
  next hn := by
    rw [hs.numThreads] at hn ⊢
    rw [hs.next, hs.accepted, h.next hn]
  loops c hc := by
    rw [hs.accepted] at hc
    rw [hs.loop, hs.numThreads, h.loops c hc]

theorem Assigned.getNextLoop (h : s.Assigned) :
    s.getNextLoop.1 = turnOf s.numThreads s.accepted ∧
      (s.numThreads ≠ 0 → s.getNextLoop.2 = (s.accepted + 1) % s.numThreads) := by
  unfold TcpServer.getNextLoop turnOf
  by_cases hn : s.numThreads = 0
  · simp [hn]
  · rw [if_neg hn, if_neg hn, h.next hn]
    refine ⟨rfl, fun _ => ?_⟩
    have hlt : s.accepted % s.numThreads < s.numThreads := Nat.mod_lt _ (by omega)
    show advance s.numThreads _ = _
    rw [advance_eq hlt, Nat.mod_add_mod]

theorem Assigned.turn_le (h : s.Assigned) : s.getNextLoop.1 ≤ s.numThreads := by
  rw [h.getNextLoop.1, turnOf]
  split
  · omega
  · exact Nat.mod_lt _ (by omega)

theorem Assigned.newConnection (h : s.Assigned) (inSockfd : Int) :
    (s.newConnection inSockfd).Assigned where
  next hn := h.getNextLoop.2 hn
  loops c hc := by
    rcases Nat.lt_succ_iff_lt_or_eq.1 hc with hc | rfl
    · rw [newConnection_of_ne (by omega)]
      exact h.loops c hc
    · rw [newConnection_self]
      exact h.getNextLoop.1

/-- What holds in every state of every run. -/
structure Sane (s : TcpServer) : Prop where
  confined : s.Confined
  assigned : s.Assigned
  ending : s.Ending

theorem settled_step (hs : step logErrno s a = some t) (h : s.Sane) (ha : ∀ fd, a ≠ .accept fd) :
    Settled s t := by
  obtain ⟨u, hu, rfl⟩ := step_some hs
  have hsettled : Settled s u := by
    cases hl : s.threadOf a with
    | none => exact (foreign_step hu hl).settled
    | some l => exact (moved_step h.confined h.ending hu ha hl).settled
  exact hsettled.trans ⟨rfl, rfl, rfl, rfl, rfl, rfl, fun _ => rfl, fun _ => rfl⟩

theorem step_assigned (hs : step logErrno s a = some t) (h : s.Sane) : t.Assigned := by
  by_cases haccept : ∃ fd, a = .accept fd
  · obtain ⟨fd, rfl⟩ := haccept
    obtain ⟨u, hu, rfl⟩ := step_some hs
    cases hu
    have hnew := h.assigned.newConnection fd
    exact ⟨hnew.next, hnew.loops⟩
  · exact h.assigned.settled (settled_step hs h fun fd hfd => haccept ⟨fd, hfd⟩)

theorem step_sane (hs : step logErrno s a = some t) (h : s.Sane) : t.Sane :=
  ⟨step_confined h.assigned.turn_le hs h.confined, step_assigned hs h, step_ending hs h.ending⟩

theorem started_confined (name ipPort : String) (numThreads : Nat) (cb cb' cb'' : Bool) :
    (started name ipPort numThreads cb cb' cb'').Confined where
  loop_le c hc := absurd hc (Nat.not_lt_zero c)
  jobs l j hj := by cases hj
  active l e he := by cases he
  interest l fd e he := by cases he
  channels l fd c hc := by cases hc
  held c hc := absurd hc (Nat.lt_irrefl 0)

theorem started_assigned (name ipPort : String) (numThreads : Nat) (cb cb' cb'' : Bool) :
    (started name ipPort numThreads cb cb' cb'').Assigned where
  next _ := (Nat.zero_mod _).symm
  loops c hc := absurd hc (Nat.not_lt_zero c)

theorem started_sane (name ipPort : String) (numThreads : Nat) (cb cb' cb'' : Bool) :
    (started name ipPort numThreads cb cb' cb'').Sane :=
  ⟨started_confined .., started_assigned .., started_ending ..⟩

section
variable (logErrno : Errno → Errno) (name ipPort : String) (numThreads : Nat) (cb cb' cb'' : Bool)
  (as : List ServerStep)

theorem run_sane
    (hr : run (step logErrno) (started name ipPort numThreads cb cb' cb'') as = some t) : t.Sane :=
  run_inv (I := Sane) (fun _ _ _ hs h => step_sane hs h) hr (started_sane ..)

/-- In every run, up to the server's end and after it, whatever a loop has to do is its own, and in the
state it leads to every step of a loop's thread leaves the connections of the other loops alone, the map and
the counters too unless it is loop 0's; any other thread changes no more than the state of a connection and
the ends of the queues, and where it destroys the server the map and each loop's `m_quit`. No loop that has
ended is given a functor. What is then closed are the fds of the connections that the step destroys. -/
theorem one_loop_per_connection
    (hr : run (step logErrno) (started name ipPort numThreads cb cb' cb'') as = some t) :
    (∀ l, ∀ j ∈ (t.loop l).jobs, t.home j = l) ∧
      (∀ l, ∀ e ∈ (t.loop l).active, (t.conn e.1).loop = l) ∧
      (∀ l fd e, (t.loop l).poller.interest fd = some e → (t.conn e.ptr).loop = l) ∧
      ∀ a u, step logErrno t a = some u → ∃ v, u = v.closeFds ∧
        (∀ l, t.threadOf a = some l → Local t l v) ∧ (t.threadOf a = none → Foreign t v) := by
  have h := run_sane logErrno name ipPort numThreads cb cb' cb'' as hr
  refine ⟨fun l j hj => (h.confined.jobs l j hj).2, fun l e he => (h.confined.active l e he).2,
    fun l fd e he => (h.confined.interest l fd e he).2, fun a u hs => ?_⟩
  obtain ⟨v, hv, rfl⟩ := step_some hs
  refine ⟨v, rfl, fun l hl => ?_, foreign_step hv⟩
  by_cases haccept : ∃ fd, a = .accept fd
  · obtain ⟨fd, rfl⟩ := haccept
    cases hl
    cases hv
    exact local_newConnection t fd
  · exact (moved_step h.confined h.ending hv (fun fd hfd => haccept ⟨fd, hfd⟩) hl).toLocal

end

/-- Three connections are accepted in a row; the first functor waits in loop 1. -/
def threeAccepts : List ServerStep :=
  [.poll 0 [], .accept 5, .proceed 0 (.delivered []) (.accepted 0), .accept 6,
    .proceed 0 (.delivered []) (.accepted 0), .accept 7, .proceed 0 (.delivered []) (.accepted 0)]

set_option maxRecDepth 20000 in
theorem one_loop_of_three : ∃ t, run (step id) (started "s" "ip" 2 true true true) threeAccepts = some t ∧
    .connectEstablished 1 ∈ (t.loop 2).jobs ∧ t.home (.connectEstablished 1) = 2 ∧
      ∀ u, step id t (.poll 1 []) = some u → ∃ v, u = v.closeFds ∧ Local t 1 v := by
  have hrun : (run (step id) (started "s" "ip" 2 true true true) threeAccepts).map (fun t =>
      (t.loop 2).jobs) = some [.connectEstablished 1] := by decide +kernel
  obtain ⟨t, hr, ht⟩ := Option.map_eq_some_iff.1 hrun
  obtain ⟨hjobs, -, -, hsteps⟩ := one_loop_per_connection id "s" "ip" 2 true true true threeAccepts hr
  have hmem : .connectEstablished 1 ∈ (t.loop 2).jobs := by simp [ht]
  refine ⟨t, hr, hmem, hjobs 2 _ hmem, fun u hu => ?_⟩
  obtain ⟨v, hv, hlocal, -⟩ := hsteps _ u hu
  exact ⟨v, hv, hlocal 1 rfl⟩

theorem map_turnOf (n k : Nat) (hn : n ≠ 0) :
    (List.range k).map (turnOf n) = turns (List.range' 1 n) 0 k := by
  have hne : List.range' 1 n ≠ [] := by
    rw [ne_eq, List.range'_eq_nil_iff]
    exact hn
  refine List.ext_getElem? fun i => ?_
  by_cases hi : i < k
  · have hmod : i % n < n := Nat.mod_lt _ (by omega)
    rw [getElem?_turns hne hi, List.length_range', Nat.zero_add, List.getElem?_range' hmod,
      List.getElem?_map, List.getElem?_range hi, Option.map_some, turnOf, if_neg hn, Nat.one_mul,
      Nat.add_comm]
  · rw [List.getElem?_eq_none (by rw [List.length_map, List.length_range]; omega),
      List.getElem?_eq_none (by rw [length_turns hne]; omega)]

/-- The loops of the connections accepted so far, in order. -/
def loopsGiven (s : TcpServer) : List Nat := (List.range s.accepted).map fun c => (s.conn c).loop

section
variable (logErrno : Errno → Errno) (name ipPort : String) (numThreads : Nat) (cb cb' cb'' : Bool)
  (as : List ServerStep)

/-- In every run the `c`-th connection is the `c mod n`-th pool loop's, or the server's own where there is
no pool, so no pool loop has been given more than one connection more than another. -/
theorem connections_take_turns
    (hr : run (step logErrno) (started name ipPort numThreads cb cb' cb'') as = some t) :
    (∀ c < t.accepted, (t.conn c).loop = if t.numThreads = 0 then 0 else c % t.numThreads + 1) ∧
      ∀ l ∈ List.range' 1 t.numThreads, ∀ l' ∈ List.range' 1 t.numThreads,
        t.loopsGiven.count l ≤ t.loopsGiven.count l' + 1 := by
  have h := (run_sane logErrno name ipPort numThreads cb cb' cb'' as hr).assigned
  refine ⟨h.loops, fun l hl l' hl' => ?_⟩
  have hn : t.numThreads ≠ 0 := by
    intro hn
    rw [hn] at hl
    cases hl
  have hgiven : t.loopsGiven = turns (List.range' 1 t.numThreads) 0 t.accepted := by
    rw [← map_turnOf _ _ hn]
    exact List.map_congr_left fun c hc => h.loops c (List.mem_range.1 hc)
  rw [hgiven]
  exact count_le_succ List.nodup_range' hl hl'

end

set_option maxRecDepth 20000 in
theorem three_take_turns : ∃ t, run (step id) (started "s" "ip" 2 true true true) threeAccepts = some t ∧
    (t.conn 2).loop = 1 ∧ t.loopsGiven.count 1 ≤ t.loopsGiven.count 2 + 1 := by
  have hrun : (run (step id) (started "s" "ip" 2 true true true) threeAccepts).map (fun t =>
      (t.accepted, t.numThreads)) = some (3, 2) := by decide +kernel
  obtain ⟨t, hr, ht⟩ := Option.map_eq_some_iff.1 hrun
  obtain ⟨hacc, hnum⟩ := Prod.mk.inj ht
  obtain ⟨hloop, hcount⟩ := connections_take_turns id "s" "ip" 2 true true true threeAccepts hr
  refine ⟨t, hr, ?_, hcount 1 (by simp [hnum]) 2 (by simp [hnum])⟩
  rw [hloop 2 (by omega), hnum]
  rfl

end TcpServer
end Muduo
