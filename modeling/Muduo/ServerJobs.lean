import Muduo.ServerInv

/-!
# What each job does to the invariant

A job about a connection that takes it from one stage to the next: the job in hand is the one the
stage is due, so no loop has another, and the one it leaves behind is due at the next stage.
-/

namespace Muduo
open EPollPoller ServerLoop

namespace Job
variable {j : Job} {c : Nat}

theorem isEvent_of_lifecycle (hj : j.lifecycle = true) : j.isEvent = false := by
  cases j <;> first | rfl | cases hj

theorem owns_of_lifecycle (hj : j.lifecycle = true) : j.owns = true := by
  cases j <;> first | rfl | cases hj

end Job

namespace ServerLoop
variable {q : ServerLoop} {c : Nat} {j : Job} {js rest : List Job}

theorem view_push_of_ne (h : j.conn ≠ c) : (q.push j).view c = q.view c := by
  rw [view_push]
  simp [h]

theorem view_queue_of_ne (h : ∀ j ∈ js, j.conn ≠ c) : (q.queue js).view c = q.view c := by
  have hnil : js.filter (fun j => j.lifecycle && j.conn == c) = [] := by
    rw [List.filter_eq_nil_iff]
    intro j hj
    simp [h j hj]
  rw [view_queue, hnil, List.append_nil]

theorem view_pop_of_ne (hst : q.stack = j :: rest) (h : j.conn ≠ c) :
    (q.pop rest).view c = q.view c := by
  rw [view_pop hst]
  simp [h]

/-- A lifecycle job comes to where it is queued or entered. -/
theorem view_push_lifecycle (hj : j.lifecycle = true) : (q.push j).view j.conn =
    { q.view j.conn with lifecycle := j :: (q.view j.conn).lifecycle } := by
  rw [view_push]
  simp [hj, Job.isEvent_of_lifecycle hj]

theorem view_queue_lifecycle (hj : j.lifecycle = true) : (q.queue [j]).view j.conn =
    { q.view j.conn with lifecycle := (q.view j.conn).lifecycle ++ [j] } := by
  rw [view_queue]
  simp [hj]

theorem view_pop_lifecycle (hst : q.stack = j :: rest) (hj : j.lifecycle = true) :
    q.view j.conn = { (q.pop rest).view j.conn with
      lifecycle := j :: ((q.pop rest).view j.conn).lifecycle } := by
  rw [view_pop hst]
  simp [hj, Job.isEvent_of_lifecycle hj]

theorem view_push_event {cbs : List Callback} : (q.push (.handleEvent c cbs)).view c =
    { q.view c with events := .handleEvent c cbs :: (q.view c).events } := by
  rw [view_push]
  simp [Job.lifecycle, Job.isEvent, Job.conn]

theorem view_pop_event {cbs : List Callback} (hst : q.stack = .handleEvent c cbs :: rest) :
    q.view c = { (q.pop rest).view c with
      events := .handleEvent c cbs :: ((q.pop rest).view c).events } := by
  rw [view_pop hst]
  simp [Job.lifecycle, Job.isEvent, Job.conn]

/-- A handler goes on in the place it had. -/
theorem Shape.handler {cbs cbs' : List Callback} (h : q.Shape)
    (hst : q.stack = .handleEvent c cbs :: rest) :
    ((q.pop rest).push (.handleEvent c cbs')).Shape where
  polling hp := absurd hp (h.not_polling hst)
  handling := h.handling
  calling hp := by
    have := (h.calling hp).2 (.handleEvent c cbs) (by simp [hst])
    cases this
  leaving c' hc' := by
    rcases List.mem_cons.1 hc' with hc' | hc'
    · cases hc'
    · exact (h.pop hst).leaving c' hc'
  batch := h.batch
  owns j hj := by
    rcases List.mem_cons.1 hj with rfl | hj
    · rfl
    · exact (h.pop hst).owns j hj
  ended := h.ended

/-! The loop's own steps. -/

def polled (q : ServerLoop) (events : List (Nat × EventMask)) : ServerLoop :=
  { q with phase := .handling, active := events }

def dispatched (q : ServerLoop) (c : Nat) (cbs : List Callback)
    (active : List (Nat × EventMask)) : ServerLoop :=
  { q with active := active, stack := [.handleEvent c cbs] }

def swapped (q : ServerLoop) : ServerLoop :=
  { q with phase := .calling, functors := q.pendingFunctors, pendingFunctors := [] }

def taking (q : ServerLoop) (j : Job) (js : List Job) : ServerLoop :=
  { q with stack := [j], functors := js, called := q.called ++ [j] }

def batchDone (q : ServerLoop) : ServerLoop := { q with phase := .polling, called := [] }

theorem Shape.polled {events : List (Nat × EventMask)} (h : q.Shape) (hp : q.phase = .polling)
    (he : q.ended = false) : (q.polled events).Shape := by
  obtain ⟨hstack, hfun, -⟩ := h.polling hp
  exact {
    polling := nofun
    handling := fun _ => hfun
    calling := nofun
    leaving := fun c hc => by
      rw [show (q.polled events).stack = [] from hstack] at hc
      cases hc
    batch := h.batch
    owns := h.owns
    ended := fun he' => by
      rw [show (q.polled events).ended = q.ended from rfl, he] at he'
      cases he' }

theorem Shape.dispatched {cbs : List Callback} {active : List (Nat × EventMask)} (h : q.Shape)
    (hp : q.phase = .handling) (hstack : q.stack = []) : (q.dispatched c cbs active).Shape where
  polling hp' := by rw [show q.phase = _ from hp'] at hp; cases hp
  handling := h.handling
  calling hp' := by rw [show q.phase = _ from hp'] at hp; cases hp
  leaving c' hc' := by cases List.mem_singleton.1 hc'
  batch := h.batch
  owns j hj := by
    rcases List.mem_cons.1 hj with rfl | hj
    · rfl
    · refine h.owns j ?_
      rw [jobs, hstack]
      exact hj
  ended := h.ended

theorem jobs_swapped (h : q.functors = []) : q.swapped.jobs = q.jobs := by simp [swapped, jobs, h]

theorem Shape.swapped (h : q.Shape) (hp : q.phase = .handling) (hstack : q.stack = [])
    (hactive : q.active = []) : q.swapped.Shape where
  polling := nofun
  handling := nofun
  calling _ := ⟨hactive, fun j hj => by
    rw [show q.swapped.stack = [] from hstack] at hj
    cases hj⟩
  leaving c hc := by
    rw [show q.swapped.stack = [] from hstack] at hc
    cases hc
  batch j hj := h.batch j (by
    rw [h.handling hp]
    simpa [ServerLoop.swapped] using hj)
  owns := by rw [jobs_swapped (h.handling hp)]; exact h.owns
  ended he := by
    have hpolling : q.phase = .polling := h.ended he
    rw [hp] at hpolling
    cases hpolling

theorem jobs_taking (hstack : q.stack = []) (hfun : q.functors = j :: js) :
    (q.taking j js).jobs = q.jobs := by
  simp [taking, jobs, hstack, hfun]

theorem Shape.taking (h : q.Shape) (hp : q.phase = .calling) (hstack : q.stack = [])
    (hfun : q.functors = j :: js) : (q.taking j js).Shape where
  polling hp' := by rw [show q.phase = _ from hp'] at hp; cases hp
  handling hp' := by rw [show q.phase = _ from hp'] at hp; cases hp
  calling _ := ⟨(h.calling hp).1, fun i hi => by
    rw [List.mem_singleton.1 hi]
    exact h.batch j (by simp [hfun])⟩
  leaving c hc := ⟨hp, List.mem_append_right _ hc⟩
  batch i hi := h.batch i (by
    rw [hfun]
    rcases List.mem_append.1 hi with hi | hi
    · simp [show i ∈ js from hi]
    · simp [show i ∈ q.pendingFunctors from hi])
  owns := by rw [jobs_taking hstack hfun]; exact h.owns
  ended := h.ended

theorem Shape.batchDone (h : q.Shape) (hp : q.phase = .calling) (hstack : q.stack = [])
    (hfun : q.functors = []) : q.batchDone.Shape where
  polling _ := ⟨hstack, hfun, (h.calling hp).1⟩
  handling := nofun
  calling := nofun
  leaving c hc := by
    rw [show q.batchDone.stack = [] from hstack] at hc
    cases hc
  batch := h.batch
  owns := h.owns
  ended _ := rfl

theorem shape_exited : ServerLoop.exited.Shape where
  polling _ := ⟨rfl, rfl, rfl⟩
  handling := nofun
  calling := nofun
  leaving _ := nofun
  batch _ := nofun
  owns _ := nofun
  ended _ := rfl

/-- Taking a functor moves no job of a connection. -/
theorem view_taking (hj : j.isEvent = false) (hstack : q.stack = []) (hfun : q.functors = j :: js) :
    (q.taking j js).view c = q.view c := by
  rw [view, view, jobs_taking hstack hfun, hstack,
    show (q.taking j js).stack = [j] from rfl, List.filter_cons_of_neg (by rw [hj]; simp)]
  rfl

theorem view_dispatched {cbs : List Callback} {revents : EventMask}
    {active : List (Nat × EventMask)} (hstack : q.stack = [])
    (hactive : q.active = (c, revents) :: active) (c' : Nat) :
    (q.dispatched c cbs active).view c' = if c' = c then
      { q.view c with
        active := active.filter fun e => e.1 == c
        events := [.handleEvent c cbs] }
      else q.view c' := by
  split
  · rename_i hc
    subst hc
    simp [view, dispatched, jobs, hstack, Job.lifecycle, Job.isEvent, Job.conn]
  · rename_i hc
    simp [view, dispatched, jobs, hstack, hactive, Job.lifecycle, Job.conn, Ne.symm hc]

theorem view_swapped (h : q.functors = []) : q.swapped.view c = q.view c := by
  rw [view, view, jobs_swapped h]
  rfl

end ServerLoop

namespace Stage

/-- Only one loop has a job that the stage is due, and only one. -/
theorem due_unique {g : Stage} {c io l : Nat} {j : Job} {js : List Job}
    (h : g.due c io l = j :: js) (l' : Nat) : g.due c io l' = if l' = l then [j] else [] := by
  have key : ∀ (i : Nat) (k : Job), (if l = i then [k] else []) = j :: js →
      (if l' = i then [k] else []) = if l' = l then [j] else [] := by
    intro i k hk
    split at hk
    · rename_i hl
      cases hk
      rw [hl]
    · cases hk
  cases g with
  | absent => cases h
  | creating => exact key _ _ h
  | queued => exact key _ _ h
  | opened => cases h
  | closing => exact key _ _ h
  | removing => exact key _ _ h
  | erased => exact key _ _ h
  | leaving => exact key _ _ h
  | destroyed => cases h

/-- What is due says what stage the connection is at, and in which loop. -/
theorem of_due {g : Stage} {c io l : Nat} {j : Job} (h : g.due c io l = [j]) :
    j = .establish c ∧ g = creating ∧ l = 0 ∨
    j = .connectEstablished c ∧ g = queued ∧ l = io ∨
    j = .removeConnection c ∧ g = closing ∧ l = io ∨
    j = .removeConnectionInLoop c ∧ g = removing ∧ l = 0 ∨
    j = .queueDestroyed c ∧ g = erased ∧ l = 0 ∨
    j = .connectDestroyed c ∧ g = leaving ∧ l = io := by
  have key : ∀ (i : Nat) (k : Job), (if l = i then [k] else []) = [j] → j = k ∧ l = i := by
    intro i k hk
    split at hk
    · rename_i hl
      cases hk
      exact ⟨rfl, hl⟩
    · cases hk
  cases g with
  | absent => cases h
  | creating => obtain ⟨rfl, hl⟩ := key _ _ h; simp [hl]
  | queued => obtain ⟨rfl, hl⟩ := key _ _ h; simp [hl]
  | opened => cases h
  | closing => obtain ⟨rfl, hl⟩ := key _ _ h; simp [hl]
  | removing => obtain ⟨rfl, hl⟩ := key _ _ h; simp [hl]
  | erased => obtain ⟨rfl, hl⟩ := key _ _ h; simp [hl]
  | leaving => obtain ⟨rfl, hl⟩ := key _ _ h; simp [hl]
  | destroyed => cases h

theorem Handling.closed {g g' : Stage} {cbs : List Callback} (h : g.Handling cbs)
    (hg : g ≠ opened) (hg' : g' ∈ [closing, removing, erased, leaving]) : g'.Handling cbs := by
  rcases h with ⟨hop, -⟩ | ⟨-, h⟩
  · exact absurd hop hg
  · exact .inr ⟨hg', h⟩

/-- The connection itself does not change. -/
structure Same (g g' : Stage) : Prop where
  live : g.Live ∧ g'.Live
  opened : g = .opened → g' = .opened
  handling : ∀ cbs, g.Handling cbs → g'.Handling cbs
  holds : g'.Holds = g.Holds
  marks : g'.marks = g.marks
  mapped : g'.Mapped ↔ g.Mapped

theorem same_creating : Same creating queued where
  live := by decide
  opened := by decide
  handling cbs h := by simp [Handling] at h
  holds := rfl
  marks := rfl
  mapped := by decide

theorem same_closing : Same closing removing where
  live := by decide
  opened := by decide
  handling _ h := h.closed (by decide) (by decide)
  holds := rfl
  marks := rfl
  mapped := by decide

theorem same_erased : Same erased leaving where
  live := by decide
  opened := by decide
  handling _ h := h.closed (by decide) (by decide)
  holds := rfl
  marks := rfl
  mapped := by decide

end Stage

/-- The next stage of a connection whose handler, if it has one, goes on as it was. -/
theorem Placed.hop {g g' : Stage} {c io l : Nat} {v v' : View} (h : Placed g c io l v)
    (hv : v' = { v with lifecycle := g'.due c io l }) (hopen : g = .opened → g' = .opened)
    (hh : ∀ cbs, g.Handling cbs → g'.Handling cbs) : Placed g' c io l v' := by
  subst hv
  refine ⟨rfl, ?_, ?_⟩
  · rcases h.active with hnil | ⟨hl, hg, hr⟩
    · exact .inl hnil
    · exact .inr ⟨hl, hopen hg, hr⟩
  · rcases h.events with hnil | ⟨hl, ha, cbs, hcbs, he⟩
    · exact .inl hnil
    · exact .inr ⟨hl, ha, cbs, hh cbs hcbs, he⟩

namespace TcpServer
variable {s t : TcpServer} {c l target : Nat} {st : Nat → Stage} {g : Stage} {j : Job}
  {rest : List Job}

/-! ### The loops -/

theorem Touched.setLoop {q : ServerLoop} (hp : q.poller = (s.loop l).poller)
    (he : q.ended = (s.loop l).ended) (hv : ∀ c', c' ≠ c → q.view c' = (s.loop l).view c') :
    Touched s c (s.setLoop l q) where
  numThreads := rfl
  next := rfl
  accepted := rfl
  others _ _ := rfl
  name := rfl
  loop := rfl
  fd := rfl
  pollers l' _ := poller_setLoop hp l'
  frame := by rw [poller_setLoop hp]; exact .refl _ _
  views c' hne l' := by
    rw [loop_setLoop]
    split
    · rename_i hl; rw [hv c' hne, hl]
    · rfl
  ended l' := by
    rw [loop_setLoop]
    split
    · rename_i hl; rw [he, hl]
    · rfl

theorem Touched.pop (hst : (s.loop l).stack = j :: rest) (hc : j.conn = c) :
    Touched s c (s.setLoop l ((s.loop l).pop rest)) :=
  .setLoop rfl rfl fun _ hne => view_pop_of_ne hst fun h => hne (h.symm.trans hc)

theorem Touched.enter (hc : j.conn = c) : Touched s c (s.enter l j) :=
  .setLoop rfl rfl fun _ hne => view_push_of_ne fun h => hne (h.symm.trans hc)

theorem Touched.queueInLoop (hc : j.conn = c) : Touched s c (s.queueInLoop l j) := by
  refine .setLoop rfl rfl fun _ hne => view_queue_of_ne fun i hi h => hne ?_
  rw [List.mem_singleton.1 hi] at h
  exact h.symm.trans hc

theorem Touched.runInLoop (hc : j.conn = c) : Touched s c (s.runInLoop l target j) := by
  unfold TcpServer.runInLoop
  split
  · exact .enter hc
  · exact .queueInLoop hc

theorem shape_enter (h : ∀ l, (s.loop l).Shape) (hp : (s.loop l).phase ≠ .polling)
    (hj : Ordinary j) (l' : Nat) : ((s.enter l j).loop l').Shape :=
  shape_setLoop h ((h l).push hp hj) l'

theorem shape_queueInLoop (h : ∀ l, (s.loop l).Shape) (hj : j.lifecycle = true) (l' : Nat) :
    ((s.queueInLoop l j).loop l').Shape := by
  refine shape_setLoop h ((h l).queue ?_) l'
  intro i hi
  rw [List.mem_singleton.1 hi]
  exact ⟨Job.isEvent_of_lifecycle hj, Job.owns_of_lifecycle hj⟩

/-- No loop has a lifecycle job about the connection. -/
def Free (s : TcpServer) (c : Nat) : Prop := ∀ l, ((s.loop l).view c).lifecycle = []

theorem view_enter (hf : s.Free c) (hc : j.conn = c) (hj : j.lifecycle = true) (l' : Nat) :
    ((s.enter l j).loop l').view c =
      { (s.loop l').view c with lifecycle := if l' = l then [j] else [] } := by
  subst hc
  rw [TcpServer.enter, loop_setLoop]
  split
  · rename_i hl
    rw [hl]
    refine (view_push_lifecycle hj).trans ?_
    rw [hf]
  · rw [← hf l']

theorem view_queueInLoop (hf : s.Free c) (hc : j.conn = c) (hj : j.lifecycle = true) (l' : Nat) :
    ((s.queueInLoop l j).loop l').view c =
      { (s.loop l').view c with lifecycle := if l' = l then [j] else [] } := by
  subst hc
  rw [TcpServer.queueInLoop, loop_setLoop]
  split
  · rename_i hl
    rw [hl]
    refine (view_queue_lifecycle hj).trans ?_
    rw [hf, List.nil_append]
  · rw [← hf l']

theorem view_runInLoop (hf : s.Free c) (hc : j.conn = c) (hj : j.lifecycle = true) (l' : Nat) :
    ((s.runInLoop l target j).loop l').view c =
      { (s.loop l').view c with lifecycle := if l' = target then [j] else [] } := by
  unfold TcpServer.runInLoop
  split
  · rename_i hl
    rw [← hl]; exact view_enter hf hc hj l'
  · exact view_queueInLoop hf hc hj l'

/-- The lifecycle job in hand is the one its connection is due, and there is no other. -/
structure Taken (s : TcpServer) (l c : Nat) (j : Job) (st : Nat → Stage) (t : TcpServer) : Prop where
  due : (st c).due c (s.conn c).loop l = [j]
  touched : Touched s c t
  conn : t.conn = s.conn
  connections : t.connections = s.connections
  pollers : ∀ l, (t.loop l).poller = (s.loop l).poller
  shape : ∀ l, (t.loop l).Shape
  busy : (t.loop l).phase ≠ .polling
  view : ∀ l', (t.loop l').view c = { (s.loop l').view c with lifecycle := [] }

theorem Inv.taken (h : Inv st s) (hst : (s.loop l).stack = j :: rest) (hc : j.conn = c)
    (hj : j.lifecycle = true) : Taken s l c j st (s.setLoop l ((s.loop l).pop rest)) := by
  have hpop : (s.loop l).view c = { ((s.loop l).pop rest).view c with
      lifecycle := j :: (((s.loop l).pop rest).view c).lifecycle } := hc ▸ view_pop_lifecycle hst hj
  have hdue := (h.placed c l).lifecycle
  rw [hpop] at hdue
  have huniq := Stage.due_unique hdue.symm
  have hrest : (((s.loop l).pop rest).view c).lifecycle = [] := by
    have := huniq l
    rw [← hdue, if_pos rfl] at this
    exact (List.cons.inj this).2
  exact {
    due := by rw [huniq l, if_pos rfl]
    touched := .pop hst hc
    conn := rfl
    connections := rfl
    pollers := poller_setLoop rfl
    shape := shape_setLoop h.shape ((h.shape l).pop hst)
    busy := by rw [loop_setLoop, if_pos rfl]; exact (h.shape l).not_polling hst
    view := fun l' => by
      rw [loop_setLoop]
      split
      · rename_i hl
        rw [hl, hpop, ← hrest]
      · rename_i hl
        have hnil := (h.placed c l').lifecycle
        rw [huniq l', if_neg hl] at hnil
        rw [← hnil] }

theorem Taken.connOk (tk : Taken s l c j st t) (h : s.ConnOk g c) : t.ConnOk g c :=
  h.congr tk.touched.numThreads (by rw [tk.conn]) tk.pollers

theorem Taken.free (tk : Taken s l c j st t) : t.Free c := fun l' => by rw [tk.view]

/-! ### Jobs that pass the connection on -/

theorem poller_queueInLoop (s : TcpServer) (l : Nat) (j : Job) (l' : Nat) :
    ((s.queueInLoop l j).loop l').poller = (s.loop l').poller :=
  poller_setLoop (q := (s.loop l).queue [j]) rfl l'

theorem poller_runInLoop (s : TcpServer) (l target : Nat) (j : Job) (l' : Nat) :
    ((s.runInLoop l target j).loop l').poller = (s.loop l').poller := by
  unfold TcpServer.runInLoop
  split
  · exact poller_setLoop (q := (s.loop l).push j) rfl l'
  · exact poller_queueInLoop s target j l'

theorem conn_runInLoop (s : TcpServer) (l target : Nat) (j : Job) :
    (s.runInLoop l target j).conn = s.conn := by
  unfold TcpServer.runInLoop
  split <;> rfl

theorem connections_runInLoop (s : TcpServer) (l target : Nat) (j : Job) :
    (s.runInLoop l target j).connections = s.connections := by
  unfold TcpServer.runInLoop
  split <;> rfl

theorem shape_runInLoop (h : ∀ l, (s.loop l).Shape) (hp : (s.loop l).phase ≠ .polling)
    (hj : j.lifecycle = true) (hd : ∀ c, j ≠ .connectDestroyed c) (l' : Nat) :
    ((s.runInLoop l target j).loop l').Shape := by
  unfold TcpServer.runInLoop
  split
  · exact shape_enter h hp ⟨Job.isEvent_of_lifecycle hj, Job.owns_of_lifecycle hj, hd⟩ l'
  · exact shape_queueInLoop h hj l'

theorem Inv.hop {u : TcpServer} (h : Inv st s) (hg : (st c).Same g) (hu : Touched s c u)
    (hconn : u.conn = s.conn) (hmap : u.connections = s.connections)
    (hpollers : ∀ l, (u.loop l).poller = (s.loop l).poller) (hshape : ∀ l, (u.loop l).Shape)
    (hview : ∀ l', (u.loop l').view c =
      { (s.loop l').view c with lifecycle := g.due c (s.conn c).loop l' }) :
    Inv (Function.update st c g) u := by
  have hok := (h.conns c hg.live.1.1).congr hu.numThreads (by rw [hconn]) hpollers
  have hok' : u.ConnOk g c :=
    { hok with holds := hg.holds ▸ hok.holds, marks := hg.marks ▸ hok.marks }
  exact h.move hu hg.live.1 hg.live.2 hshape
    (fun l => (h.placed c l).hop (hview l) hg.opened hg.handling) hok' hmap hg.mapped

/-- A job whose part is to have another function run, here or in another loop. -/
theorem Inv.runInLoop {j' : Job} (h : Inv st s) (tk : Taken s l c j st t) (hg : (st c).Same g)
    (hc : j'.conn = c) (hj : j'.lifecycle = true) (hd : ∀ c, j' ≠ .connectDestroyed c)
    (hdue : ∀ l', g.due c (s.conn c).loop l' = if l' = target then [j'] else []) :
    Inv (Function.update st c g) (t.runInLoop l target j') := by
  refine h.hop hg (tk.touched.trans (.runInLoop hc)) ?_ ?_ ?_ ?_ ?_
  · rw [conn_runInLoop, tk.conn]
  · rw [connections_runInLoop, tk.connections]
  · intro l'; rw [poller_runInLoop, tk.pollers]
  · exact shape_runInLoop tk.shape tk.busy hj hd
  · intro l'
    rw [view_runInLoop tk.free hc hj, tk.view, hdue]

theorem Inv.establish (h : Inv st s) (tk : Taken s l c (.establish c) st t) :
    Inv (Function.update st c .queued) (t.runInLoop l (t.conn c).loop (.connectEstablished c)) := by
  obtain ⟨hst, -⟩ : st c = .creating ∧ l = 0 := by simpa using Stage.of_due tk.due
  rw [tk.conn]
  exact h.runInLoop tk (hst ▸ Stage.same_creating) rfl rfl (by simp) fun _ => rfl

theorem Inv.removeConnection (h : Inv st s) (tk : Taken s l c (.removeConnection c) st t) :
    Inv (Function.update st c .removing) (t.runInLoop l 0 (.removeConnectionInLoop c)) := by
  obtain ⟨hst, -⟩ : st c = .closing ∧ l = (s.conn c).loop := by simpa using Stage.of_due tk.due
  exact h.runInLoop tk (hst ▸ Stage.same_closing) rfl rfl (by simp) fun _ => rfl

theorem Inv.queueDestroyed (h : Inv st s) (tk : Taken s l c (.queueDestroyed c) st t) :
    Inv (Function.update st c .leaving) (t.queueInLoop (t.conn c).loop (.connectDestroyed c)) := by
  obtain ⟨hst, -⟩ : st c = .erased ∧ l = 0 := by simpa using Stage.of_due tk.due
  refine h.hop (hst ▸ Stage.same_erased) (tk.touched.trans (.queueInLoop rfl)) tk.conn tk.connections
    ?_ (shape_queueInLoop tk.shape rfl) ?_
  · intro l'
    rw [poller_queueInLoop, tk.pollers]
  · intro l'
    rw [view_queueInLoop tk.free rfl rfl, tk.view, tk.conn]
    rfl

/-! ### Marks and the map -/

theorem conn_mark_self (s : TcpServer) (c : Nat) (m : Mark) : (s.mark c m).conn c =
    { s.conn c with log := (s.conn c).log ++ [m] } := Function.update_self ..

theorem world_mark (s : TcpServer) (c : Nat) (m : Mark) : (s.mark c m).world c = s.world c := by
  rw [world, conn_mark_self]
  rfl

theorem world_congr (htcp : (t.conn c).tcp = (s.conn c).tcp) (hloop : (t.conn c).loop = (s.conn c).loop)
    (hp : ∀ l, (t.loop l).poller = (s.loop l).poller) : t.world c = s.world c := by
  rw [world, htcp, hloop, hp]
  rfl

theorem Touched.mark {m : Mark} : Touched s c (s.mark c m) where
  numThreads := rfl
  next := rfl
  accepted := rfl
  others _ hne := Function.update_of_ne hne ..
  name := by rw [conn_mark_self]
  loop := by rw [conn_mark_self]
  fd := by rw [conn_mark_self]
  pollers _ _ := rfl
  frame := .refl _ _
  views _ _ _ := rfl
  ended _ := rfl

theorem Touched.erase : Touched s c (s.erase c) where
  numThreads := rfl
  next := rfl
  accepted := rfl
  others _ _ := rfl
  name := rfl
  loop := rfl
  fd := rfl
  pollers _ _ := rfl
  frame := .refl _ _
  views _ _ _ := rfl
  ended _ := rfl

/-- A lifecycle mark is the next stage's. -/
theorem marks_concat {g' : Stage} {log : List Mark} {m : Mark}
    (h : log.filter Mark.lifecycle = g.marks) (hm : m.lifecycle = true)
    (hg : g'.marks = g.marks ++ [m]) : (log ++ [m]).filter Mark.lifecycle = g'.marks := by
  rw [List.filter_append, h, hg, List.filter_singleton, hm]
  rfl

theorem handled_lifecycle {log : List Mark} {m : Mark} (h : Handled log) (hm : m.lifecycle = true) :
    Handled (log ++ [m]) := by
  refine h.concat fun cb hcb => ?_
  rw [hcb] at hm
  cases hm

theorem Inv.connections_erase (h : Inv st s) (hc : (st c).Mapped) (hg : ¬ g.Mapped) (n : String)
    (c' : Nat) : (s.erase c).connections n = some c' ↔
      (Function.update st c g c').Mapped ∧ (s.conn c').name = n := by
  have hown : s.connections (s.conn c).name = some c := (h.connections _ _).2 ⟨hc, rfl⟩
  show Function.update s.connections (s.conn c).name none n = some c' ↔ _
  by_cases hcc : c' = c
  · rw [hcc, Function.update_self]
    constructor
    · intro hn
      rw [Function.update_apply] at hn
      split at hn
      · cases hn
      · rename_i hne
        exact absurd ((h.connections _ _).1 hn).2.symm hne
    · exact fun hn => absurd hn.1 hg
  · rw [Function.update_of_ne hcc, ← h.connections, Function.update_apply]
    split
    · rename_i hn
      rw [hn, hown]
      constructor
      · intro hno; cases hno
      · intro hsome; exact absurd (Option.some.inj hsome).symm hcc
    · exact Iff.rfl

theorem Inv.removeConnectionInLoop (h : Inv st s)
    (tk : Taken s l c (.removeConnectionInLoop c) st t) : Inv (Function.update st c .erased)
      (((t.mark c .erased).erase c).enter l (.queueDestroyed c)) := by
  obtain ⟨hst, hl⟩ : st c = .removing ∧ l = 0 := by simpa using Stage.of_due tk.due
  have hok := h.conns c (by rw [hst]; decide)
  rw [hst] at hok
  have hbusy : (((t.mark c .erased).erase c).loop l).phase ≠ .polling := tk.busy
  have hfree : ((t.mark c .erased).erase c).Free c := tk.free
  have hu : Touched s c (((t.mark c .erased).erase c).enter l (.queueDestroyed c)) :=
    ((tk.touched.trans .mark).trans .erase).trans (.enter rfl)
  have hconn : (((t.mark c .erased).erase c).enter l (.queueDestroyed c)).conn c =
      { s.conn c with log := (s.conn c).log ++ [.erased] } := by
    rw [← tk.conn]; exact conn_mark_self t c _
  have hpollers : ∀ l', ((((t.mark c .erased).erase c).enter l (.queueDestroyed c)).loop l').poller =
      (s.loop l').poller := by
    intro l'
    rw [← tk.pollers]
    exact poller_setLoop (s := t) (q := (t.loop l).push _) rfl l'
  have hworld : (((t.mark c .erased).erase c).enter l (.queueDestroyed c)).world c = s.world c :=
    world_congr (by rw [hconn]) (by rw [hconn]) hpollers
  refine h.touch hu (by rw [hst]; decide) (by decide) (shape_enter tk.shape hbusy ?_) ?_ ?_ ?_ ?_
  · exact ⟨rfl, rfl, by simp⟩
  · intro l'
    refine (h.placed c l').hop ?_ (by rw [hst]; decide) fun cbs hcbs => ?_
    · rw [view_enter hfree rfl rfl, hl,
        show (((t.mark c .erased).erase c).loop l').view c = _ from tk.view l']
      rfl
    · exact hcbs.closed (by rw [hst]; decide) (by decide)
  · refine ⟨?_, ?_, ?_, ?_, ?_⟩
    · rw [hconn, hu.numThreads]; exact hok.loop_le
    · rw [hconn]; exact hok.closeCallback
    · rw [hworld]; exact hok.holds
    · rw [hconn]; exact marks_concat hok.marks rfl rfl
    · rw [hconn]; exact handled_lifecycle hok.handled rfl
  · intro e he
    rw [hpollers] at he
    have := hok.holds.entry (by decide) he
    exact absurd this.1 (by decide)
  · intro n c'
    have := h.connections_erase (g := .erased) (c := c) (by rw [hst]; decide) (by decide) n c'
    rw [← this, connections_erased, tk.conn, tk.connections]
    rfl

/-! ### What a step does -/

/-- A step up to where fds are closed, with what it needs and what it leaves. -/
inductive Stepped (logErrno : Errno → Errno) (s : TcpServer) : ServerStep → TcpServer → Prop
  | poll {l : Nat} {events : List (Nat × EventMask)} (hl : l ≤ s.numThreads)
      (hp : (s.loop l).phase = .polling) (hnd : (events.map Prod.fst).Nodup)
      (hreg : ∀ e ∈ events, e.1 < s.accepted ∧ s.registered l e.1 = true)
      (he : (s.loop l).ended = false) :
      Stepped logErrno s (.poll l events) (s.setLoop l ((s.loop l).polled events))
  | accept {inSockfd : Int} (halive : s.alive = true) (hp : (s.loop 0).phase = .handling)
      (hstack : (s.loop 0).stack = []) (hfd : 0 ≤ inSockfd) (hfresh : s.freshFd inSockfd = true) :
      Stepped logErrno s (.accept inSockfd) (s.newConnection inSockfd)
  | dispatch {l c : Nat} {revents : EventMask} {active : List (Nat × EventMask)}
      (hp : (s.loop l).phase = .handling) (hstack : (s.loop l).stack = [])
      (hactive : (s.loop l).active = (c, revents) :: active) (ho : s.owned c = true) :
      Stepped logErrno s (.dispatch l) (s.dispatch l c revents active)
  | proceed {l : Nat} {r : ReadResult} {r' : WriteResult} {j : Job} {rest : List Job}
      {t : TcpServer} (hst : (s.loop l).stack = j :: rest)
      (ho : (s.setLoop l ((s.loop l).pop rest)).perform logErrno l r r' j = some t)
      (huse : s.usable l j = true) :
      Stepped logErrno s (.proceed l r r') t
  | swap {l : Nat} (hp : (s.loop l).phase = .handling) (hstack : (s.loop l).stack = [])
      (hactive : (s.loop l).active = []) :
      Stepped logErrno s (.swap l) (s.setLoop l (s.loop l).swapped)
  | call {l : Nat} {j : Job} {js : List Job} (hp : (s.loop l).phase = .calling)
      (hstack : (s.loop l).stack = []) (hfun : (s.loop l).functors = j :: js) :
      Stepped logErrno s (.call l) (s.setLoop l ((s.loop l).taking j js))
  | destroyFunctors {l : Nat} (hp : (s.loop l).phase = .calling) (hstack : (s.loop l).stack = [])
      (hfun : (s.loop l).functors = []) (hq : (s.loop l).quit = false) :
      Stepped logErrno s (.destroyFunctors l) (s.setLoop l (s.loop l).batchDone)
  | leave {l : Nat} (hp : (s.loop l).phase = .calling) (hstack : (s.loop l).stack = [])
      (hfun : (s.loop l).functors = []) (hq : (s.loop l).quit = true) :
      Stepped logErrno s (.destroyFunctors l) (s.setLoop l .exited)
  | send {c : Nat} {inMsg : Bytes} {r : WriteResult} {w : World Nat} (hc : c < s.accepted)
      (ho : s.owned c = true) (hr : r.Legal inMsg.length)
      (hw : (s.world c).send logErrno true inMsg r = .ok w)
      (he : (s.loop (s.conn c).loop).ended = false) :
      Stepped logErrno s (.send c inMsg r) (s.absorb c w)
  | shutdown {c : Nat} (hc : c < s.accepted) (ho : s.owned c = true)
      (he : (s.loop (s.conn c).loop).ended = false) :
      Stepped logErrno s (.shutdown c) (s.absorb c ((s.world c).shutdown true))
  | hold {c : Nat} (hc : c < s.accepted) (ho : s.owned c = true) :
      Stepped logErrno s (.hold c) { s with held := Function.update s.held c (s.held c + 1) }
  | release {c : Nat} (hheld : 0 < s.held c) :
      Stepped logErrno s (.release c) { s with held := Function.update s.held c (s.held c - 1) }
  | foreignSend {c : Nat} {inMsg : Bytes} (hheld : 0 < s.held c)
      (he : (s.loop (s.conn c).loop).ended = false) :
      Stepped logErrno s (.foreignSend c inMsg) (if (s.conn c).tcp.isConnected then
        s.queueInLoop (s.conn c).loop (.sendInLoop c inMsg) else s)
  | foreignShutdown {c : Nat} (hheld : 0 < s.held c) (he : (s.loop (s.conn c).loop).ended = false) :
      Stepped logErrno s (.foreignShutdown c) (if (s.conn c).tcp.isConnected then
        (s.absorb c ((s.world c).setState .disconnecting)).queueInLoop (s.conn c).loop
          (.shutdownInLoop c) else s)
  | destroyServer (halive : s.alive = true) :
      Stepped logErrno s .destroyServer { s with alive := false, connections := fun _ => none }
  | quitLoop {l : Nat} (hdead : s.alive = false) (hl : 0 < l ∧ l ≤ s.numThreads)
      (hq : (s.loop l).quit = false) (hbefore : ∀ i < l, 0 < i → (s.loop i).ended = true) :
      Stepped logErrno s (.quitLoop l) (s.setLoop l { s.loop l with quit := true })

theorem act_some {logErrno : Errno → Errno} {a : ServerStep} (hs : act logErrno s a = some t) :
    Stepped logErrno s a t := by
  cases a with
  | poll l events =>
    rw [act] at hs
    split at hs
    · rename_i hg
      cases hs; exact .poll hg.1 hg.2.1 hg.2.2.2.1 hg.2.2.2.2 hg.2.2.1
    · cases hs
  | accept inSockfd =>
    rw [act] at hs
    split at hs
    · rename_i hg
      cases hs; exact .accept hg.1 hg.2.1 hg.2.2.1 hg.2.2.2.1 hg.2.2.2.2
    · cases hs
  | dispatch l =>
    rw [act] at hs
    split at hs
    · rename_i hp hstack hactive
      split at hs
      · rename_i ho
        cases hs; exact .dispatch hp hstack hactive ho
      · cases hs
    · cases hs
  | proceed l r r' =>
    rw [act] at hs
    split at hs
    · rename_i hst
      split at hs
      · rename_i huse
        exact .proceed hst hs huse
      · cases hs
    · cases hs
  | swap l =>
    rw [act] at hs
    split at hs
    · rename_i hg
      cases hs; exact .swap hg.1 hg.2.1 hg.2.2
    · cases hs
  | call l =>
    rw [act] at hs
    split at hs
    · rename_i hp hstack hfun
      cases hs; exact .call hp hstack hfun
    · cases hs
  | destroyFunctors l =>
    rw [act] at hs
    split at hs
    · rename_i hg
      cases hs
      split
      · rename_i hq
        exact .leave hg.1 hg.2.1 hg.2.2 hq
      · rename_i hq
        exact .destroyFunctors hg.1 hg.2.1 hg.2.2 (Bool.eq_false_iff.2 hq)
    · cases hs
  | send c inMsg r =>
    rw [act] at hs
    split at hs
    · rename_i hg
      obtain ⟨w, hw, rfl⟩ := Option.map_eq_some_iff.1 hs
      exact .send hg.1 hg.2.1 hg.2.2.2 (toOption_eq_some.1 hw) hg.2.2.1
    · cases hs
  | shutdown c =>
    rw [act] at hs
    split at hs
    · rename_i hg
      cases hs; exact .shutdown hg.1 hg.2.1 hg.2.2
    · cases hs
  | hold c =>
    rw [act] at hs
    split at hs
    · rename_i hg
      cases hs; exact .hold hg.1 hg.2
    · cases hs
  | release c =>
    rw [act] at hs
    split at hs
    · rename_i hg
      cases hs; exact .release hg
    · cases hs
  | foreignSend c inMsg =>
    rw [act] at hs
    split at hs
    · rename_i hg
      cases hs; exact .foreignSend hg.1 hg.2
    · cases hs
  | foreignShutdown c =>
    rw [act] at hs
    split at hs
    · rename_i hg
      cases hs; exact .foreignShutdown hg.1 hg.2
    · cases hs
  | destroyServer =>
    rw [act] at hs
    split at hs
    · rename_i hg
      cases hs; exact .destroyServer hg
    · cases hs
  | quitLoop l =>
    rw [act] at hs
    split at hs
    · rename_i hg
      cases hs; exact .quitLoop hg.1 ⟨hg.2.1, hg.2.2.1⟩ hg.2.2.2.1 hg.2.2.2.2
    · cases hs

theorem step_some {logErrno : Errno → Errno} {a : ServerStep} (hs : step logErrno s a = some t) :
    ∃ u, Stepped logErrno s a u ∧ t = u.closeFds := by
  obtain ⟨u, hu, rfl⟩ := Option.map_eq_some_iff.1 hs
  exact ⟨u, act_some hu, rfl⟩

/-- Where the kernel has only fds of living connections, none has been closed. -/
theorem closeFds_of_owned
    (h : ∀ l fd e, (s.loop l).poller.interest fd = some e → s.owned e.ptr = true) : s.closeFds = s := by
  have hloop : s.closeFds.loop = s.loop := by
    funext l
    have hinterest : (fun fd => ((s.loop l).poller.interest fd).filter fun e => s.owned e.ptr) =
        (s.loop l).poller.interest := by
      funext fd
      cases he : (s.loop l).poller.interest fd with
      | none => rfl
      | some e => rw [Option.filter_some, if_pos (h l fd e he)]
    show (s.loop l).forget s.owned = s.loop l
    rw [ServerLoop.forget, EPollPoller.forget, hinterest]
  rw [closeFds] at hloop ⊢
  exact congrArg (fun loop => { s with loop := loop }) hloop

end TcpServer
end Muduo
