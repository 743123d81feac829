import Muduo.ConnFrame
import Muduo.TcpServer

/-!
# The server's invariant

A connection goes through its stages in order, and at every stage that is not its own to leave there
is exactly one job, in one loop, that takes it to the next. `Inv` says so for every connection at
once, beside what each loop and each poller looks like; `touch` reduces its preservation to the one
connection a step is about.
-/

namespace Muduo
open EPollPoller

/-- Where a connection is between `newConnection` and the end of `connectDestroyed`. -/
inductive Stage
  | absent
  | creating
  | queued
  | opened
  | closing
  | removing
  | erased
  | leaving
  | destroyed
deriving DecidableEq, Repr

namespace Job

/-- The jobs that take a connection to its next stage. -/
def lifecycle : Job → Bool
  | .handleEvent _ _ => false
  | .userCallback _ => false
  | .sendInLoop _ _ => false
  | .shutdownInLoop _ => false
  | _ => true

def isEvent : Job → Bool
  | .handleEvent _ _ => true
  | _ => false

end Job

def Mark.lifecycle : Mark → Bool
  | .handler _ => false
  | _ => true

/-- What a loop has to do with one connection. -/
structure View where
  lifecycle : List Job
  active : List (Nat × EventMask)
  events : List Job

/-- The callbacks that may close the connection. -/
def closers (cbs : List Callback) : List Callback :=
  cbs.filter fun cb => cb = .close ∨ cb = .read

namespace ServerLoop
variable {q : ServerLoop} {c : Nat} {j : Job}

def view (q : ServerLoop) (c : Nat) : View where
  lifecycle := q.jobs.filter fun j => j.lifecycle && j.conn == c
  active := q.active.filter fun e => e.1 == c
  events := q.stack.filter fun j => j.isEvent && j.conn == c

/-- What each phase of the loop allows. -/
structure Shape (q : ServerLoop) : Prop where
  polling : q.phase = .polling → q.stack = [] ∧ q.functors = [] ∧ q.active = []
  handling : q.phase = .handling → q.functors = []
  calling : q.phase = .calling → q.active = [] ∧ ∀ j ∈ q.stack, j.isEvent = false
  leaving : ∀ c, .connectDestroyed c ∈ q.stack → q.phase = .calling ∧ .connectDestroyed c ∈ q.called
  batch : ∀ j ∈ q.functors ++ q.pendingFunctors, j.isEvent = false
  owns : ∀ j ∈ q.jobs, j.owns = true
  ended : q.ended = true → q.phase = .polling

theorem mem_jobs_stack (h : j ∈ q.stack) : j ∈ q.jobs := by simp [jobs, h]

/-- What a loop is in the middle of keeps its connection alive. -/
theorem Shape.stack_owns {rest : List Job} (h : q.Shape) (hst : q.stack = j :: rest) :
    j.owns = true :=
  h.owns j (mem_jobs_stack (by rw [hst]; exact List.mem_cons_self))

theorem mem_jobs_functors (h : j ∈ q.functors) : j ∈ q.jobs := by simp [jobs, h]

theorem mem_jobs_pending (h : j ∈ q.pendingFunctors) : j ∈ q.jobs := by simp [jobs, h]

/-- The loop with the job in hand. -/
def pop (q : ServerLoop) (st : List Job) : ServerLoop := { q with stack := st }

/-- The loop inside another function. -/
def push (q : ServerLoop) (j : Job) : ServerLoop := { q with stack := j :: q.stack }

/-- The loop with more functors in its queue. -/
def queue (q : ServerLoop) (js : List Job) : ServerLoop :=
  { q with pendingFunctors := q.pendingFunctors ++ js }

theorem view_push : (q.push j).view c =
    { q.view c with
      lifecycle := [j].filter (fun j => j.lifecycle && j.conn == c) ++ (q.view c).lifecycle
      events := [j].filter (fun j => j.isEvent && j.conn == c) ++ (q.view c).events } := by
  simp only [view, push, jobs, ← List.filter_append]
  rfl

theorem view_queue {js : List Job} : (q.queue js).view c =
    { q.view c with
      lifecycle := (q.view c).lifecycle ++ js.filter fun j => j.lifecycle && j.conn == c } := by
  simp only [view, queue, jobs, ← List.filter_append, List.append_assoc]

theorem view_pop {st : List Job} (h : q.stack = j :: st) : q.view c =
    { (q.pop st).view c with
      lifecycle := [j].filter (fun j => j.lifecycle && j.conn == c) ++ ((q.pop st).view c).lifecycle
      events := [j].filter (fun j => j.isEvent && j.conn == c) ++ ((q.pop st).view c).events } := by
  have hq : q = (q.pop st).push j := by rw [pop, push, ← h]
  conv_lhs => rw [hq, view_push]

theorem Shape.not_polling {st : List Job} (h : q.Shape) (hst : q.stack = j :: st) :
    q.phase ≠ .polling := by
  intro hp
  rw [(h.polling hp).1] at hst
  cases hst

theorem Shape.pop {st : List Job} (h : q.Shape) (hst : q.stack = j :: st) : (q.pop st).Shape where
  polling hp := absurd hp (h.not_polling hst)
  handling hp := h.handling hp
  calling hp := ⟨(h.calling hp).1, fun i hi => (h.calling hp).2 i (by simp [hst, show i ∈ st from hi])⟩
  leaving c hc := h.leaving c (by simp [hst, show _ ∈ st from hc])
  batch := h.batch
  owns i hi := h.owns i <| by
    simp only [ServerLoop.pop, jobs, List.mem_append, hst, List.mem_cons] at hi ⊢
    tauto
  ended := h.ended

/-- A job that any function may be in the middle of, or that may be queued. -/
def Ordinary (j : Job) : Prop :=
  j.isEvent = false ∧ j.owns = true ∧ ∀ c, j ≠ .connectDestroyed c

theorem Shape.push (h : q.Shape) (hp : q.phase ≠ .polling) (hj : Ordinary j) : (q.push j).Shape where
  polling hp' := absurd hp' hp
  handling := h.handling
  calling hc := by
    refine ⟨(h.calling hc).1, fun i hi => ?_⟩
    rcases List.mem_cons.1 hi with rfl | hi
    · exact hj.1
    · exact (h.calling hc).2 i hi
  leaving c hc := by
    rcases List.mem_cons.1 hc with hc | hc
    · exact absurd hc.symm (hj.2.2 c)
    · exact h.leaving c hc
  batch := h.batch
  owns i hi := by
    rcases List.mem_cons.1 hi with rfl | hi
    · exact hj.2.1
    · exact h.owns i hi
  ended := h.ended

theorem Shape.queue {js : List Job} (h : q.Shape)
    (hjs : ∀ j ∈ js, j.isEvent = false ∧ j.owns = true) : (q.queue js).Shape where
  polling := h.polling
  handling := h.handling
  calling := h.calling
  leaving := h.leaving
  batch i hi := by
    rw [ServerLoop.queue, ← List.append_assoc] at hi
    rcases List.mem_append.1 hi with hi | hi
    · exact h.batch i hi
    · exact (hjs i hi).1
  owns i hi := by
    rw [ServerLoop.queue, jobs, ← List.append_assoc] at hi
    rcases List.mem_append.1 hi with hi | hi
    · exact h.owns i hi
    · exact (hjs i hi).2
  ended := h.ended

/-- The poller is not part of the shape. -/
theorem Shape.poller {p : EPollPoller Nat} (h : q.Shape) : ({ q with poller := p } : ServerLoop).Shape :=
  ⟨h.polling, h.handling, h.calling, h.leaving, h.batch, h.owns, h.ended⟩

end ServerLoop

namespace Stage

/-- The job that takes the connection `c` of loop `io` to its next stage, if it is loop `l`'s. -/
def due (g : Stage) (c io l : Nat) : List Job :=
  match g with
  | .creating => if l = 0 then [.establish c] else []
  | .queued => if l = io then [.connectEstablished c] else []
  | .closing => if l = io then [.removeConnection c] else []
  | .removing => if l = 0 then [.removeConnectionInLoop c] else []
  | .erased => if l = 0 then [.queueDestroyed c] else []
  | .leaving => if l = io then [.connectDestroyed c] else []
  | _ => []

/-- What has happened to the connection by then. -/
def marks : Stage → List Mark
  | .absent => []
  | .creating => []
  | .queued => []
  | .opened => [.established]
  | .closing => [.established, .closed]
  | .removing => [.established, .closed]
  | .erased => [.established, .closed, .erased]
  | .leaving => [.established, .closed, .erased]
  | .destroyed => [.established, .closed, .erased, .destroyed]

/-- The map has an entry for the connection. -/
def Mapped (g : Stage) : Prop := g ∈ [creating, queued, opened, closing, removing]

/-- From the constructor to the end of `connectDestroyed`. -/
def Live (g : Stage) : Prop := g ≠ absent ∧ g ≠ destroyed

instance (g : Stage) : Decidable g.Mapped := by unfold Mapped; infer_instance

instance (g : Stage) : Decidable g.Live := by unfold Live; infer_instance

/-- The connection's handler may have these callbacks still to make. -/
def Handling (g : Stage) (cbs : List Callback) : Prop :=
  g = opened ∧ (closers cbs).length ≤ 1 ∨
    g ∈ [closing, removing, erased, leaving] ∧ closers cbs = []

/-- Closed, and to stay so. -/
structure Ended (w : World Nat) : Prop where
  wf : w.Wf
  state : w.conn.state = .disconnected
  idle : w.conn.channel.isWriting = false
  unregistered : w.conn.channel.status ≠ .added

def Holds (g : Stage) (w : World Nat) : Prop :=
  match g with
  | .absent => True
  | .creating => w.Constructed
  | .queued => w.Constructed
  | .opened => w.Flowing ∧ (w.conn.state = .connected ∨ w.conn.state = .disconnecting)
  | .closing => Ended w
  | .removing => Ended w
  | .erased => Ended w
  | .leaving => Ended w
  | .destroyed => w.conn.state = .disconnected

end Stage

namespace Stage
variable {g : Stage} {w w' : World Nat}

/-- `Holds` looks at the poller through the connection's fd. -/
theorem Holds.congr (h : g.Holds w) (hconn : w'.conn = w.conn) (hptr : w'.ptr = w.ptr)
    (htr : w'.trace = w.trace) (hl : g.Live → w'.poller.interest w.conn.channel.fd =
      w.poller.interest w.conn.channel.fd) : g.Holds w' := by
  obtain ⟨conn, ptr, poller, trace⟩ := w'
  cases hconn; cases hptr; cases htr
  have wf : g.Live → w.Wf → World.Wf ⟨w.conn, w.ptr, poller, w.trace⟩ :=
    fun hg hw => ⟨hw.out, hw.inp, hw.synced.congr (hl hg)⟩
  have constructed : g.Live → w.Constructed → World.Constructed ⟨w.conn, w.ptr, poller, w.trace⟩ :=
    fun hg hw => { hw with absent := (hl hg).trans hw.absent }
  have ended : g.Live → Ended w → Ended ⟨w.conn, w.ptr, poller, w.trace⟩ :=
    fun hg hw => { hw with wf := wf hg hw.wf }
  cases g with
  | absent => trivial
  | creating => exact constructed (by decide) h
  | queued => exact constructed (by decide) h
  | opened => exact ⟨h.1.congr (wf (by decide) h.1.wf) rfl rfl, h.2⟩
  | closing => exact ended (by decide) h
  | removing => exact ended (by decide) h
  | erased => exact ended (by decide) h
  | leaving => exact ended (by decide) h
  | destroyed => exact h

/-- A connection's entry in its poller is its own, and it has one only while it is open. -/
theorem Holds.entry {e : EpollEvent Nat} (h : g.Holds w) (hl : g.Live)
    (he : w.poller.interest w.conn.channel.fd = some e) : g = .opened ∧ e.ptr = w.ptr := by
  have ended : Ended w → False := fun hw => by
    rw [hw.wf.synced.absent hw.unregistered] at he; cases he
  have constructed : w.Constructed → False := fun hw => by rw [hw.absent] at he; cases he
  cases g with
  | absent => exact absurd rfl hl.1
  | creating => exact (constructed h).elim
  | queued => exact (constructed h).elim
  | opened =>
    rw [h.1.wf.synced.added h.1.status] at he
    cases he
    exact ⟨rfl, rfl⟩
  | closing => exact (ended h).elim
  | removing => exact (ended h).elim
  | erased => exact (ended h).elim
  | leaving => exact (ended h).elim
  | destroyed => exact absurd rfl hl.2

/-- The trace does not count. -/
theorem Holds.forget (h : g.Holds w) (hg : g ≠ .creating ∧ g ≠ .queued) :
    g.Holds { w with trace := [] } := by
  have wf : w.Wf → World.Wf { w with trace := [] } := fun hw => ⟨hw.out, hw.inp, hw.synced⟩
  have ended : Ended w → Ended { w with trace := [] } := fun hw => { hw with wf := wf hw.wf }
  cases g with
  | absent => trivial
  | creating => exact absurd rfl hg.1
  | queued => exact absurd rfl hg.2
  | opened => exact ⟨h.1.congr (wf h.1.wf) rfl rfl, h.2⟩
  | closing => exact ended h
  | removing => exact ended h
  | erased => exact ended h
  | leaving => exact ended h
  | destroyed => exact h

theorem closers_cons (cb : Callback) (cbs : List Callback) : closers (cb :: cbs) =
    if cb = .close ∨ cb = .read then cb :: closers cbs else closers cbs := by
  simp [closers, List.filter_cons]

theorem Handling.tail {cb : Callback} {cbs : List Callback} (h : g.Handling (cb :: cbs)) :
    g.Handling cbs := by
  rw [Handling, closers_cons] at h
  rcases h with ⟨hg, hle⟩ | ⟨hg, hnil⟩
  · refine .inl ⟨hg, ?_⟩
    split at hle
    · rw [List.length_cons] at hle; omega
    · exact hle
  · refine .inr ⟨hg, ?_⟩
    split at hnil
    · cases hnil
    · exact hnil

/-- Only an open connection is closed, and after that there is nothing to close it again. -/
theorem Handling.closer {cb : Callback} {cbs : List Callback} (h : g.Handling (cb :: cbs))
    (hcb : cb = .close ∨ cb = .read) : g = opened ∧ closers cbs = [] := by
  rw [Handling, closers_cons, if_pos hcb] at h
  rcases h with ⟨hg, hle⟩ | ⟨-, hnil⟩
  · rw [List.length_cons] at hle
    exact ⟨hg, List.length_eq_zero_iff.1 (by omega)⟩
  · cases hnil

theorem Handling.marks {cbs : List Callback} (h : g.Handling cbs) :
    .established ∈ g.marks ∧ .destroyed ∉ g.marks := by
  rcases h with ⟨rfl, -⟩ | ⟨hg, -⟩
  · decide
  · revert hg
    cases g <;> decide

end Stage

/-- Every handler ran between `connectEstablished` and `connectDestroyed`. -/
def Handled (log : List Mark) : Prop :=
  ∀ pre cb post, log = pre ++ .handler cb :: post → .established ∈ pre ∧ .destroyed ∉ pre

theorem handled_nil : Handled [] := by
  intro pre cb post h
  simp at h

theorem Handled.concat {log : List Mark} {m : Mark} (h : Handled log)
    (hm : ∀ cb, m = .handler cb → .established ∈ log ∧ .destroyed ∉ log) : Handled (log ++ [m]) := by
  intro pre cb post heq
  rcases List.eq_nil_or_concat post with rfl | ⟨post, m', rfl⟩
  · obtain ⟨rfl, hcb⟩ := List.append_inj' heq rfl
    exact hm cb (List.singleton_inj.1 hcb)
  · rw [List.concat_eq_append, ← List.cons_append, ← List.append_assoc] at heq
    exact h pre cb post (List.append_inj' heq rfl).1

/-- The kernel never reports `EPOLLHUP` with `EPOLLPRI` but without `EPOLLIN`. -/
def Plain (revents : EventMask) : Prop :=
  ¬ (revents &&& EPOLLHUP ≠ 0 ∧ revents &&& EPOLLPRI ≠ 0 ∧ revents &&& EPOLLIN = 0)

instance (revents : EventMask) : Decidable (Plain revents) := by unfold Plain; infer_instance

/-- What loop `l` has to do with the connection `c` of loop `io`. -/
structure Placed (g : Stage) (c io l : Nat) (v : View) : Prop where
  lifecycle : v.lifecycle = g.due c io l
  active : v.active = [] ∨
    l = io ∧ g = .opened ∧ ∃ revents, Plain revents ∧ v.active = [(c, revents)]
  events : v.events = [] ∨
    l = io ∧ v.active = [] ∧ ∃ cbs, g.Handling cbs ∧ v.events = [.handleEvent c cbs]

namespace TcpServer
variable {s t u : TcpServer} {c : Nat} {st : Nat → Stage} {g : Stage}

structure ConnOk (g : Stage) (s : TcpServer) (c : Nat) : Prop where
  loop_le : (s.conn c).loop ≤ s.numThreads
  closeCallback : (s.conn c).tcp.closeCallback = true
  holds : g.Holds (s.world c)
  marks : (s.conn c).log.filter Mark.lifecycle = g.marks
  handled : Handled (s.conn c).log

structure Inv (st : Nat → Stage) (s : TcpServer) : Prop where
  next : s.numThreads = 0 ∨ s.next < s.numThreads
  shape : ∀ l, (s.loop l).Shape
  placed : ∀ c l, Placed (st c) c (s.conn c).loop l ((s.loop l).view c)
  conns : ∀ c, st c ≠ .absent → s.ConnOk (st c) c
  absent : ∀ c, st c = .absent ↔ s.accepted ≤ c
  entries : ∀ l fd e, (s.loop l).poller.interest fd = some e →
    st e.ptr = .opened ∧ (s.conn e.ptr).loop = l ∧ (s.conn e.ptr).tcp.channel.fd = fd
  calls : ∀ l, (s.loop l).poller.CallsOk
  fds : ∀ c c', (st c).Live → (st c').Live →
    (s.conn c).tcp.channel.fd = (s.conn c').tcp.channel.fd → c = c'
  connections : ∀ n c, s.connections n = some c ↔ (st c).Mapped ∧ (s.conn c).name = n

theorem ConnOk.congr (h : s.ConnOk g c) (hn : t.numThreads = s.numThreads)
    (hc : t.conn c = s.conn c) (hp : ∀ l, (t.loop l).poller = (s.loop l).poller) : t.ConnOk g c where
  loop_le := by rw [hc, hn]; exact h.loop_le
  closeCallback := by rw [hc]; exact h.closeCallback
  holds := by rw [world, hc, hp]; exact h.holds
  marks := by rw [hc]; exact h.marks
  handled := by rw [hc]; exact h.handled

/-! ### What a step is about -/

/-- Nothing but the connection `c`, and what is to be done with it, differs. -/
structure Touched (s : TcpServer) (c : Nat) (t : TcpServer) : Prop where
  numThreads : t.numThreads = s.numThreads
  next : t.next = s.next
  accepted : t.accepted = s.accepted
  others : ∀ c', c' ≠ c → t.conn c' = s.conn c'
  name : (t.conn c).name = (s.conn c).name
  loop : (t.conn c).loop = (s.conn c).loop
  fd : (t.conn c).tcp.channel.fd = (s.conn c).tcp.channel.fd
  pollers : ∀ l, l ≠ (s.conn c).loop → (t.loop l).poller = (s.loop l).poller
  frame : Frame (s.loop (s.conn c).loop).poller (s.conn c).tcp.channel.fd
    (t.loop (s.conn c).loop).poller
  views : ∀ c', c' ≠ c → ∀ l, (t.loop l).view c' = (s.loop l).view c'
  ended : ∀ l, (t.loop l).ended = (s.loop l).ended

theorem Touched.trans (h : Touched s c t) (h' : Touched t c u) : Touched s c u where
  numThreads := h'.numThreads.trans h.numThreads
  next := h'.next.trans h.next
  accepted := h'.accepted.trans h.accepted
  others c' hne := (h'.others c' hne).trans (h.others c' hne)
  name := h'.name.trans h.name
  loop := h'.loop.trans h.loop
  fd := h'.fd.trans h.fd
  pollers l hl := (h'.pollers l (h.loop ▸ hl)).trans (h.pollers l hl)
  frame := h.frame.trans (h.loop ▸ h.fd ▸ h'.frame)
  views c' hne l := (h'.views c' hne l).trans (h.views c' hne l)
  ended l := (h'.ended l).trans (h.ended l)

theorem Touched.names (h : Touched s c t) (c' : Nat) : (t.conn c').name = (s.conn c').name := by
  by_cases hc : c' = c
  · rw [hc, h.name]
  · rw [h.others c' hc]

theorem Inv.other (h : Inv st s) (ht : Touched s c t) (hlive : (st c).Live) {c' : Nat}
    (hne : c' ≠ c) (hc : st c' ≠ .absent) : t.ConnOk (st c') c' := by
  have hok := h.conns c' hc
  have hconn := ht.others c' hne
  refine ⟨?_, ?_, ?_, ?_, ?_⟩
  · rw [hconn, ht.numThreads]; exact hok.loop_le
  · rw [hconn]; exact hok.closeCallback
  · refine hok.holds.congr (by rw [world, hconn]; rfl) rfl rfl fun hl => ?_
    show (t.loop (t.conn c').loop).poller.interest _ = (s.loop (s.conn c').loop).poller.interest _
    rw [hconn]
    by_cases hloop : (s.conn c').loop = (s.conn c).loop
    · rw [hloop]
      refine ht.frame.interest _ fun hfd => hne ?_
      exact h.fds c' c hl hlive hfd
    · rw [ht.pollers _ hloop]
  · rw [hconn]; exact hok.marks
  · rw [hconn]; exact hok.handled

theorem Inv.touch (h : Inv st s) (ht : Touched s c t) (hlive : (st c).Live) (hg : g ≠ .absent)
    (hshape : ∀ l, (t.loop l).Shape)
    (hplaced : ∀ l, Placed g c (s.conn c).loop l ((t.loop l).view c)) (hok : t.ConnOk g c)
    (hent : ∀ e, (t.loop (s.conn c).loop).poller.interest (s.conn c).tcp.channel.fd = some e →
      g = .opened ∧ e.ptr = c)
    (hmap : ∀ n c', t.connections n = some c' ↔
      (Function.update st c g c').Mapped ∧ (s.conn c').name = n) :
    Inv (Function.update st c g) t where
  next := by rw [ht.numThreads, ht.next]; exact h.next
  shape := hshape
  placed c' l := by
    by_cases hc : c' = c
    · rw [hc, Function.update_self, ht.loop]; exact hplaced l
    · rw [Function.update_of_ne hc, ht.others c' hc, ht.views c' hc]
      exact h.placed c' l
  conns c' hc' := by
    by_cases hc : c' = c
    · rw [hc, Function.update_self]; exact hok
    · rw [Function.update_of_ne hc] at hc' ⊢
      exact h.other ht hlive hc hc'
  absent c' := by
    rw [ht.accepted, ← h.absent]
    by_cases hc : c' = c
    · rw [hc, Function.update_self]
      exact ⟨fun h' => absurd h' hg, fun h' => absurd h' hlive.1⟩
    · rw [Function.update_of_ne hc]
  entries l fd e he := by
    by_cases hown : l = (s.conn c).loop ∧ fd = (s.conn c).tcp.channel.fd
    · obtain ⟨rfl, rfl⟩ := hown
      obtain ⟨hop, hptr⟩ := hent e he
      rw [hptr, Function.update_self]
      exact ⟨hop, ht.loop, ht.fd⟩
    · have hold : (s.loop l).poller.interest fd = some e := by
        by_cases hl : l = (s.conn c).loop
        · rw [← he, hl]
          exact (ht.frame.interest fd fun hfd => hown ⟨hl, hfd⟩).symm
        · rw [← he, ht.pollers l hl]
      obtain ⟨hop, hloop, hfd⟩ := h.entries l fd e hold
      have hne : e.ptr ≠ c := fun hp => hown ⟨hp ▸ hloop.symm, hp ▸ hfd.symm⟩
      rw [Function.update_of_ne hne, ht.others _ hne]
      exact ⟨hop, hloop, hfd⟩
  calls l := by
    by_cases hl : l = (s.conn c).loop
    · rw [hl]; exact ht.frame.calls (h.calls _)
    · rw [ht.pollers l hl]; exact h.calls l
  fds c₁ c₂ h₁ h₂ heq := by
    have live : ∀ c', (Function.update st c g c').Live → (st c').Live := by
      intro c' hl
      by_cases hc : c' = c
      · rw [hc]; exact hlive
      · rwa [Function.update_of_ne hc] at hl
    have fd : ∀ c', (t.conn c').tcp.channel.fd = (s.conn c').tcp.channel.fd := by
      intro c'
      by_cases hc : c' = c
      · rw [hc]; exact ht.fd
      · rw [ht.others c' hc]
    rw [fd, fd] at heq
    exact h.fds c₁ c₂ (live c₁ h₁) (live c₂ h₂) heq
  connections n c' := by rw [ht.names]; exact hmap n c'

theorem Inv.connections_update (h : Inv st s) (ht : t.connections = s.connections)
    (hg : g.Mapped ↔ (st c).Mapped) (n : String) (c' : Nat) :
    t.connections n = some c' ↔ (Function.update st c g c').Mapped ∧ (s.conn c').name = n := by
  rw [ht, h.connections]
  by_cases hc : c' = c
  · rw [hc, Function.update_self, hg]
  · rw [Function.update_of_ne hc]

/-- `touch` for a step that leaves the connection alive and the map as it is. -/
theorem Inv.move (h : Inv st s) (ht : Touched s c t) (hlive : (st c).Live) (hg : g.Live)
    (hshape : ∀ l, (t.loop l).Shape)
    (hplaced : ∀ l, Placed g c (s.conn c).loop l ((t.loop l).view c)) (hok : t.ConnOk g c)
    (hconn : t.connections = s.connections) (hm : g.Mapped ↔ (st c).Mapped) :
    Inv (Function.update st c g) t := by
  refine h.touch ht hlive hg.1 hshape hplaced hok (fun e he => ?_) (h.connections_update hconn hm)
  refine hok.holds.entry hg ?_
  show (t.loop (t.conn c).loop).poller.interest (t.conn c).tcp.channel.fd = some e
  rw [ht.loop, ht.fd]
  exact he

theorem loop_setLoop (s : TcpServer) (l : Nat) (q : ServerLoop) (l' : Nat) :
    (s.setLoop l q).loop l' = if l' = l then q else s.loop l' := Function.update_apply ..

theorem shape_setLoop {l : Nat} {q : ServerLoop} (h : ∀ l, (s.loop l).Shape) (hq : q.Shape) (l' : Nat) :
    ((s.setLoop l q).loop l').Shape := by
  rw [loop_setLoop]
  split
  · exact hq
  · exact h l'

theorem poller_setLoop {l : Nat} {q : ServerLoop} (hp : q.poller = (s.loop l).poller) (l' : Nat) :
    ((s.setLoop l q).loop l').poller = (s.loop l').poller := by
  rw [loop_setLoop]
  split
  · rename_i hl; rw [hp, hl]
  · rfl

/-- A loop that only moves its jobs about. -/
theorem Inv.setLoop {l : Nat} {q : ServerLoop} (h : Inv st s) (hp : q.poller = (s.loop l).poller)
    (hq : q.Shape) (hv : ∀ c, Placed (st c) c (s.conn c).loop l (q.view c)) :
    Inv st (s.setLoop l q) where
  next := h.next
  shape := shape_setLoop h.shape hq
  placed c l' := by
    rw [loop_setLoop]
    split
    · rename_i hl; rw [hl]; exact hv c
    · exact h.placed c l'
  conns c hc := (h.conns c hc).congr rfl rfl (poller_setLoop hp)
  absent := h.absent
  entries l' fd e he := by
    rw [poller_setLoop hp] at he
    exact h.entries l' fd e he
  calls l' := by rw [poller_setLoop hp]; exact h.calls l'
  fds := h.fds
  connections := h.connections

end TcpServer
end Muduo
