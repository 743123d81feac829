import Muduo.LoopWakeup
import Muduo.ServerParts
import Muduo.Threads

/-!
# Each loop of a server is an `EventLoop`

The server's model leaves out the eventfd, `m_callingPendingFunctors` and the mutex: there a push is one step
with its wakeup, and a batch begins in one step. Seen from one of its loops, every step of the server is a run
of that loop as an `EventLoop`, with the same functors pushed and called in the same order, up to its return
from `loop()` where the server's destructor has told it to quit; so what holds of every run of an `EventLoop`
holds of every loop of a server.
-/

namespace Muduo
open ServerLoop Lts

/-- What happens to the functors of a loop. -/
inductive QueueEvent
  | pushed (j : Job)
  | called (j : Job)
deriving DecidableEq, Repr

namespace QueueEvent

end QueueEvent

/-- Where the thread of a loop is between two steps of the server. -/
def ServerLoop.pc (q : ServerLoop) : LoopPc :=
  match q.phase, q.stack with
  | .polling, _ => if q.ended then .returned else .polling
  | .handling, _ => .handling false
  | .calling, [] => .running
  | .calling, _ :: _ => .inFunctor

/-- The thread of the loop is in a handler or in a functor, so in code that may call the user's. -/
def ServerLoop.InUserCode (q : ServerLoop) : Prop := q.phase = .handling ∨ q.phase = .calling ∧ q.stack ≠ []

instance (q : ServerLoop) : Decidable q.InUserCode := inferInstanceAs (Decidable (_ ∨ _ ∧ _))

theorem ServerLoop.InUserCode.inHandlers {q : ServerLoop} (h : q.InUserCode) :
    EventLoop.inHandlers q.pc = true := by
  rcases h with h | ⟨h, hne⟩
  · simp [ServerLoop.pc, h, EventLoop.inHandlers]
  · cases hst : q.stack with
    | nil => exact absurd hst hne
    | cons j rest => simp [ServerLoop.pc, h, hst, EventLoop.inHandlers]

/-! ### Pushing -/

namespace EventLoop
variable {T : Type} [DecidableEq T] {e e' : EventLoop T Job} {th : Option T} {js : List Job}

def queueEvents (e : EventLoop T Job) (a : LoopStep T Job) : List QueueEvent :=
  (pushed e a).map (fun p => .pushed p.2) ++ (called e a).map fun p => .called p.2

/-- A run of calls as the loop thread makes them from its handlers and functors. -/
abbrev Matches (e : EventLoop T Job) (h : List QueueEvent) (e' : EventLoop T Job) : Prop :=
  Reaches step FromHandlers queueEvents e h e'

theorem matches_next {a : LoopStep T Job} (hen : e.Enabled a) (ha : e.FromHandlers a) :
    Matches e (queueEvents e a) (e.next a) :=
  .single ha (step_eq_some.2 ⟨hen, rfl⟩)

/-- The loop between two calls of any thread, with more functors behind its queue. -/
structure Queued (th : Option T) (js : List Job) (e e' : EventLoop T Job) : Prop where
  position : ∀ u, e'.position u = .idle
  quit : e'.quit = e.quit
  pc : e'.pc = e.pc
  functors : e'.functors = e.functors
  pending : e'.pendingFunctors = e.pendingFunctors ++ js.map (th, ·)

omit [DecidableEq T] in
theorem inUserCode_of_inHandlers {pc : LoopPc} (h : inHandlers pc = true) : inUserCode pc = true := by
  cases pc with
  | handling | inFunctor => rfl
  | outside | test | polling | doPending | swapping | running | destroying | returned => cases h

/-- Thread `th` queues functors, one after the other. -/
theorem matches_push (js : List Job) (hpos : ∀ u, e.position u = .idle)
    (hth : th = none → inHandlers e.pc = true) :
    ∃ e', Matches e (js.map .pushed) e' ∧ Queued th js e e' := by
  induction js generalizing e with
  | nil => exact ⟨e, .refl, hpos, rfl, rfl, rfl, (List.append_nil _).symm⟩
  | cons j js ih =>
    have hpush : Matches e [.pushed j] (e.push th j) := by
      refine matches_next (a := .queueInLoop th j) ⟨hpos th, fun hn => inUserCode_of_inHandlers (hth hn)⟩ ?_
      cases th with
      | none => exact hth rfl
      | some t => trivial
    have hwake : Matches (e.push th j) [] ((e.push th j).next (.wakeup th)) := by
      refine matches_next (a := .wakeup th) ?_ trivial
      show (e.push th j).position th ≠ .idle
      rw [push_self]
      decide
    have hidle : ∀ u, ((e.push th j).next (.wakeup th)).position u = .idle := by
      intro u
      by_cases hu : u = th
      · rw [hu, wakeup_self]
      · rw [wakeup_of_ne hu, push_of_ne hu]
        exact hpos u
    obtain ⟨e', hr, hq⟩ := ih hidle hth
    refine ⟨e', (hpush.trans hwake).trans hr, hq.position, hq.quit, hq.pc, hq.functors, ?_⟩
    rw [hq.pending, List.map_cons, ← List.singleton_append, ← List.append_assoc]
    rfl

end EventLoop

/-! ### What the server's steps do to a loop -/

namespace TcpServer
variable {s t u : TcpServer} {c l l' : Nat} {w : World Nat} {j : Job} {logErrno : Errno → Errno}
  {a : ServerStep} {as : List ServerStep}

/-- The loop has gone on in its phase and its batch, with more functors in its queue. -/
structure Ran (q : ServerLoop) (js : List Job) (q' : ServerLoop) : Prop where
  phase : q'.phase = q.phase
  functors : q'.functors = q.functors
  pending : q'.pendingFunctors = q.pendingFunctors ++ js
  quit : q'.quit = q.quit
  ended : q'.ended = q.ended

theorem ran_rfl {q : ServerLoop} : Ran q [] q := ⟨rfl, rfl, (List.append_nil _).symm, rfl, rfl⟩

theorem ran_setLoop {q : ServerLoop} {js : List Job} (h : Ran (s.loop l) js q) (l' : Nat) :
    ∃ js, Ran (s.loop l') js ((s.setLoop l q).loop l') := by
  rw [loop_setLoop]
  split
  · rename_i hl
    exact ⟨js, hl ▸ h⟩
  · exact ⟨[], ran_rfl⟩

theorem parts_ran : ServerParts fun s t => ∀ l, ∃ js, Ran (s.loop l) js (t.loop l) where
  refl _ _ := ⟨[], ran_rfl⟩
  trans h h' l := by
    obtain ⟨js, hjs⟩ := h l
    obtain ⟨js', hjs'⟩ := h' l
    refine ⟨js ++ js', hjs'.phase.trans hjs.phase, hjs'.functors.trans hjs.functors, ?_,
      hjs'.quit.trans hjs.quit, hjs'.ended.trans hjs.ended⟩
    rw [hjs'.pending, hjs.pending, List.append_assoc]
  enter _ _ _ := ran_setLoop ⟨rfl, rfl, (List.append_nil _).symm, rfl, rfl⟩
  queueInLoop _ _ _ := ran_setLoop ⟨rfl, rfl, rfl, rfl, rfl⟩
  mark _ _ _ _ := ⟨[], ran_rfl⟩
  erase _ _ _ := ⟨[], ran_rfl⟩
  absorb _ _ _ := ran_setLoop ⟨rfl, rfl, rfl, rfl, rfl⟩

/-- A loop that polls is in the middle of nothing, and one that has ended polls no more. -/
structure Idle (s : TcpServer) : Prop where
  stack : ∀ l, (s.loop l).phase = .polling → (s.loop l).stack = []
  ended : ∀ l, (s.loop l).ended = true → (s.loop l).phase = .polling

theorem Idle.goes_on (h : s.Idle) (hp : (s.loop l).phase ≠ .polling) : (s.loop l).ended = false :=
  Bool.eq_false_iff.2 fun he => hp (h.ended l he)

/-- Where `send` and `shutdown` are called on a loop's thread, it is by code that the loop runs. -/
def FromUserCode (s : TcpServer) : ServerStep → Prop
  | .send c _ _ => (s.loop (s.conn c).loop).InUserCode
  | .shutdown c => (s.loop (s.conn c).loop).InUserCode
  | _ => True

instance (s : TcpServer) (a : ServerStep) : Decidable (s.FromUserCode a) :=
  match a with
  | .send c _ _ | .shutdown c => inferInstanceAs (Decidable (s.loop (s.conn c).loop).InUserCode)
  | .poll _ _ | .accept _ | .dispatch _ | .proceed _ _ _ | .swap _ | .call _ | .destroyFunctors _
  | .hold _ | .release _ | .foreignSend _ _ | .foreignShutdown _ | .destroyServer | .quitLoop _ =>
    .isTrue trivial

/-- The steps between two phases of a loop, or two functors of its batch. -/
def Turns (l : Nat) (a : ServerStep) : Prop :=
  (∃ events, a = .poll l events) ∨ a = .swap l ∨ a = .call l ∨ a = .destroyFunctors l

/-- A loop that is not the step's own, and is not told to quit, has at most been given functors. -/
theorem other_queue (hs : Stepped logErrno s a t) (h : s.Sane) (hl : s.threadOf a ≠ some l)
    (hq : a ≠ .quitLoop l) : Fed (s.loop l) (t.loop l) := by
  cases hth : s.threadOf a with
  | none =>
    have hquit : (t.loop l).quit = (s.loop l).quit := by
      by_cases hends : s.Ends a
      · rcases hends with rfl | ⟨m, rfl⟩ | ⟨m, rfl, -⟩
        · cases hs; rfl
        · cases hs
          rw [loop_setLoop, if_neg fun hm => hq (by rw [hm])]
        · cases hth
      · exact (flags_step hs hends).quit l
    have hloop := (foreign_step hs hth).loops l
    rwa [hquit] at hloop
  | some m =>
    have hne : l ≠ m := by
      rintro rfl
      exact hl hth
    by_cases haccept : ∃ fd, a = .accept fd
    · obtain ⟨fd, rfl⟩ := haccept
      cases hth
      cases hs
      exact (local_newConnection s fd).loops l hne
    · exact (moved_step h.confined h.ending hs (fun fd hfd => haccept ⟨fd, hfd⟩) hth).loops l hne

/-- A step of a loop in user code. -/
theorem own_ran (hs : Stepped logErrno s a t) (hi : s.Idle) (hu : s.FromUserCode a)
    (hl : s.threadOf a = some l) (ha : ¬ Turns l a) :
    (s.loop l).InUserCode ∧ ∃ js, Ran (s.loop l) js (t.loop l) := by
  cases hs with
  | poll _ _ _ _ =>
    cases hl
    exact absurd (.inl ⟨_, rfl⟩) ha
  | swap _ _ _ =>
    cases hl
    exact absurd (.inr (.inl rfl)) ha
  | call _ _ _ =>
    cases hl
    exact absurd (.inr (.inr (.inl rfl))) ha
  | destroyFunctors _ _ _ =>
    cases hl
    exact absurd (.inr (.inr (.inr rfl))) ha
  | leave _ _ _ =>
    cases hl
    exact absurd (.inr (.inr (.inr rfl))) ha
  | accept _ hp _ _ _ =>
    cases hl
    exact ⟨.inl hp, parts_ran.enter s 0 _ 0⟩
  | @dispatch l c revents active hp _ _ =>
    cases hl
    obtain ⟨cbs, -, heq⟩ := dispatch_eq s l c revents active
    rw [heq, loop_setLoop, if_pos rfl]
    exact ⟨.inl hp, [], rfl, rfl, (List.append_nil _).symm, rfl, rfl⟩
  | @proceed l r r' j rest _ hst ho =>
    cases hl
    have hne : (s.loop l).stack ≠ [] := by rw [hst]; simp
    have hpop := ran_setLoop (s := s) (q := (s.loop l).pop rest)
      ⟨rfl, rfl, (List.append_nil _).symm, rfl, rfl⟩
    refine ⟨?_, parts_ran.trans hpop (parts_ran.perform ho) l⟩
    cases hp : (s.loop l).phase with
    | polling => exact absurd (hi.stack l hp) hne
    | handling => exact .inl hp
    | calling => exact .inr ⟨hp, hne⟩
  | send _ _ _ _ =>
    cases hl
    exact ⟨hu, parts_ran.absorb s _ _ _⟩
  | shutdown _ _ =>
    cases hl
    exact ⟨hu, parts_ran.absorb s _ _ _⟩
  | hold _ _ => cases hl
  | release _ => cases hl
  | foreignSend _ => cases hl
  | foreignShutdown _ => cases hl
  | destroyServer _ => cases hl
  | quitLoop _ _ _ _ => cases hl

theorem Idle.setLoop {q : ServerLoop} (h : s.Idle) (hstack : q.phase = .polling → q.stack = [])
    (hended : q.ended = true → q.phase = .polling) : (s.setLoop l q).Idle := by
  refine ⟨fun l' hp => ?_, fun l' he => ?_⟩
  · rw [loop_setLoop] at hp ⊢
    split at hp
    · rw [if_pos ‹_›]; exact hstack hp
    · rw [if_neg ‹_›]; exact h.stack l' hp
  · rw [loop_setLoop] at he ⊢
    split at he
    · rw [if_pos ‹_›]; exact hended he
    · rw [if_neg ‹_›]; exact h.ended l' he

/-- Every loop is in user code, or has at most been given functors. -/
theorem Idle.ran (h : s.Idle) (hloop : ∀ l, ((s.loop l).InUserCode ∧ ∃ js, Ran (s.loop l) js (t.loop l)) ∨
    Fed (s.loop l) (t.loop l)) : t.Idle := by
  refine ⟨fun l hp => ?_, fun l he => ?_⟩
  · rcases hloop l with ⟨huser, js, hran⟩ | ⟨js, hjs, -⟩
    · rw [hran.phase] at hp
      rcases huser with hu | ⟨hu, -⟩
      · rw [hu] at hp; cases hp
      · rw [hu] at hp; cases hp
    · rw [hjs] at hp ⊢
      exact h.stack l hp
  · rcases hloop l with ⟨-, js, hran⟩ | ⟨js, hjs, -⟩
    · rw [hran.phase]
      rw [hran.ended] at he
      exact h.ended l he
    · rw [hjs] at he ⊢
      exact h.ended l he

theorem stepped_idle (hs : Stepped logErrno s a t) (hsane : s.Sane) (hi : s.Idle) (hu : s.FromUserCode a) :
    t.Idle := by
  by_cases hturn : ∃ l, Turns l a ∨ a = .quitLoop l
  · obtain ⟨l, (⟨events, rfl⟩ | rfl | rfl | rfl) | rfl⟩ := hturn
    · cases hs with
      | poll _ _ _ _ hended => exact hi.setLoop nofun fun he => absurd (hended.symm.trans he) (by decide)
    · cases hs with
      | swap hp _ _ =>
        have he : (s.loop l).swapped.ended = false := hi.goes_on (by rw [hp]; decide)
        exact hi.setLoop nofun fun h => absurd (he.symm.trans h) (by decide)
    · cases hs with
      | call hp hstack hfun =>
        refine hi.setLoop (fun h => absurd (hp.symm.trans h) (by decide)) fun h => ?_
        exact absurd ((hi.goes_on (by rw [hp]; decide)).symm.trans h) (by decide)
    · cases hs with
      | destroyFunctors _ hstack _ => exact hi.setLoop (fun _ => hstack) fun _ => rfl
      | leave => exact hi.setLoop (fun _ => rfl) fun _ => rfl
    · cases hs
      exact hi.setLoop (hi.stack l) (hi.ended l)
  · refine hi.ran fun l => ?_
    have hnot : ¬ (Turns l a ∨ a = .quitLoop l) := fun h => hturn ⟨l, h⟩
    by_cases hl : s.threadOf a = some l
    · exact .inl (own_ran hs hi hu hl fun h => hnot (.inl h))
    · exact .inr (other_queue hs hsane hl fun h => hnot (.inr h))

theorem step_idle (hs : step logErrno s a = some t) (hsane : s.Sane) (hi : s.Idle)
    (hu : s.FromUserCode a) : t.Idle := by
  obtain ⟨u, hu', rfl⟩ := step_some hs
  have h := stepped_idle hu' hsane hi hu
  exact ⟨h.stack, h.ended⟩

/-! ### The match -/

/-- The functor a step of the server calls out of the batch of loop `l`. -/
def calledBy (l : Nat) (s : TcpServer) : ServerStep → List Job
  | .call m => if m = l then (s.loop l).functors.take 1 else []
  | _ => []

/-- What a step of the server does to the functors of loop `l`. -/
def queueEvents (logErrno : Errno → Errno) (l : Nat) (s : TcpServer) (a : ServerStep) : List QueueEvent :=
  (change (step logErrno) (fun s t => (t.loop l).pendingFunctors.drop (s.loop l).pendingFunctors.length) s
    a).map .pushed ++ (calledBy l s a).map .called

/-- Loop `l` of the server and an `EventLoop`, between two steps of the server. What was queued for a loop that
has ended is gone with it. -/
structure Mirrors (l : Nat) (s : TcpServer) (e : EventLoop (Option Nat) Job) : Prop where
  position : ∀ u, e.position u = .idle
  quit : e.quit = (s.loop l).quit
  pc : e.pc = (s.loop l).pc
  functors : (s.loop l).ended = false → e.functors.map Prod.snd = (s.loop l).functors
  pending : (s.loop l).ended = false → e.pendingFunctors.map Prod.snd = (s.loop l).pendingFunctors

/-- What a step to `t` does to the functors of loop `l`. -/
def stepEvents (l : Nat) (s : TcpServer) (a : ServerStep) (t : TcpServer) : List QueueEvent :=
  ((t.loop l).pendingFunctors.drop (s.loop l).pendingFunctors.length).map .pushed ++ (calledBy l s a).map .called

theorem stepEvents_ran {js : List Job} (hr : Ran (s.loop l) js (t.loop l)) (ha : a ≠ .call l) :
    stepEvents l s a t = js.map .pushed := by
  have hcalled : calledBy l s a = [] := by
    cases a with
    | call m => exact if_neg fun hm => ha (by rw [hm])
    | _ => rfl
  rw [stepEvents, hcalled, hr.pending, List.drop_left]
  exact List.append_nil _

theorem stepEvents_setLoop {q : ServerLoop}
    (hq : q.pendingFunctors.drop (s.loop l).pendingFunctors.length = []) :
    stepEvents l s a (s.setLoop l q) = (calledBy l s a).map .called := by
  rw [stepEvents, loop_setLoop, if_pos rfl, hq]
  rfl

variable {e : EventLoop (Option Nat) Job}

/-- Functors are pushed, and the loop's own function goes on, perhaps to its end. -/
theorem Mirrors.ran {js : List Job} (hm : Mirrors l s e) (th : Option (Option Nat))
    (hr : Ran (s.loop l) js (t.loop l)) (hth : th = none → (s.loop l).InUserCode)
    (hpc : (t.loop l).pc = (s.loop l).pc ∨ (s.loop l).pc = .inFunctor ∧ (t.loop l).pc = .running) :
    ∃ e', EventLoop.Matches e (js.map .pushed) e' ∧ Mirrors l t e' := by
  have hin : th = none → EventLoop.inHandlers e.pc = true := fun hn => by
    rw [hm.pc]
    exact (hth hn).inHandlers
  obtain ⟨e', hmatch, hq⟩ := EventLoop.matches_push js hm.position hin
  have hfun (he : (t.loop l).ended = false) : e'.functors.map Prod.snd = (t.loop l).functors := by
    rw [hq.functors, hm.functors (hr.ended ▸ he), hr.functors]
  have hpend (he : (t.loop l).ended = false) :
      e'.pendingFunctors.map Prod.snd = (t.loop l).pendingFunctors := by
    rw [hq.pending, List.map_append, hm.pending (hr.ended ▸ he), hr.pending, List.map_map]
    exact congrArg _ (List.map_id _)
  have hquit : e'.quit = (t.loop l).quit := by rw [hq.quit, hm.quit, hr.quit]
  rcases hpc with hpc | ⟨hpc, hpc'⟩
  · exact ⟨e', hmatch, hq.position, hquit, by rw [hq.pc, hm.pc, hpc], hfun, hpend⟩
  · -- the last function of a functor returns
    have hat : e'.Enabled .functorReturned := ⟨by rw [hq.pc, hm.pc, hpc], hq.position none⟩
    have hret : EventLoop.Matches e (js.map .pushed ++ []) (e'.next .functorReturned) :=
      hmatch.trans (EventLoop.matches_next hat trivial)
    rw [List.append_nil] at hret
    exact ⟨e'.next .functorReturned, hret, hq.position, hquit, hpc'.symm, hfun, hpend⟩

theorem pc_of_ran {q q' : ServerLoop} {js : List Job} (hr : Ran q js q') (hu : q.InUserCode) :
    q'.pc = q.pc ∨ q.pc = .inFunctor ∧ q'.pc = .running := by
  rcases hu with h | ⟨h, hne⟩
  · left
    simp [ServerLoop.pc, hr.phase, h]
  · have hpc : q.pc = .inFunctor := by
      cases hst : q.stack with
      | nil => exact absurd hst hne
      | cons j rest => simp [ServerLoop.pc, h, hst]
    rw [hpc]
    cases hst : q'.stack with
    | nil => exact .inr ⟨rfl, by simp [ServerLoop.pc, hr.phase, h, hst]⟩
    | cons j rest => exact .inl (by simp [ServerLoop.pc, hr.phase, h, hst])

/-- The loop polls, and reads its eventfd if it was written. -/
theorem Mirrors.poll (hm : Mirrors l s e) (hp : (s.loop l).phase = .polling)
    (hended : (s.loop l).ended = false) (events : List (Nat × EventMask)) :
    ∃ e', EventLoop.Matches e [] e' ∧ Mirrors l (s.setLoop l ((s.loop l).polled events)) e' := by
  have hpc : e.pc = .polling := by
    rw [hm.pc, ServerLoop.pc, hp, hended]
    rfl
  have hmirror (n : Nat) : Mirrors l (s.setLoop l ((s.loop l).polled events))
      { e with pc := .handling false, wakeupFd := n } := by
    refine ⟨hm.position, ?_, ?_, fun _ => ?_, fun _ => ?_⟩ <;> rw [loop_setLoop, if_pos rfl]
    · exact hm.quit
    · rfl
    · exact hm.functors hended
    · exact hm.pending hended
  by_cases hfd : 0 < e.wakeupFd
  · have hpoll : EventLoop.Matches e [] (e.goto (.handling true)) :=
      EventLoop.matches_next (a := .poll true) ⟨⟨hpc, hm.position none⟩, fun _ => hfd⟩ trivial
    have hread : EventLoop.Matches (e.goto (.handling true)) [] { e with pc := .handling false, wakeupFd := 0 } :=
      EventLoop.matches_next (a := .handleRead) ⟨rfl, hm.position none⟩ trivial
    exact ⟨_, hpoll.trans hread, hmirror 0⟩
  · have hpoll : EventLoop.Matches e [] (e.goto (.handling false)) :=
      EventLoop.matches_next (a := .poll false) ⟨⟨hpc, hm.position none⟩, fun h => by cases h⟩ trivial
    exact ⟨_, hpoll, hmirror e.wakeupFd⟩

/-- From the handlers into the batch. -/
theorem Mirrors.swap (hm : Mirrors l s e) (hended : (s.loop l).ended = false)
    (hp : (s.loop l).phase = .handling) (hstack : (s.loop l).stack = []) :
    ∃ e', EventLoop.Matches e [] e' ∧ Mirrors l (s.setLoop l (s.loop l).swapped) e' := by
  have hpc : e.pc = .handling false := by rw [hm.pc, ServerLoop.pc, hp]
  have hhandled := EventLoop.matches_next (a := .handled) ⟨hpc, hm.position none⟩ trivial
  have hset := EventLoop.matches_next (e := e.next .handled) (a := .setCalling) ⟨rfl, hm.position none⟩ trivial
  have hswap := EventLoop.matches_next (e := (e.next .handled).next .setCalling) (a := .swap)
    ⟨rfl, hm.position none⟩ trivial
  refine ⟨_, (hhandled.trans hset).trans hswap, hm.position, ?_, ?_, fun _ => ?_, fun _ => ?_⟩ <;>
    rw [loop_setLoop, if_pos rfl]
  · exact hm.quit
  · simp [ServerLoop.pc, swapped, hstack, EventLoop.next]
  · exact hm.pending hended
  · rfl

/-- The next functor of the batch. -/
theorem Mirrors.call {js : List Job} (hm : Mirrors l s e) (hended : (s.loop l).ended = false)
    (hp : (s.loop l).phase = .calling) (hstack : (s.loop l).stack = [])
    (hfun : (s.loop l).functors = j :: js) :
    ∃ e', EventLoop.Matches e [.called j] e' ∧ Mirrors l (s.setLoop l ((s.loop l).taking j js)) e' := by
  have hpc : e.pc = .running := by rw [hm.pc, ServerLoop.pc, hp, hstack]
  obtain ⟨p, ps, hps, rfl, hrest⟩ : ∃ p ps, e.functors = p :: ps ∧ p.2 = j ∧ ps.map Prod.snd = js := by
    have h := (hm.functors hended).trans hfun
    cases hf : e.functors with
    | nil =>
      rw [hf] at h
      cases h
    | cons p ps =>
      rw [hf, List.map_cons] at h
      exact ⟨p, ps, rfl, List.cons.inj h⟩
  have hcall := EventLoop.matches_next (e := e) (a := .callFunctor) ⟨⟨hpc, hm.position none⟩, by simp [hps]⟩ trivial
  have hev : e.queueEvents .callFunctor = [.called p.2] := by
    simp [EventLoop.queueEvents, EventLoop.pushed, EventLoop.called, hps]
  rw [hev] at hcall
  refine ⟨_, hcall, hm.position, ?_, ?_, fun _ => ?_, fun _ => ?_⟩ <;> rw [loop_setLoop, if_pos rfl]
  · exact hm.quit
  · simp [ServerLoop.pc, taking, hp, EventLoop.next]
  · show e.functors.tail.map Prod.snd = js
    rw [hps]
    exact hrest
  · exact hm.pending hended

/-- The end of the batch, and the test of `m_quit`. -/
theorem Mirrors.destroyFunctors (hm : Mirrors l s e) (hended : (s.loop l).ended = false)
    (hp : (s.loop l).phase = .calling) (hstack : (s.loop l).stack = [])
    (hfun : (s.loop l).functors = []) :
    ∃ e', EventLoop.Matches e [] e' ∧
      Mirrors l (s.setLoop l (if (s.loop l).quit then .exited else (s.loop l).batchDone)) e' := by
  have hpc : e.pc = .running := by rw [hm.pc, ServerLoop.pc, hp, hstack]
  have hnil : e.functors = [] := List.map_eq_nil_iff.1 ((hm.functors hended).trans hfun)
  have hclear := EventLoop.matches_next (a := .clearCalling) ⟨⟨hpc, hm.position none⟩, hnil⟩ trivial
  have hdestroy := EventLoop.matches_next (e := e.next .clearCalling) (a := .destroyFunctors)
    ⟨rfl, hm.position none⟩ trivial
  have htest := EventLoop.matches_next (e := (e.next .clearCalling).next .destroyFunctors) (a := .testQuit)
    ⟨rfl, hm.position none⟩ trivial
  refine ⟨_, (hclear.trans hdestroy).trans htest, hm.position, ?_, ?_, fun he => ?_, fun he => ?_⟩
  · rw [loop_setLoop, if_pos rfl]
    split
    · exact hm.quit.trans ‹_›
    · exact hm.quit
  · rw [loop_setLoop, if_pos rfl]
    show (if e.quit = true then LoopPc.returned else .polling) = _
    rw [hm.quit]
    split
    · rfl
    · show _ = if (s.loop l).ended = true then LoopPc.returned else .polling
      rw [hended]
      rfl
  · rw [loop_setLoop, if_pos rfl] at he ⊢
    split at he
    · cases he
    · rename_i hq
      rw [if_neg hq]
      exact hm.functors hended
  · rw [loop_setLoop, if_pos rfl] at he ⊢
    split at he
    · cases he
    · rename_i hq
      rw [if_neg hq]
      exact hm.pending hended

/-- The thread that destroys the server calls `quit`. -/
theorem Mirrors.quitLoop (hm : Mirrors l s e) :
    ∃ e', EventLoop.Matches e [] e' ∧ Mirrors l (s.setLoop l { s.loop l with quit := true }) e' := by
  have hquit : EventLoop.Matches e [] (e.next (.quit (some none))) :=
    EventLoop.matches_next (a := .quit (some none)) ⟨hm.position _, fun h => by cases h⟩ trivial
  have hstored : (e.moveTo (some none) .quitStored).position (some none) = .quitStored :=
    EventLoop.moveTo_self
  have hwake : EventLoop.Matches (e.next (.quit (some none))) []
      ((e.next (.quit (some none))).next (.wakeup (some none))) := by
    refine EventLoop.matches_next (a := .wakeup (some none)) ?_ trivial
    show (e.moveTo (some none) .quitStored).position (some none) ≠ .idle
    rw [hstored]
    decide
  refine ⟨_, hquit.trans hwake, fun u => ?_, ?_, ?_, fun he => ?_, fun he => ?_⟩
  · by_cases hu : u = some none
    · rw [hu, EventLoop.wakeup_self]
    · rw [EventLoop.wakeup_of_ne hu]
      exact (EventLoop.moveTo_of_ne (s := e) hu).trans (hm.position u)
  · rw [loop_setLoop, if_pos rfl]; rfl
  · rw [loop_setLoop, if_pos rfl]; exact hm.pc
  · rw [loop_setLoop, if_pos rfl] at he ⊢; exact hm.functors he
  · rw [loop_setLoop, if_pos rfl] at he ⊢; exact hm.pending he

theorem Mirrors.stepped (hm : Mirrors l s e) (hs : Stepped logErrno s a t) (hsane : s.Sane) (hi : s.Idle)
    (hu : s.FromUserCode a) :
    ∃ e', EventLoop.Matches e (stepEvents l s a t) e' ∧ Mirrors l t e' := by
  by_cases hquit : a = .quitLoop l
  · subst hquit
    cases hs
    rw [stepEvents_setLoop (q := { s.loop l with quit := true }) (List.drop_length ..)]
    exact hm.quitLoop
  by_cases hl : s.threadOf a = some l
  · by_cases ha : Turns l a
    · rcases ha with ⟨events, rfl⟩ | rfl | rfl | rfl
      · cases hs with
        | poll _ hp _ _ hended =>
          rw [stepEvents_setLoop (q := (s.loop l).polled events) (List.drop_length ..)]
          exact hm.poll hp hended events
      · cases hs with
        | swap hp hstack _ =>
          rw [stepEvents_setLoop (List.drop_nil ..)]
          exact hm.swap (hi.goes_on (by rw [hp]; decide)) hp hstack
      · cases hs with
        | @call l j js hp hstack hfun =>
          rw [stepEvents_setLoop (q := (s.loop l).taking j js) (List.drop_length ..), calledBy, if_pos rfl, hfun]
          exact hm.call (hi.goes_on (by rw [hp]; decide)) hp hstack hfun
      · cases hs with
        | destroyFunctors hp hstack hfun hq =>
          rw [stepEvents_setLoop (q := (s.loop l).batchDone) (List.drop_length ..)]
          have h := hm.destroyFunctors (hi.goes_on (by rw [hp]; decide)) hp hstack hfun
          rwa [hq, if_neg Bool.false_ne_true] at h
        | leave hp hstack hfun hq =>
          rw [stepEvents_setLoop (List.drop_nil ..)]
          have h := hm.destroyFunctors (hi.goes_on (by rw [hp]; decide)) hp hstack hfun
          rwa [hq, if_pos rfl] at h
    · obtain ⟨huser, js, hran⟩ := own_ran hs hi hu hl ha
      rw [stepEvents_ran hran fun h => ha (.inr (.inr (.inl h)))]
      exact hm.ran none hran (fun _ => huser) (pc_of_ran hran huser)
  · obtain ⟨js, hjs, -⟩ := other_queue hs hsane hl hquit
    have hran : Ran (s.loop l) js (t.loop l) := by
      rw [hjs]
      exact ⟨rfl, rfl, rfl, rfl, rfl⟩
    rw [stepEvents_ran hran fun h => hl (by rw [h]; rfl)]
    exact hm.ran (some (s.threadOf a)) hran (fun h => by cases h) (.inl (by rw [hjs]; rfl))

/-- Every step of the server is, for each of its loops, a run of an `EventLoop`. -/
theorem Mirrors.step (hm : Mirrors l s e) (hs : step logErrno s a = some t) (hsane : s.Sane) (hi : s.Idle)
    (hu : s.FromUserCode a) :
    ∃ e', EventLoop.Matches e (queueEvents logErrno l s a) e' ∧ Mirrors l t e' := by
  rw [queueEvents, change_eq hs]
  obtain ⟨u, hu', rfl⟩ := step_some hs
  obtain ⟨e', hmatch, h⟩ := hm.stepped hu' hsane hi hu
  exact ⟨e', hmatch, h.position, h.quit, h.pc, h.functors, h.pending⟩

/-- What a run keeps, of the server and of loop `l`. -/
structure InStep (l : Nat) (s : TcpServer) (e : EventLoop (Option Nat) Job) : Prop where
  sane : s.Sane
  idle : s.Idle
  mirrors : Mirrors l s e

theorem InStep.step (h : InStep l s e) (hs : step logErrno s a = some t) (hu : s.FromUserCode a) :
    ∃ e', EventLoop.Matches e (queueEvents logErrno l s a) e' ∧ InStep l t e' := by
  obtain ⟨e', hmatch, hm⟩ := h.mirrors.step hs h.sane h.idle hu
  exact ⟨e', hmatch, step_sane hs h.sane, step_idle hs h.sane h.idle hu, hm⟩

/-- While a loop that is to go on polls with a functor waiting, its eventfd can be read. -/
theorem Mirrors.woken {es : List (LoopStep (Option Nat) Job)} (hm : Mirrors l t e)
    (hr : run EventLoop.step EventLoop.new es = some e)
    (hfrom : Along EventLoop.step EventLoop.FromHandlers .new es) (hended : (t.loop l).ended = false)
    (hp : (t.loop l).phase = .polling) (hne : (t.loop l).pendingFunctors ≠ []) : 0 < e.wakeupFd := by
  have h₀ : (EventLoop.new : EventLoop (Option Nat) Job).WakeInv :=
    ⟨(fun h => by cases h), fun _ _ => rfl, fun _ hne => absurd rfl hne⟩
  have hwake : e.WakeInv := by
    refine run_inv_along (fun u a v ha hv hu => ?_) hfrom hr h₀
    obtain ⟨hen, rfl⟩ := EventLoop.step_eq_some.1 hv
    exact hu.next hen ha
  have hpc : e.pc = .polling := by
    rw [hm.pc, ServerLoop.pc, hp, hended]
    rfl
  have hpend : e.pendingFunctors ≠ [] := by
    intro hnil
    apply hne
    rw [← hm.pending hended, hnil, List.map_nil]
  rcases hwake.due (by rw [hpc]; rfl) hpend with hfd | ⟨hf, -⟩
  · rcases hfd with hfd | ⟨th, hth⟩
    · exact hfd
    · rw [hm.position] at hth
      cases hth
  · rw [hpc] at hf
    cases hf

end TcpServer
end Muduo
