import Muduo.PoolLoops

/-!
# Whether `EventLoopThreadPool::start` returns

For each thread `startLoop` waits until it sees `m_loop` set. `threadFunc` stores `m_loop` before it enters
`loop()` and clears it again after, with one `notify_one` in between. So `start` returns as long as the thread
it waits for is at work, however it and the other threads are interleaved; a loop that has been left before
`startLoop` has looked is waited for in vain.
-/

namespace Muduo
open Lts

namespace EventLoopThread
variable {T F : Type} [DecidableEq T] {s t : EventLoopThread T F} {a : ThreadStep T F}

/-- Up to `m_callback` the loop has not been entered. -/
def Unentered (s : EventLoopThread T F) : Prop := s.thread = .calling → s.eventLoop.pc = .outside

theorem Unentered.step (h : s.Unentered) (ht : s.step a = some t) : t.Unentered := by
  intro hth
  cases step_some ht with
  | startLoop => cases hth
  | construct => rfl
  | publish => cases hth
  | leave => cases hth
  | loopReady | destroy | testLoop | join => exact h hth
  | @loop b hp hen =>
    by_cases hb : b = .loop
    · subst hb
      cases hth
    · have hpc : s.eventLoop.pc = .outside := h ((threadAfter_eq hb).symm.trans hth)
      have away {pc : LoopPc} (hat : s.eventLoop.At pc) (hne : pc ≠ .outside) : False :=
        hne (hat.1.symm.trans hpc)
      show (s.eventLoop.next b).pc = .outside
      cases b with
      | loop => exact absurd rfl hb
      | queueInLoop | quit | wakeup => exact hpc
      | runInLoop th f => cases th <;> exact hpc
      | poll | callFunctor | clearCalling => exact (away hen.1 (by simp)).elim
      | testQuit | handleRead | handled | setCalling | swap | functorReturned | destroyFunctors =>
        exact (away hen (by simp)).elim

theorem step_ne_unstarted (hth : s.thread ≠ .unstarted) (ht : s.step a = some t) : t.thread ≠ .unstarted := by
  cases step_some ht with
  | startLoop | construct | publish | leave => exact ThreadPc.noConfusion
  | loopReady | destroy | testLoop | join => exact hth
  | @loop b hp hen =>
    by_cases hb : b = .loop
    · subst hb
      exact ThreadPc.noConfusion
    · show s.threadAfter b ≠ .unstarted
      rw [threadAfter_eq hb]
      exact hth

/-- Nobody has called `quit` on the loop of the thread. -/
structure Unasked (s : EventLoopThread T F) : Prop where
  quit : s.eventLoop.quit = false
  pc : s.eventLoop.pc ≠ .returned
  thread : s.thread ≠ .exited

omit [DecidableEq T] in
theorem Unasked.new : (new : EventLoopThread T F).Unasked := ⟨rfl, LoopPc.noConfusion, ThreadPc.noConfusion⟩

omit [DecidableEq T] in
/-- A thread that has published its loop and has not been asked to leave it. -/
theorem Unasked.alive (h : s.Unasked) (hann : announced s.thread = true) : s.alive = true := by
  have hth := h.thread
  revert hann hth
  unfold announced EventLoopThread.alive
  cases s.thread <;> simp

theorem Unasked.step (h : s.Unasked) (ha : ∀ th, a ≠ .loop (.quit th)) (ht : s.step a = some t) :
    t.Unasked := by
  cases step_some ht with
  | startLoop => exact ⟨h.quit, h.pc, ThreadPc.noConfusion⟩
  | construct => exact ⟨rfl, LoopPc.noConfusion, ThreadPc.noConfusion⟩
  | publish => exact ⟨h.quit, h.pc, ThreadPc.noConfusion⟩
  | leave _ hat => exact absurd hat.1 h.pc
  | loopReady | destroy | testLoop | join => exact ⟨h.quit, h.pc, h.thread⟩
  | @loop b hp hen =>
    have hthread : s.threadAfter b ≠ .exited := by
      by_cases hb : b = .loop
      · subst hb
        exact ThreadPc.noConfusion
      · rw [threadAfter_eq hb]
        exact h.thread
    refine ⟨?_, ?_, hthread⟩
    · show (s.eventLoop.next b).quit = false
      cases b with
      | quit th => exact absurd rfl (ha th)
      | loop => rfl
      | runInLoop th f => cases th <;> exact h.quit
      | _ => exact h.quit
    · show (s.eventLoop.next b).pc ≠ .returned
      cases b with
      | quit th => exact absurd rfl (ha th)
      | testQuit =>
        -- `m_quit` is false, so the loop goes on
        rw [EventLoop.next, h.quit]
        exact LoopPc.noConfusion
      | queueInLoop | wakeup => exact h.pc
      | runInLoop th f => cases th <;> exact h.pc
      | _ => exact LoopPc.noConfusion

/-- How far a thread is from having published its loop, with a call of `m_callback` on its loop to finish. -/
def toPublish (s : EventLoopThread T F) : Nat :=
  match s.thread with
  | .unstarted => 3
  | .constructing => 3
  | .calling => if s.eventLoop.position none = .idle then 2 else 3
  | .published => 1
  | .looping => 1
  | .exited => 1

omit [DecidableEq T] in
theorem toPublish_le (s : EventLoopThread T F) : s.toPublish ≤ 3 := by
  unfold toPublish
  split
  · decide
  · decide
  · split <;> decide
  · decide
  · decide
  · decide

omit [DecidableEq T] in
theorem toPublish_pos (s : EventLoopThread T F) : 0 < s.toPublish := by
  unfold toPublish
  split
  · decide
  · decide
  · split <;> decide
  · decide
  · decide
  · decide

theorem construct_closer (ht : s.step .construct = some t) :
    t.toPublish < s.toPublish ∧ t.thread ≠ .exited := by
  cases step_some ht with
  | construct hth =>
    refine ⟨?_, ThreadPc.noConfusion⟩
    simp [toPublish, hth, EventLoop.new]

theorem publish_closer (ht : s.step .publish = some t) :
    t.toPublish < s.toPublish ∧ t.thread ≠ .exited := by
  cases step_some ht with
  | publish hth hat =>
    refine ⟨?_, ThreadPc.noConfusion⟩
    simp [toPublish, hth, hat.2]

theorem wakeup_closer (hth : s.thread = .calling) (ht : s.step (.loop (.wakeup none)) = some t) :
    t.toPublish < s.toPublish ∧ t.thread ≠ .exited := by
  cases step_some ht with
  | loop hp hen =>
    have hidle : (s.eventLoop.next (.wakeup none)).position none = .idle := EventLoop.wakeup_self
    have hbusy : s.eventLoop.position none ≠ .idle := hen
    refine ⟨?_, ?_⟩
    · simp [toPublish, threadAfter, hth, hidle, hbusy]
    · show s.thread ≠ .exited
      rw [hth]
      exact ThreadPc.noConfusion

/-- A thread at work publishes its loop, or does what comes before. -/
theorem publishes (hu : s.Unentered) (hne : s.thread ≠ .unstarted) (hann : announced s.thread = false) :
    (∃ t, s.step .construct = some t) ∨ (∃ t, s.step .publish = some t) ∨
      s.thread = .calling ∧ ∃ t, s.step (.loop (.wakeup none)) = some t := by
  cases hth : s.thread with
  | unstarted => exact absurd hth hne
  | published | looping | exited => rw [hth] at hann; cases hann
  | constructing => exact .inl ⟨_, if_pos hth⟩
  | calling =>
    by_cases hidle : s.eventLoop.position none = .idle
    · exact .inr (.inl ⟨_, if_pos ⟨hth, hu hth, hidle⟩⟩)
    · refine .inr (.inr ⟨rfl, ?_⟩)
      have hp : s.permits (.wakeup none) = true := by simp [permits, LoopStep.thread, hth]
      have hen : s.eventLoop.Enabled (.wakeup none) := hidle
      exact ⟨_, by rw [EventLoopThread.step, if_pos hp, EventLoop.step, if_pos hen]; rfl⟩

end EventLoopThread

namespace EventLoopThreadPool
open EventLoopThread
variable {T F : Type} {p q : EventLoopThreadPool T F} {i l : Nat}

/-- The thread that `start` waits for has left its loop and cleared `m_loop`. -/
def Stuck (p : EventLoopThreadPool T F) : Prop := ∃ i, p.startPc = .waiting i ∧ (p.thread i).thread = .exited

/-- The steps of `start`, and of the thread that it waits for. -/
def Starts (p : EventLoopThreadPool T F) : PoolStep T F → Prop
  | .newThread => True
  | .startLoopReturns => True
  | .startReturns => True
  | .thread i .construct => p.startPc = .waiting i
  | .thread i .publish => p.startPc = .waiting i
  | .thread i (.loop (.wakeup none)) => p.startPc = .waiting i ∧ (p.thread i).thread = .calling
  | _ => False

/-- How much there is left to do before `start` returns. -/
def toStart (p : EventLoopThreadPool T F) : Nat :=
  match p.startPc with
  | .idle => 0
  | .creating i => 4 * (p.size - i) + 1
  | .waiting i => 4 * (p.size - (i + 1)) + 1 + (p.thread i).toPublish
  | .returned => 0

/-- The thread that `start` waits for has been started. -/
structure Handshake (p : EventLoopThreadPool T F) : Prop where
  waiting : ∀ i, p.startPc = .waiting i → (p.thread i).owner = .starting ∧ (p.thread i).thread ≠ .unstarted
  unentered : ∀ i, (p.thread i).Unentered

theorem thread_setThread_self {t : EventLoopThread T F} : (p.setThread i t).thread i = t :=
  Function.update_self ..

theorem thread_setThread_of_ne {j : Nat} {t : EventLoopThread T F} (hj : j ≠ i) :
    (p.setThread i t).thread j = p.thread j := Function.update_of_ne hj ..

section
variable [DecidableEq T] {a : PoolStep T F} {as bs : List (PoolStep T F)}

omit [DecidableEq T] in
theorem Handshake.away (hw : ∀ i, p.startPc ≠ .waiting i) (hu : ∀ i, (p.thread i).Unentered) : p.Handshake :=
  ⟨fun i hi => absurd hi (hw i), hu⟩

theorem Handshake.step (h : p.Handshake) (hi : p.Inv) (hq : p.step a = some q) : q.Handshake := by
  cases step_some hq with
  | setThreadNum hpc => exact ⟨h.waiting, h.unentered⟩
  | start hpc =>
    unfold start
    split
    · exact .away (fun i => StartPc.noConfusion) h.unentered
    · exact .away (fun i => StartPc.noConfusion) h.unentered
  | @newThread i t hpc hlt ht =>
    have hnew : (EventLoopThread.new : EventLoopThread T F).Unentered := fun hth => by cases hth
    refine ⟨fun j hw => ?_, forall_setThread (P := fun _ t => t.Unentered) h.unentered (hnew.step ht)⟩
    cases hw
    show ((p.setThread i t).thread i).owner = _ ∧ ((p.setThread i t).thread i).thread ≠ _
    rw [thread_setThread_self]
    cases ht
    exact ⟨rfl, ThreadPc.noConfusion⟩
  | @startLoopReturns i t hpc ht =>
    exact .away (fun j => StartPc.noConfusion)
      (forall_setThread (P := fun _ t => t.Unentered) h.unentered ((h.unentered i).step ht))
  | startReturns hpc hlt => exact .away (fun j => StartPc.noConfusion) h.unentered
  | @thread i b t hlt hb ht =>
    refine ⟨fun j hw => ?_, forall_setThread (P := fun _ t => t.Unentered) h.unentered
      ((h.unentered i).step ht)⟩
    obtain ⟨ho, hth⟩ := h.waiting j hw
    show ((p.setThread i t).thread j).owner = _ ∧ ((p.setThread i t).thread j).thread ≠ _
    by_cases hj : j = i
    · subst hj
      rw [thread_setThread_self]
      exact ⟨(step_owner ht hb).trans ho, step_ne_unstarted hth ht⟩
    · rw [thread_setThread_of_ne hj]
      exact ⟨ho, hth⟩
  | getNextLoop hpc hok =>
    obtain ⟨-, rfl⟩ := getNextLoop_ok hi hok
    exact ⟨h.waiting, h.unentered⟩

/-! ### Waiting in vain -/

/-- `start` is running, and not in vain. -/
structure Going (p : EventLoopThreadPool T F) : Prop where
  inv : p.Inv
  handshake : p.Handshake
  called : p.startPc ≠ .idle
  free : ¬ p.Stuck

/-- A step of the thread that `start` waits for. -/
theorem Going.thread {b : ThreadStep T F} (h : p.Going) (hw : p.startPc = .waiting i)
    (hq : p.step (.thread i b) = some q) (hlt : (q.thread i).toPublish < (p.thread i).toPublish)
    (hne : (q.thread i).thread ≠ .exited) : q.Going ∧ q.toStart < p.toStart := by
  have hpc : q.startPc = .waiting i ∧ q.size = p.size := by
    cases step_some hq with
    | thread => exact ⟨hw, rfl⟩
  refine ⟨⟨h.inv.step hq, h.handshake.step h.inv hq, by rw [hpc.1]; simp, ?_⟩, ?_⟩
  · rintro ⟨j, hj, hth⟩
    cases hpc.1.symm.trans hj
    exact hne hth
  · rw [toStart, toStart, hpc.1, hw, hpc.2]
    dsimp only
    omega

theorem step_thread {b : ThreadStep T F} (hq : p.step (.thread i b) = some q) :
    (p.thread i).step b = some (q.thread i) := by
  cases step_some hq with
  | thread hlt hb ht =>
    show _ = some ((p.setThread i _).thread i)
    rw [thread_setThread_self]
    exact ht

theorem Going.step (h : p.Going) (ha : p.Starts a) (hq : p.step a = some q) : q.Going ∧ q.toStart < p.toStart := by
  have keep (hne : q.startPc ≠ .idle) (hfree : ∀ i, q.startPc = .waiting i → (q.thread i).thread ≠ .exited) :
      q.Going :=
    ⟨h.inv.step hq, h.handshake.step h.inv hq, hne, fun ⟨i, hi, hth⟩ => hfree i hi hth⟩
  cases a with
  | setThreadNum n => exact ha.elim
  | start cb => exact ha.elim
  | getNextLoop => exact ha.elim
  | newThread =>
    cases step_some hq with
    | @newThread i t hpc hlt ht =>
      have hself : (p.setThread i t).thread i = t := thread_setThread_self
      have hnew : t.thread = .constructing := by
        cases ht
        rfl
      refine ⟨keep StartPc.noConfusion fun j hj => ?_, ?_⟩
      · cases hj
        show ((p.setThread i t).thread i).thread ≠ _
        rw [hself, hnew]
        exact ThreadPc.noConfusion
      · have hi : i < p.size := by
          unfold size
          omega
        have hle := toPublish_le t
        rw [toStart, toStart, hpc]
        show 4 * (p.size - (i + 1)) + 1 + ((p.setThread i t).thread i).toPublish < 4 * (p.size - i) + 1
        rw [hself]
        omega
  | startLoopReturns =>
    cases step_some hq with
    | @startLoopReturns i t hpc ht =>
      refine ⟨keep StartPc.noConfusion (fun j hj => by cases hj), ?_⟩
      have hpos := toPublish_pos (p.thread i)
      rw [toStart, toStart, hpc]
      show 4 * (p.size - (i + 1)) + 1 < 4 * (p.size - (i + 1)) + 1 + (p.thread i).toPublish
      omega
  | startReturns =>
    cases step_some hq with
    | startReturns hpc hlt =>
      refine ⟨keep StartPc.noConfusion (fun j hj => by cases hj), ?_⟩
      rw [toStart, toStart, hpc]
      exact Nat.succ_pos _
  | thread i b =>
    have ht := step_thread hq
    cases b with
    | construct =>
      obtain ⟨hlt, hne⟩ := construct_closer ht
      exact h.thread ha hq hlt hne
    | publish =>
      obtain ⟨hlt, hne⟩ := publish_closer ht
      exact h.thread ha hq hlt hne
    | loop c =>
      cases c with
      | wakeup th =>
        cases th with
        | none =>
          obtain ⟨hlt, hne⟩ := wakeup_closer ha.2 ht
          exact h.thread ha.1 hq hlt hne
        | some c => exact ha.elim
      | _ => exact ha.elim
    | _ => exact ha.elim

theorem step_of_thread {b : ThreadStep T F} {t : EventLoopThread T F} (hi : i < p.created) (hb : b.owners = false)
    (ht : (p.thread i).step b = some t) : ∃ q, p.step (.thread i b) = some q :=
  ⟨_, by rw [EventLoopThreadPool.step, if_pos ⟨hi, hb⟩, ht]; rfl⟩

/-- Until it returns there is a step of `start`, or of the thread that it waits for. -/
theorem Going.goes_on (h : p.Going) : p.startPc = .returned ∨ ∃ a q, p.Starts a ∧ p.step a = some q := by
  have hp := h.inv.progress
  unfold Progress at hp
  split at hp
  · rename_i hpc
    exact absurd hpc h.called
  · rename_i i hpc
    right
    by_cases hi : (i : Int) < p.numThreads.toInt
    · obtain ⟨q, hq⟩ : ∃ q, p.step .newThread = some q := by
        simp only [EventLoopThreadPool.step, hpc, if_pos hi]
        exact ⟨_, rfl⟩
      exact ⟨.newThread, q, trivial, hq⟩
    · obtain ⟨q, hq⟩ : ∃ q, p.step .startReturns = some q := by
        simp only [EventLoopThreadPool.step, hpc, if_neg hi]
        exact ⟨_, rfl⟩
      exact ⟨.startReturns, q, trivial, hq⟩
  · rename_i i hpc
    right
    have hlt : i < p.created := by omega
    obtain ⟨ho, hne⟩ := h.handshake.waiting i hpc
    cases hann : announced (p.thread i).thread with
    | true =>
      -- it has published its loop and not left it
      have hpub : (p.thread i).published = true := by
        refine (h.inv.wf i).published.2 ?_
        cases hth : (p.thread i).thread with
        | published => exact .inl rfl
        | looping => exact .inr rfl
        | exited => exact (h.free ⟨i, hpc, hth⟩).elim
        | unstarted | constructing | calling => rw [hth] at hann; cases hann
      obtain ⟨q, hq⟩ : ∃ q, p.step .startLoopReturns = some q := by
        simp only [EventLoopThreadPool.step, hpc, EventLoopThread.step, if_pos (And.intro ho hpub)]
        exact ⟨_, rfl⟩
      exact ⟨.startLoopReturns, q, trivial, hq⟩
    | false =>
      rcases publishes (h.handshake.unentered i) hne hann with ⟨t, ht⟩ | ⟨t, ht⟩ | ⟨hth, t, ht⟩
      · obtain ⟨q, hq⟩ := step_of_thread hlt rfl ht
        exact ⟨.thread i .construct, q, hpc, hq⟩
      · obtain ⟨q, hq⟩ := step_of_thread hlt rfl ht
        exact ⟨.thread i .publish, q, hpc, hq⟩
      · obtain ⟨q, hq⟩ := step_of_thread hlt rfl ht
        exact ⟨.thread i (.loop (.wakeup none)), q, ⟨hpc, hth⟩, hq⟩
  · rename_i hpc
    exact .inl hpc

/-! ### Loops that nobody asks to quit -/

omit [DecidableEq T] in
theorem setThread_unasked {j : Nat} {t : EventLoopThread T F} (h : (p.thread i).Unasked)
    (ht : i = j → t.Unasked) : ((p.setThread j t).thread i).Unasked := by
  by_cases hi : i = j
  · subst hi
    rw [thread_setThread_self]
    exact ht rfl
  · rw [thread_setThread_of_ne hi]
    exact h

omit [DecidableEq T] in
theorem getNextLoop_unasked (h : (p.thread i).Unasked) (hq : p.getNextLoop = .ok (l, q)) :
    (q.thread i).Unasked := by
  rw [getNextLoop] at hq
  split at hq
  · cases hq
    exact h
  · split at hq
    · cases hq
      exact h
    · cases hq

theorem step_unasked (h : (p.thread i).Unasked) (ha : ∀ th, a ≠ .thread i (.loop (.quit th)))
    (hq : p.step a = some q) : (q.thread i).Unasked := by
  cases step_some hq with
  | setThreadNum | startReturns => exact h
  | start =>
    unfold start
    split <;> exact h
  | newThread _ _ ht => exact setThread_unasked h fun _ => Unasked.new.step (by simp) ht
  | startLoopReturns _ ht =>
    refine setThread_unasked h fun hi => ?_
    subst hi
    exact h.step (by simp) ht
  | thread _ _ ht =>
    refine setThread_unasked h fun hi => ?_
    subst hi
    exact h.step (fun th hb => ha th (congrArg _ hb)) ht
  | getNextLoop _ hok => exact getNextLoop_unasked h hok

end

end EventLoopThreadPool
end Muduo
