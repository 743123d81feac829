import Muduo.EventLoopThread

/-!
# The destructor and the lifetime of the loop

`~EventLoopThread` tests `m_loop` and uses it in a second step, without the mutex under which
`threadFunc` clears it. In between the loop stays alive as long as nobody else has told it to quit: a
loop with a quit request in force can always run to its end and be destroyed.
-/

namespace Muduo
open Lts

namespace EventLoop
variable {T F : Type} [DecidableEq T] {q q' : EventLoop T F} {a : LoopStep T F}

/-- A step of the loop thread in the `loop()` it is in. -/
def OwnStep (a : LoopStep T F) : Prop := a.thread = none ∧ a ≠ .loop

/-- The loop thread can go on, by itself, until `loop()` returns. -/
def Ends (q : EventLoop T F) : Prop :=
  ∃ as t, run step q as = some t ∧ t.At .returned ∧ ∀ a ∈ as, OwnStep a

theorem Ends.cons (hen : q.Enabled a) (ha : OwnStep a) (h : (q.next a).Ends) : q.Ends := by
  obtain ⟨as, t, ht, hret, has⟩ := h
  exact ⟨a :: as, t, run_cons_some.2 ⟨_, step_eq_some.2 ⟨hen, rfl⟩, ht⟩, hret, by simpa using ⟨ha, has⟩⟩

theorem ends_test (hq : q.quit = true) (h : q.At .test) : q.Ends := by
  refine Ends.cons (a := .testQuit) h ⟨rfl, by simp⟩ ⟨[], _, rfl, ⟨?_, h.2⟩, by simp⟩
  show (if q.quit = true then LoopPc.returned else .polling) = .returned
  rw [if_pos hq]

theorem ends_destroying (hq : q.quit = true) (h : q.At .destroying) : q.Ends :=
  Ends.cons (a := .destroyFunctors) h ⟨rfl, by simp⟩ (ends_test hq ⟨rfl, h.2⟩)

/-- The rest of the batch is called, functor after functor. -/
theorem ends_running (hq : q.quit = true) (h : q.At .running) : q.Ends := by
  generalize hfs : q.functors = fs
  induction fs generalizing q with
  | nil =>
    exact Ends.cons (a := .clearCalling) ⟨h, hfs⟩ ⟨rfl, by simp⟩ (ends_destroying hq ⟨rfl, h.2⟩)
  | cons f fs ih =>
    refine Ends.cons (a := .callFunctor) ⟨h, by simp [hfs]⟩ ⟨rfl, by simp⟩ ?_
    refine Ends.cons (a := .functorReturned) ⟨rfl, h.2⟩ ⟨rfl, by simp⟩ (ih hq ⟨rfl, h.2⟩ ?_)
    show q.functors.tail = fs
    rw [hfs]
    rfl

theorem ends_doPending (hq : q.quit = true) (h : q.At .doPending) : q.Ends := by
  refine Ends.cons (a := .setCalling) h ⟨rfl, by simp⟩ ?_
  exact Ends.cons (a := .swap) ⟨rfl, h.2⟩ ⟨rfl, by simp⟩ (ends_running hq ⟨rfl, h.2⟩)

theorem ends_handled (hq : q.quit = true) (h : q.At (.handling false)) : q.Ends :=
  Ends.cons (a := .handled) h ⟨rfl, by simp⟩ (ends_doPending hq ⟨rfl, h.2⟩)

theorem ends_idle (hq : q.quit = true) (hpc : q.pc ≠ .outside) (hidle : q.position none = .idle) :
    q.Ends := by
  cases h : q.pc with
  | outside => exact absurd h hpc
  | test => exact ends_test hq ⟨h, hidle⟩
  | polling =>
    refine Ends.cons (a := .poll false) ⟨⟨h, hidle⟩, by simp⟩ ⟨rfl, by simp⟩ ?_
    exact ends_handled hq ⟨rfl, hidle⟩
  | handling woken =>
    cases woken with
    | true => exact Ends.cons (a := .handleRead) ⟨h, hidle⟩ ⟨rfl, by simp⟩ (ends_handled hq ⟨rfl, hidle⟩)
    | false => exact ends_handled hq ⟨h, hidle⟩
  | doPending => exact ends_doPending hq ⟨h, hidle⟩
  | swapping => exact Ends.cons (a := .swap) ⟨h, hidle⟩ ⟨rfl, by simp⟩ (ends_running hq ⟨rfl, hidle⟩)
  | running => exact ends_running hq ⟨h, hidle⟩
  | inFunctor =>
    exact Ends.cons (a := .functorReturned) ⟨h, hidle⟩ ⟨rfl, by simp⟩ (ends_running hq ⟨rfl, hidle⟩)
  | destroying => exact ends_destroying hq ⟨h, hidle⟩
  | returned => exact ⟨[], q, rfl, ⟨h, hidle⟩, by simp⟩

/-- A loop that was entered and told to quit can return, whatever it is in the middle of. -/
theorem ends_of_quit (hq : q.quit = true) (hpc : q.pc ≠ .outside) : q.Ends := by
  by_cases hidle : q.position none = .idle
  · exact ends_idle hq hpc hidle
  · exact Ends.cons (a := .wakeup none) hidle ⟨rfl, by simp⟩ (ends_idle hq hpc wakeup_self)

theorem ends_of_returned (hpc : q.pc = .returned) : q.Ends := by
  by_cases hidle : q.position none = .idle
  · exact ⟨[], q, rfl, ⟨hpc, hidle⟩, by simp⟩
  · refine Ends.cons (a := .wakeup none) hidle ⟨rfl, by simp⟩ ⟨[], _, rfl, ?_, by simp⟩
    exact ⟨hpc, wakeup_self⟩

/-- No step but a quit request brings a loop to its end. -/
theorem next_goes_on (hq : q.quit = false) (hpc : q.pc ≠ .returned) (ha : ∀ c, a ≠ .quit c) :
    (q.next a).quit = false ∧ (q.next a).pc ≠ .returned := by
  cases a with
  | testQuit =>
    refine ⟨hq, ?_⟩
    show (if q.quit = true then LoopPc.returned else .polling) ≠ .returned
    simp [hq]
  | queueInLoop c f => exact ⟨hq, hpc⟩
  | runInLoop c f =>
    cases c with
    | none => exact ⟨hq, hpc⟩
    | some c => exact ⟨hq, hpc⟩
  | quit c => exact absurd rfl (ha c)
  | wakeup c => exact ⟨hq, hpc⟩
  | loop => exact ⟨rfl, LoopPc.noConfusion⟩
  | _ => exact ⟨hq, LoopPc.noConfusion⟩

theorem next_pc_ne_outside (hpc : q.pc ≠ .outside) : (q.next a).pc ≠ .outside := by
  cases a with
  | testQuit =>
    show (if q.quit = true then LoopPc.returned else .polling) ≠ .outside
    split
    · exact LoopPc.noConfusion
    · exact LoopPc.noConfusion
  | queueInLoop c f => exact hpc
  | runInLoop c f =>
    cases c with
    | none => exact hpc
    | some c => exact hpc
  | quit c => exact hpc
  | wakeup c => exact hpc
  | _ => exact LoopPc.noConfusion

end EventLoop

namespace EventLoopThread
variable {T F : Type} [DecidableEq T] {s t u : EventLoopThread T F} {a : ThreadStep T F}
  {as : List (ThreadStep T F)}

/-- The thread has not left `loop()`, and nothing makes it leave. -/
def Staying (s : EventLoopThread T F) : Prop :=
  s.thread = .published ∨
    s.thread = .looping ∧ s.eventLoop.quit = false ∧ s.eventLoop.pc ≠ .returned

instance (s : EventLoopThread T F) : Decidable s.Staying := by unfold Staying; infer_instance

/-- Nobody but the destructor makes the loop leave: it finds the loop with no quit request in force,
and until its own call there is none of another party on a loop that has been entered. -/
def LeftAlone (s : EventLoopThread T F) : ThreadStep T F → Prop
  | .testLoop => s.published = true → s.Staying
  | .loop (.quit c) => s.owner = .quitting → c = some none ∨ s.thread = .published
  | _ => True

instance (s : EventLoopThread T F) : (a : ThreadStep T F) → Decidable (s.LeftAlone a)
  | .testLoop => inferInstanceAs (Decidable (_ → _))
  | .loop (.quit _) => inferInstanceAs (Decidable (_ → _))
  | .loop .loop | .loop .testQuit | .loop (.poll _) | .loop .handleRead | .loop .handled
  | .loop .setCalling | .loop .swap | .loop .callFunctor | .loop .functorReturned
  | .loop .clearCalling | .loop .destroyFunctors | .loop (.queueInLoop _ _)
  | .loop (.runInLoop _ _) | .loop (.wakeup _) | .startLoop | .construct | .publish | .loopReady
  | .destroy | .leave | .join => .isTrue trivial

/-! ### Every run -/

/-- What holds in every run, whoever quits the loop. -/
structure Wf (s : EventLoopThread T F) : Prop where
  published : s.published = true ↔ s.thread = .published ∨ s.thread = .looping
  entered : s.thread = .looping → s.eventLoop.pc ≠ .outside
  starting : s.thread = .unstarted ∨ s.thread = .constructing ∨ s.thread = .calling →
    s.owner = .idle ∨ s.owner = .starting

theorem Wf.loop {b : LoopStep (Option T) F} (hs : s.Wf) (hp : s.permits b = true) :
    Wf { s with eventLoop := s.eventLoop.next b, owner := s.ownerAfter b,
                thread := s.threadAfter b } := by
  by_cases hb : b = .loop
  · subst hb
    have hth : s.thread = .published := permits_loop hp
    refine ⟨iff_of_true (hs.published.2 (.inl hth)) (.inr rfl), fun _ => LoopPc.noConfusion, ?_⟩
    rintro (h | h | h) <;> cases h
  · have hth : s.threadAfter b = s.thread := threadAfter_eq hb
    refine ⟨by rw [hth]; exact hs.published, fun h => ?_, fun h => ?_⟩
    · have hpc := hs.entered (hth ▸ h)
      exact EventLoop.next_pc_ne_outside hpc
    · rw [hth] at h
      have ho := hs.starting h
      rcases ownerAfter_eq hp with heq | ⟨hq, -⟩ | ⟨hw, -⟩
      · exact heq.symm ▸ ho
      · simp [hq] at ho
      · simp [hw] at ho

theorem Wf.step (hs : s.Wf) (h : s.step a = some t) : t.Wf := by
  cases step_some h with
  | loop hp hen => exact hs.loop hp
  | startLoop ho hth =>
    refine ⟨?_, fun h => ?_, fun _ => .inr rfl⟩
    · rw [hs.published, hth]
      simp
    · cases h
  | construct hth =>
    refine ⟨?_, fun h => ?_, fun _ => hs.starting (.inr (.inl hth))⟩
    · rw [hs.published, hth]
      simp
    · cases h
  | publish hth hat =>
    refine ⟨iff_of_true rfl (.inl rfl), fun h => ?_, fun h => ?_⟩
    · cases h
    · simp at h
  | loopReady ho hpub =>
    refine ⟨hs.published, hs.entered, fun h => ?_⟩
    -- what has been published is past its callback
    change s.thread = .unstarted ∨ s.thread = .constructing ∨ s.thread = .calling at h
    rcases hs.published.1 hpub with hth | hth
    · simp [hth] at h
    · simp [hth] at h
  | destroy ho => exact ⟨hs.published, hs.entered, fun h => absurd (hs.starting h) (by simp [ho])⟩
  | testLoop ho => exact ⟨hs.published, hs.entered, fun h => absurd (hs.starting h) (by simp [ho])⟩
  | leave hth hat =>
    refine ⟨by simp, fun h => ?_, fun h => ?_⟩
    · cases h
    · simp at h
  | join ho hth => exact ⟨hs.published, hs.entered, fun h => absurd (hs.starting h) (by simp [ho])⟩

omit [DecidableEq T] in
theorem wf_new : (new : EventLoopThread T F).Wf := by
  refine ⟨by simp [new], fun h => ?_, fun _ => .inl rfl⟩
  cases h

theorem wf (hr : run step new as = some s) : s.Wf :=
  run_inv (fun _ _ _ h hs => Wf.step hs h) hr wf_new

/-! ### Left alone -/

theorem Staying.loop {b : LoopStep (Option T) F} (hs : s.Staying)
    (hb : ∀ c, b = .quit c → s.thread = .published) :
    Staying { s with eventLoop := s.eventLoop.next b, owner := s.ownerAfter b,
                     thread := s.threadAfter b } := by
  by_cases hl : b = .loop
  · subst hl
    exact .inr ⟨rfl, rfl, LoopPc.noConfusion⟩
  · have hth : s.threadAfter b = s.thread := threadAfter_eq hl
    rcases hs with hpub | ⟨hloop, hq, hpc⟩
    · exact .inl (hth.trans hpub)
    · have hnot : ∀ c, b ≠ .quit c := by
        rintro c rfl
        have := hb c rfl
        rw [hloop] at this; cases this
      exact .inr ⟨hth.trans hloop, EventLoop.next_goes_on hq hpc hnot⟩

/-- The destructor is at its call of `quit()` only while the loop stays. -/
def QuitsStaying (s : EventLoopThread T F) : Prop := s.owner = .quitting → s.Staying

theorem QuitsStaying.step (hi : s.QuitsStaying) (hC : s.LeftAlone a) (h : s.step a = some t) :
    t.QuitsStaying := by
  intro ho
  cases step_some h with
  | @loop b hp hen =>
    change s.ownerAfter b = .quitting at ho
    have hq : s.owner = .quitting := by
      rcases ownerAfter_eq hp with heq | ⟨-, hw⟩ | ⟨-, hj⟩
      · exact heq.symm.trans ho
      · rw [hw] at ho; cases ho
      · rw [hj] at ho; cases ho
    refine Staying.loop (hi hq) ?_
    rintro c rfl
    rcases hC hq with rfl | hpub
    · cases ho
    · exact hpub
  | testLoop hex =>
    refine hC ?_
    by_contra hpub
    simp [hpub] at ho
  | startLoop | loopReady | destroy | join => cases ho
  | construct hth =>
    have := hi ho
    simp [Staying, hth] at this
  | publish hth hat => exact .inl rfl
  | leave hth hat =>
    have := hi ho
    simp [Staying, hth, hat.1] at this

omit [DecidableEq T] in
theorem Wf.live (hs : s.Wf) (h : s.Staying) : s.published = true ∧ s.alive = true := by
  have hth : s.thread = .published ∨ s.thread = .looping := h.imp_right And.left
  refine ⟨hs.published.2 hth, ?_⟩
  rw [alive, decide_eq_true_eq]
  exact .inr hth

/-! ### Not left alone -/

/-- Steps of the loop thread in its loop, taken by `threadFunc`. -/
theorem run_own {bs : List (LoopStep (Option T) F)} {q : EventLoop (Option T) F}
    (hr : run EventLoop.step s.eventLoop bs = some q) (hth : s.thread = .looping)
    (hown : ∀ b ∈ bs, EventLoop.OwnStep b) :
    run step s (bs.map .loop) = some { s with eventLoop := q } := by
  induction bs generalizing s with
  | nil =>
    cases hr
    rfl
  | cons b bs ih =>
    obtain ⟨q', hq', hr⟩ := run_cons_some.1 hr
    obtain ⟨hnone, hl⟩ := hown b List.mem_cons_self
    have hp : s.permits b = true := by
      unfold permits
      split
      · exact absurd rfl hl
      · cases hnone
      · cases hnone
      · rw [hnone]
        simp [hth]
    have howner : s.ownerAfter b = s.owner := by
      unfold ownerAfter
      split
      · cases hnone
      · cases hnone
      · rfl
    have hstep : s.step (.loop b) = some { s with eventLoop := q' } := by
      show (if s.permits b = true then _ else _) = _
      rw [if_pos hp, hq', Option.map_some, howner, threadAfter_eq hl]
    rw [List.map_cons]
    refine run_cons_some.2 ⟨_, hstep, ?_⟩
    exact ih (s := { s with eventLoop := q' }) hr hth fun b hb => hown b (List.mem_cons_of_mem _ hb)

/-- A loop that can return is destroyed while the owner stays where it is. -/
theorem leaves (hth : s.thread = .looping) (h : s.eventLoop.Ends) :
    ∃ bs u, run step s bs = some u ∧ u.owner = s.owner ∧ u.published = false ∧ u.alive = false := by
  obtain ⟨bs, q, hr, hret, hown⟩ := h
  let u := { s with eventLoop := q, thread := .exited, published := false }
  have hleave : step { s with eventLoop := q } .leave = some u := if_pos ⟨hth, hret⟩
  have hrun := run_concat_some.2 ⟨_, run_own hr hth hown, hleave⟩
  exact ⟨bs.map .loop ++ [.leave], u, hrun, rfl, rfl, rfl⟩

/-- A step that does not leave the loop alone can be followed by its destruction, with the destructor
at its call of `quit()`. -/
theorem destroyed_under_quit (hs : s.Wf) (h : s.step a = some t) (hC : ¬ s.LeftAlone a) :
    ∃ bs u, run step t bs = some u ∧ u.owner = .quitting ∧ u.published = false ∧ u.alive = false := by
  cases a with
  | testLoop =>
    obtain ⟨hpub, hstay⟩ := Classical.not_imp.1 hC
    obtain ⟨hne, hl⟩ := not_or.1 hstay
    have hth : s.thread = .looping := (hs.published.1 hpub).resolve_left hne
    have hends : s.eventLoop.Ends := by
      by_cases hret : s.eventLoop.pc = .returned
      · exact EventLoop.ends_of_returned hret
      · refine EventLoop.ends_of_quit ?_ (hs.entered hth)
        by_contra hq
        exact hl ⟨hth, eq_false_of_ne_true hq, hret⟩
    cases step_some h
    rw [if_pos hpub]
    exact leaves (s := { s with owner := .quitting }) hth hends
  | loop b =>
    cases b with
    | quit c =>
      obtain ⟨ho, hc⟩ := Classical.not_imp.1 hC
      obtain ⟨hne, hpub⟩ := not_or.1 hc
      cases step_some h with
      | loop hp hen =>
        have hcalling : s.thread ≠ .calling := by
          intro hth
          have := hs.starting (.inr (.inr hth))
          simp [ho] at this
        have howner : s.ownerAfter (.quit c) = s.owner := by
          match c with
          | none => rfl
          | some none => exact absurd rfl hne
          | some (some d) => rfl
        have hth : s.thread = .looping := by
          match c with
          | none => simpa [permits, LoopStep.thread, hcalling] using hp
          | some none => exact absurd rfl hne
          | some (some d) => simpa [permits, LoopStep.thread, alive, hcalling, hpub] using hp
        rw [howner, ← ho]
        exact leaves hth (EventLoop.ends_of_quit rfl (hs.entered hth))
    | _ => exact absurd trivial hC
  | _ => exact absurd trivial hC

/-- In every run in which the loop is left alone, the destructor calls `quit()` through a pointer that
is not null on a loop that is not destroyed; and a single step that does not leave it alone can be
followed by steps to a call on a destroyed loop. This is about the moment of the call: once `quit()` has
stored `m_quit` the loop can be gone before its `wakeup()`, see `wakeup_on_destroyed`. -/
theorem destructor_touches_live (as : List (ThreadStep T F)) (hr : run step new as = some s) :
    (Along step LeftAlone new as → s.owner = .quitting → s.published = true ∧ s.alive = true) ∧
    ∀ a t, s.step a = some t → ¬ s.LeftAlone a →
      ∃ bs u, run step t bs = some u ∧ u.owner = .quitting ∧ u.published = false ∧ u.alive = false := by
  refine ⟨fun hC ho => ?_, fun a t h hC => destroyed_under_quit (wf hr) h hC⟩
  have h₀ : (new : EventLoopThread T F).QuitsStaying := fun h => by cases h
  have hi : s.QuitsStaying := run_inv_along (fun _ _ _ hC h hi => QuitsStaying.step hi hC h) hC hr h₀
  exact (wf hr).live (hi ho)

/-- Another party's `quit()` that `loop()` overwrites when it is entered. -/
theorem destructor_touches_live_overwritten : ∃ s : EventLoopThread Nat Nat,
    run step new [.startLoop, .construct, .publish, .loopReady, .loop (.quit (some (some 7))),
      .loop (.wakeup (some (some 7))), .loop .loop, .loop .testQuit, .destroy, .testLoop] = some s ∧
    s.published = true ∧ s.alive = true := by
  refine ⟨_, rfl, (destructor_touches_live [.startLoop, .construct, .publish, .loopReady,
    .loop (.quit (some (some 7))), .loop (.wakeup (some (some 7))), .loop .loop, .loop .testQuit,
    .destroy, .testLoop] rfl).1 (by decide) rfl⟩

/-- Another party quits the running loop; the destructor finds `m_loop`; `threadFunc` leaves `loop()`,
clears `m_loop` and destroys the loop; then the destructor calls `quit()`. -/
theorem quit_on_destroyed : ∃ s : EventLoopThread Nat Nat,
    run step new [.startLoop, .construct, .publish, .loopReady, .loop .loop, .loop .testQuit,
      .loop (.quit (some (some 7))), .loop (.wakeup (some (some 7))), .destroy, .testLoop,
      .loop (.poll true), .loop .handleRead, .loop .handled, .loop .setCalling, .loop .swap,
      .loop .clearCalling, .loop .destroyFunctors, .loop .testQuit, .leave] = some s ∧
    s.owner = .quitting ∧ s.published = false ∧ s.alive = false ∧
    (s.step (.loop (.quit (some none)))).isSome = true :=
  ⟨_, rfl, rfl, rfl, rfl, rfl⟩

/-- The destructor has stored `m_quit` and not yet written to the eventfd; the loop is left alone, tests
`m_quit`, and is destroyed. -/
theorem wakeup_on_destroyed : ∃ s : EventLoopThread Nat Nat,
    run step new [.startLoop, .construct, .publish, .loopReady, .loop .loop, .destroy, .testLoop,
      .loop (.quit (some none)), .loop .testQuit, .leave] = some s ∧
    Along step LeftAlone (new : EventLoopThread Nat Nat) [.startLoop, .construct, .publish, .loopReady,
      .loop .loop, .destroy, .testLoop, .loop (.quit (some none)), .loop .testQuit, .leave] ∧
    s.owner = .waking ∧ s.alive = false ∧ (s.step (.loop (.wakeup (some none)))).isSome = true :=
  ⟨_, rfl, by decide, rfl, rfl, rfl⟩

end EventLoopThread
end Muduo
