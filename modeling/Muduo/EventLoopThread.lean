import Muduo.EventLoop

/-!
# `EventLoopThread` (`EventLoopThread.h`, `EventLoopThread.cpp`)

The owner's `startLoop` and destructor against `threadFunc`, with the loop they share. `loop()` stores
`m_quit = false` when it is entered, and `startLoop` has returned by then: a quit request is kept when
it is stored after that, and lost when it is stored before.
-/

namespace Muduo
open Lts

/-- Where `threadFunc` is. -/
inductive ThreadPc
  | unstarted
  | constructing
  /-- In `m_callback(&loop)`. -/
  | calling
  /-- `m_loop` stored, `loop()` not yet entered. -/
  | published
  | looping
  | exited
deriving DecidableEq, Repr

/-- Where the owner is: before `startLoop`, in it, with its loop, or in the destructor. -/
inductive OwnerPc
  | idle
  | starting
  | started
  /-- The destructor has set `m_exiting`. -/
  | exiting
  /-- It has found `m_loop` and calls `quit()`. -/
  | quitting
  /-- In `quit`, `m_quit` stored. -/
  | waking
  | joining
  | destroyed
deriving DecidableEq, Repr

/-- The threads besides the loop's own are the owner, `none`, and those of `T`. -/
structure EventLoopThread (T F : Type) where
  owner : OwnerPc
  thread : ThreadPc
  /-- `m_loop != nullptr` -/
  published : Bool
  exiting : Bool
  eventLoop : EventLoop (Option T) F

inductive ThreadStep (T F : Type)
  /-- `m_thread.start()`. -/
  | startLoop
  | construct
  | publish
  /-- The wait of `startLoop` ends. -/
  | loopReady
  | destroy
  /-- The destructor's test of `m_loop`. -/
  | testLoop
  /-- A step of the loop, of `quit` on it, or of another call. -/
  | loop (a : LoopStep (Option T) F)
  /-- `threadFunc` after `loop()`. -/
  | leave
  | join
deriving DecidableEq, Repr

namespace LoopStep
variable {T F : Type}

/-- The thread that takes a step. -/
def thread : LoopStep T F → Option T
  | .queueInLoop t _ => t
  | .runInLoop t _ => t
  | .quit t => t
  | .wakeup t => t
  | _ => none

end LoopStep

namespace EventLoopThread
variable {T F : Type} [DecidableEq T] {s t s₀ : EventLoopThread T F} {a : ThreadStep T F}
  {as : List (ThreadStep T F)}

def new : EventLoopThread T F := ⟨.idle, .unstarted, false, false, .new⟩

/-- The loop exists. -/
def alive (s : EventLoopThread T F) : Bool :=
  s.thread = .calling ∨ s.thread = .published ∨ s.thread = .looping

/-- Who may take a step of the loop now: the owner calls `quit` in its destructor and nothing else, and
`threadFunc` enters `loop()` once. -/
def permits (s : EventLoopThread T F) : LoopStep (Option T) F → Bool
  | .loop => s.thread = .published
  | .quit (some none) => s.owner = .quitting
  | .wakeup (some none) => s.owner = .waking
  | a => match a.thread with
    | none => s.thread = .calling ∨ s.thread = .looping
    | some none => false
    | some (some _) => s.alive

/-- The owner's place after a step of the loop. -/
def ownerAfter (s : EventLoopThread T F) : LoopStep (Option T) F → OwnerPc
  | .quit (some none) => .waking
  | .wakeup (some none) => .joining
  | _ => s.owner

/-- The place of `threadFunc` after a step of the loop. -/
def threadAfter (s : EventLoopThread T F) : LoopStep (Option T) F → ThreadPc
  | .loop => .looping
  | _ => s.thread

def step (s : EventLoopThread T F) : ThreadStep T F → Option (EventLoopThread T F)
  | .startLoop =>
    if s.owner = .idle ∧ s.thread = .unstarted then
      some { s with owner := .starting, thread := .constructing }
    else none
  | .construct =>
    if s.thread = .constructing then some { s with thread := .calling, eventLoop := .new } else none
  | .publish =>
    if s.thread = .calling ∧ s.eventLoop.At .outside then
      some { s with thread := .published, published := true }
    else none
  | .loopReady =>
    if s.owner = .starting ∧ s.published = true then some { s with owner := .started } else none
  | .destroy =>
    if s.owner = .started then some { s with owner := .exiting, exiting := true } else none
  | .testLoop =>
    if s.owner = .exiting then
      some { s with owner := if s.published = true then .quitting else .destroyed }
    else none
  | .loop a =>
    if s.permits a then
      (s.eventLoop.step a).map fun q =>
        { s with eventLoop := q, owner := s.ownerAfter a, thread := s.threadAfter a }
    else none
  | .leave =>
    if s.thread = .looping ∧ s.eventLoop.At .returned then
      some { s with thread := .exited, published := false }
    else none
  | .join => if s.owner = .joining ∧ s.thread = .exited then some { s with owner := .destroyed } else none

/-- `m_quit` is stored by `quit()` only when `loop()` has been entered. -/
def QuitAfterEntry (s : EventLoopThread T F) : ThreadStep T F → Prop
  | .loop (.quit _) => s.thread = .looping ∨ s.thread = .exited
  | _ => True

instance (s : EventLoopThread T F) : (a : ThreadStep T F) → Decidable (s.QuitAfterEntry a)
  | .loop (.quit _) => inferInstanceAs (Decidable (_ ∨ _))
  | .loop .loop | .loop .testQuit | .loop (.poll _) | .loop .handleRead | .loop .handled
  | .loop .setCalling | .loop .swap | .loop .callFunctor | .loop .functorReturned
  | .loop .clearCalling | .loop .destroyFunctors | .loop (.queueInLoop _ _)
  | .loop (.runInLoop _ _) | .loop (.wakeup _) | .startLoop | .construct | .publish | .loopReady
  | .destroy | .testLoop | .leave | .join => .isTrue trivial

/-- A quit request is stored, with no store of `loop()` still to come. -/
def Quitting (s : EventLoopThread T F) : Prop :=
  (s.thread = .looping ∨ s.thread = .exited) ∧ s.eventLoop.quit = true

theorem next_quit {T : Type} [DecidableEq T] {q : EventLoop T F} {a : LoopStep T F} (ha : a ≠ .loop)
    (hq : q.quit = true) : (q.next a).quit = true := by
  cases a with
  | loop => exact absurd rfl ha
  | runInLoop t f => cases t <;> exact hq
  | quit t => rfl
  | _ => exact hq

/-- A step, with what it needs and what it leaves. -/
inductive Stepped (s : EventLoopThread T F) : ThreadStep T F → EventLoopThread T F → Prop
  | startLoop (ho : s.owner = .idle) (hth : s.thread = .unstarted) :
    Stepped s .startLoop { s with owner := .starting, thread := .constructing }
  | construct (hth : s.thread = .constructing) :
    Stepped s .construct { s with thread := .calling, eventLoop := .new }
  | publish (hth : s.thread = .calling) (hat : s.eventLoop.At .outside) :
    Stepped s .publish { s with thread := .published, published := true }
  | loopReady (ho : s.owner = .starting) (hpub : s.published = true) :
    Stepped s .loopReady { s with owner := .started }
  | destroy (ho : s.owner = .started) :
    Stepped s .destroy { s with owner := .exiting, exiting := true }
  | testLoop (ho : s.owner = .exiting) :
    Stepped s .testLoop { s with owner := if s.published = true then .quitting else .destroyed }
  | loop {b : LoopStep (Option T) F} (hp : s.permits b = true) (hen : s.eventLoop.Enabled b) :
    Stepped s (.loop b)
      { s with eventLoop := s.eventLoop.next b, owner := s.ownerAfter b, thread := s.threadAfter b }
  | leave (hth : s.thread = .looping) (hat : s.eventLoop.At .returned) :
    Stepped s .leave { s with thread := .exited, published := false }
  | join (ho : s.owner = .joining) (hth : s.thread = .exited) :
    Stepped s .join { s with owner := .destroyed }

theorem step_some (h : s.step a = some t) : s.Stepped a t := by
  cases a with
  | loop b =>
    obtain ⟨hp, h⟩ := Option.ite_none_right_eq_some.1 h
    obtain ⟨q, hq, rfl⟩ := Option.map_eq_some_iff.1 h
    obtain ⟨hen, rfl⟩ := EventLoop.step_eq_some.1 hq
    exact .loop hp hen
  | startLoop =>
    obtain ⟨⟨ho, hth⟩, ht⟩ := Option.ite_none_right_eq_some.1 h
    cases ht
    exact .startLoop ho hth
  | construct =>
    obtain ⟨hth, ht⟩ := Option.ite_none_right_eq_some.1 h
    cases ht
    exact .construct hth
  | publish =>
    obtain ⟨⟨hth, hat⟩, ht⟩ := Option.ite_none_right_eq_some.1 h
    cases ht
    exact .publish hth hat
  | loopReady =>
    obtain ⟨⟨ho, hpub⟩, ht⟩ := Option.ite_none_right_eq_some.1 h
    cases ht
    exact .loopReady ho hpub
  | destroy =>
    obtain ⟨ho, ht⟩ := Option.ite_none_right_eq_some.1 h
    cases ht
    exact .destroy ho
  | testLoop =>
    obtain ⟨ho, ht⟩ := Option.ite_none_right_eq_some.1 h
    cases ht
    exact .testLoop ho
  | leave =>
    obtain ⟨⟨hth, hat⟩, ht⟩ := Option.ite_none_right_eq_some.1 h
    cases ht
    exact .leave hth hat
  | join =>
    obtain ⟨⟨ho, hth⟩, ht⟩ := Option.ite_none_right_eq_some.1 h
    cases ht
    exact .join ho hth

omit [DecidableEq T] in
theorem permits_loop (h : s.permits .loop = true) : s.thread = .published := by
  simpa [permits] using h

omit [DecidableEq T] in
theorem threadAfter_eq {b : LoopStep (Option T) F} (hb : b ≠ .loop) : s.threadAfter b = s.thread := by
  cases b with
  | loop => exact absurd rfl hb
  | _ => rfl

omit [DecidableEq T] in
/-- The owner is where it was, or has come from the call it was in. -/
theorem ownerAfter_eq {b : LoopStep (Option T) F} (hp : s.permits b = true) :
    s.ownerAfter b = s.owner ∨ s.owner = .quitting ∧ s.ownerAfter b = .waking ∨
      s.owner = .waking ∧ s.ownerAfter b = .joining := by
  unfold ownerAfter
  split
  · exact .inr (.inl ⟨by simpa [permits] using hp, rfl⟩)
  · exact .inr (.inr ⟨by simpa [permits] using hp, rfl⟩)
  · exact .inl rfl

/-- A step of the loop other than its entry keeps the request. -/
theorem Quitting.loop {a : LoopStep (Option T) F} (hq : s.Quitting) (h : s.step (.loop a) = some t) :
    t.Quitting := by
  cases step_some h with
  | loop hp hen =>
    have ha : a ≠ .loop := by
      rintro rfl
      have hpub := permits_loop hp
      rcases hq.1 with hl | hl
      · rw [hpub] at hl; cases hl
      · rw [hpub] at hl; cases hl
    exact ⟨by rw [threadAfter_eq ha]; exact hq.1, next_quit ha hq.2⟩

theorem Quitting.step (hq : s.Quitting) (h : s.step a = some t) : t.Quitting := by
  have hnot : ∀ {pc : ThreadPc}, s.thread = pc → pc ≠ .looping → pc ≠ .exited → False := by
    intro pc hpc h₁ h₂
    rcases hq.1 with hl | hl
    · exact h₁ (hpc ▸ hl)
    · exact h₂ (hpc ▸ hl)
  cases step_some h with
  | loop hp hen => exact hq.loop h
  | startLoop ho hth => exact (hnot hth (by decide) (by decide)).elim
  | construct hth => exact (hnot hth (by decide) (by decide)).elim
  | publish hth hat => exact (hnot hth (by decide) (by decide)).elim
  | loopReady | destroy | testLoop | join => exact hq
  | leave hth hat => exact ⟨.inr rfl, hq.2⟩

/-- A request stored after `loop()` was entered. -/
theorem quitting_of_quit {c : Option (Option T)} (hC : s.QuitAfterEntry (.loop (.quit c)))
    (h : s.step (.loop (.quit c)) = some t) : t.Quitting := by
  cases step_some h with
  | loop hp hen => exact ⟨hC, rfl⟩

/-- The owner waits for a loop that has been asked to quit. -/
def OwnerQuits (s : EventLoopThread T F) : Prop :=
  s.owner = .waking ∨ s.owner = .joining → s.Quitting

theorem OwnerQuits.step (hi : s.OwnerQuits) (hC : s.QuitAfterEntry a) (h : s.step a = some t) :
    t.OwnerQuits := by
  cases step_some h with
  | @loop b hp hen =>
    by_cases hquit : ∃ c, b = .quit c
    · obtain ⟨c, rfl⟩ := hquit
      exact fun _ => quitting_of_quit hC h
    · intro ho
      refine Quitting.step (hi ?_) h
      -- the owner was there before, or has come from its wakeup
      change s.ownerAfter b = .waking ∨ s.ownerAfter b = .joining at ho
      unfold ownerAfter at ho
      split at ho
      · exact absurd ⟨_, rfl⟩ hquit
      · exact .inl (by simpa [permits] using hp)
      · exact ho
  | startLoop | loopReady | destroy | join => rintro (ho | ho) <;> cases ho
  | testLoop hex =>
    intro ho
    dsimp only at ho
    split at ho
    · rcases ho with ho | ho <;> cases ho
    · rcases ho with ho | ho <;> cases ho
  | construct | publish | leave =>
    intro ho
    exact Quitting.step (hi ho) h

/-- When every quit request is stored after `loop()` was entered, each is seen by every later test of
`m_quit`, and the destructor never joins a loop that goes on. -/
theorem quit_kept (as : List (ThreadStep T F)) (hC : Along step QuitAfterEntry new as)
    (hr : run step new as = some s) :
    ((∃ c, .loop (.quit c) ∈ as) → s.eventLoop.pc = .test → s.eventLoop.quit = true) ∧
      (s.owner = .joining → s.eventLoop.pc ≠ .outside → s.eventLoop.pc ≠ .returned →
        s.eventLoop.quit = true) := by
  constructor
  · rintro ⟨c, hmem⟩ -
    obtain ⟨bs, cs, rfl⟩ := List.append_of_mem hmem
    obtain ⟨u, hu, hr⟩ := run_append_some.1 hr
    obtain ⟨v, hv, hr⟩ := run_cons_some.1 hr
    have hCu := (hC.append.2 u hu).1
    have hq : s.Quitting := run_inv (fun _ _ _ h hq => Quitting.step hq h) hr (quitting_of_quit hCu hv)
    exact hq.2
  · intro ho _ _
    have h₀ : (new : EventLoopThread T F).OwnerQuits := by
      rintro (h | h) <;> cases h
    have hi : s.OwnerQuits := run_inv_along (fun _ _ _ hC h hi => OwnerQuits.step hi hC h) hC hr h₀
    exact (hi (.inr ho)).2

/-- The destructor of a loop that polls. -/
theorem quit_kept_polling : ∃ s : EventLoopThread Nat Nat,
    run step new [.startLoop, .construct, .publish, .loop .loop, .loop .testQuit, .loopReady, .destroy,
      .testLoop, .loop (.quit (some none)), .loop (.wakeup (some none)), .loop (.poll true),
      .loop .handleRead, .loop .handled, .loop .setCalling, .loop .swap, .loop .clearCalling,
      .loop .destroyFunctors] = some s ∧
    s.owner = .joining ∧ s.eventLoop.pc = .test ∧ s.eventLoop.quit = true := by
  refine ⟨_, rfl, rfl, rfl, (quit_kept [.startLoop, .construct, .publish, .loop .loop,
    .loop .testQuit, .loopReady, .destroy, .testLoop, .loop (.quit (some none)),
    .loop (.wakeup (some none)), .loop (.poll true), .loop .handleRead, .loop .handled,
    .loop .setCalling, .loop .swap, .loop .clearCalling, .loop .destroyFunctors]
    (by decide) rfl).1 ⟨some none, by decide⟩ rfl⟩

/-- `startLoop` returns, the destructor stores `m_quit` and joins, and only then the thread enters
`loop()`, which stores `false` over it and polls. -/
theorem quit_lost : ∃ s : EventLoopThread Nat Nat,
    run step new [.startLoop, .construct, .publish, .loopReady, .destroy, .testLoop,
      .loop (.quit (some none)), .loop (.wakeup (some none)), .loop .loop, .loop .testQuit] = some s ∧
    s.owner = .joining ∧ s.eventLoop.pc = .polling ∧ s.eventLoop.quit = false :=
  ⟨_, rfl, rfl, rfl, rfl⟩

end EventLoopThread
end Muduo
