import Muduo.LoopQueue

/-!
# No lost wakeup

The loop thread does not write the eventfd for what it queues inside its handlers, because the swap
is still ahead of it then. Everywhere else something pending means that the counter is positive or
that its producer has still to write, and the counter is only reset before the swap.
-/

namespace Muduo
open Lts
namespace EventLoop
variable {T F : Type} [DecidableEq T] {s s₀ : EventLoop T F} {a : LoopStep T F}
  {as : List (LoopStep T F)}

theorem eventfdWrite_pos (n : Nat) : 0 < eventfdWrite n := by
  unfold eventfdWrite eventfdMax
  split <;> omega

/-- The counter is positive, or another thread is where `P` says it is about to write it. -/
def Due (P : Position → Prop) (s : EventLoop T F) : Prop :=
  0 < s.wakeupFd ∨ ∃ c : T, P (s.position (some c))

/-- The counter is positive, or another thread is about to write it for a functor. -/
def WakeDue (s : EventLoop T F) : Prop :=
  0 < s.wakeupFd ∨ ∃ c : T, s.position (some c) = .pushed

/-- The swap is behind the loop thread, not ahead of it. -/
def swapped : LoopPc → Bool
  | .handling _ => false
  | .doPending => false
  | .swapping => false
  | _ => true

/-- Between the two stores of `m_callingPendingFunctors`. -/
def batching : LoopPc → Bool
  | .swapping => true
  | .running => true
  | .inFunctor => true
  | _ => false

structure WakeInv (s : EventLoop T F) : Prop where
  calling : batching s.pc = true → s.callingPendingFunctors = true
  batch : s.BatchDone
  due : swapped s.pc = true → s.pendingFunctors ≠ [] →
    s.WakeDue ∨ s.pc = .inFunctor ∧ s.position none = .pushed

/-- While the swap is behind the loop thread, what is pending has its wakeup on the way, or the loop
thread writes for it from inside a functor. -/
def DueAhead (P : Position → Prop) (s : EventLoop T F) : Prop :=
  swapped s.pc = true → s.pendingFunctors ≠ [] →
    s.Due P ∨ s.pc = .inFunctor ∧ s.position none = .pushed

section
variable {P : Position → Prop}

omit [DecidableEq T] in
theorem DueAhead.due_at {pc : LoopPc} (h : s.DueAhead P) (hat : s.At pc) (hpc : swapped pc = true)
    (hne : s.pendingFunctors ≠ []) : s.Due P := by
  rcases h (hat.1 ▸ hpc) hne with hd | ⟨-, hp⟩
  · exact hd
  · rw [hat.2] at hp; cases hp

theorem due_push (hP : P .pushed) (c : T) (f : F) : (s.push (some c) f).Due P := by
  refine .inr ⟨c, ?_⟩
  rwa [push_self]

/-- A call begun by a thread that was idle takes no wakeup away. -/
theorem Due.moveTo {p : Position} {c : Option T} (hidle : ¬ P .idle) (h : s.Due P)
    (hc : s.position c = .idle) : (s.moveTo c p).Due P := by
  rcases h with h | ⟨d, hd⟩
  · exact .inl h
  · refine .inr ⟨d, ?_⟩
    have hne : some d ≠ c := by
      rintro rfl
      exact hidle (hc ▸ hd)
    rwa [moveTo_of_ne hne]

theorem wakeup_pos {c : Option T} (hw : s.wakes c = true) : 0 < (s.next (.wakeup c)).wakeupFd := by
  show 0 < if s.wakes c = true then _ else _
  rw [if_pos hw]
  exact eventfdWrite_pos _

omit [DecidableEq T] in
/-- Another thread ends its call with a write. -/
theorem wakes_some {c : T} (h : s.position (some c) ≠ .idle) : s.wakes (some c) = true := by
  unfold wakes
  cases hp : s.position (some c) with
  | idle => exact absurd hp h
  | pushed => rfl
  | quitStored => rfl

/-- The second half of a call of any thread. -/
theorem Due.wakeup {c : Option T} (hidle : ¬ P .idle) (h : s.Due P) : (s.next (.wakeup c)).Due P := by
  by_cases hw : s.wakes c = true
  · exact .inl (wakeup_pos hw)
  · have hfd : (s.next (.wakeup c)).wakeupFd = s.wakeupFd := if_neg hw
    rcases h with h | ⟨d, hd⟩
    · exact .inl (hfd.symm ▸ h)
    · refine .inr ⟨d, ?_⟩
      have hne : some d ≠ c := by
        rintro rfl
        exact hw (wakes_some fun hi => hidle (hi ▸ hd))
      rwa [wakeup_of_ne hne]

end

def inHandlers : LoopPc → Bool
  | .handling _ => true
  | .inFunctor => true
  | _ => false

/-- The loop thread calls `queueInLoop` from handlers and running functors only. -/
def FromHandlers (s : EventLoop T F) : LoopStep T F → Prop
  | .queueInLoop none _ => inHandlers s.pc = true
  | _ => True

instance (s : EventLoop T F) (a : LoopStep T F) : Decidable (s.FromHandlers a) :=
  match a with
  | .queueInLoop none _ => inferInstanceAs (Decidable (inHandlers s.pc = true))
  | .queueInLoop (some _) _ => .isTrue trivial
  | .loop | .testQuit | .poll _ | .handleRead | .handled | .setCalling | .swap | .callFunctor
  | .functorReturned | .clearCalling | .destroyFunctors | .runInLoop _ _ | .quit _ | .wakeup _ =>
    .isTrue trivial

/-- `m_callingPendingFunctors` is stored at the two ends of the batch and nowhere else. -/
theorem next_batching (hen : s.Enabled a) : a = .setCalling ∨ a = .clearCalling ∨
    (s.next a).callingPendingFunctors = s.callingPendingFunctors ∧
      batching (s.next a).pc = batching s.pc := by
  have hpc : ∀ {pc}, s.At pc → batching (s.next a).pc = batching pc →
      batching (s.next a).pc = batching s.pc := by
    rintro pc ⟨rfl, -⟩ h
    exact h
  cases a with
  | setCalling => exact .inl rfl
  | clearCalling => exact .inr (.inl rfl)
  | loop =>
    rcases hen with hen | hen
    · exact .inr (.inr ⟨rfl, hpc hen rfl⟩)
    · exact .inr (.inr ⟨rfl, hpc hen rfl⟩)
  | testQuit =>
    refine .inr (.inr ⟨rfl, hpc hen ?_⟩)
    show batching (if s.quit = true then .returned else .polling) = false
    split
    · rfl
    · rfl
  | poll woken => exact .inr (.inr ⟨rfl, hpc hen.1 rfl⟩)
  | handleRead => exact .inr (.inr ⟨rfl, hpc hen rfl⟩)
  | handled => exact .inr (.inr ⟨rfl, hpc hen rfl⟩)
  | swap => exact .inr (.inr ⟨rfl, hpc hen rfl⟩)
  | callFunctor => exact .inr (.inr ⟨rfl, hpc hen.1 rfl⟩)
  | functorReturned => exact .inr (.inr ⟨rfl, hpc hen rfl⟩)
  | destroyFunctors => exact .inr (.inr ⟨rfl, hpc hen rfl⟩)
  | queueInLoop t f => exact .inr (.inr ⟨rfl, rfl⟩)
  | runInLoop t f => cases t <;> exact .inr (.inr ⟨rfl, rfl⟩)
  | quit t => exact .inr (.inr ⟨rfl, rfl⟩)
  | wakeup t => exact .inr (.inr ⟨rfl, rfl⟩)

theorem next_calling (hcalling : batching s.pc = true → s.callingPendingFunctors = true)
    (hen : s.Enabled a) (hb : batching (s.next a).pc = true) :
    (s.next a).callingPendingFunctors = true := by
  rcases next_batching hen with rfl | rfl | ⟨hc, hpc⟩
  · rfl
  · cases hb
  · rw [hc]
    exact hcalling (hpc ▸ hb)

/-- A step keeps the wakeup on the way, if the loop thread queues from its handlers and functors or
finds it there. -/
theorem DueAhead.next {P : Position → Prop} (h : s.DueAhead P) (hpushed : P .pushed)
    (hidle : ¬ P .idle) (hcalling : batching s.pc = true → s.callingPendingFunctors = true)
    (hbatch : s.BatchDone) (hen : s.Enabled a)
    (ha : ∀ f, a = .queueInLoop none f → inHandlers s.pc = true ∨ s.Due P) :
    (s.next a).DueAhead P := by
  intro hs hne
  cases a with
  | loop =>
    rcases hen with hen | hen
    · exact .inl (h.due_at hen rfl hne)
    · exact .inl (h.due_at hen rfl hne)
  | testQuit => exact .inl (h.due_at hen rfl hne)
  | poll woken => exact (Bool.false_ne_true hs).elim
  | handleRead => exact (Bool.false_ne_true hs).elim
  | handled => exact (Bool.false_ne_true hs).elim
  | setCalling => exact (Bool.false_ne_true hs).elim
  | swap => exact absurd (hbatch (by rw [hen.1]; decide) (by rw [hen.1]; decide)) hne
  | callFunctor => exact .inl (h.due_at hen.1 rfl hne)
  | functorReturned => exact .inl (h.due_at hen rfl hne)
  | clearCalling => exact .inl (h.due_at hen.1 rfl hne)
  | destroyFunctors => exact .inl (h.due_at hen rfl hne)
  | queueInLoop t f =>
    cases t with
    | some c => exact .inl (due_push hpushed c f)
    | none =>
      rcases ha f rfl with hin | hd
      · change swapped s.pc = true at hs
        refine .inr ⟨?_, push_self⟩
        show s.pc = .inFunctor
        cases hpc : s.pc with
        | inFunctor => rfl
        | handling woken => rw [hpc] at hs; cases hs
        | _ => rw [hpc] at hin; cases hin
      · exact .inl (hd.moveTo (p := .pushed) hidle hen.1)
  | runInLoop t f =>
    cases t with
    | some c => exact .inl (due_push hpushed c f)
    | none => exact h hs hne
  | quit t =>
    rcases h hs hne with hd | ⟨hpc, hp⟩
    · exact .inl (hd.moveTo hidle hen.1)
    · refine .inr ⟨hpc, ?_⟩
      have hne' : (none : Option T) ≠ t := by
        rintro rfl
        rw [hen.1] at hp; cases hp
      exact (moveTo_of_ne (s := s) hne').trans hp
  | wakeup t =>
    rcases h hs hne with hd | ⟨hpc, hp⟩
    · exact .inl (hd.wakeup hidle)
    · cases t with
      | some c =>
        have hne' : (none : Option T) ≠ some c := by simp
        exact .inr ⟨hpc, (wakeup_of_ne hne').trans hp⟩
      | none =>
        -- Inside a functor the flag is set, so the loop thread writes too.
        have hw : s.wakes none = true := by
          rw [wakes, hp, hcalling (by rw [hpc]; rfl)]; rfl
        exact .inl (.inl (wakeup_pos hw))

theorem WakeInv.next (h : s.WakeInv) (hen : s.Enabled a) (ha : s.FromHandlers a) :
    (s.next a).WakeInv := by
  refine ⟨next_calling h.calling hen, next_batchDone hen h.batch, ?_⟩
  refine DueAhead.next (P := (· = .pushed)) h.due rfl (by decide) h.calling h.batch hen ?_
  rintro f rfl
  exact .inl ha

/-- A loop entered with nothing pending never polls with something pending and no wakeup on its way,
whatever handlers, functors and other threads queue. -/
theorem no_lost_wakeup (s₀ : EventLoop T F) (as : List (LoopStep T F)) (hpc : s₀.pc = .outside)
    (hbatch : s₀.functors = []) (hpending : s₀.pendingFunctors = []) (hC : Along step FromHandlers s₀ as)
    (hr : run step s₀ as = some s) (hpoll : s.pc = .polling) (hne : s.pendingFunctors ≠ []) :
    0 < s.wakeupFd ∨ ∃ c : T, s.position (some c) = .pushed := by
  have h₀ : s₀.WakeInv := by
    refine ⟨fun hb => ?_, fun _ _ => hbatch, fun _ hne => absurd hpending hne⟩
    rw [hpc] at hb; cases hb
  have h : s.WakeInv := by
    refine run_inv_along (fun u a v ha hv hu => ?_) hC hr h₀
    obtain ⟨hen, rfl⟩ := step_eq_some.1 hv
    exact hu.next hen ha
  rcases h.due (by rw [hpoll]; rfl) hne with hd | ⟨hf, -⟩
  · exact hd
  · rw [hpoll] at hf; cases hf

/-- A functor queued by a running functor: the loop polls with its wakeup in the counter. -/
theorem no_lost_wakeup_requeue : ∃ s : EventLoop Nat Nat,
    run step new [.queueInLoop (some 7) 1, .loop, .wakeup (some 7), .testQuit, .poll true,
      .handleRead, .handled, .setCalling, .swap, .callFunctor, .queueInLoop none 2, .wakeup none,
      .functorReturned, .clearCalling, .destroyFunctors, .testQuit] = some s ∧
    (0 < s.wakeupFd ∨ ∃ c, s.position (some c) = .pushed) := by
  refine ⟨_, rfl, no_lost_wakeup new [.queueInLoop (some 7) 1, .loop, .wakeup (some 7),
    .testQuit, .poll true, .handleRead, .handled, .setCalling, .swap, .callFunctor,
    .queueInLoop none 2, .wakeup none, .functorReturned, .clearCalling, .destroyFunctors,
    .testQuit] rfl rfl rfl (by decide) rfl rfl (by decide)⟩

end EventLoop
end Muduo
