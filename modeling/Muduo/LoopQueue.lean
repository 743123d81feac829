import Muduo.EventLoop

/-!
# The functor queue

Two containers hold the queue: what a batch has still to run, and `m_pendingFunctors`. Read one after
the other they are a FIFO: a call takes the first functor, a push adds one at the end, and the swap
moves nothing.
-/

namespace Muduo
open Lts
namespace EventLoop
variable {T F : Type} [DecidableEq T] {s t : EventLoop T F} {a : LoopStep T F}
  {as : List (LoopStep T F)}

/-- The functors accepted and not yet called, in the order they will be called in. -/
def waiting (s : EventLoop T F) : List (Option T × F) := s.functors ++ s.pendingFunctors

/-- The functor a step calls out of the batch. -/
def called (s : EventLoop T F) : LoopStep T F → List (Option T × F)
  | .callFunctor => s.functors.take 1
  | _ => []

/-- The functor a step pushes. On the loop thread `runInLoop` calls it instead. -/
def pushed (_ : EventLoop T F) : LoopStep T F → List (Option T × F)
  | .queueInLoop t inCallback => [(t, inCallback)]
  | .runInLoop (some t) inCallback => [(some t, inCallback)]
  | _ => []

/-- Outside a batch there is none left of it. -/
def BatchDone (s : EventLoop T F) : Prop := s.pc ≠ .running → s.pc ≠ .inFunctor → s.functors = []

theorem next_batchDone (h : s.Enabled a) (hs : s.BatchDone) : (s.next a).BatchDone := by
  have hat : ∀ {pc}, s.At pc → pc ≠ .running → pc ≠ .inFunctor → s.functors = [] := by
    intro pc hpc h₁ h₂
    exact hs (hpc.1 ▸ h₁) (hpc.1 ▸ h₂)
  intro h₁ h₂
  cases a with
  | loop =>
    rcases h with h | h
    · exact hat h (by decide) (by decide)
    · exact hat h (by decide) (by decide)
  | testQuit => exact hat h (by decide) (by decide)
  | poll woken => exact hat h.1 (by decide) (by decide)
  | handleRead => exact hat h (by decide) (by decide)
  | handled => exact hat h (by decide) (by decide)
  | setCalling => rfl
  | swap => exact absurd rfl h₁
  | callFunctor => exact absurd rfl h₂
  | functorReturned => exact absurd rfl h₁
  | clearCalling => exact h.2
  | destroyFunctors => exact hat h (by decide) (by decide)
  | queueInLoop t inCallback => exact hs h₁ h₂
  | runInLoop t inCallback =>
    cases t with
    | none => exact hs h₁ h₂
    | some t => exact hs h₁ h₂
  | quit t => exact hs h₁ h₂
  | wakeup t => exact hs h₁ h₂

/-- But for the swap, and the start of the next batch, a step only takes functors out of the
batch. -/
theorem next_functors (hs : s.BatchDone) (h : s.Enabled a) (ha : a ≠ .swap) :
    called s a ++ (s.next a).functors = s.functors := by
  cases a with
  | swap => exact absurd rfl ha
  | callFunctor =>
    show s.functors.take 1 ++ s.functors.tail = s.functors
    cases s.functors with
    | nil => rfl
    | cons f fs => rfl
  | setCalling =>
    have hnil : s.functors = [] := hs (by rw [h.1]; decide) (by rw [h.1]; decide)
    exact hnil.symm
  | runInLoop t inCallback => cases t <;> rfl
  | _ => rfl

theorem next_waiting (hs : s.BatchDone) (h : s.Enabled a) :
    called s a ++ (s.next a).waiting = s.waiting ++ pushed s a := by
  by_cases ha : a = .swap
  · subst ha
    have hnil : s.functors = [] := hs (by rw [h.1]; decide) (by rw [h.1]; decide)
    show s.pendingFunctors ++ s.functors = s.functors ++ s.pendingFunctors ++ []
    rw [hnil, List.append_nil, List.append_nil, List.nil_append]
  · have hpend : (s.next a).pendingFunctors = s.pendingFunctors ++ pushed s a := by
      cases a with
      | swap => exact absurd rfl ha
      | queueInLoop t inCallback => rfl
      | runInLoop t inCallback =>
        cases t with
        | none => exact (List.append_nil _).symm
        | some t => rfl
      | _ => exact (List.append_nil _).symm
    rw [waiting, waiting, hpend, ← List.append_assoc, next_functors hs h ha, List.append_assoc]

theorem run_batchDone (hr : run step s as = some t) (hs : s.BatchDone) : t.BatchDone := by
  refine run_inv (fun u a v hv hu => ?_) hr hs
  obtain ⟨hen, rfl⟩ := step_eq_some.1 hv
  exact next_batchDone hen hu

/-- Over a run: what is called, followed by what is waiting, is what was waiting followed by what is
pushed. -/
theorem run_waiting (hr : run step s as = some t) (hs : s.BatchDone) :
    collect step called s as ++ t.waiting = s.waiting ++ collect step pushed s as := by
  refine run_flow called (C := fun _ _ => True) (I := BatchDone) ?_ ?_
    (Along.of_forall fun _ _ _ => trivial) hr hs
  · intro u a v _ hv hu
    obtain ⟨hen, rfl⟩ := step_eq_some.1 hv
    exact next_batchDone hen hu
  · intro u a v _ hv hu
    obtain ⟨hen, rfl⟩ := step_eq_some.1 hv
    exact next_waiting hu hen

/-- Until the next swap, what is called comes out of the batch. -/
theorem run_batch (hr : run step s as = some t) (hs : s.BatchDone) (has : .swap ∉ as) :
    collect step called s as ++ t.functors = s.functors := by
  suffices h : collect step called s as ++ t.functors =
      s.functors ++ collect step (fun _ _ => []) s as by
    rwa [collect_const_nil, List.append_nil] at h
  refine run_flow called (C := fun _ a => a ≠ .swap) (I := BatchDone) ?_ ?_
    (Along.of_forall fun _ a ha => ?_) hr hs
  · intro u a v _ hv hu
    obtain ⟨hen, rfl⟩ := step_eq_some.1 hv
    exact next_batchDone hen hu
  · intro u a v ha hv hu
    obtain ⟨hen, rfl⟩ := step_eq_some.1 hv
    rw [next_functors hu hen ha, List.append_nil]
  · rintro rfl
    exact has ha

/-- From the loop's construction on, in any interleaving: the functors called, the rest of the batch
and the pending functors are the pushes in mutex order; each thread's functors are called in the order
it queued them; and what a batch calls was pending when it was swapped in. -/
theorem functor_queue_fifo (as : List (LoopStep T F)) (hr : run step new as = some s) :
    collect step called new as ++ s.functors ++ s.pendingFunctors = collect step pushed new as ∧
      (∀ c : Option T, (collect step called new as).filter (·.1 = c) <+:
        (collect step pushed new as).filter (·.1 = c)) ∧
      ∀ bs t, run step s (.swap :: bs) = some t → .swap ∉ bs →
        collect step called s (.swap :: bs) ++ t.functors = s.pendingFunctors := by
  have h₀ : BatchDone (new : EventLoop T F) := fun _ _ => rfl
  have hfifo := run_waiting hr h₀
  rw [waiting, ← List.append_assoc] at hfifo
  change _ = collect step pushed new as at hfifo
  refine ⟨hfifo, ?_, ?_⟩
  · intro c
    rw [← hfifo, List.append_assoc, List.filter_append]
    exact List.prefix_append _ _
  · intro bs t ht hbs
    obtain ⟨u, hu, ht⟩ := run_cons_some.1 ht
    have hdone := run_batchDone hr h₀
    obtain ⟨hen, rfl⟩ := step_eq_some.1 hu
    rw [collect_cons hu]
    exact run_batch ht (next_batchDone hen hdone) hbs

/-- Thread 7 queues two functors, and a third while the first is running: the third is left for the
next batch. -/
theorem functor_queue_fifo_requeue :
    ∃ s : EventLoop Nat Nat, run step new [.loop, .queueInLoop (some 7) 1, .wakeup (some 7),
        .queueInLoop (some 7) 2, .testQuit, .poll true, .handleRead, .handled, .setCalling, .swap,
        .callFunctor, .wakeup (some 7), .queueInLoop (some 7) 3, .functorReturned] = some s ∧
      [(some 7, 1)] ++ s.functors ++ s.pendingFunctors =
        [(some 7, 1), (some 7, 2), (some 7, 3)] := by
  refine ⟨_, rfl, ?_⟩
  exact (functor_queue_fifo (T := Nat) (F := Nat) [.loop, .queueInLoop (some 7) 1,
    .wakeup (some 7), .queueInLoop (some 7) 2, .testQuit, .poll true, .handleRead, .handled,
    .setCalling, .swap, .callFunctor, .wakeup (some 7), .queueInLoop (some 7) 3,
    .functorReturned] rfl).1

end EventLoop
end Muduo
