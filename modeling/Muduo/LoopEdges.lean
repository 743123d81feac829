import Muduo.LoopWakeup
import Mathlib.Data.Fintype.Basic

/-!
# The edges of the loop

`queueInLoop` leaves the wakeup out on the loop thread while `m_callingPendingFunctors` is clear. In a
handler that is right. Outside `loop()`, and while `doPendingFunctors` destroys its batch, the next
thing the loop does is to poll: there a functor is not stranded only when a wakeup is on its way
already.
-/

namespace Muduo
open Lts
namespace EventLoop
variable {T F : Type} [DecidableEq T] {s t : EventLoop T F} {a : LoopStep T F}
  {as : List (LoopStep T F)}

/-- The counter is positive, or another thread is about to write it. -/
def WriteDue (s : EventLoop T F) : Prop :=
  0 < s.wakeupFd ∨ ∃ c : T, s.position (some c) ≠ .idle

instance [Fintype T] (s : EventLoop T F) : Decidable s.WriteDue :=
  inferInstanceAs (Decidable (_ ∨ _))

/-- Outside handlers and running functors the loop thread queues only when a wakeup is on its way. -/
def WokenAtEdges (s : EventLoop T F) : LoopStep T F → Prop
  | .queueInLoop none _ => inHandlers s.pc = true ∨ s.WriteDue
  | _ => True

instance [Fintype T] (s : EventLoop T F) (a : LoopStep T F) : Decidable (s.WokenAtEdges a) :=
  match a with
  | .queueInLoop none _ => inferInstanceAs (Decidable (_ ∨ _))
  | .queueInLoop (some _) _ => .isTrue trivial
  | .loop | .testQuit | .poll _ | .handleRead | .handled | .setCalling | .swap | .callFunctor
  | .functorReturned | .clearCalling | .destroyFunctors | .runInLoop _ _ | .quit _ | .wakeup _ =>
    .isTrue trivial

/-- The invariant of runs that keep to `WokenAtEdges`. -/
structure EdgeInv (s : EventLoop T F) : Prop where
  calling : batching s.pc = true → s.callingPendingFunctors = true
  batch : s.BatchDone
  due : s.DueAhead (· ≠ .idle)

theorem EdgeInv.next (h : s.EdgeInv) (hen : s.Enabled a) (ha : s.WokenAtEdges a) :
    (s.next a).EdgeInv := by
  refine ⟨next_calling h.calling hen, next_batchDone hen h.batch, ?_⟩
  refine h.due.next (by decide) (by simp) h.calling h.batch hen ?_
  rintro f rfl
  exact ha

omit [DecidableEq T] in
theorem EdgeInv.new : (new : EventLoop T F).EdgeInv := by
  refine ⟨fun hb => ?_, fun _ _ => rfl, fun _ hne => absurd rfl hne⟩
  cases hb

/-- From construction on the flag is set between its two stores only. -/
theorem next_calling_eq (h : s.callingPendingFunctors = batching s.pc) (hen : s.Enabled a) :
    (s.next a).callingPendingFunctors = batching (s.next a).pc := by
  rcases next_batching hen with rfl | rfl | ⟨hc, hpc⟩
  · rfl
  · rfl
  · rw [hc, hpc, h]

theorem calling_eq (hr : run step new as = some s) : s.callingPendingFunctors = batching s.pc := by
  refine run_inv (I := fun s => s.callingPendingFunctors = batching s.pc) ?_ hr rfl
  intro u a v hv hu
  obtain ⟨hen, rfl⟩ := step_eq_some.1 hv
  exact next_calling_eq hu hen

/-- The loop thread is in user code, but not in a handler and not in a functor. -/
def atEdge : LoopPc → Bool
  | .outside => true
  | .destroying => true
  | .returned => true
  | _ => false

theorem atEdge_eq {pc : LoopPc} (h : inUserCode pc = true) (hin : inHandlers pc ≠ true) :
    atEdge pc = true := by
  cases pc with
  | outside => rfl
  | destroying => rfl
  | returned => rfl
  | handling woken => exact absurd rfl hin
  | inFunctor => exact absurd rfl hin
  | _ => cases h

theorem batching_of_atEdge {pc : LoopPc} (h : atEdge pc = true) : batching pc = false := by
  cases pc with
  | outside => rfl
  | destroying => rfl
  | returned => rfl
  | _ => cases h

/-- The state the loop polls in when nothing but its own tests came in between. -/
def polls (s : EventLoop T F) : EventLoop T F := { s with pc := .polling, quit := false }

theorem entry_polls (h : s.At .outside ∨ s.At .returned) :
    run step s [.loop, .testQuit] = some s.polls := by
  have hidle : s.position none = .idle := h.elim And.right And.right
  refine run_cons_some.2 ⟨_, step_eq_some.2 ⟨h, rfl⟩, ?_⟩
  exact run_cons_some.2 ⟨_, step_eq_some.2 ⟨⟨rfl, hidle⟩, rfl⟩, rfl⟩

/-- From every edge the loop comes to its poll by steps that neither read nor write the eventfd. -/
theorem edge_polls (hedge : atEdge s.pc = true) (hidle : s.position none = .idle) :
    ∃ bs, run step s bs = some s.polls := by
  cases hpc : s.pc with
  | outside => exact ⟨_, entry_polls (.inl ⟨hpc, hidle⟩)⟩
  | returned => exact ⟨_, entry_polls (.inr ⟨hpc, hidle⟩)⟩
  | destroying =>
    have htest : step s .destroyFunctors = some (s.goto .test) :=
      step_eq_some.2 ⟨⟨hpc, hidle⟩, rfl⟩
    have hquit : step (s.goto .test) .testQuit =
        some ((s.goto .test).goto (if s.quit = true then .returned else .polling)) :=
      step_eq_some.2 ⟨⟨rfl, hidle⟩, rfl⟩
    by_cases hq : s.quit = true
    · -- a quit request ends this call of loop(); the next one polls
      rw [if_pos hq] at hquit
      refine ⟨[.destroyFunctors, .testQuit, .loop, .testQuit], run_cons_some.2 ⟨_, htest, ?_⟩⟩
      refine run_cons_some.2 ⟨_, hquit, ?_⟩
      exact entry_polls (s := (s.goto .test).goto .returned) (.inr ⟨rfl, hidle⟩)
    · rw [if_neg hq] at hquit
      refine ⟨[.destroyFunctors, .testQuit], run_cons_some.2 ⟨_, htest, ?_⟩⟩
      refine run_cons_some.2 ⟨_, hquit, ?_⟩
      rw [run_nil, polls, ← eq_false_of_ne_true hq]
      rfl
  | _ => rw [hpc] at hedge; cases hedge

/-- A functor queued at an edge with no wakeup on its way waits at the poll. -/
theorem stranded_at_edge {f : F} (hcalling : s.callingPendingFunctors = batching s.pc)
    (hen : s.Enabled (.queueInLoop none f)) (hun : ¬ s.WokenAtEdges (.queueInLoop none f)) :
    ∃ bs t, run step s (.queueInLoop none f :: bs) = some t ∧ t.pc = .polling ∧
      (none, f) ∈ t.pendingFunctors ∧ ¬ t.WriteDue := by
  obtain ⟨hin, hdue⟩ := not_or.1 hun
  have hedge : atEdge s.pc = true := atEdge_eq (hen.2 rfl) hin
  have hw : (s.push none f).wakes none = false := by
    rw [wakes, push_self]
    show s.callingPendingFunctors = false
    rw [hcalling, batching_of_atEdge hedge]
  let u := (s.push none f).next (.wakeup none)
  have hu : step (s.push none f) (.wakeup none) = some u := by
    refine step_eq_some.2 ⟨fun hidle => ?_, rfl⟩
    rw [push_self] at hidle; cases hidle
  have hfd : u.wakeupFd = s.wakeupFd := by
    show (if (s.push none f).wakes none = true then _ else _) = _
    rw [hw]
    rfl
  obtain ⟨bs, hbs⟩ := edge_polls (s := u) hedge wakeup_self
  refine ⟨.wakeup none :: bs, u.polls, ?_, rfl, List.mem_append_right _ List.mem_cons_self, ?_⟩
  · exact run_cons_some.2 ⟨_, step_eq_some.2 ⟨hen, rfl⟩, run_cons_some.2 ⟨u, hu, hbs⟩⟩
  · -- neither half of the call moved another thread or the counter
    rintro (hd | ⟨c, hc⟩)
    · exact hdue (.inl (hfd ▸ hd))
    · refine hdue (.inr ⟨c, fun hidle => hc ?_⟩)
      have hne : some c ≠ none := by simp
      calc u.position (some c) = (s.push none f).position (some c) := wakeup_of_ne hne
        _ = s.position (some c) := push_of_ne hne
        _ = .idle := hidle

/-- In a run that keeps to `WokenAtEdges`, no functor is pending at the poll without a wakeup on its
way; and a single call that does not can be followed by a poll where its functor is. -/
theorem no_functor_stranded (as : List (LoopStep T F)) (hr : run step new as = some s) :
    (Along step WokenAtEdges new as → s.pc = .polling → s.pendingFunctors ≠ [] →
      0 < s.wakeupFd ∨ ∃ c : T, s.position (some c) ≠ .idle) ∧
    ∀ f, s.Enabled (.queueInLoop none f) → ¬ s.WokenAtEdges (.queueInLoop none f) →
      ∃ bs t, run step s (.queueInLoop none f :: bs) = some t ∧ t.pc = .polling ∧
        (none, f) ∈ t.pendingFunctors ∧ ¬ t.WriteDue := by
  refine ⟨fun hC hpoll hne => ?_, fun f hen hun => stranded_at_edge (calling_eq hr) hen hun⟩
  have h : s.EdgeInv := by
    refine run_inv_along (fun u a v ha hv hu => ?_) hC hr EdgeInv.new
    obtain ⟨hen, rfl⟩ := step_eq_some.1 hv
    exact hu.next hen ha
  rcases h.due (by rw [hpoll]; rfl) hne with hd | ⟨hf, -⟩
  · exact hd
  · rw [hpoll] at hf; cases hf

/-- The init callback queues a functor while another thread is between its push and its wakeup. -/
theorem no_functor_stranded_startup : ∃ s : EventLoop (Fin 2) Nat,
    run step new [.queueInLoop (some 0) 1, .queueInLoop none 2, .wakeup none, .loop, .testQuit] =
      some s ∧
    (0 < s.wakeupFd ∨ ∃ c, s.position (some c) ≠ .idle) := by
  refine ⟨_, rfl, (no_functor_stranded [.queueInLoop (some 0) 1, .queueInLoop none 2,
    .wakeup none, .loop, .testQuit] rfl).1 (by decide) rfl (by decide)⟩

/-- The init callback queues a functor on an idle loop; a destructor queues one when the batch that
held the object is destroyed. Both times the loop polls with nothing to wake it. -/
theorem edge_functor_stranded :
    (∃ s : EventLoop (Fin 2) Nat,
      run step new [.queueInLoop none 1, .wakeup none, .loop, .testQuit] = some s ∧
      s.pc = .polling ∧ s.pendingFunctors = [(none, 1)] ∧ ¬ s.WriteDue) ∧
    ∃ s : EventLoop (Fin 2) Nat,
      run step new [.loop, .testQuit, .queueInLoop (some 0) 1, .wakeup (some 0), .poll true,
        .handleRead, .handled, .setCalling, .swap, .callFunctor, .functorReturned, .clearCalling,
        .queueInLoop none 2, .wakeup none, .destroyFunctors, .testQuit] = some s ∧
      s.pc = .polling ∧ s.pendingFunctors = [(none, 2)] ∧ ¬ s.WriteDue :=
  ⟨⟨_, rfl, rfl, rfl, by decide⟩, _, rfl, rfl, rfl, by decide⟩

end EventLoop
end Muduo
