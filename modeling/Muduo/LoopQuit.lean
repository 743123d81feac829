import Muduo.LoopQueue

/-!
# What is queued before `quit()`

`m_quit` is tested between two batches. A thread that stores it while the swap is still ahead has all
it queued called before `loop()` returns. After the swap, what is left of the batch is called and
nothing else: whatever was pushed since is still pending when `loop()` returns.
-/

namespace Muduo
open Lts
namespace EventLoop
variable {T F : Type} [DecidableEq T] {s t : EventLoop T F} {a : LoopStep T F}
  {as : List (LoopStep T F)}

def inLoop : LoopPc → Bool
  | .outside => false
  | .returned => false
  | _ => true

/-- Past the test of `m_quit`, with the swap still to come. -/
def beforeSwap : LoopPc → Bool
  | .polling => true
  | .handling _ => true
  | .doPending => true
  | .swapping => true
  | _ => false

/-- When a thread calls `quit()` on a running loop, the swap is still to come or nothing of its own
is pending. -/
def QuitKeeps (s : EventLoop T F) : LoopStep T F → Prop
  | .quit c => inLoop s.pc = true → beforeSwap s.pc = true ∨ ∀ p ∈ s.pendingFunctors, p.1 ≠ c
  | _ => True

instance (s : EventLoop T F) (a : LoopStep T F) : Decidable (s.QuitKeeps a) :=
  match a with
  | .quit _ => inferInstanceAs (Decidable (_ → _))
  | .loop | .testQuit | .poll _ | .handleRead | .handled | .setCalling | .swap | .callFunctor
  | .functorReturned | .clearCalling | .destroyFunctors | .queueInLoop _ _ | .runInLoop _ _
  | .wakeup _ => .isTrue trivial

/-- The functors thread `c` pushed in a run from the start, and those of them the loop called. -/
def queuedBy (c : Option T) (as : List (LoopStep T F)) : List (Option T × F) :=
  (collect step pushed new as).filter (·.1 = c)

def calledFor (c : Option T) (as : List (LoopStep T F)) : List (Option T × F) :=
  (collect step called new as).filter (·.1 = c)

/-- At the end of the run, each thread that told the running loop to quit has had the functors called
that it had pushed by then. -/
def Served (as : List (LoopStep T F)) : Prop :=
  ∀ bs c cs, as = bs ++ .quit c :: cs → ∀ v, run step new bs = some v → inLoop v.pc = true →
    queuedBy c bs <+: calledFor c as

/-! ### Before the swap -/

theorem next_beforeSwap (hen : s.Enabled a) (hb : beforeSwap s.pc = true) (ha : a ≠ .swap) :
    beforeSwap (s.next a).pc = true := by
  have hnot : ∀ {pc}, s.At pc → beforeSwap pc = false → False := by
    intro pc hat hpc
    rw [hat.1, hpc] at hb; cases hb
  cases a with
  | loop =>
    rcases hen with hen | hen
    · exact (hnot hen rfl).elim
    · exact (hnot hen rfl).elim
  | testQuit => exact (hnot hen rfl).elim
  | poll woken => rfl
  | handleRead => rfl
  | handled => rfl
  | setCalling => rfl
  | swap => exact absurd rfl ha
  | callFunctor => exact (hnot hen.1 rfl).elim
  | functorReturned => exact (hnot hen rfl).elim
  | clearCalling => exact (hnot hen.1 rfl).elim
  | destroyFunctors => exact (hnot hen rfl).elim
  | queueInLoop c f => exact hb
  | runInLoop c f =>
    cases c with
    | none => exact hb
    | some c => exact hb
  | quit c => exact hb
  | wakeup c => exact hb

/-- A batch has been called when there is none left of it. -/
theorem batch_called (hr : run step s as = some t) (hs : s.BatchDone) (ht : t.functors = []) :
    s.functors <+: collect step called s as := by
  induction as generalizing s with
  | nil =>
    cases hr
    rw [ht]
    exact List.nil_prefix
  | cons a as ih =>
    obtain ⟨u, hu, hr⟩ := run_cons_some.1 hr
    obtain ⟨hen, rfl⟩ := step_eq_some.1 hu
    by_cases ha : a = .swap
    · subst ha
      rw [hs (by rw [hen.1]; decide) (by rw [hen.1]; decide)]
      exact List.nil_prefix
    · rw [collect_cons hu, ← next_functors hs hen ha]
      exact (List.prefix_append_right_inj _).2 (ih hr (next_batchDone hen hs))

/-- Before the swap everything pending belongs to the next batch. -/
theorem waiting_called (hr : run step s as = some t) (hs : s.BatchDone)
    (hb : beforeSwap s.pc = true) (hbt : beforeSwap t.pc = false) (ht : t.functors = []) :
    s.waiting <+: collect step called s as := by
  induction as generalizing s with
  | nil =>
    cases hr
    rw [hb] at hbt; cases hbt
  | cons a as ih =>
    obtain ⟨u, hu, hr⟩ := run_cons_some.1 hr
    obtain ⟨hen, rfl⟩ := step_eq_some.1 hu
    have hdone := next_batchDone hen hs
    rw [collect_cons hu]
    by_cases ha : a = .swap
    · subst ha
      have hnil : s.functors = [] := hs (by rw [hen.1]; decide) (by rw [hen.1]; decide)
      rw [waiting, hnil]
      exact batch_called hr hdone ht
    · have hpre : s.waiting <+: called s a ++ (s.next a).waiting := by
        rw [next_waiting hs hen]
        exact List.prefix_append _ _
      have hrest := ih hr hdone (next_beforeSwap hen hb ha)
      exact hpre.trans ((List.prefix_append_right_inj _).2 hrest)

/-! ### After the swap -/

/-- The loop has been told to quit and will see it before it swaps again. -/
structure Leaving (s : EventLoop T F) : Prop where
  quit : s.quit = true
  inLoop : inLoop s.pc = true
  swapped : beforeSwap s.pc = false

theorem Leaving.next (h : s.Leaving) (hen : s.Enabled a) :
    a ≠ .swap ∧ ((s.next a).pc = .returned ∨ (s.next a).Leaving) := by
  obtain ⟨hq, hin, hb⟩ := h
  have hnot : ∀ {pc}, s.At pc → beforeSwap pc = true → False := by
    intro pc hat hpc
    rw [hat.1, hpc] at hb; cases hb
  cases a with
  | loop =>
    rcases hen with hen | hen
    · rw [hen.1] at hin; cases hin
    · rw [hen.1] at hin; cases hin
  | testQuit =>
    refine ⟨by simp, .inl ?_⟩
    show (if s.quit = true then LoopPc.returned else .polling) = .returned
    rw [if_pos hq]
  | poll woken => exact (hnot hen.1 rfl).elim
  | handleRead => exact (hnot hen rfl).elim
  | handled => exact (hnot hen rfl).elim
  | setCalling => exact (hnot hen rfl).elim
  | swap => exact (hnot hen rfl).elim
  | callFunctor => exact ⟨by simp, .inr ⟨hq, rfl, rfl⟩⟩
  | functorReturned => exact ⟨by simp, .inr ⟨hq, rfl, rfl⟩⟩
  | clearCalling => exact ⟨by simp, .inr ⟨hq, rfl, rfl⟩⟩
  | destroyFunctors => exact ⟨by simp, .inr ⟨hq, rfl, rfl⟩⟩
  | queueInLoop c f => exact ⟨by simp, .inr ⟨hq, hin, hb⟩⟩
  | runInLoop c f =>
    refine ⟨by simp, .inr ?_⟩
    cases c with
    | none => exact ⟨hq, hin, hb⟩
    | some c => exact ⟨hq, hin, hb⟩
  | quit c => exact ⟨by simp, .inr ⟨rfl, hin, hb⟩⟩
  | wakeup c => exact ⟨by simp, .inr ⟨hq, hin, hb⟩⟩

/-- A loop that leaves returns without another swap. -/
theorem Leaving.returns (hr : run step s as = some t) (hs : s.Leaving) (ht : t.pc = .returned) :
    ∃ bs cs u, as = bs ++ cs ∧ run step s bs = some u ∧ u.pc = .returned ∧ .swap ∉ bs := by
  induction as generalizing s with
  | nil =>
    cases hr
    have hin := hs.inLoop
    rw [ht] at hin; cases hin
  | cons a as ih =>
    obtain ⟨u, hu, hr⟩ := run_cons_some.1 hr
    obtain ⟨hen, rfl⟩ := step_eq_some.1 hu
    obtain ⟨ha, hret | hleave⟩ := hs.next hen
    · exact ⟨[a], as, s.next a, rfl, run_cons_some.2 ⟨_, hu, rfl⟩, hret, by simpa using Ne.symm ha⟩
    · obtain ⟨bs, cs, u, rfl, hbs, hret, hswap⟩ := ih hr hleave
      exact ⟨a :: bs, cs, u, rfl, run_cons_some.2 ⟨_, hu, hbs⟩, hret,
        by simpa using ⟨Ne.symm ha, hswap⟩⟩

/-! ### Runs to a return -/

omit [DecidableEq T] in
theorem functors_of_returned (h : s.BatchDone) (hret : s.pc = .returned) : s.functors = [] :=
  h (by rw [hret]; decide) (by rw [hret]; decide)

/-- What has been pushed is called or waiting. -/
theorem pushed_eq (hr : run step new as = some s) :
    collect step pushed new as = collect step called new as ++ s.waiting :=
  (run_waiting hr fun _ _ => rfl).symm

/-- A quit request that meets `QuitKeeps`: what its thread has waiting is called by the return. -/
theorem called_of_quitKeeps {c : Option T} (h : s.QuitKeeps (.quit c)) (hin : inLoop s.pc = true)
    (hs : s.BatchDone) (hr : run step (s.next (.quit c)) as = some t) (hret : t.pc = .returned) :
    s.waiting.filter (·.1 = c) <+: (collect step called (s.next (.quit c)) as).filter (·.1 = c) := by
  have hs' : (s.next (.quit c)).BatchDone := hs
  have ht : t.functors = [] := functors_of_returned (run_batchDone hr hs') hret
  rcases h hin with hb | hnone
  · exact (waiting_called hr hs' hb (by rw [hret]; rfl) ht).filter _
  · have hnil : s.pendingFunctors.filter (·.1 = c) = [] := by
      simpa [List.filter_eq_nil_iff] using hnone
    rw [waiting, List.filter_append, hnil, List.append_nil]
    exact (batch_called hr hs' ht).filter _

/-- A request stored after the swap: at the return, what was pending is pending still. -/
theorem called_of_leaving {c : Option T} (hb : beforeSwap s.pc = false) (hin : inLoop s.pc = true)
    (hs : s.BatchDone) (hr : run step (s.next (.quit c)) as = some t) (hret : t.pc = .returned) :
    ∃ bs cs u, as = bs ++ cs ∧ run step (s.next (.quit c)) bs = some u ∧ u.pc = .returned ∧
      collect step called (s.next (.quit c)) bs = s.functors := by
  obtain ⟨bs, cs, u, rfl, hbs, hu, hswap⟩ :=
    Leaving.returns (s := s.next (.quit c)) hr ⟨rfl, hin, hb⟩ hret
  have hs' : (s.next (.quit c)).BatchDone := hs
  have hbatch := run_batch hbs hs' hswap
  rw [functors_of_returned (run_batchDone hbs hs') hu, List.append_nil] at hbatch
  exact ⟨bs, cs, u, rfl, hbs, hu, hbatch⟩

/-- At every return of `loop()`, in any interleaving: the functors each thread pushed before it told
the loop to quit have all been called, exactly when every quit request keeps them. -/
theorem quit_serves_iff (as : List (LoopStep T F)) (hr : run step new as = some s)
    (hret : s.pc = .returned) :
    (∀ ps, ps <+: as → ∀ u, run step new ps = some u → u.pc = .returned → Served ps) ↔
      Along step QuitKeeps new as := by
  have h₀ : BatchDone (new : EventLoop T F) := fun _ _ => rfl
  constructor
  · refine fun h => along_iff_split.2 fun bs a cs heq v hv => ?_
    subst heq
    cases a with
    | quit c =>
      intro hin
      refine or_iff_not_imp_left.2 fun hb => ?_
      have hb : beforeSwap v.pc = false := eq_false_of_ne_true hb
      have hvd := run_batchDone hv h₀
      obtain ⟨v', hv', hr⟩ := run_append_some.1 hr
      cases hv.symm.trans hv'
      obtain ⟨w, hw, hr⟩ := run_cons_some.1 hr
      obtain ⟨-, rfl⟩ := step_eq_some.1 hw
      obtain ⟨ds, es, u, rfl, hds, hu, hcalled⟩ := called_of_leaving hb hin hvd hr hret
      have hps : run step new (bs ++ .quit c :: ds) = some u :=
        run_append_some.2 ⟨v, hv, run_cons_some.2 ⟨_, hw, hds⟩⟩
      have hserved := h (bs ++ .quit c :: ds) ⟨es, by simp⟩ u hps hu bs c ds rfl v hv hin
      rw [queuedBy, calledFor, pushed_eq hv, collect_append hv, collect_cons hw, waiting] at hserved
      have hlen := hserved.length_le
      rw [hcalled] at hlen
      simp only [called, List.nil_append, List.filter_append, List.length_append] at hlen
      have hnil : v.pendingFunctors.filter (·.1 = c) = [] := List.eq_nil_of_length_eq_zero (by omega)
      simpa [List.filter_eq_nil_iff] using hnil
    | _ => trivial
  · rintro h ps ⟨rest, rfl⟩ u hu hret bs c cs rfl v hv hin
    have hC : v.QuitKeeps (.quit c) :=
      along_iff_split.1 h bs (.quit c) (cs ++ rest) (by simp) v hv
    obtain ⟨v', hv', hu⟩ := run_append_some.1 hu
    cases hv.symm.trans hv'
    obtain ⟨w, hw, hu⟩ := run_cons_some.1 hu
    obtain ⟨-, rfl⟩ := step_eq_some.1 hw
    rw [queuedBy, calledFor, pushed_eq hv, collect_append hv, collect_cons hw, List.filter_append,
      List.filter_append]
    exact (List.prefix_append_right_inj _).2 (called_of_quitKeeps hC hin (run_batchDone hv h₀) hu hret)

/-- A thread that queues and quits while the loop polls. -/
theorem quit_serves_iff_polling : Served (T := Nat) (F := Nat) [.loop, .testQuit,
    .queueInLoop (some 7) 1, .wakeup (some 7), .quit (some 7), .wakeup (some 7), .poll true,
    .handleRead, .handled, .setCalling, .swap, .callFunctor, .functorReturned, .clearCalling,
    .destroyFunctors, .testQuit] :=
  (quit_serves_iff [.loop, .testQuit, .queueInLoop (some 7) 1, .wakeup (some 7), .quit (some 7),
    .wakeup (some 7), .poll true, .handleRead, .handled, .setCalling, .swap, .callFunctor,
    .functorReturned, .clearCalling, .destroyFunctors, .testQuit] rfl rfl).2 (by decide) _
    List.prefix_rfl _ rfl rfl

/-- A thread queues a functor behind the swap and then quits; a functor queues another and then
quits. Both times `loop()` returns with the functor pending. -/
theorem quit_discards :
    (∃ s : EventLoop Nat Nat, run step new [.loop, .testQuit, .poll false, .handled, .setCalling,
        .swap, .queueInLoop (some 7) 1, .wakeup (some 7), .quit (some 7), .wakeup (some 7),
        .clearCalling, .destroyFunctors, .testQuit] = some s ∧
      s.pc = .returned ∧ s.pendingFunctors = [(some 7, 1)] ∧
      ¬ Served (T := Nat) (F := Nat) [.loop, .testQuit, .poll false, .handled, .setCalling,
        .swap, .queueInLoop (some 7) 1, .wakeup (some 7), .quit (some 7), .wakeup (some 7),
        .clearCalling, .destroyFunctors, .testQuit]) ∧
    ∃ s : EventLoop Nat Nat, run step new [.loop, .testQuit, .queueInLoop (some 7) 1,
        .wakeup (some 7), .poll true, .handleRead, .handled, .setCalling, .swap, .callFunctor,
        .queueInLoop none 2, .wakeup none, .quit none, .wakeup none, .functorReturned,
        .clearCalling, .destroyFunctors, .testQuit] = some s ∧
      s.pc = .returned ∧ s.pendingFunctors = [(none, 2)] := by
  refine ⟨⟨_, rfl, rfl, rfl, fun h => ?_⟩, _, rfl, rfl, rfl⟩
  have hserved := h [.loop, .testQuit, .poll false, .handled, .setCalling, .swap,
    .queueInLoop (some 7) 1, .wakeup (some 7)] (some 7) [.wakeup (some 7), .clearCalling,
    .destroyFunctors, .testQuit] rfl _ rfl rfl
  exact absurd hserved (by decide)

end EventLoop
end Muduo
