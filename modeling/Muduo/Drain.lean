import Mathlib.Algebra.BigOperators.Group.Finset.Basic
import Mathlib.Algebra.GroupWithZero.Nat
import Mathlib.Algebra.Order.BigOperators.Group.Finset
import Muduo.Progress
import Muduo.ServerParts
import Muduo.UserCalls

/-!
# The loops drain

When nothing comes from outside, the loops of a server run out of work: every job leads to a bounded
number of others, however the loops' steps are interleaved. Where nothing is left to do, every connection
that was closed has been destroyed.
-/

namespace Muduo
open EPollPoller ServerLoop Lts

/-- A job with all that may come of it. -/
def Job.weight : Job → Nat
  | .userCallback _ => 1
  | .connectEstablished _ => 1
  | .connectDestroyed _ => 1
  | .shutdownInLoop _ => 1
  | .queueDestroyed _ => 9
  | .establish _ => 9
  | .removeConnectionInLoop _ => 10
  | .removeConnection _ => 18
  | .sendInLoop _ _ => 17
  | .handleEvent _ cbs => 1 + 30 * cbs.length

namespace ServerLoop
variable {q : ServerLoop} {j : Job} {js rest : List Job}

/-- How far the loop is from waiting in `poll` with nothing queued, or from its end. -/
def rank (q : ServerLoop) : Nat :=
  match q.phase with
  | .polling => if q.pendingFunctors = [] ∧ (q.quit = false ∨ q.ended = true) then 0 else 4
  | .handling => if q.pendingFunctors = [] then 2 else 3
  | .calling => if q.pendingFunctors = [] ∨ q.quit = true then 1 else 5

/-- What is left for the loop to do. -/
def work (q : ServerLoop) : Nat :=
  (q.stack.map Job.weight).sum + (q.functors.map fun j => j.weight + 1).sum +
    (q.pendingFunctors.map fun j => j.weight + 2).sum + 122 * q.active.length + q.rank

theorem rank_le_five (q : ServerLoop) : q.rank ≤ 5 := by
  unfold rank
  split <;> split <;> omega

theorem work_push : (q.push j).work = q.work + j.weight := by
  have hrank : (q.push j).rank = q.rank := rfl
  rw [work, work, hrank]
  simp only [push, List.map_cons, List.sum_cons]
  omega

theorem work_pop (hst : q.stack = j :: rest) : (q.pop rest).work + j.weight = q.work := by
  have hrank : (q.pop rest).rank = q.rank := rfl
  rw [work, work, hrank, hst]
  simp only [pop, List.map_cons, List.sum_cons]
  omega

theorem rank_queue (q : ServerLoop) (js : List Job) : (q.queue js).rank ≤ q.rank + 5 * js.length := by
  cases js with
  | nil =>
    rw [show q.queue [] = q by simp [queue]]
    simp
  | cons j js =>
    have := rank_le_five (q.queue (j :: js))
    rw [List.length_cons]
    omega

theorem sum_weight_add (js : List Job) (m k : Nat) :
    (js.map fun j => j.weight + (m + k)).sum =
      (js.map fun j => j.weight + m).sum + k * js.length := by
  induction js with
  | nil => rfl
  | cons j js ih =>
    simp only [List.map_cons, List.sum_cons, List.length_cons]
    rw [ih, Nat.mul_succ]
    omega

theorem work_queue (q : ServerLoop) (js : List Job) :
    (q.queue js).work ≤ q.work + (js.map fun j => j.weight + 7).sum := by
  have hrank := rank_queue q js
  rw [work, work, sum_weight_add js 2 5]
  simp only [queue, List.map_append, List.sum_append] at hrank ⊢
  omega

/-- Woken up for the functors queued, or to quit. -/
theorem work_polled (hp : q.phase = .polling) (hend : q.ended = false)
    (hwoken : q.pendingFunctors ≠ [] ∨ q.quit = true) : (q.polled []).work < q.work := by
  have hrank : q.rank = 4 := by
    rcases hwoken with hpend | hq
    · simp [rank, hp, hpend]
    · simp [rank, hp, hq, hend]
  have hrank' : (q.polled []).rank ≤ 3 := by
    show (if q.pendingFunctors = [] then 2 else 3) ≤ 3
    split <;> omega
  rw [work, work, hrank]
  simp only [polled, List.length_nil] at hrank' ⊢
  omega

theorem work_swapped (hp : q.phase = .handling) : q.swapped.work < q.work := by
  have hsum : (q.pendingFunctors.map fun j => j.weight + 2).sum =
      (q.pendingFunctors.map fun j => j.weight + 1).sum + 1 * q.pendingFunctors.length :=
    sum_weight_add q.pendingFunctors 1 1
  have hrank : 2 ≤ q.rank := by
    simp only [rank, hp]
    split <;> omega
  have hrank' : q.swapped.rank = 1 := rfl
  rw [work, work, hrank']
  simp only [swapped, List.map_nil, List.sum_nil]
  omega

theorem work_taking (hstack : q.stack = []) (hfun : q.functors = j :: js) :
    (q.taking j js).work < q.work := by
  have hrank : (q.taking j js).rank = q.rank := rfl
  rw [work, work, hrank, hstack, hfun]
  simp only [taking, List.map_cons, List.map_nil, List.sum_cons, List.sum_nil]
  omega

theorem work_batchDone (hp : q.phase = .calling) (hq : q.quit = false) : q.batchDone.work < q.work := by
  have hrank : q.batchDone.rank < q.rank := by
    by_cases hpend : q.pendingFunctors = [] <;> simp [rank, batchDone, hp, hpend, hq]
  rw [work, work]
  simp only [batchDone] at hrank ⊢
  omega

theorem work_exited (hp : q.phase = .calling) : exited.work < q.work := by
  have hrank : 0 < q.rank := by
    simp only [rank, hp]
    split <;> omega
  have hexited : exited.work = 0 := rfl
  rw [hexited, work]
  omega

theorem work_dispatched {c : Nat} {cbs : List Callback} {e : Nat × EventMask}
    {active : List (Nat × EventMask)} (hstack : q.stack = []) (hactive : q.active = e :: active)
    (hcbs : cbs.length ≤ 4) : (q.dispatched c cbs active).work < q.work := by
  have hrank : (q.dispatched c cbs active).rank = q.rank := rfl
  rw [work, work, hrank, hstack, hactive]
  simp only [dispatched, List.map_cons, List.map_nil, List.sum_cons, List.sum_nil, List.length_cons,
    Job.weight]
  omega

end ServerLoop

namespace TcpServer
variable {s t u : TcpServer} {c l : Nat} {st : Nat → Stage} {w : World Nat} {j : Job} {rest : List Job}
  {cb : Callback} {cbs : List Callback} {a : ServerStep} {as : List ServerStep}
  {logErrno : Errno → Errno}

/-- What is left for the loops to do. -/
def work (s : TcpServer) : Nat := ∑ l ∈ Finset.range (s.numThreads + 1), (s.loop l).work

theorem work_setLoop {q : ServerLoop} (hl : l ≤ s.numThreads) :
    (s.setLoop l q).work + (s.loop l).work = s.work + q.work := by
  have hmem : l ∈ Finset.range (s.numThreads + 1) := Finset.mem_range.2 (Nat.lt_succ_of_le hl)
  have hold := Finset.sum_erase_add _ (fun l => (s.loop l).work) hmem
  have hnew := Finset.sum_erase_add _ (fun l' => ((s.setLoop l q).loop l').work) hmem
  have hrest : ∑ l' ∈ (Finset.range (s.numThreads + 1)).erase l, ((s.setLoop l q).loop l').work =
      ∑ l' ∈ (Finset.range (s.numThreads + 1)).erase l, (s.loop l').work := by
    refine Finset.sum_congr rfl fun l' hl' => ?_
    rw [loop_setLoop, if_neg (Finset.ne_of_mem_erase hl')]
  have hself : (s.setLoop l q).loop l = q := by rw [loop_setLoop, if_pos rfl]
  rw [hself] at hnew
  show ∑ l' ∈ Finset.range (s.numThreads + 1), ((s.setLoop l q).loop l').work + _ =
    ∑ l' ∈ Finset.range (s.numThreads + 1), (s.loop l').work + _
  omega

theorem work_setLoop_le {q : ServerLoop} {k : Nat} (h : q.work ≤ (s.loop l).work + k) :
    (s.setLoop l q).work ≤ s.work + k := by
  by_cases hl : l ≤ s.numThreads
  · have hsum := work_setLoop hl (s := s) (q := q)
    omega
  · have hsame : (s.setLoop l q).work = s.work := by
      refine Finset.sum_congr rfl fun l' hl' => ?_
      have hlt := Finset.mem_range.1 hl'
      rw [loop_setLoop, if_neg]
      show ¬ l' = l
      have : l' ≤ s.numThreads := Nat.le_of_lt_succ hlt
      omega
    omega

theorem work_setLoop_lt {q : ServerLoop} (hl : l ≤ s.numThreads) (h : q.work < (s.loop l).work) :
    (s.setLoop l q).work < s.work := by
  have hsum := work_setLoop hl (s := s) (q := q)
  omega

theorem work_enter (s : TcpServer) (l : Nat) (j : Job) : (s.enter l j).work ≤ s.work + j.weight :=
  work_setLoop_le (Nat.le_of_eq work_push)

theorem work_queueInLoop (s : TcpServer) (l : Nat) (j : Job) :
    (s.queueInLoop l j).work ≤ s.work + (j.weight + 7) := by
  refine work_setLoop_le ?_
  exact work_queue _ [j]

theorem work_runInLoop (s : TcpServer) (l target : Nat) (j : Job) :
    (s.runInLoop l target j).work ≤ s.work + (j.weight + 7) := by
  unfold TcpServer.runInLoop
  split
  · have := work_enter s l j
    omega
  · exact work_queueInLoop s target j

theorem sum_userCallbacks (c : Nat) (fs : List Functor) :
    ((fs.map fun _ => Job.userCallback c).map fun j => j.weight + 7).sum = 8 * fs.length := by
  induction fs with
  | nil => rfl
  | cons f fs ih =>
    simp only [List.map_cons, List.sum_cons, List.length_cons, Job.weight] at ih ⊢
    omega

theorem length_queued {k : Nat} (hw : World.Queues k (s.world c) w) : (queued w.trace).length ≤ k := by
  have hle : (queued w.trace).length ≤ (queued (s.world c).trace).length + k := hw
  have hnil : (queued (s.world c).trace).length = 0 := rfl
  omega

theorem work_afterwards {k : Nat} (hw : World.Queues k (s.world c) w) :
    (s.afterwards c w).work ≤ (s.loop (s.conn c).loop).work + 8 * k := by
  have hlen := length_queued hw
  have hqueue : (s.afterwards c w).work ≤ (s.loop (s.conn c).loop).work +
      (((queued w.trace).map fun _ => Job.userCallback c).map fun j => j.weight + 7).sum :=
    work_queue _ _
  rw [sum_userCallbacks] at hqueue
  omega

theorem work_absorb_uncalled {k : Nat} (hw : World.Queues k (s.world c) w) (hu : w.Uncalled) :
    (s.absorb c w).work ≤ s.work + 8 * k := by
  rw [absorb_uncalled hu]
  exact work_setLoop_le (s := s.setTcp c w.conn) (work_afterwards hw)

theorem work_absorb {k : Nat} (hw : World.Queues k (s.world c) w) :
    (s.absorb c w).work ≤ s.work + (8 * k + 18) := by
  by_cases hm : .closeCallback ∈ w.trace
  · rw [absorb_called hm]
    refine work_setLoop_le (s := s.setTcp c w.conn) ?_
    have hafter := work_afterwards hw
    rw [work_push]
    show _ + 18 ≤ (s.loop (s.conn c).loop).work + _
    omega
  · have := work_absorb_uncalled hw hm
    omega

theorem work_handleClose (hw : World.Queues 0 (s.world c) w) (ho : s.handleClose c w = some t) :
    t.work ≤ s.work + 18 := by
  obtain ⟨v, hv, rfl⟩ := Option.map_eq_some_iff.1 ho
  have hclose := World.parts_queues.handleClose (toOption_eq_some.1 hv)
  exact work_absorb (s := s.mark c .closed) (k := 0)
    (by rw [world_mark]; exact World.parts_queues.after hw hclose)

theorem work_makeCallback {r : ReadResult} {r' : WriteResult}
    (ho : s.makeCallback c cb r r' = some t) : t.work ≤ s.work + 26 := by
  cases makeCallback_some ho with
  | close ho =>
    have := work_handleClose (World.parts_queues.refl _) ho
    omega
  | error =>
    have := work_absorb (s := s) (c := c) (World.parts_queues.refl _)
    exact this.trans (by omega)
  | read hv =>
    have := work_absorb (World.parts_queues.readInput hv)
    omega
  | readEnd hv ho =>
    have := work_handleClose (World.parts_queues.readInput hv) ho
    omega
  | write hv => exact work_absorb (World.parts_queues.handleWrite hv)

/-- A function leads to less work than it was. -/
theorem work_perform {r : ReadResult} {r' : WriteResult} (ho : s.perform logErrno l r r' j = some t) :
    t.work < s.work + j.weight := by
  cases j with
  | establish c =>
    cases ho
    have := work_runInLoop s l (s.conn c).loop (.connectEstablished c)
    simp only [Job.weight] at this ⊢
    omega
  | connectEstablished c =>
    obtain ⟨w, hw, rfl⟩ := Option.map_eq_some_iff.1 ho
    have hok := toOption_eq_some.1 hw
    have := work_absorb_uncalled (s := s.mark c .established) (c := c) (w := w) (k := 0)
      (by rw [world_mark]; exact World.parts_queues.connectEstablished hok)
      (World.Uncalled.connectEstablished (uncalled_world s c) hok)
    exact Nat.lt_succ_of_le this
  | handleEvent c cbs =>
    cases cbs with
    | nil =>
      cases ho
      exact Nat.lt_succ_self _
    | cons cb cbs =>
      have hmake := work_makeCallback (t := t) ho
      have henter := work_enter s l (.handleEvent c cbs)
      change t.work ≤ (s.enter l (.handleEvent c cbs)).work + 26 at hmake
      simp only [Job.weight, List.length_cons] at henter ⊢
      omega
  | removeConnection c =>
    cases ho
    have := work_runInLoop s l 0 (.removeConnectionInLoop c)
    simp only [Job.weight] at this ⊢
    omega
  | removeConnectionInLoop c =>
    cases ho
    have := work_enter ((s.mark c .erased).erase c) l (.queueDestroyed c)
    exact Nat.lt_succ_of_le this
  | queueDestroyed c =>
    cases ho
    have := work_queueInLoop s (s.conn c).loop (.connectDestroyed c)
    exact Nat.lt_succ_of_le this
  | connectDestroyed c =>
    obtain ⟨w, hw, rfl⟩ := Option.map_eq_some_iff.1 ho
    have hok := toOption_eq_some.1 hw
    have := work_absorb_uncalled (s := s.mark c .destroyed) (c := c) (w := w) (k := 0)
      (by rw [world_mark]; exact World.parts_queues.connectDestroyed hok)
      (World.Uncalled.connectDestroyed (uncalled_world s c) hok)
    exact Nat.lt_succ_of_le this
  | userCallback c =>
    cases ho
    exact Nat.lt_succ_self _
  | sendInLoop c msg =>
    unfold TcpServer.perform at ho
    dsimp only at ho
    split at ho
    · obtain ⟨w, hw, rfl⟩ := Option.map_eq_some_iff.1 ho
      have hok := toOption_eq_some.1 hw
      have := work_absorb_uncalled (World.parts_queues.sendInLoop hok)
        (World.Uncalled.sendInLoop (uncalled_world s c) hok)
      exact Nat.lt_succ_of_le this
    · cases ho
  | shutdownInLoop c =>
    cases ho
    have := work_absorb_uncalled (s := s) (c := c) World.parts_queues.shutdownInLoop
      (uncalled_world s c).shutdownInLoop
    exact Nat.lt_succ_of_le this

/-! ### Phases, batches and logs -/

/-- What the functions of the server and of its connections leave of every loop, and of every log. -/
structure Onward (s t : TcpServer) : Prop where
  numThreads : t.numThreads = s.numThreads
  phase : ∀ l, (t.loop l).phase = (s.loop l).phase
  called : ∀ l, (t.loop l).called = (s.loop l).called
  logs : ∀ c, (s.conn c).log <+: (t.conn c).log

theorem Onward.rfl : Onward s s :=
  ⟨.refl _, fun _ => .refl _, fun _ => .refl _, fun _ => List.prefix_rfl⟩

theorem Onward.trans (h : Onward s t) (h' : Onward t u) : Onward s u where
  numThreads := h'.numThreads.trans h.numThreads
  phase l := (h'.phase l).trans (h.phase l)
  called l := (h'.called l).trans (h.called l)
  logs c := (h.logs c).trans (h'.logs c)

theorem onward_setLoop {q : ServerLoop} (hp : q.phase = (s.loop l).phase)
    (hc : q.called = (s.loop l).called) : Onward s (s.setLoop l q) where
  numThreads := rfl
  phase l' := by
    rw [loop_setLoop]
    split
    · rename_i hl; rw [hl, hp]
    · rfl
  called l' := by
    rw [loop_setLoop]
    split
    · rename_i hl; rw [hl, hc]
    · rfl
  logs _ := List.prefix_rfl

theorem onward_mark (s : TcpServer) (c : Nat) (m : Mark) : Onward s (s.mark c m) where
  numThreads := rfl
  phase _ := rfl
  called _ := rfl
  logs c' := by
    show _ <+: (Function.update s.conn c _ c').log
    by_cases hc : c' = c
    · rw [hc, Function.update_self]
      exact List.prefix_append _ _
    · rw [Function.update_of_ne hc]

theorem onward_setTcp (s : TcpServer) (c : Nat) (tcp : TcpConnection) : Onward s (s.setTcp c tcp) where
  numThreads := rfl
  phase _ := rfl
  called _ := rfl
  logs c' := by
    show _ <+: (Function.update s.conn c _ c').log
    by_cases hc : c' = c
    · rw [hc, Function.update_self]
    · rw [Function.update_of_ne hc]

theorem parts_onward : ServerParts Onward where
  refl _ := .rfl
  trans := .trans
  enter _ _ _ := onward_setLoop rfl rfl
  queueInLoop _ _ _ := onward_setLoop rfl rfl
  mark := onward_mark
  erase _ _ := ⟨rfl, fun _ => rfl, fun _ => rfl, fun _ => List.prefix_rfl⟩
  absorb s c w := (onward_setTcp s c w.conn).trans (onward_setLoop rfl rfl)

theorem onward_proceed {r : ReadResult} {r' : WriteResult}
    (ho : (s.setLoop l ((s.loop l).pop rest)).perform logErrno l r r' j = some t) : Onward s t := by
  refine .trans (onward_setLoop ?_ ?_) (parts_onward.perform ho)
  · rfl
  · rfl

theorem onward_dispatch (s : TcpServer) (l c : Nat) (revents : EventMask)
    (active : List (Nat × EventMask)) : Onward s (s.dispatch l c revents active) := by
  obtain ⟨cbs, -, heq⟩ := dispatch_eq s l c revents active
  rw [heq]
  exact (onward_setTcp s c _).trans (onward_setLoop rfl rfl)

/-- Beyond the pool there are no loops, and a batch is kept only while its functors are called. -/
structure Tidy (s : TcpServer) : Prop where
  beyond : ∀ l, s.numThreads < l → (s.loop l).phase = .polling
  batch : ∀ l, (s.loop l).phase ≠ .calling → (s.loop l).called = []

theorem Tidy.onward (h : s.Tidy) (ho : Onward s t) : t.Tidy where
  beyond l hl := by
    rw [ho.numThreads] at hl
    rw [ho.phase]
    exact h.beyond l hl
  batch l hp := by
    rw [ho.phase] at hp
    rw [ho.called]
    exact h.batch l hp

theorem Tidy.setLoop {q : ServerLoop} (h : s.Tidy) (hl : l ≤ s.numThreads)
    (hq : q.phase ≠ .calling → q.called = []) : (s.setLoop l q).Tidy where
  beyond l' hl' := by
    change s.numThreads < l' at hl'
    rw [loop_setLoop, if_neg (by omega)]
    exact h.beyond l' hl'
  batch l' hp := by
    rw [loop_setLoop] at hp ⊢
    split at hp
    · rename_i hll; rw [if_pos hll]; exact hq hp
    · rename_i hll; rw [if_neg hll]; exact h.batch l' hp

theorem Tidy.le_of_phase (h : s.Tidy) (hp : (s.loop l).phase ≠ .polling) : l ≤ s.numThreads := by
  by_contra hl
  exact hp (h.beyond l (Nat.lt_of_not_le hl))

theorem stepped_tidy (hs : Stepped logErrno s a t) (h : s.Tidy) : t.Tidy := by
  cases hs with
  | poll hl hp _ _ =>
    exact h.setLoop hl fun _ => h.batch _ (by rw [hp]; simp)
  | @accept inSockfd _ hp _ _ _ =>
    have hset := h.setLoop (q := (s.loop 0).push (.establish s.accepted)) (Nat.zero_le _) (h.batch 0)
    exact ⟨hset.beyond, hset.batch⟩
  | dispatch _ _ _ => exact h.onward (onward_dispatch s _ _ _ _)
  | proceed hst ho => exact h.onward (onward_proceed ho)
  | swap hp _ _ => exact h.setLoop (h.le_of_phase (by rw [hp]; simp)) fun hne => absurd rfl hne
  | call hp _ _ => exact h.setLoop (h.le_of_phase (by rw [hp]; simp)) fun hne => absurd hp hne
  | destroyFunctors hp _ _ => exact h.setLoop (h.le_of_phase (by rw [hp]; simp)) fun _ => rfl
  | leave hp _ _ => exact h.setLoop (h.le_of_phase (by rw [hp]; simp)) fun _ => rfl
  | send _ _ _ _ => exact h.onward (parts_onward.absorb s _ _)
  | shutdown _ _ => exact h.onward (parts_onward.absorb s _ _)
  | hold _ _ => exact ⟨h.beyond, h.batch⟩
  | release _ => exact ⟨h.beyond, h.batch⟩
  | foreignSend _ =>
    split
    · exact h.onward (parts_onward.queueInLoop s _ _)
    · exact h
  | foreignShutdown _ =>
    split
    · exact h.onward ((parts_onward.absorb s _ _).trans (parts_onward.queueInLoop _ _ _))
    · exact h
  | destroyServer _ => exact ⟨h.beyond, h.batch⟩
  | quitLoop _ hl _ _ => exact h.setLoop hl.2 (h.batch _)

theorem step_tidy (hs : step logErrno s a = some t) (h : s.Tidy) : t.Tidy := by
  obtain ⟨u, hu, rfl⟩ := step_some hs
  have ht := stepped_tidy hu h
  exact ⟨ht.beyond, ht.batch⟩

theorem started_tidy (name ipPort : String) (numThreads : Nat) (cb cb' cb'' : Bool) :
    (started name ipPort numThreads cb cb' cb'').Tidy :=
  ⟨fun _ _ => rfl, fun _ _ => rfl⟩

/-! ### The loops' own steps -/

theorem Confined.le_of_mem (h : s.Confined) (hj : j ∈ (s.loop l).jobs) : l ≤ s.numThreads := by
  obtain ⟨hc, hl⟩ := h.jobs l j hj
  have hle := h.loop_le j.conn hc
  rw [← hl]
  cases j <;> first | exact Nat.zero_le _ | exact hle

theorem stepped_work (hc : s.Confined) (ht : s.Tidy) (ha : s.Internal a) (hs : Stepped logErrno s a t) :
    t.work < s.work := by
  cases hs with
  | poll hl hp _ _ hend =>
    obtain ⟨rfl, hwoken⟩ := ha
    exact work_setLoop_lt hl (work_polled hp hend hwoken)
  | @dispatch l c revents active hp hstack hactive =>
    have hl := ht.le_of_phase (l := l) (by rw [hp]; simp)
    have hcbs : ∀ ch guarded, (Channel.handleEvent ch guarded).length ≤ 4 := by
      intro ch guarded
      have hle : ch.handleEventWithGuard.length ≤ 4 := ch.handleEventWithGuard_sublist.length_le
      unfold Channel.handleEvent
      split
      · split
        · exact hle
        · exact Nat.zero_le _
      · exact hle
    exact work_setLoop_lt (s := s.setTcp c _) hl (work_dispatched hstack hactive (hcbs _ _))
  | @proceed l r r' j rest _ hst ho =>
    have hl := hc.le_of_mem (mem_jobs_stack (by rw [hst]; exact List.mem_cons_self ..))
    have hpop := work_pop hst
    have hset := work_setLoop hl (s := s) (q := (s.loop l).pop rest)
    have hdone := work_perform ho
    omega
  | swap hp _ _ => exact work_setLoop_lt (ht.le_of_phase (by rw [hp]; simp)) (work_swapped hp)
  | call hp hstack hfun =>
    exact work_setLoop_lt (ht.le_of_phase (by rw [hp]; simp)) (work_taking hstack hfun)
  | destroyFunctors hp _ _ hq =>
    exact work_setLoop_lt (ht.le_of_phase (by rw [hp]; simp)) (work_batchDone hp hq)
  | leave hp _ _ => exact work_setLoop_lt (ht.le_of_phase (by rw [hp]; simp)) (work_exited hp)
  | accept _ _ _ _ _ => exact ha.elim
  | send _ _ _ _ => exact ha.elim
  | shutdown _ _ => exact ha.elim
  | hold _ _ => exact ha.elim
  | release _ => exact ha.elim
  | foreignSend _ => exact ha.elim
  | foreignShutdown _ => exact ha.elim
  | destroyServer _ => exact ha.elim
  | quitLoop _ _ _ _ => exact ha.elim

/-- Every step of a loop's own leaves less to do. -/
theorem work_step (hc : s.Confined) (ht : s.Tidy) (ha : s.Internal a) (hs : step logErrno s a = some t) :
    t.work < s.work := by
  obtain ⟨u, hu, rfl⟩ := step_some hs
  have hwork : u.work < s.work := stepped_work hc ht ha hu
  exact hwork

theorem internal_logs (ha : s.Internal a) (hs : step logErrno s a = some t) (c : Nat) :
    (s.conn c).log <+: (t.conn c).log := by
  obtain ⟨u, hu, rfl⟩ := step_some hs
  show _ <+: (u.conn c).log
  cases hu with
  | poll _ _ _ _ => exact List.prefix_rfl
  | dispatch _ _ _ => exact (onward_dispatch s _ _ _ _).logs c
  | proceed _ ho => exact (onward_proceed ho).logs c
  | swap _ _ _ => exact List.prefix_rfl
  | call _ _ _ => exact List.prefix_rfl
  | destroyFunctors _ _ _ => exact List.prefix_rfl
  | leave _ _ _ => exact List.prefix_rfl
  | accept _ _ _ _ _ => exact ha.elim
  | send _ _ _ _ => exact ha.elim
  | shutdown _ _ => exact ha.elim
  | hold _ _ => exact ha.elim
  | release _ => exact ha.elim
  | foreignSend _ => exact ha.elim
  | foreignShutdown _ => exact ha.elim
  | destroyServer _ => exact ha.elim
  | quitLoop _ _ _ _ => exact ha.elim

theorem internal_permits (ha : s.Internal a) : s.Permits a := by
  cases a with
  | poll l events =>
    obtain ⟨rfl, -⟩ := ha
    exact fun e he => by cases he
  | dispatch l => trivial
  | proceed l r r' => trivial
  | swap l => trivial
  | call l => trivial
  | destroyFunctors l => trivial
  | accept _ => exact ha.elim
  | send _ _ _ => exact ha.elim
  | shutdown _ => exact ha.elim
  | hold _ => exact ha.elim
  | release _ => exact ha.elim
  | foreignSend _ _ => exact ha.elim
  | foreignShutdown _ => exact ha.elim
  | destroyServer => exact ha.elim
  | quitLoop _ => exact ha.elim

/-- Every loop waits in `poll`, and nothing is queued. -/
def Quiet (s : TcpServer) : Prop := ∀ l ≤ s.numThreads, s.Waits l

instance (s : TcpServer) : Decidable s.Quiet := by unfold Quiet; infer_instance

/-- What a run of the loops' own steps keeps. -/
structure Draining (t s : TcpServer) : Prop where
  serving : s.Serving
  sane : s.Sane
  tidy : s.Tidy
  accepted : s.accepted = t.accepted
  logs : ∀ c, (t.conn c).log <+: (s.conn c).log

theorem Draining.step (h : Draining t s) (ha : s.Internal a) (hs : step logErrno s a = some u) :
    Draining t u ∧ u.work < s.work := by
  have hsettled := settled_step hs h.sane fun fd hfd => by rw [hfd] at ha; exact ha
  refine ⟨?_, work_step h.sane.confined h.tidy ha hs⟩
  exact {
    serving := step_serving (internal_permits ha) hs h.serving
    sane := step_sane hs h.sane
    tidy := step_tidy hs h.tidy
    accepted := hsettled.accepted.trans h.accepted
    logs := fun c => (h.logs c).trans (internal_logs ha hs c) }

theorem Draining.goes_on (h : Draining t s) :
    s.Quiet ∨ ∃ a u, s.Internal a ∧ TcpServer.step logErrno s a = some u := by
  by_cases hq : s.Quiet
  · exact .inl hq
  obtain ⟨l, hl⟩ := not_forall.1 hq
  obtain ⟨hle, hw⟩ := Classical.not_imp.1 hl
  obtain ⟨a, u, -, ha, hu⟩ := h.serving.goes_on logErrno hle hw
  exact .inr ⟨a, u, ha, hu⟩

/-- Where nothing is left to do, a connection that was closed has been destroyed. -/
theorem Draining.quiet (h : Draining t s) (hq : s.Quiet) (hc : c < t.accepted)
    (hclosed : .closed ∈ (t.conn c).log) :
    .destroyed ∈ (s.conn c).log ∧ (∀ n, s.connections n ≠ some c) ∧
      (s.owned c = true ↔ 0 < s.held c) := by
  obtain ⟨st, hi⟩ := h.serving.inv
  have hjobs : ∀ l ≤ s.numThreads, (s.loop l).jobs = [] := by
    intro l hl
    obtain ⟨hp, hpend⟩ := hq l hl
    obtain ⟨hstack, hfun, -⟩ := (hi.shape l).polling hp
    simp [ServerLoop.jobs, hstack, hfun, hpend]
  have hacc : c < s.accepted := h.accepted ▸ hc
  have hpresent : st c ≠ .absent := by
    rw [ne_eq, hi.absent]
    omega
  have hst : st c = .destroyed := by
    refine (hi.quiescent hjobs hacc).resolve_left fun hopen => ?_
    have hmem := (h.logs c).subset hclosed
    rw [mem_marks (hi.conns c hpresent) rfl, hopen] at hmem
    revert hmem
    decide
  have hmap : ∀ n, s.connections n ≠ some c := by
    intro n hn
    have hm := ((hi.connections n c).1 hn).1
    rw [hst] at hm
    revert hm
    decide
  refine ⟨?_, hmap, ?_⟩
  · rw [mem_marks (hi.conns c hpresent) rfl, hst]
    decide
  · rw [owned_iff]
    constructor
    · rintro (hn | hheld | ⟨l, hl, j, hj, -⟩)
      · exact absurd hn (hmap _)
      · exact hheld
      · have hcalled := h.tidy.batch l (by rw [(hq l hl).1]; simp)
        rw [hjobs l hl, hcalled] at hj
        cases hj
    · exact fun hheld => .inr (.inl hheld)

section
variable (logErrno : Errno → Errno) (name ipPort : String) (numThreads : Nat) (cb cb' cb'' : Bool)
  (as : List ServerStep)

theorem run_tidy
    (hr : run (step logErrno) (started name ipPort numThreads cb cb' cb'') as = some t) : t.Tidy :=
  run_inv (I := Tidy) (fun _ _ _ hs h => step_tidy hs h) hr (started_tidy ..)

/-- In a run in which the kernel and the users keep to what they owe, the loops left to themselves stop
only when each of them waits in `poll` with nothing queued, and always get there; every connection that
was closed has then been destroyed, is in no entry of the map, and lives on only where a user holds it. -/
theorem server_drains
    (hper : Along (step logErrno) Permits (started name ipPort numThreads cb cb' cb'') as)
    (hr : run (step logErrno) (started name ipPort numThreads cb cb' cb'') as = some t) :
    (∃ bs u, Along (step logErrno) Internal t bs ∧ run (step logErrno) t bs = some u ∧ u.Quiet) ∧
    ∀ bs u, Along (step logErrno) Internal t bs → run (step logErrno) t bs = some u →
      (u.Quiet ∨ ∃ a v, u.Internal a ∧ step logErrno u a = some v) ∧
      (u.Quiet → ∀ c < t.accepted, .closed ∈ (t.conn c).log →
        .destroyed ∈ (u.conn c).log ∧ (∀ n, u.connections n ≠ some c) ∧
          (u.owned c = true ↔ 0 < u.held c)) := by
  have hsane := run_sane logErrno name ipPort numThreads cb cb' cb'' as hr
  have htidy := run_tidy logErrno name ipPort numThreads cb cb' cb'' as hr
  have h : Draining t t :=
    ⟨run_lifecycle (started_serving ..) hper hr, hsane, htidy, rfl, fun _ => List.prefix_rfl⟩
  have hstep : ∀ s a u, s.Internal a → step logErrno s a = some u → Draining t s →
      Draining t u ∧ u.work < s.work := fun _ _ _ ha hs hd => hd.step ha hs
  refine ⟨exists_run_to hstep (fun s hd => hd.goes_on) h, fun bs u hA hu => ?_⟩
  have hd : Draining t u := run_inv_along (fun s a v ha hs hd => (hstep s a v ha hs hd).1) hA hu h
  exact ⟨hd.goes_on, fun hq c hc hclosed => hd.quiet hq hc hclosed⟩

end

set_option maxRecDepth 20000 in
/-- A connection that has just been closed is destroyed by what the loops go on to do. -/
theorem closed_one_drains : ∃ t, run (step id) (started "s" "ip" 1 true true true) (lifeOfOne.take 17) =
    some t ∧ .destroyed ∉ (t.conn 0).log ∧
      ∃ bs u, run (step id) t bs = some u ∧ u.Quiet ∧ .destroyed ∈ (u.conn 0).log := by
  have hrun : (run (step id) (started "s" "ip" 1 true true true) (lifeOfOne.take 17)).map (fun t =>
      (t.accepted, (t.conn 0).log.filter Mark.lifecycle)) = some (1, [.established, .closed]) := by
    decide +kernel
  obtain ⟨t, hr, ht⟩ := Option.map_eq_some_iff.1 hrun
  obtain ⟨hacc, hlog⟩ := Prod.mk.inj ht
  have hmem : ∀ m, m.lifecycle = true → (m ∈ (t.conn 0).log ↔ m ∈ [.established, .closed]) := by
    intro m hm
    rw [← hlog, List.mem_filter, and_iff_left hm]
  obtain ⟨⟨bs, u, hA, hu, hq⟩, hall⟩ := server_drains id "s" "ip" 1 true true true (lifeOfOne.take 17)
    (by decide +kernel) hr
  refine ⟨t, hr, ?_, bs, u, hu, hq, ?_⟩
  · rw [hmem _ rfl]
    decide
  · exact ((hall bs u hA hu).2 hq 0 (by omega) ((hmem _ rfl).2 (by decide))).1

end TcpServer
end Muduo
