import Muduo.Acceptor
import Muduo.PoolStart

/-!
# Starting a server (`TcpServer::start`)

Any number of threads call `start`; one of them finds `m_started` false, starts the pool, and then runs or
queues the acceptor's `listen`. The acceptor, with everything else in the server's own loop, and the pool's
threads go on meanwhile. A connection that the acceptor passes on is given a loop by `newConnection`.
-/

namespace Muduo
open Lts

/-- The connection was passed to `newConnection`. -/
def Fate.passed : Fate → Bool
  | .newConnection _ => true
  | _ => false

/-- The connections passed to the callback so far. -/
def Acceptor.passed {ι κ : Type} (s : Acceptor ι κ) : Nat := s.fates.countP fun f => f.2.passed

structure ServerStart (T F ι κ : Type) where
  /-- `m_started` -/
  started : Bool
  pool : EventLoopThreadPool T F
  acceptor : Acceptor ι κ
  /-- The call of `start` that starts the pool; the flag says that it is on the loop's own thread. -/
  starter : Option Bool
  /-- The functors with a call of `listen` that the loop has still to run. -/
  pendingListens : Nat
  /-- The calls of `listen` made so far, and the loops that connections were given; the code keeps no such
  record. -/
  listens : Nat
  given : List Nat

inductive StartStep (T F ι κ : Type)
  | start (inLoopThread threadInitCallback : Bool)
  /-- A step of the pool that is no call of it. -/
  | pool (a : PoolStep T F)
  /-- The pool has been started. -/
  | runInLoop
  | callFunctor
  /-- A step of the server's own loop. -/
  | acceptor (a : AcceptStep ι κ)

/-- The steps that `start` and `newConnection` do not take. -/
def PoolStep.own {T F : Type} : PoolStep T F → Bool
  | .start _ => false
  | .getNextLoop => false
  | _ => true

/-- The steps that the server does not take. -/
def AcceptStep.own {ι κ : Type} : AcceptStep ι κ → Bool
  | .listen => false
  | .setNewConnectionCallback _ => false
  | _ => true

/-- What a step of the loop does to an acceptor whose callback is set. -/
structure Acceptor.Served {ι κ : Type} (s t : Acceptor ι κ) : Prop where
  callback : t.newConnectionCallback = true
  listenning : t.listenning = s.listenning
  kept : (∀ f ∈ s.fates, ∀ fd, f.2 ≠ .closed fd) → ∀ f ∈ t.fates, ∀ fd, f.2 ≠ .closed fd
  passed : t.passed = s.passed ∨ t.passed = s.passed + 1 ∧ s.backlog ≠ []
  arrived : t.arrived ≠ [] → s.arrived ≠ [] ∨ s.listenning = true

theorem Acceptor.Did.served {ι κ : Type} {s t : Acceptor ι κ} {a : AcceptStep ι κ} (hd : s.Did a t)
    (ha : a.own = true) (hcb : s.newConnectionCallback = true) : s.Served t := by
  cases hd with
  | polled _ => exact ⟨hcb, rfl, id, .inl rfl, .inl⟩
  | passed _ => exact ⟨hcb, rfl, id, .inl rfl, .inl⟩
  | operated _ _ _ => exact ⟨hcb, rfl, id, .inl rfl, .inl⟩
  | callbackSet _ => cases ha
  | listened _ _ _ => cases ha
  | arrived _ hl => exact ⟨hcb, rfl, id, .inl rfl, fun _ => .inr hl⟩
  | accepted _ _ hb =>
    refine ⟨hcb, rfl, fun hk f hf fd => ?_, .inr ⟨?_, by rw [hb]; simp⟩, .inl⟩
    · rcases List.mem_append.1 hf with hf | hf
      · exact hk f hf fd
      · rw [List.mem_singleton.1 hf, if_pos hcb]
        simp
    · simp [Acceptor.passed, hcb, Fate.passed]
  | destroyed _ _ _ _ =>
    refine ⟨hcb, rfl, fun hk f hf fd => ?_, .inl ?_, .inl⟩
    · rcases List.mem_append.1 hf with hf | hf
      · exact hk f hf fd
      · obtain ⟨peer, -, rfl⟩ := List.mem_map.1 hf
        simp
    · simp [Acceptor.passed, Fate.passed]

namespace ServerStart
variable {T F ι κ : Type} [DecidableEq T] [DecidableEq ι] {s t : ServerStart T F ι κ} {w : Registry ι} {ptr : ι}
  {a : StartStep T F ι κ} {as : List (StartStep T F ι κ)}

/-- A constructed server. -/
def new (name : String) (w : Registry ι) (ptr : ι) : ServerStart T F ι κ where
  started := false
  pool := .new name
  acceptor := { Acceptor.new w ptr with newConnectionCallback := true }
  starter := none
  pendingListens := 0
  listens := 0
  given := []

def listen (s : ServerStart T F ι κ) : Option (ServerStart T F ι κ) :=
  (s.acceptor.step .listen).map fun acceptor => { s with acceptor := acceptor, listens := s.listens + 1 }

/-- The acceptor's step, with the part of `newConnection` that gives the connection its loop. -/
def accept (s : ServerStart T F ι κ) (acceptor : Acceptor ι κ) : Option (ServerStart T F ι κ) :=
  if s.acceptor.passed < acceptor.passed then
    s.pool.getNextLoop.toOption.map fun (loop, pool) =>
      { s with acceptor := acceptor, pool := pool, given := s.given ++ [loop] }
  else some { s with acceptor := acceptor }

def step (s : ServerStart T F ι κ) : StartStep T F ι κ → Option (ServerStart T F ι κ)
  | .start inLoopThread threadInitCallback =>
    if s.acceptor.alive then
      if s.started then some s
      else (s.pool.step (.start threadInitCallback)).map fun pool =>
        { s with started := true, pool := pool, starter := some inLoopThread }
    else none
  | .pool a => if a.own then (s.pool.step a).map fun pool => { s with pool := pool } else none
  | .runInLoop =>
    match s.starter, s.pool.startPc with
    | some true, .returned => { s with starter := none }.listen
    | some false, .returned => some { s with starter := none, pendingListens := s.pendingListens + 1 }
    | _, _ => none
  | .callFunctor =>
    if 0 < s.pendingListens then { s with pendingListens := s.pendingListens - 1 }.listen else none
  | .acceptor a => if a.own then (s.acceptor.step a).bind s.accept else none

/-! ### The invariant -/

/-- The one call of `listen` that there is: still to be asked for, on its way, or made. -/
def calls (s : ServerStart T F ι κ) : Nat :=
  (!s.started).toNat + s.starter.isSome.toNat + s.pendingListens + s.listens

structure Inv (s : ServerStart T F ι κ) : Prop where
  pool : s.pool.Inv
  acceptor : s.acceptor.Inv
  callback : s.acceptor.newConnectionCallback = true
  kept : ∀ f ∈ s.acceptor.fates, ∀ fd, f.2 ≠ .closed fd
  calls : s.calls = 1
  idle : s.started = false → s.pool.startPc = .idle
  ready : 0 < s.pendingListens + s.listens → s.pool.startPc = .returned
  listening : s.acceptor.listenning = true → 0 < s.listens
  arrived : s.acceptor.arrived ≠ [] → 0 < s.listens
  given : s.given.length = s.acceptor.passed
  loops : ∀ l ∈ s.given, l ∈ s.pool.getAllLoops

omit [DecidableEq T] [DecidableEq ι] in
theorem new_inv (name : String) (h : w.Fresh) (hptr : w.chan ptr = { fd := (w.chan ptr).fd }) :
    (new name w ptr : ServerStart T F ι κ).Inv where
  pool := .new name
  acceptor := (Acceptor.new_inv h hptr).congr (EventPoller.new_inv h) rfl rfl rfl rfl rfl (fun _ hn => hn) rfl
  callback := rfl
  kept f hf := by cases hf
  calls := rfl
  idle _ := rfl
  ready h0 := absurd h0 (Nat.lt_irrefl 0)
  listening hl := by cases hl
  arrived hn := absurd rfl hn
  given := rfl
  loops l hl := by cases hl

omit [DecidableEq T] in
/-- `listen`, as the last of the steps that the one call of `start` leads to. -/
theorem Inv.listen {starter : Option Bool} {pending : Nat} (h : s.Inv) (hpc : s.pool.startPc = .returned)
    (hcalls : (!s.started).toNat + starter.isSome.toNat + pending + (s.listens + 1) = 1)
    (ht : listen { s with starter := starter, pendingListens := pending } = some t) : t.Inv := by
  obtain ⟨acceptor, hacc, rfl⟩ := Option.map_eq_some_iff.1 ht
  have hd := Acceptor.step_did h.acceptor hacc
  have hi := hd.inv h.acceptor
  cases hd with
  | listened ha hd hq =>
    exact { h with
      acceptor := hi
      calls := hcalls
      ready := fun _ => hpc
      listening := fun _ => Nat.succ_pos _
      arrived := fun _ => Nat.succ_pos _ }

omit [DecidableEq T] [DecidableEq ι] in
theorem Inv.accept (h : s.Inv) {acceptor : Acceptor ι κ} (hi : acceptor.Inv) (hd : s.acceptor.Served acceptor) :
    ∃ t, s.accept acceptor = some t ∧ t.Inv := by
  have hready : s.acceptor.arrived ≠ [] → s.pool.startPc = .returned := fun hne =>
    h.ready (Nat.lt_of_lt_of_le (h.arrived hne) (Nat.le_add_left _ _))
  have harrived : acceptor.arrived ≠ [] → 0 < s.listens := by
    intro hne
    rcases hd.arrived hne with hne | hl
    · exact h.arrived hne
    · exact h.listening hl
  have hlistening : acceptor.listenning = true → 0 < s.listens := by
    rw [hd.listenning]
    exact h.listening
  rcases hd.passed with hsame | ⟨hmore, hb⟩
  · refine ⟨{ s with acceptor := acceptor }, ?_, ?_⟩
    · rw [ServerStart.accept, if_neg (by omega)]
    · exact { h with
        acceptor := hi
        callback := hd.callback
        kept := hd.kept h.kept
        listening := hlistening
        arrived := harrived
        given := h.given.trans hsame.symm }
  · -- the connection had arrived, so the pool has been started
    have hpc : s.pool.startPc = .returned := by
      refine hready fun hnil => hb ?_
      have hf := h.acceptor.fates
      rw [hnil] at hf
      exact (List.append_eq_nil_iff.1 hf).2
    obtain ⟨l, hl, hok⟩ := EventLoopThreadPool.getNextLoop_eq h.pool
    refine ⟨_, by rw [ServerStart.accept, if_pos (by omega), hok]; rfl, ?_⟩
    exact { h with
      pool := h.pool.getNextLoop hpc (RoundRobin.advance_lt h.pool.next)
      acceptor := hi
      callback := hd.callback
      kept := hd.kept h.kept
      idle := h.idle
      ready := h.ready
      listening := hlistening
      arrived := harrived
      given := by
        show (s.given ++ [l]).length = acceptor.passed
        rw [List.length_append, h.given, hmore]
        rfl
      loops := by
        intro l' hl'
        rcases List.mem_append.1 hl' with hl' | hl'
        · exact h.loops l' hl'
        · rw [List.mem_singleton.1 hl']
          exact List.mem_of_getElem? hl }

/-- A step of the pool in which nobody calls it. -/
theorem pool_own {p q : EventLoopThreadPool T F} {b : PoolStep T F} (h : p.Inv) (hb : b.own = true)
    (hq : p.step b = some q) :
    (p.startPc = .idle → q.startPc = .idle) ∧
      (p.startPc = .returned → q.startPc = .returned ∧ q.getAllLoops = p.getAllLoops) := by
  refine ⟨fun hidle => ?_, fun hret => EventLoopThreadPool.step_returned h hret hq⟩
  cases EventLoopThreadPool.step_some hq with
  | setThreadNum hpc => exact hpc
  | start hpc => cases hb
  | newThread hpc => rw [hidle] at hpc; cases hpc
  | startLoopReturns hpc => rw [hidle] at hpc; cases hpc
  | startReturns hpc => rw [hidle] at hpc; cases hpc
  | thread => exact hidle
  | getNextLoop hpc => cases hb

omit [DecidableEq T] [DecidableEq ι] in
/-- Before the pool has been started no connection has been given a loop. -/
theorem Inv.given_nil (h : s.Inv) (hpc : s.pool.startPc ≠ .returned) : s.given = [] := by
  have hnil : s.acceptor.arrived = [] := by
    by_contra hne
    exact hpc (h.ready (Nat.lt_of_lt_of_le (h.arrived hne) (Nat.le_add_left _ _)))
  have hfates : s.acceptor.fates = [] := by
    have hf := h.acceptor.fates
    rw [hnil] at hf
    exact List.map_eq_nil_iff.1 (List.append_eq_nil_iff.1 hf).1
  rw [← List.length_eq_zero_iff, h.given, Acceptor.passed, hfates]
  rfl

omit [DecidableEq ι] in
theorem Inv.poolStep {b : PoolStep T F} {q : EventLoopThreadPool T F} (h : s.Inv) (hb : b.own = true)
    (hq : s.pool.step b = some q) : Inv { s with pool := q } := by
  obtain ⟨hidle, hret⟩ := pool_own h.pool hb hq
  refine { h with
    pool := h.pool.step hq
    calls := h.calls
    idle := fun hs => hidle (h.idle hs)
    ready := fun h0 => (hret (h.ready h0)).1
    loops := fun l hl => ?_ }
  by_cases hpc : s.pool.startPc = .returned
  · show l ∈ q.getAllLoops
    rw [(hret hpc).2]
    exact h.loops l hl
  · change l ∈ s.given at hl
    rw [h.given_nil hpc] at hl
    cases hl

omit [DecidableEq ι] in
theorem Inv.start {cb b : Bool} {q : EventLoopThreadPool T F} (h : s.Inv) (hs : s.started = false)
    (hq : s.pool.step (.start cb) = some q) :
    Inv { s with started := true, pool := q, starter := some b } := by
  have hcalls := h.calls
  rw [ServerStart.calls, hs] at hcalls
  simp only [Bool.not_false, Bool.toNat_true] at hcalls
  have hpending : s.pendingListens = 0 := by omega
  have hlistens : s.listens = 0 := by omega
  refine { h with
    pool := h.pool.step hq
    calls := ?_
    idle := fun hn => by cases hn
    ready := fun h0 => ?_
    loops := fun l hl => ?_ }
  · show 0 + 1 + s.pendingListens + s.listens = 1
    omega
  · change 0 < s.pendingListens + s.listens at h0
    omega
  · change l ∈ s.given at hl
    rw [h.given_nil (by rw [h.idle hs]; simp)] at hl
    cases hl

theorem Inv.step (h : s.Inv) (ht : s.step a = some t) : t.Inv := by
  cases a with
  | start b cb =>
    rw [ServerStart.step] at ht
    split at ht
    · split at ht
      · cases ht
        exact h
      · rename_i hs
        obtain ⟨q, hq, rfl⟩ := Option.map_eq_some_iff.1 ht
        exact h.start (Bool.eq_false_of_not_eq_true hs) hq
    · cases ht
  | pool b =>
    obtain ⟨hb, ht⟩ := Option.ite_none_right_eq_some.1 ht
    obtain ⟨q, hq, rfl⟩ := Option.map_eq_some_iff.1 ht
    exact h.poolStep hb hq
  | runInLoop =>
    have hcalls := h.calls
    rw [ServerStart.step] at ht
    split at ht
    · rename_i hstarter hpc
      rw [ServerStart.calls, hstarter] at hcalls
      refine h.listen hpc ?_ ht
      simp only [Option.isSome_some, Bool.toNat_true, Option.isSome_none, Bool.toNat_false] at hcalls ⊢
      omega
    · rename_i hstarter hpc
      cases ht
      rw [ServerStart.calls, hstarter] at hcalls
      refine { h with calls := ?_, ready := fun _ => hpc }
      simp only [Option.isSome_some, Bool.toNat_true] at hcalls
      show (!s.started).toNat + 0 + (s.pendingListens + 1) + s.listens = 1
      omega
    · cases ht
  | callFunctor =>
    obtain ⟨hpos, ht⟩ := Option.ite_none_right_eq_some.1 ht
    have hcalls := h.calls
    rw [ServerStart.calls] at hcalls
    refine h.listen (h.ready (by omega)) ?_ ht
    omega
  | acceptor b =>
    obtain ⟨hb, ht⟩ := Option.ite_none_right_eq_some.1 ht
    obtain ⟨acceptor, hacc, ht⟩ := Option.bind_eq_some_iff.1 ht
    have hd := Acceptor.step_did h.acceptor hacc
    obtain ⟨t', ht', hi⟩ := h.accept (hd.inv h.acceptor) (hd.served hb h.callback)
    cases ht.symm.trans ht'
    exact hi

theorem run_inv_new {name : String} (h : w.Fresh) (hptr : w.chan ptr = { fd := (w.chan ptr).fd })
    (hs : run step (new name w ptr) as = some s) : s.Inv :=
  run_inv (fun _ _ _ ht hi => Inv.step hi ht) hs (new_inv name h hptr)

/-- A loop that nobody calls `quit` on is left by nobody. -/
theorem step_unasked {i : Nat} (h : (s.pool.thread i).Unasked)
    (ha : ∀ th, a ≠ .pool (.thread i (.loop (.quit th)))) (ht : s.step a = some t) : (t.pool.thread i).Unasked := by
  have hlisten : ∀ {u v : ServerStart T F ι κ}, u.listen = some v → v.pool = u.pool := by
    intro u v hv
    obtain ⟨acceptor, -, rfl⟩ := Option.map_eq_some_iff.1 hv
    rfl
  cases a with
  | start b cb =>
    rw [ServerStart.step] at ht
    split at ht
    · split at ht
      · cases ht
        exact h
      · obtain ⟨q, hq, rfl⟩ := Option.map_eq_some_iff.1 ht
        exact EventLoopThreadPool.step_unasked h (by simp) hq
    · cases ht
  | pool b =>
    obtain ⟨-, ht⟩ := Option.ite_none_right_eq_some.1 ht
    obtain ⟨q, hq, rfl⟩ := Option.map_eq_some_iff.1 ht
    exact EventLoopThreadPool.step_unasked h (fun th hb => ha th (congrArg _ hb)) hq
  | runInLoop =>
    rw [ServerStart.step] at ht
    split at ht
    · rw [hlisten ht]
      exact h
    · cases ht
      exact h
    · cases ht
  | callFunctor =>
    obtain ⟨-, ht⟩ := Option.ite_none_right_eq_some.1 ht
    rw [hlisten ht]
    exact h
  | acceptor b =>
    obtain ⟨-, ht⟩ := Option.ite_none_right_eq_some.1 ht
    obtain ⟨acceptor, -, ht⟩ := Option.bind_eq_some_iff.1 ht
    rw [accept] at ht
    split at ht
    · obtain ⟨⟨l, q⟩, hq, rfl⟩ := Option.map_eq_some_iff.1 ht
      exact EventLoopThreadPool.getNextLoop_unasked h (toOption_eq_some.1 hq)
    · cases ht
      exact h

/-! ### Over all runs -/

/-- However many threads call `start`, and however they, the server's loop and the pool's threads are
interleaved, `listen` is called at most once, and no connection waits for the server before every thread of
the pool has its loop. Each connection accepted is passed on, never closed, and given a loop that its thread has
published, one that still exists if nobody calls `quit` on it. `m_loops` is read in range, so that nothing
keeps the acceptor from accepting. -/
theorem accepts_after_pool (name : String) (w : Registry ι) (ptr : ι) (h : w.Fresh)
    (hptr : w.chan ptr = { fd := (w.chan ptr).fd }) (as : List (StartStep T F ι κ)) (s : ServerStart T F ι κ)
    (hs : run step (new name w ptr) as = some s) :
    s.listens ≤ 1 ∧ (s.acceptor.arrived ≠ [] → s.pool.startPc = .returned) ∧
      (∀ f ∈ s.acceptor.fates, ∀ fd, f.2 ≠ .closed fd) ∧ s.given.length = s.acceptor.passed ∧
      (∀ l ∈ s.given, l = 0 ∧ s.pool.size = 0 ∨ ∃ i, l = i + 1 ∧ i < s.pool.size ∧
        EventLoopThread.announced (s.pool.thread i).thread = true ∧
        ((∀ th, .pool (.thread i (.loop (.quit th))) ∉ as) → (s.pool.thread i).alive = true)) ∧
      ∀ a : AcceptStep ι κ, a.own = true → (∃ acceptor, s.acceptor.step a = some acceptor) →
        ∃ t, s.step (.acceptor a) = some t := by
  have hi := run_inv_new h hptr hs
  have hcalls := hi.calls
  rw [ServerStart.calls] at hcalls
  refine ⟨by omega, fun hne => ?_, hi.kept, hi.given, fun l hl => ?_, fun a ha ⟨acceptor, hacc⟩ => ?_⟩
  · exact hi.ready (Nat.lt_of_lt_of_le (hi.arrived hne) (Nat.le_add_left _ _))
  · have hpc : s.pool.startPc = .returned := by
      by_contra hn
      rw [hi.given_nil hn] at hl
      cases hl
    cases l with
    | zero => exact .inl ⟨rfl, (EventLoopThreadPool.zero_mem_getAllLoops hi.pool hpc).1 (hi.loops 0 hl)⟩
    | succ i =>
      have hlt := (EventLoopThreadPool.succ_mem_getAllLoops hi.pool hpc).1 (hi.loops (i + 1) hl)
      have hann := (hi.pool.announced_iff hpc).2 hlt
      refine .inr ⟨i, rfl, hlt, hann, fun hquit => ?_⟩
      -- the invariant of a run with no such call
      have hun : (s.pool.thread i).Unasked :=
        run_inv_along (I := fun u : ServerStart T F ι κ => (u.pool.thread i).Unasked)
          (fun _ _ _ ha ht h => step_unasked h ha ht)
          (Along.of_forall fun _ a ha th hb => hquit th (hb ▸ ha)) hs .new
      exact hun.alive hann
  · have hd := Acceptor.step_did hi.acceptor hacc
    obtain ⟨t, ht, -⟩ := hi.accept (hd.inv hi.acceptor) (hd.served ha hi.callback)
    exact ⟨t, by rw [step, if_pos ha, hacc, Option.bind_some, ht]⟩

/-- Two threads start a server with one thread; a connection is accepted, and the server destroyed. -/
def startedTwice : List (StartStep Nat Nat Nat Nat) :=
  [.pool (.setThreadNum 1), .start false true, .start true true, .pool .newThread,
    .pool (.thread 0 .construct), .pool (.thread 0 .publish), .pool .startLoopReturns, .pool .startReturns,
    .runInLoop, .callFunctor, .acceptor (.arrive 100), .acceptor (.poll [(3, EPOLLIN)] [(3, EPOLLIN)]),
    .acceptor (.handleEvent (.accepted 7)), .acceptor .destroy]

set_option maxRecDepth 20000 in
theorem accepted_after_pool : ∃ s : ServerStart Nat Nat Nat Nat,
    run step (new "s" Registry.numbered 3) startedTwice = some s ∧ s.given = [1] ∧
    s.given.length = s.acceptor.passed ∧ s.pool.startPc = .returned ∧ (s.pool.thread 0).alive = true := by
  have h : ((run step (new "s" Registry.numbered 3) startedTwice).map fun s => (s.given, s.acceptor.arrived)) =
      some ([1], [100]) := by
    decide +kernel
  obtain ⟨s, hs, hg⟩ := Option.map_eq_some_iff.1 h
  obtain ⟨hgiven, harrived⟩ := Prod.mk.inj hg
  obtain ⟨-, hpc, -, hlen, hloops, -⟩ :=
    accepts_after_pool "s" Registry.numbered 3 Registry.numbered_fresh rfl startedTwice s hs
  refine ⟨s, hs, hgiven, hlen, hpc (by rw [harrived]; simp), ?_⟩
  rcases hloops 1 (by rw [hgiven]; simp) with ⟨h0, -⟩ | ⟨i, hi, -, -, halive⟩
  · cases h0
  · cases Nat.succ.inj hi
    exact halive fun th => by simp [startedTwice]

end ServerStart
end Muduo
