import Muduo.EventLoopThreadPool

/-!
# Which loops a pool hands out, and on which the init callback has been run

Each thread runs the callback once, before it publishes its loop, and `start` waits for that. With the
base loop alone it is `start` that runs it. `getNextLoop` and `getAllLoops` ask whether there are loops,
`start` whether `m_numThreads` is zero; a negative number makes the difference.
-/

namespace Muduo
open Lts RoundRobin

namespace EventLoopThread
variable {T F : Type} [DecidableEq T] {s t : EventLoopThread T F} {a : ThreadStep T F}

/-- The thread is past its callback. -/
def announced : ThreadPc → Bool
  | .published => true
  | .looping => true
  | .exited => true
  | _ => false

omit [DecidableEq T] in
theorem Wf.announced_of_started (hs : s.Wf) (ho : s.owner = .started) : announced s.thread = true := by
  cases hth : s.thread with
  | published | looping | exited => rfl
  | unstarted | constructing | calling =>
    have := hs.starting (by simp [hth])
    simp [ho] at this

/-- Only `publish` takes a thread past its callback, once. -/
theorem step_announced (h : s.step a = some t) :
    if a.publishes = true then announced s.thread = false ∧ announced t.thread = true
    else announced t.thread = announced s.thread := by
  cases step_some h with
  | publish hth hat => exact ⟨by rw [hth]; rfl, rfl⟩
  | @loop b hp hen =>
    by_cases hb : b = .loop
    · subst hb
      show announced .looping = announced s.thread
      rw [permits_loop hp]
      rfl
    · exact congrArg announced (threadAfter_eq hb)
  | startLoop _ hth => simp [ThreadStep.publishes, announced, hth]
  | construct hth => simp [ThreadStep.publishes, announced, hth]
  | leave hth hat => simp [ThreadStep.publishes, announced, hth]
  | loopReady | destroy | testLoop | join => rfl

theorem step_owner (h : s.step a = some t) (ha : a.owners = false) : t.owner = s.owner := by
  cases step_some h with
  | @loop b hp hen =>
    show s.ownerAfter b = s.owner
    unfold ownerAfter
    split
    · simp [ThreadStep.owners, LoopStep.thread] at ha
    · simp [ThreadStep.owners, LoopStep.thread] at ha
    · rfl
  | startLoop | loopReady | destroy | testLoop | join => simp [ThreadStep.owners] at ha
  | construct | publish | leave => rfl

end EventLoopThread

namespace EventLoopThreadPool
open EventLoopThread
variable {T F : Type} {p q : EventLoopThreadPool T F} {a : PoolStep T F} {as : List (PoolStep T F)}
  {l i : Nat}

/-- The number of threads `start` creates. -/
def size (p : EventLoopThreadPool T F) : Nat := p.numThreads.toInt.toNat

/-- How far `start` has come. -/
def Progress (p : EventLoopThreadPool T F) : Prop :=
  match p.startPc with
  | .idle => p.created = 0 ∧ p.loops.length = 0 ∧ p.inCallback = false
  | .creating i => p.created = i ∧ p.loops.length = i ∧ i ≤ p.size
  | .waiting i => p.created = i + 1 ∧ p.loops.length = i ∧ i < p.size
  | .returned => p.created = p.size ∧ p.loops.length = p.size

/-- The invariant of every run. -/
structure Inv (p : EventLoopThreadPool T F) : Prop where
  progress : p.Progress
  loops : p.loops = List.range' 1 p.loops.length
  next : p.next < p.getAllLoops.length
  unused : p.startPc ≠ .returned → p.next = 0
  wf : ∀ i, (p.thread i).Wf
  fresh : ∀ i, p.created ≤ i → (p.thread i).thread = .unstarted
  owner : ∀ i < p.loops.length, (p.thread i).owner = .started
  base : p.calledOn.count 0 = (p.inCallback && p.numThreads == 0).toNat
  sub : ∀ i, p.calledOn.count (i + 1) = (p.inCallback && announced (p.thread i).thread).toNat

theorem size_lt (p : EventLoopThreadPool T F) : p.size < 2 ^ 31 := by
  have := BitVec.toInt_lt (x := p.numThreads)
  unfold size
  omega

theorem Progress.length_le (h : p.Progress) : p.loops.length ≤ p.size := by
  unfold Progress at h
  split at h <;> omega

/-! ### `getNextLoop` -/

theorem getAllLoops_of_ne (h : p.loops ≠ []) : p.getAllLoops = p.loops := by
  simp [getAllLoops, h]

theorem getAllLoops_of_nil (h : p.loops = []) : p.getAllLoops = [0] := by
  simp [getAllLoops, h]

/-- The index is in range, and goes round. -/
theorem getNextLoop_eq (h : p.Inv) : ∃ l, p.getAllLoops[p.next]? = some l ∧
    p.getNextLoop = .ok (l, { p with next := advance p.getAllLoops.length p.next }) := by
  have hlt := h.next
  by_cases hl : p.loops = []
  · rw [getAllLoops_of_nil hl] at hlt ⊢
    have h0 : p.next = 0 := by simpa using hlt
    have hadv : advance [0].length p.next = p.next := by rw [h0]; rfl
    refine ⟨0, by rw [h0]; rfl, ?_⟩
    rw [hadv, getNextLoop, if_pos (by simp [hl])]
  · rw [getAllLoops_of_ne hl] at hlt ⊢
    have hsize : p.next + 1 ≤ maxSize := by
      have := h.progress.length_le
      have := p.size_lt
      unfold maxSize
      omega
    refine ⟨p.loops[p.next], List.getElem?_eq_getElem hlt, ?_⟩
    rw [getNextLoop, if_neg (by simpa using hl), List.getElem?_eq_getElem hlt]
    simp only [addSize_eq hsize]
    rfl

/-- What a call that returns leaves. -/
theorem getNextLoop_ok (h : p.Inv) (hok : p.getNextLoop = .ok (l, q)) :
    p.getAllLoops[p.next]? = some l ∧ q = { p with next := advance p.getAllLoops.length p.next } := by
  obtain ⟨l', hl, hok'⟩ := getNextLoop_eq h
  cases hok'.symm.trans hok
  exact ⟨hl, rfl⟩

/-- The server's model keeps of its pool the number of loops and `m_next`. -/
theorem getNextLoop_server {srv : TcpServer} (h : p.Inv) (hlen : srv.numThreads = p.loops.length)
    (hnext : srv.next = p.next) :
    p.getNextLoop = .ok (srv.getNextLoop.1, { p with next := srv.getNextLoop.2 }) := by
  obtain ⟨l, hl, hok⟩ := getNextLoop_eq h
  have hlt := h.next
  rw [hok, TcpServer.getNextLoop, hlen, hnext]
  by_cases hnil : p.loops = []
  · rw [getAllLoops_of_nil hnil] at hl hlt ⊢
    have h0 : p.next = 0 := by simpa using hlt
    rw [if_pos (by simp [hnil]), h0]
    rw [h0] at hl
    cases hl
    rfl
  · have hpos : p.loops.length ≠ 0 := by simpa using hnil
    rw [getAllLoops_of_ne hnil] at hl hlt ⊢
    rw [h.loops, List.getElem?_range' hlt] at hl
    cases hl
    rw [if_neg hpos, Nat.one_mul, Nat.add_comm]
    rfl

/-! ### The invariant -/

theorem Inv.new (name : String) : (new name : EventLoopThreadPool T F).Inv where
  progress := ⟨rfl, rfl, rfl⟩
  loops := rfl
  next := Nat.zero_lt_one
  unused _ := rfl
  wf _ := wf_new
  fresh _ _ := rfl
  owner i hi := absurd hi (Nat.not_lt_zero i)
  base := rfl
  sub _ := rfl

theorem Inv.setThreadNum {n : BitVec 32} (h : p.Inv) (hpc : p.startPc = .idle) :
    Inv { p with numThreads := n } := by
  have hp := h.progress
  rw [Progress, hpc] at hp
  obtain ⟨hc, hl, hcb⟩ := hp
  refine { h with progress := ?_, base := ?_ }
  · rw [Progress, hpc]
    exact ⟨hc, hl, hcb⟩
  · have hbase := h.base
    rw [hcb] at hbase
    rw [hbase, hcb]
    rfl

theorem Inv.start {cb : Bool} (h : p.Inv) (hpc : p.startPc = .idle) : (p.start cb).Inv := by
  have hp := h.progress
  rw [Progress, hpc] at hp
  obtain ⟨hc, hl, hcb⟩ := hp
  have hbase : p.calledOn.count 0 = 0 := by simpa [hcb] using h.base
  have hsub : ∀ i, p.calledOn.count (i + 1) = 0 := by simpa [hcb] using h.sub
  have hfresh : ∀ i, announced (p.thread i).thread = false := by
    intro i
    rw [h.fresh i (by omega)]
    rfl
  unfold EventLoopThreadPool.start
  split
  · rename_i hz
    have hsize : p.size = 0 := by rw [size, hz.1]; rfl
    refine { h with progress := ?_, unused := ?_, base := ?_, sub := ?_ }
    · exact ⟨hc.trans hsize.symm, hl.trans hsize.symm⟩
    · intro hne
      exact absurd rfl hne
    · show (p.calledOn ++ [0]).count 0 = (cb && p.numThreads == 0).toNat
      rw [List.count_append, hbase, hz.1, hz.2]
      rfl
    · intro i
      show (p.calledOn ++ [0]).count (i + 1) = (cb && announced (p.thread i).thread).toNat
      rw [List.count_append, hsub, hfresh, Bool.and_false]
      simp
  · rename_i hz
    refine { h with progress := ?_, unused := ?_, base := ?_, sub := ?_ }
    · exact ⟨hc, hl, Nat.zero_le _⟩
    · intro _
      exact h.unused (by simp [hpc])
    · show p.calledOn.count 0 = (cb && p.numThreads == 0).toNat
      rw [hbase]
      by_cases h0 : p.numThreads = 0
      · have hcb' : cb = false := by simpa [h0] using hz
        simp [hcb']
      · rw [beq_eq_false_iff_ne.2 h0, Bool.and_false]
        rfl
    · intro i
      show p.calledOn.count (i + 1) = (cb && announced (p.thread i).thread).toNat
      rw [hsub, hfresh, Bool.and_false]
      rfl

theorem Inv.startReturns (h : p.Inv) (hpc : p.startPc = .creating i)
    (hi : ¬ (i : Int) < p.numThreads.toInt) : Inv { p with startPc := .returned } := by
  have hp := h.progress
  rw [Progress, hpc] at hp
  obtain ⟨hc, hl, hle⟩ := hp
  have hsize : i = p.size := by
    unfold size at hle ⊢
    omega
  refine { h with progress := ?_, unused := ?_ }
  · exact ⟨hc.trans hsize, hl.trans hsize⟩
  · intro hne
    exact absurd rfl hne

theorem Inv.getNextLoop {n : Nat} (h : p.Inv) (hpc : p.startPc = .returned)
    (hn : n < p.getAllLoops.length) : Inv { p with next := n } := by
  refine { h with next := hn, unused := ?_ }
  intro hne
  exact absurd hpc hne

/-- A fact about every thread, when one of them has taken a step. -/
theorem forall_setThread {P : Nat → EventLoopThread T F → Prop} {t : EventLoopThread T F}
    (h : ∀ j, P j (p.thread j)) (ht : P i t) : ∀ j, P j ((p.setThread i t).thread j) := by
  intro j
  by_cases hj : j = i
  · subst hj
    simpa [setThread] using ht
  · simpa [setThread, hj] using h j

/-! ### A pool that has been started -/

theorem Inv.loops_eq (h : p.Inv) (hpc : p.startPc = .returned) : p.loops = List.range' 1 p.size := by
  have hp := h.progress
  rw [Progress, hpc] at hp
  rw [h.loops, hp.2]

theorem Inv.mem_loops (h : p.Inv) (hpc : p.startPc = .returned) :
    l ∈ p.loops ↔ 1 ≤ l ∧ l ≤ p.size := by
  rw [h.loops_eq hpc, List.mem_range'_1]
  omega

/-- Each thread's loop has had its callback. -/
theorem Inv.announced_iff (h : p.Inv) (hpc : p.startPc = .returned) :
    announced (p.thread i).thread = true ↔ i < p.size := by
  have hp := h.progress
  rw [Progress, hpc] at hp
  obtain ⟨hc, hl⟩ := hp
  constructor
  · intro ha
    by_contra hlt
    rw [h.fresh i (by omega)] at ha
    cases ha
  · intro hlt
    exact (h.wf i).announced_of_started (h.owner i (by omega))

theorem size_eq_zero_iff : p.size = 0 ↔ p.numThreads.toInt ≤ 0 := Int.toNat_eq_zero

theorem numThreads_eq_zero_iff : p.numThreads = 0 ↔ p.numThreads.toInt = 0 := by
  rw [← BitVec.toInt_inj]
  rfl

theorem zero_mem_getAllLoops (h : p.Inv) (hpc : p.startPc = .returned) :
    0 ∈ p.getAllLoops ↔ p.size = 0 := by
  have hlen : p.loops.length = p.size := by rw [h.loops_eq hpc, List.length_range']
  by_cases hl : p.loops = []
  · simp [getAllLoops_of_nil hl, ← hlen, hl]
  · rw [getAllLoops_of_ne hl, h.mem_loops hpc, ← hlen, List.length_eq_zero_iff]
    simp [hl]

theorem succ_mem_getAllLoops (h : p.Inv) (hpc : p.startPc = .returned) :
    i + 1 ∈ p.getAllLoops ↔ i < p.size := by
  have hlen : p.loops.length = p.size := by rw [h.loops_eq hpc, List.length_range']
  by_cases hl : p.loops = []
  · simp [getAllLoops_of_nil hl, ← hlen, hl]
  · rw [getAllLoops_of_ne hl, h.mem_loops hpc]
    omega

/-- The callback has been run once on each loop there is, unless `m_numThreads` is negative: the base
loop is handed out then, but `start` took the branch for threads. -/
theorem callback_count_iff (h : p.Inv) (hpc : p.startPc = .returned) (hcb : p.inCallback = true) :
    (∀ l, p.calledOn.count l = if l ∈ p.getAllLoops then 1 else 0) ↔ 0 ≤ p.numThreads.toInt := by
  have hbase : p.calledOn.count 0 = (p.numThreads == 0).toNat := by simpa [hcb] using h.base
  constructor
  · intro hall
    by_contra hneg
    have hz : p.numThreads ≠ 0 := by
      rw [Ne, numThreads_eq_zero_iff]
      omega
    have h0 := hall 0
    rw [hbase, beq_eq_false_iff_ne.2 hz,
      if_pos ((zero_mem_getAllLoops h hpc).2 (size_eq_zero_iff.2 (by omega)))] at h0
    cases h0
  · rintro hn (_ | i)
    · simp only [zero_mem_getAllLoops h hpc, size_eq_zero_iff]
      by_cases hz : p.numThreads = 0
      · rw [hbase, hz]
        rfl
      · have hpos : ¬ p.numThreads.toInt ≤ 0 := by
          rw [numThreads_eq_zero_iff] at hz
          omega
        rw [hbase, beq_eq_false_iff_ne.2 hz, if_neg hpos]
        rfl
    · simp only [succ_mem_getAllLoops h hpc, h.sub, hcb, Bool.true_and]
      by_cases hi : i < p.size
      · rw [(h.announced_iff hpc).2 hi, if_pos hi]
        rfl
      · rw [eq_false_of_ne_true (mt (h.announced_iff hpc).1 hi), if_neg hi]
        rfl

theorem count_called {c : Prop} [Decidable c] {xs : List Nat} {j : Nat} :
    (if c then xs ++ [i] else xs).count j = xs.count j + if c ∧ j = i then 1 else 0 := by
  split
  · rename_i hc
    rw [List.count_append, List.count_singleton]
    by_cases hj : j = i
    · simp [hc, hj]
    · simp [hj, Ne.symm hj]
  · rename_i hc
    simp [hc]

section
variable [DecidableEq T]

theorem Inv.newThread {t : EventLoopThread T F} {ns : List String} (h : p.Inv)
    (hpc : p.startPc = .creating i) (hi : (i : Int) < p.numThreads.toInt)
    (ht : EventLoopThread.new.step .startLoop = some t) :
    Inv { p.setThread i t with created := p.created + 1, names := ns, startPc := .waiting i } := by
  have hp := h.progress
  rw [Progress, hpc] at hp
  obtain ⟨hc, hl, -⟩ := hp
  have htw : t.Wf := Wf.step wf_new ht
  have hta : announced t.thread = false := by
    have hstep := step_announced ht
    rwa [if_neg (by simp [ThreadStep.publishes])] at hstep
  have hsize : i < p.size := by
    unfold size
    omega
  refine ⟨⟨congrArg (· + 1) hc, hl, hsize⟩, h.loops, h.next, fun _ => h.unused (by simp [hpc]),
    forall_setThread h.wf htw, ?_, ?_, h.base, ?_⟩
  · intro j hj
    have hne : j ≠ i := by
      change p.created + 1 ≤ j at hj
      omega
    simpa [setThread, hne] using h.fresh j (Nat.le_of_succ_le hj)
  · intro j hj
    have hne : j ≠ i := by
      change j < p.loops.length at hj
      omega
    simpa [setThread, hne] using h.owner j hj
  · refine forall_setThread (P := fun j t =>
      p.calledOn.count (j + 1) = (p.inCallback && announced t.thread).toNat) h.sub ?_
    rw [h.sub, h.fresh i (by omega), hta]
    rfl

theorem Inv.startLoopReturns {t : EventLoopThread T F} (h : p.Inv) (hpc : p.startPc = .waiting i)
    (ht : (p.thread i).step .loopReady = some t) :
    Inv { p.setThread i t with loops := p.loops ++ [i + 1], startPc := .creating (i + 1) } := by
  have hp := h.progress
  rw [Progress, hpc] at hp
  obtain ⟨hc, hl, hlt⟩ := hp
  have hlen : (p.loops ++ [i + 1]).length = i + 1 := by rw [List.length_append, hl]; rfl
  have hstep := step_announced ht
  rw [if_neg (by simp [ThreadStep.publishes])] at hstep
  obtain ⟨hto, hthread⟩ : t.owner = .started ∧ t.thread = (p.thread i).thread := by
    cases step_some ht
    exact ⟨rfl, rfl⟩
  refine ⟨⟨hc, hlen, hlt⟩, ?_, ?_, fun _ => h.unused (by simp [hpc]),
    forall_setThread h.wf (Wf.step (h.wf i) ht), ?_, ?_, h.base, ?_⟩
  · show p.loops ++ [i + 1] = List.range' 1 (p.loops ++ [i + 1]).length
    rw [hlen, List.range'_1_concat, h.loops, hl, Nat.add_comm]
  · rw [getAllLoops_of_ne (by simp)]
    show p.next < (p.loops ++ [i + 1]).length
    rw [hlen, h.unused (by simp [hpc])]
    omega
  · refine forall_setThread (P := fun j t => p.created ≤ j → t.thread = .unstarted) h.fresh ?_
    rw [hthread]
    exact h.fresh i
  · intro j hj
    change j < (p.loops ++ [i + 1]).length at hj
    by_cases hj' : j = i
    · subst hj'
      simpa [setThread] using hto
    · simpa [setThread, hj'] using h.owner j (by omega)
  · refine forall_setThread (P := fun j t =>
      p.calledOn.count (j + 1) = (p.inCallback && announced t.thread).toNat) h.sub ?_
    rw [hstep]
    exact h.sub i

theorem Inv.thread {t : EventLoopThread T F} {b : ThreadStep T F} (h : p.Inv) (hi : i < p.created)
    (hb : b.owners = false) (ht : (p.thread i).step b = some t) :
    Inv { p.setThread i t with
      calledOn := if p.inCallback ∧ b.publishes then p.calledOn ++ [i + 1] else p.calledOn } := by
  have hstep := step_announced ht
  refine ⟨h.progress, h.loops, h.next, h.unused, forall_setThread h.wf (Wf.step (h.wf i) ht), ?_, ?_,
    ?_, ?_⟩
  · refine forall_setThread (P := fun j t => p.created ≤ j → t.thread = .unstarted) h.fresh ?_
    intro hle
    omega
  · refine forall_setThread (P := fun j t => j < p.loops.length → t.owner = .started) h.owner ?_
    rw [step_owner ht hb]
    exact h.owner i
  · show (if _ then p.calledOn ++ [i + 1] else p.calledOn).count 0 = _
    rw [count_called, if_neg (by simp)]
    exact h.base
  · intro j
    show (if p.inCallback ∧ b.publishes then p.calledOn ++ [i + 1] else p.calledOn).count (j + 1) =
      (p.inCallback && announced (Function.update p.thread i t j).thread).toNat
    rw [count_called, h.sub]
    by_cases hj : j = i
    · subst hj
      rw [Function.update_self]
      by_cases hpub : b.publishes = true
      · rw [if_pos hpub] at hstep
        rw [hstep.1, hstep.2]
        cases p.inCallback <;> simp [hpub]
      · rw [if_neg hpub] at hstep
        rw [hstep]
        simp [hpub]
    · rw [Function.update_of_ne hj, if_neg (by omega), Nat.add_zero]

/-- A step, with what it needs and what it leaves. -/
inductive Stepped (p : EventLoopThreadPool T F) : PoolStep T F → EventLoopThreadPool T F → Prop
  | setThreadNum {n : BitVec 32} (hpc : p.startPc = .idle) :
    Stepped p (.setThreadNum n) { p with numThreads := n }
  | start {cb : Bool} (hpc : p.startPc = .idle) : Stepped p (.start cb) (p.start cb)
  | newThread {i : Nat} {t : EventLoopThread T F} (hpc : p.startPc = .creating i)
      (hi : (i : Int) < p.numThreads.toInt) (ht : EventLoopThread.new.step .startLoop = some t) :
    Stepped p .newThread
      { p.setThread i t with created := p.created + 1, names := p.names ++ [p.threadName i],
                             startPc := .waiting i }
  | startLoopReturns {i : Nat} {t : EventLoopThread T F} (hpc : p.startPc = .waiting i)
      (ht : (p.thread i).step .loopReady = some t) :
    Stepped p .startLoopReturns
      { p.setThread i t with loops := p.loops ++ [i + 1], startPc := .creating (i + 1) }
  | startReturns {i : Nat} (hpc : p.startPc = .creating i) (hi : ¬ (i : Int) < p.numThreads.toInt) :
    Stepped p .startReturns { p with startPc := .returned }
  | thread {i : Nat} {b : ThreadStep T F} {t : EventLoopThread T F} (hi : i < p.created)
      (hb : b.owners = false) (ht : (p.thread i).step b = some t) :
    Stepped p (.thread i b) { p.setThread i t with
      calledOn := if p.inCallback ∧ b.publishes then p.calledOn ++ [i + 1] else p.calledOn }
  | getNextLoop {l : Nat} {q : EventLoopThreadPool T F} (hpc : p.startPc = .returned)
      (hok : p.getNextLoop = .ok (l, q)) : Stepped p .getNextLoop q

theorem step_some (hs : p.step a = some q) : p.Stepped a q := by
  cases a with
  | setThreadNum n =>
    obtain ⟨hpc, hq⟩ := Option.ite_none_right_eq_some.1 hs
    cases hq
    exact .setThreadNum hpc
  | start cb =>
    obtain ⟨hpc, hq⟩ := Option.ite_none_right_eq_some.1 hs
    cases hq
    exact .start hpc
  | newThread =>
    simp only [EventLoopThreadPool.step] at hs
    split at hs
    · rename_i i hpc
      obtain ⟨hi, hs⟩ := Option.ite_none_right_eq_some.1 hs
      obtain ⟨t, ht, rfl⟩ := Option.map_eq_some_iff.1 hs
      exact .newThread hpc hi ht
    · cases hs
  | startLoopReturns =>
    simp only [EventLoopThreadPool.step] at hs
    split at hs
    · rename_i i hpc
      obtain ⟨t, ht, rfl⟩ := Option.map_eq_some_iff.1 hs
      exact .startLoopReturns hpc ht
    · cases hs
  | startReturns =>
    simp only [EventLoopThreadPool.step] at hs
    split at hs
    · rename_i i hpc
      split at hs
      · cases hs
      · rename_i hi
        cases hs
        exact .startReturns hpc hi
    · cases hs
  | thread i b =>
    obtain ⟨⟨hi, hb⟩, hs⟩ := Option.ite_none_right_eq_some.1 hs
    obtain ⟨t, ht, rfl⟩ := Option.map_eq_some_iff.1 hs
    exact .thread hi hb ht
  | getNextLoop =>
    obtain ⟨hpc, hs⟩ := Option.ite_none_right_eq_some.1 hs
    obtain ⟨⟨l, q⟩, hok, rfl⟩ := Option.map_eq_some_iff.1 hs
    exact .getNextLoop hpc (toOption_eq_some.1 hok)

theorem Inv.step (h : p.Inv) (hs : p.step a = some q) : q.Inv := by
  cases step_some hs with
  | setThreadNum hpc => exact h.setThreadNum hpc
  | start hpc => exact h.start hpc
  | newThread hpc hi ht => exact h.newThread hpc hi ht
  | startLoopReturns hpc ht => exact h.startLoopReturns hpc ht
  | startReturns hpc hi => exact h.startReturns hpc hi
  | thread hi hb ht => exact h.thread hi hb ht
  | getNextLoop hpc hok =>
    obtain ⟨-, rfl⟩ := getNextLoop_ok h hok
    exact h.getNextLoop hpc (advance_lt h.next)

theorem inv {name : String} (hr : run step (EventLoopThreadPool.new name) as = some p) : p.Inv :=
  run_inv (fun _ _ _ hs h => Inv.step h hs) hr (Inv.new name)

/-! ### What is handed out -/

theorem step_getNextLoop (h : p.Inv) (hpc : p.startPc = .returned) :
    ∃ l, p.getAllLoops[p.next]? = some l ∧ assigned p .getNextLoop = [l] ∧
      p.step .getNextLoop = some { p with next := advance p.getAllLoops.length p.next } := by
  obtain ⟨l, hl, hok⟩ := getNextLoop_eq h
  refine ⟨l, hl, ?_, ?_⟩
  · rw [assigned, hok]
    rfl
  · rw [EventLoopThreadPool.step, if_pos hpc, hok]
    rfl

theorem step_next (hs : p.step a = some q) (ha : a.calls = false) :
    q.next = p.next ∧ assigned p a = [] := by
  cases step_some hs with
  | getNextLoop => cases ha
  | start =>
    refine ⟨?_, rfl⟩
    unfold start
    split
    · rfl
    · rfl
  | setThreadNum | newThread | startLoopReturns | startReturns | thread => exact ⟨rfl, rfl⟩

/-- Once `start` has returned the loops stay as they are. -/
theorem step_returned (h : p.Inv) (hpc : p.startPc = .returned) (hs : p.step a = some q) :
    q.startPc = .returned ∧ q.getAllLoops = p.getAllLoops := by
  have hnot : ∀ {pc}, p.startPc = pc → pc ≠ .returned → False := by
    rintro pc rfl hne
    exact hne hpc
  cases step_some hs with
  | setThreadNum hidle => exact (hnot hidle (by simp)).elim
  | start hidle => exact (hnot hidle (by simp)).elim
  | newThread hi => exact (hnot hi (by simp)).elim
  | startLoopReturns hi => exact (hnot hi (by simp)).elim
  | startReturns hi => exact (hnot hi (by simp)).elim
  | thread => exact ⟨hpc, rfl⟩
  | getNextLoop _ hok =>
    obtain ⟨-, rfl⟩ := getNextLoop_ok h hok
    exact ⟨hpc, rfl⟩

theorem run_returned (h : p.Inv) (hpc : p.startPc = .returned) (hr : run step p as = some q) :
    q.getAllLoops = p.getAllLoops := by
  suffices hq : q.Inv ∧ q.startPc = .returned ∧ q.getAllLoops = p.getAllLoops from hq.2.2
  refine run_inv (I := fun u => u.Inv ∧ u.startPc = .returned ∧ u.getAllLoops = p.getAllLoops)
    ?_ hr ⟨h, hpc, rfl⟩
  rintro u a v hv ⟨hi, hpc, hl⟩
  obtain ⟨hpc', hl'⟩ := step_returned hi hpc hv
  exact ⟨hi.step hv, hpc', hl'.trans hl⟩

/-- The calls of a run are turns of a round robin over the loops there are in the end. -/
theorem collect_assigned (h : p.Inv) (hr : run step p as = some q) :
    collect step assigned p as = turns q.getAllLoops p.next (as.countP PoolStep.calls) := by
  induction as generalizing p with
  | nil => rfl
  | cons a as ih =>
    obtain ⟨u, hu, hr⟩ := run_cons_some.1 hr
    rw [collect_cons hu, ih (h.step hu) hr, List.countP_cons]
    by_cases ha : a.calls = true
    · rw [if_pos ha]
      cases a with
      | getNextLoop =>
        obtain ⟨hpc, -⟩ := Option.ite_none_right_eq_some.1 hu
        obtain ⟨l, hl, hout, hstep⟩ := step_getNextLoop h hpc
        cases hstep.symm.trans hu
        have hloops := run_returned (h.step hu) hpc hr
        change q.getAllLoops = p.getAllLoops at hloops
        rw [hout, hloops, turns, Nat.mod_eq_of_lt h.next, hl, advance_eq h.next, turns_mod]
        rfl
      | _ => cases ha
    · obtain ⟨hnext, hnone⟩ := step_next hu (eq_false_of_ne_true ha)
      rw [if_neg ha, hnext, hnone, Nat.add_zero, List.nil_append]

/-- Some later calls of `getNextLoop`, whatever happens in between, return the loop. -/
def CanReturn (p : EventLoopThreadPool T F) (l : Nat) : Prop :=
  ∃ as q, run step p as = some q ∧ l ∈ collect step assigned p as

/-- As many calls in a row as one likes. -/
theorem run_calls (h : p.Inv) (hpc : p.startPc = .returned) (k : Nat) :
    ∃ q, run step p (List.replicate k .getNextLoop) = some q := by
  induction k generalizing p with
  | zero => exact ⟨p, rfl⟩
  | succ k ih =>
    obtain ⟨l, -, -, hstep⟩ := step_getNextLoop h hpc
    obtain ⟨q, hq⟩ := ih (h.step hstep) hpc
    exact ⟨q, run_cons_some.2 ⟨_, hstep, hq⟩⟩

theorem canReturn_iff (h : p.Inv) (hpc : p.startPc = .returned) :
    p.CanReturn l ↔ l ∈ p.getAllLoops := by
  constructor
  · rintro ⟨as, q, hr, hl⟩
    rw [collect_assigned h hr, run_returned h hpc hr] at hl
    exact mem_of_mem_turns hl
  · intro hl
    -- one round is enough
    obtain ⟨q, hr⟩ := run_calls h hpc p.getAllLoops.length
    refine ⟨_, q, hr, ?_⟩
    have hk : (List.replicate p.getAllLoops.length (.getNextLoop : PoolStep T F)).countP
        PoolStep.calls = p.getAllLoops.length := by
      rw [List.countP_replicate]
      rfl
    rw [collect_assigned h hr, run_returned h hpc hr, hk, turns_length]
    exact List.mem_rotate.2 hl

/-- For every argument of `setThreadNum`, every non-empty callback and every interleaving of the threads
with `start` and with each other: once `start` has returned, the loops that later calls of `getNextLoop`
return are those of `getAllLoops`, and the callback has been run once on each of them and on no other
exactly when the argument is not negative. -/
theorem init_callback_covers_iff (name : String) (as : List (PoolStep T F))
    (hr : run step (new name) as = some p) (hpc : p.startPc = .returned)
    (hcb : p.inCallback = true) :
    (∀ l, p.CanReturn l ↔ l ∈ p.getAllLoops) ∧
      ((∀ l, p.calledOn.count l = if l ∈ p.getAllLoops then 1 else 0) ↔ 0 ≤ p.numThreads.toInt) :=
  ⟨fun _ => canReturn_iff (inv hr) hpc, callback_count_iff (inv hr) hpc hcb⟩

/-- Two threads; the first enters its loop while the second is created. -/
theorem init_callback_covers_two : ∃ p : EventLoopThreadPool Nat Nat,
    run step (new "pool") [.setThreadNum 2, .start true, .newThread, .thread 0 .construct,
      .thread 0 .publish, .startLoopReturns, .newThread, .thread 0 (.loop .loop),
      .thread 1 .construct, .thread 1 .publish, .startLoopReturns, .startReturns] = some p ∧
    ∀ l, p.calledOn.count l = if l ∈ p.getAllLoops then 1 else 0 := by
  refine ⟨_, rfl, ?_⟩
  exact (init_callback_covers_iff "pool" [.setThreadNum 2, .start true, .newThread,
    .thread 0 .construct, .thread 0 .publish, .startLoopReturns, .newThread, .thread 0 (.loop .loop),
    .thread 1 .construct, .thread 1 .publish, .startLoopReturns, .startReturns] rfl rfl rfl).2.2
    (by decide)

/-- `setThreadNum(-1)`: the callback is run nowhere, and connections go to the base loop. -/
theorem init_callback_skipped : ∃ p : EventLoopThreadPool Nat Nat,
    run step (new "pool") [.setThreadNum (-1), .start true, .startReturns] = some p ∧
    p.startPc = .returned ∧ p.inCallback = true ∧ p.calledOn = [] ∧ p.getAllLoops = [0] ∧
    assigned p .getNextLoop = [0] :=
  ⟨_, rfl, rfl, rfl, rfl, rfl, rfl⟩

/-! ### The round robin -/

/-- What the calls of `getNextLoop` in a run from the start return, in order. -/
def handedOut (name : String) (as : List (PoolStep T F)) : List Nat :=
  collect step assigned (new name) as

theorem handedOut_eq {name : String} (hr : run step (new name) as = some p)
    (hpc : p.startPc = .returned) (hn : 1 ≤ p.numThreads.toInt) :
    p.loops ≠ [] ∧ p.loops.Nodup ∧ (p.loops.length : Int) = p.numThreads.toInt ∧
      handedOut name as = turns p.loops 0 (as.countP PoolStep.calls) := by
  have h := inv hr
  have hlen : p.loops.length = p.size := by rw [h.loops_eq hpc, List.length_range']
  have hsize : (p.size : Int) = p.numThreads.toInt := Int.toNat_of_nonneg (by omega)
  have hne : p.loops ≠ [] := by
    rw [← List.length_pos_iff]
    omega
  refine ⟨hne, ?_, hlen ▸ hsize, ?_⟩
  · rw [h.loops_eq hpc]
    exact List.nodup_range'
  · rw [handedOut, collect_assigned (Inv.new name) hr, getAllLoops_of_ne hne]
    rfl

/-- For every started pool with `n ≥ 1` loops and any number of calls, in any interleaving with the
threads: every call finds its index in range, the `i`-th returns `m_loops[i mod n]`, no loop is ahead of
another by more than one, every `n` calls in a row return each loop once, and the base loop is never
returned. -/
theorem getNextLoop_fair (name : String) (as : List (PoolStep T F))
    (hr : run step (new name) as = some p) (hpc : p.startPc = .returned)
    (hn : 1 ≤ p.numThreads.toInt) :
    (∃ q, p.step .getNextLoop = some q) ∧ (p.loops.length : Int) = p.numThreads.toInt ∧
      (handedOut name as).length = as.countP PoolStep.calls ∧
      (∀ i < (handedOut name as).length,
        (handedOut name as)[i]? = p.loops[i % p.loops.length]?) ∧
      (∀ a ∈ p.loops, ∀ b ∈ p.loops,
        (handedOut name as).count a ≤ (handedOut name as).count b + 1) ∧
      (∀ j a, j + p.loops.length ≤ (handedOut name as).length → a ∈ p.loops →
        (((handedOut name as).drop j).take p.loops.length).count a = 1) ∧
      0 ∉ handedOut name as := by
  obtain ⟨hne, hnodup, hlen, hout⟩ := handedOut_eq hr hpc hn
  obtain ⟨l, -, -, hstep⟩ := step_getNextLoop (inv hr) hpc
  have hk := length_turns (s := 0) (k := as.countP PoolStep.calls) hne
  rw [hout, hk]
  refine ⟨⟨_, hstep⟩, hlen, rfl, ?_, ?_, ?_, ?_⟩
  · intro i hi
    rw [getElem?_turns hne hi, Nat.zero_add]
  · intro a ha b hb
    exact count_le_succ hnodup ha hb
  · intro j a hj ha
    rw [count_window hne hj]
    exact List.count_eq_one_of_mem hnodup ha
  · intro h0
    have := (Inv.mem_loops (inv hr) hpc).1 (mem_of_mem_turns h0)
    omega

/-- A pool of two threads, and three calls. -/
def twoThreads : List (PoolStep Nat Nat) :=
  [.setThreadNum 2, .start false, .newThread, .thread 0 .construct, .thread 0 .publish, .startLoopReturns,
    .newThread, .thread 1 .construct, .thread 1 .publish, .startLoopReturns, .startReturns, .getNextLoop,
    .getNextLoop, .getNextLoop]

theorem getNextLoop_fair_two : ∃ p : EventLoopThreadPool Nat Nat, run step (new "pool") twoThreads = some p ∧
    (∃ q, p.step .getNextLoop = some q) ∧ (handedOut "pool" twoThreads)[2]? = some 1 ∧
    (((handedOut "pool" twoThreads).drop 1).take 2).count 2 = 1 ∧ 0 ∉ handedOut "pool" twoThreads := by
  obtain ⟨p, hp⟩ : ∃ p, run step (new "pool") twoThreads = some p := ⟨_, rfl⟩
  have hstart : p.startPc = .returned ∧ p.numThreads = 2 ∧ p.loops = [1, 2] := by
    cases hp
    exact ⟨rfl, rfl, rfl⟩
  obtain ⟨hpc, hn, hloops⟩ := hstart
  obtain ⟨hstep, -, hcalls, hget, -, hwindow, hbase⟩ :=
    getNextLoop_fair "pool" twoThreads hp hpc (by rw [hn]; decide)
  rw [hloops] at hget hwindow
  have hlen : (handedOut "pool" twoThreads).length = 3 := hcalls.trans (by decide)
  refine ⟨p, hp, hstep, (hget 2 (by omega)).trans rfl, hwindow 1 2 ?_ (by simp), hbase⟩
  rw [hlen]
  decide
end

end EventLoopThreadPool
end Muduo
