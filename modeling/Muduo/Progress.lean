import Muduo.Threads

/-!
# Every loop can always go on

In a run in which the kernel and the users keep to what they owe, the function a loop is in the middle of
returns whatever the kernel answers: no `epoll_ctl` fails, though descriptors come back, and the only
exception left is the input vector's when a read makes it longer than a vector can be. So a loop that is
not waiting for events has a step to take.
-/

namespace Muduo
open EPollPoller ServerLoop Lts

theorem World.handleClose_returns {ι : Type} {w : World ι} (h : w.Wf) :
    ∃ w', w.handleClose = .ok w' := by
  obtain ⟨w', hw, -⟩ := closeRest_spec (h.setState .disconnected)
  exact ⟨w', hw⟩

theorem World.handleWrite_returns {ι : Type} {w : World ι} (h : w.Wf) (r : WriteResult) :
    ∃ w', w.handleWrite r = .ok w' := by
  obtain ⟨v, b, hv⟩ := drain_returns (r := r) h
  exact ⟨finishWrite (v, b), map_eq_ok.2 ⟨(v, b), hv, rfl⟩⟩

namespace TcpServer
variable {s t : TcpServer} {c l : Nat} {st : Nat → Stage} {w : World Nat} {j : Job} {rest : List Job}
  {cb : Callback} {cbs : List Callback} {a : ServerStep} {as : List ServerStep}
  {logErrno : Errno → Errno}

/-- What the kernel's answers and the input vector's length owe the function loop `l` is in the middle
of. -/
def Answers (s : TcpServer) (l : Nat) (r : ReadResult) (r' : WriteResult) : Prop :=
  match (s.loop l).stack with
  | .handleEvent c (.read :: _) :: _ =>
    (s.conn c).tcp.inputBuffer.ReadLegal r ∧ (s.conn c).tcp.inputBuffer.ReadNoOverflow r
  | .handleEvent c (.write :: _) :: _ => r'.Legal (s.conn c).tcp.outputBuffer.readableBytes
  | _ => True

instance (s : TcpServer) (l : Nat) (r : ReadResult) (r' : WriteResult) :
    Decidable (s.Answers l r r') := by
  unfold Answers
  split <;> infer_instance

theorem handleClose_some (h : w.Wf) : ∃ t, s.handleClose c w = some t := by
  obtain ⟨w', hw⟩ := World.handleClose_returns h
  exact ⟨_, Option.map_eq_some_iff.2 ⟨w', toOption_eq_some.2 hw, rfl⟩⟩

theorem InHandler.wf (h : InHandler s l c cb cbs st) : (s.world c).Wf := by
  rcases h.handling with ⟨hst, -⟩ | ⟨hst, -⟩
  · exact (h.inv.opened hst).1.wf
  · exact (h.inv.ended hst).wf

/-- A callback returns. -/
theorem InHandler.makeCallback_some {r : ReadResult} {r' : WriteResult} (h : InHandler s l c cb cbs st)
    (hr : cb = .read → (s.conn c).tcp.inputBuffer.ReadLegal r ∧
      (s.conn c).tcp.inputBuffer.ReadNoOverflow r)
    (hr' : cb = .write → r'.Legal (s.conn c).tcp.outputBuffer.readableBytes) :
    ∃ t, s.makeCallback c cb r r' = some t := by
  cases cb with
  | close => exact handleClose_some h.wf
  | error => exact ⟨_, rfl⟩
  | read =>
    obtain ⟨hlegal, hno⟩ := hr rfl
    obtain ⟨w, atEnd, hw⟩ := World.readInput_returns h.wf hno
    obtain ⟨inp, hinp, hcase⟩ := World.readInput_ok h.wf hw
    rw [TcpServer.makeCallback, if_pos hlegal, hw]
    show ∃ t, (if atEnd = true then s.handleClose c w else some (s.absorb c w)) = some t
    rcases hcase with ⟨rfl, -⟩ | ⟨rfl, -, rfl⟩
    · exact ⟨_, rfl⟩
    · exact handleClose_some hinp
  | write =>
    obtain ⟨w, hw⟩ := World.handleWrite_returns h.wf r'
    rw [TcpServer.makeCallback, if_pos (hr' rfl), hw]
    exact ⟨_, rfl⟩

/-- The function in hand returns. -/
theorem Serving.returns (logErrno : Errno → Errno) {r : ReadResult} {r' : WriteResult} (h : s.Serving)
    (hst : (s.loop l).stack = j :: rest) (ha : s.Answers l r r') :
    ∃ t, step logErrno s (.proceed l r r') = some t := by
  obtain ⟨st, hi⟩ := h.inv
  refine h.proceed_some hst ?_
  by_cases hj : j.lifecycle = true
  · exact hi.lifecycle_enabled hst hj r r'
  cases j with
  | handleEvent c cbs =>
    cases cbs with
    | nil => exact ⟨_, rfl⟩
    | cons cb cbs =>
      rw [Answers, hst] at ha
      refine (hi.inHandler hst).mark.makeCallback_some (fun hcb => ?_) fun hcb => ?_
      · subst hcb
        rw [conn_mark_self]
        exact ha
      · subst hcb
        rw [conn_mark_self]
        exact ha
  | userCallback c => exact ⟨_, rfl⟩
  | sendInLoop c msg =>
    have := (hi.shape l).stack_owns hst
    cases this
  | shutdownInLoop c =>
    have := (hi.shape l).stack_owns hst
    cases this
  | establish c => exact absurd rfl hj
  | connectEstablished c => exact absurd rfl hj
  | removeConnection c => exact absurd rfl hj
  | removeConnectionInLoop c => exact absurd rfl hj
  | queueDestroyed c => exact absurd rfl hj
  | connectDestroyed c => exact absurd rfl hj

/-- A kernel that has nothing to give is always a legal answer. -/
theorem answers_error (s : TcpServer) (l : Nat) (e e' : Errno) : s.Answers l (.error e) (.error e') := by
  unfold Answers
  split
  · exact ⟨trivial, trivial⟩
  · trivial
  · trivial

/-- The steps by which a loop goes on with what it has, or with what it was woken for: a functor, or to quit. -/
def Internal (s : TcpServer) : ServerStep → Prop
  | .poll l events => events = [] ∧ ((s.loop l).pendingFunctors ≠ [] ∨ (s.loop l).quit = true)
  | .dispatch _ => True
  | .proceed _ _ _ => True
  | .swap _ => True
  | .call _ => True
  | .destroyFunctors _ => True
  | _ => False

instance (s : TcpServer) : (a : ServerStep) → Decidable (s.Internal a)
  | .poll _ _ => by dsimp only [Internal]; infer_instance
  | .dispatch _ | .proceed _ _ _ | .swap _ | .call _ | .destroyFunctors _ => .isTrue trivial
  | .accept _ | .send _ _ _ | .shutdown _ | .hold _ | .release _ | .foreignSend _ _
  | .foreignShutdown _ | .destroyServer | .quitLoop _ => .isFalse id

/-- The loop waits in `poll`, and nothing has been queued for it. -/
def Waits (s : TcpServer) (l : Nat) : Prop :=
  (s.loop l).phase = .polling ∧ (s.loop l).pendingFunctors = []

instance (s : TcpServer) (l : Nat) : Decidable (s.Waits l) := by unfold Waits; infer_instance

theorem step_of_act (hs : act logErrno s a = some t) : step logErrno s a = some t.closeFds :=
  Option.map_eq_some_iff.2 ⟨t, hs, rfl⟩

/-- What the loop has polled is still there. -/
theorem Inv.active_owned {e : Nat × EventMask} (h : Inv st s) (he : e ∈ (s.loop l).active) :
    s.owned e.1 = true := by
  rcases (h.placed e.1 l).active with hnil | ⟨-, hst, -⟩
  · have hmem : e ∈ ((s.loop l).view e.1).active := List.mem_filter.2 ⟨he, beq_self_eq_true _⟩
    rw [hnil] at hmem
    cases hmem
  · exact (h.hasOwner (by rw [hst]; decide)).owned

theorem Serving.goes_on (logErrno : Errno → Errno) (h : s.Serving) (hl : l ≤ s.numThreads)
    (hw : ¬ s.Waits l) :
    ∃ a u, s.threadOf a = some l ∧ s.Internal a ∧ step logErrno s a = some u := by
  obtain ⟨st, hi⟩ := h.inv
  cases hst : (s.loop l).stack with
  | cons j rest =>
    obtain ⟨u, hu⟩ := h.returns logErrno hst (answers_error s l 0 0)
    exact ⟨.proceed l (.error 0) (.error 0), u, rfl, trivial, hu⟩
  | nil =>
    cases hp : (s.loop l).phase with
    | polling =>
      have hpend : (s.loop l).pendingFunctors ≠ [] := fun hnil => hw ⟨hp, hnil⟩
      have he : (s.loop l).ended = false := (h.ending.goes_on h.alive l).2
      refine ⟨.poll l [], _, rfl, ⟨rfl, .inl hpend⟩, step_of_act (if_pos ⟨hl, hp, he, List.nodup_nil, ?_⟩)⟩
      intro e he
      cases he
    | handling =>
      cases hact : (s.loop l).active with
      | nil => exact ⟨.swap l, _, rfl, trivial, step_of_act (if_pos ⟨hp, hst, hact⟩)⟩
      | cons e active =>
        have ho : s.owned e.1 = true := hi.active_owned (by rw [hact]; exact List.mem_cons_self ..)
        refine ⟨.dispatch l, _, rfl, trivial, step_of_act (t := s.dispatch l e.1 e.2 active) ?_⟩
        simp only [act, hp, hst, hact, ho, if_true]
    | calling =>
      cases hfun : (s.loop l).functors with
      | nil => exact ⟨.destroyFunctors l, _, rfl, trivial, step_of_act (if_pos ⟨hp, hst, hfun⟩)⟩
      | cons j js =>
        refine ⟨.call l, _, rfl, trivial, step_of_act (t := s.setLoop l ((s.loop l).taking j js)) ?_⟩
        simp only [act, ServerLoop.taking, hp, hst, hfun]

/-- In a run in which the kernel and the users keep to what they owe no call of `epoll_ctl` fails; in every
state of it the function a loop is in the middle of returns, whatever legal answer the kernel gives, unless
the bytes of a read do not fit the vector; and a loop that does not wait for events has a step to take. -/
theorem no_loop_gets_stuck (logErrno : Errno → Errno) (name ipPort : String) (numThreads : Nat)
    (cb cb' cb'' : Bool) (as : List ServerStep)
    (hper : Along (step logErrno) Permits (started name ipPort numThreads cb cb' cb'') as)
    (hr : run (step logErrno) (started name ipPort numThreads cb cb' cb'') as = some t) :
    (∀ l, ∀ k ∈ (t.loop l).poller.calls, k.ok = true) ∧
    (∀ l r r', (t.loop l).stack ≠ [] → t.Answers l r r' →
      ∃ u, step logErrno t (.proceed l r r') = some u) ∧
    ∀ l ≤ t.numThreads, ¬ t.Waits l →
      ∃ a u, t.threadOf a = some l ∧ t.Internal a ∧ step logErrno t a = some u := by
  have h := run_lifecycle (started_serving ..) hper hr
  obtain ⟨st, hi⟩ := h.inv
  refine ⟨hi.calls, fun l r r' hst ha => ?_, fun l hl hw => h.goes_on logErrno hl hw⟩
  obtain ⟨j, rest, hst⟩ := List.exists_cons_of_ne_nil hst
  exact h.returns logErrno hst ha

set_option maxRecDepth 20000 in
/-- The handler of a connection that has two bytes to read. -/
theorem reading_goes_on : ∃ t, run (step id) (started "s" "ip" 1 true true true) (lifeOfOne.take 10) =
    some t ∧ (t.loop 1).stack = [.handleEvent 0 [.read]] ∧
      ∃ u, step id t (.proceed 1 (.delivered [1, 2]) (.accepted 0)) = some u := by
  have hrun : (run (step id) (started "s" "ip" 1 true true true) (lifeOfOne.take 10)).map (fun t =>
      ((t.loop 1).stack, decide (t.Answers 1 (.delivered [1, 2]) (.accepted 0)))) =
        some ([.handleEvent 0 [.read]], true) := by decide +kernel
  obtain ⟨t, hr, ht⟩ := Option.map_eq_some_iff.1 hrun
  obtain ⟨hst, ha⟩ := Prod.mk.inj ht
  obtain ⟨-, hstep, -⟩ := no_loop_gets_stuck id "s" "ip" 1 true true true (lifeOfOne.take 10)
    (by decide +kernel) hr
  exact ⟨t, hr, hst, hstep 1 _ _ (by simp [hst]) (of_decide_eq_true ha)⟩

end TcpServer
end Muduo
