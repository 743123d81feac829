import Mathlib.Data.Fintype.Defs
import Muduo.ConnFinal
import Muduo.HalfClose

/-!
# `shutdown` against messages on their way

A message that another thread has sent is on its way from the load of `send` until its functor runs. The
half-close of a `shutdown` keeps behind the messages on their way if there are none at the store of
`Disconnecting`, or a single one, in the queue of a connection with nothing to write. What holds then is
one of three phases: nobody has shut the connection down (`Unasked`), the single message is still in
the queue (`Owing`), nothing is on its way any more (`Settled`).
-/

namespace Muduo
open Lts

def Functor.isSend : Functor → Bool
  | .sendInLoop _ => true
  | _ => false

/-- Queued by `send` or `shutdown`, and not for a callback. -/
def Functor.isRequest : Functor → Bool
  | .sendInLoop _ => true
  | .shutdownInLoop => true
  | _ => false

def Caller.isSend : Caller → Bool
  | .send _ => true
  | _ => false

def Act.isSend : Act → Bool
  | .sendInLoop _ _ => true
  | _ => false

def isWrite : Effect → Bool
  | .write _ _ => true
  | _ => false

/-- No half-close, and nothing queued by `send` or `shutdown`. -/
def Effect.isRoutine : Effect → Bool
  | .shutdownWrite _ => false
  | .queueInLoop f => !f.isRequest
  | _ => true

def Routine (es : List Effect) : Prop := ∀ e ∈ es, e.isRoutine = true

theorem routine_nil : Routine [] := by simp [Routine]

theorem routine_singleton {e : Effect} (h : e.isRoutine = true) : Routine [e] := by simpa [Routine] using h

theorem Routine.append {es es' : List Effect} (h : Routine es) (h' : Routine es') : Routine (es ++ es') := by
  intro e he
  rcases List.mem_append.1 he with he | he
  · exact h e he
  · exact h' e he

theorem Routine.ite {p : Prop} [Decidable p] {es : List Effect} (h : Routine es) :
    Routine (if p then es else []) := by
  split
  · exact h
  · exact routine_nil

theorem Routine.silent {es : List Effect} (h : Routine es) : Silent es := by
  intro e he
  cases e with
  | shutdownWrite _ => exact absurd (h _ he) (by simp [Effect.isRoutine])
  | write _ _ | queueInLoop _ | connectionCallback _ | messageCallback | closeCallback => rfl

theorem Routine.filter_queued {es : List Effect} (h : Routine es) :
    (queued es).filter Functor.isRequest = [] := by
  refine List.filter_eq_nil_iff.2 fun f hf => ?_
  obtain ⟨e, he, hef⟩ := List.mem_filterMap.1 hf
  cases e with
  | queueInLoop g => cases hef; simpa [Effect.isRoutine] using h _ he
  | write _ _ | shutdownWrite _ | connectionCallback _ | messageCallback | closeCallback => cases hef

namespace World
variable {ι : Type} {w w' : World ι} {logErrno : Errno → Errno} {inData : Bytes} {r : WriteResult}

theorem routine_directEffects : Routine (directEffects inData r w) := by
  unfold directEffects
  split
  · cases r with
    | error e => exact routine_singleton rfl
    | accepted n => exact (routine_singleton rfl).append (Routine.ite (routine_singleton rfl))
  · exact routine_nil

theorem routine_highWaterEffects {n : Nat} : Routine (highWaterEffects n w) :=
  Routine.ite (routine_singleton rfl)

theorem Sent.routine (h : Sent logErrno inData r w w') :
    ∃ es, w'.trace = w.trace ++ es ∧ Routine es := by
  have ht := h.trace
  rw [List.append_assoc] at ht
  refine ⟨_, ht, routine_directEffects.append ?_⟩
  split
  · exact routine_nil
  · exact routine_highWaterEffects

theorem Drained.routine {b : Bool} (h : Drained r w w' b) :
    ∃ es, w'.trace = w.trace ++ es ∧ Routine es := by
  have ht := h.trace
  rw [List.append_assoc] at ht
  exact ⟨_, ht, (Routine.ite (routine_singleton rfl)).append (Routine.ite (routine_singleton rfl))⟩

/-- Only `disableAll`, and callbacks. -/
theorem Closed.calls (h : Closed w w') : ∃ es, w'.trace = w.trace ++ es ∧ Routine es ∧
    ∀ e ∈ es, isWrite e = false := by
  have ht := h.trace
  rw [List.append_assoc] at ht
  refine ⟨_, ht, (Routine.ite (routine_singleton rfl)).append (Routine.ite (routine_singleton rfl)), ?_⟩
  split <;> split <;> simp [isWrite]

theorem Left.calls (h : Left w w') : ∃ es, w'.trace = w.trace ++ es ∧ Routine es ∧
    ∀ e ∈ es, isWrite e = false := by
  refine ⟨_, h.trace, Routine.ite (routine_singleton rfl), ?_⟩
  split <;> simp [isWrite]

/-- `connectEstablished` after its store: the mask gets the read bit, and the user is called. -/
theorem establishRest_ok (h : w.Wf) (ho : w.establishRest = .ok w') : w'.Wf ∧
    w'.conn.state = w.conn.state ∧ w'.conn.channel.isWriting = w.conn.channel.isWriting ∧
    ∃ es, w'.trace = w.trace ++ es ∧ Routine es ∧ ∀ e ∈ es, isWrite e = false := by
  refine ⟨h.establishRest ho, ?_⟩
  obtain ⟨v, hv, ho⟩ := bind_eq_ok.1 ho
  obtain ⟨heq, -, hd⟩ := channelOp_ok (w := w.tie) ⟨h.synced.added, h.synced.absent⟩ hv
  rw [runConnectionCallback_eq] at ho
  cases ho
  refine ⟨by rw [heq]; rfl, ?_, _, by rw [heq]; rfl, Routine.ite (routine_singleton rfl), ?_⟩
  · show v.conn.channel.isWriting = _
    rw [hd.isWriting, Channel.isWriting_eq, ChannelOp.writing_enableReading]
    rfl
  · split <;> simp [isWrite]

end World

namespace Race
variable {ι T : Type} {s t : Race ι T} {w₀ : World ι}

/-- What `send` and `shutdown` have queued and the loop has not run. -/
def requests (s : Race ι T) : List Functor :=
  ((queued s.world.trace).drop s.ran).filter Functor.isRequest

/-- A message of another thread is accepted and has not reached `sendInLoop`. -/
def InFlight (s : Race ι T) : Prop :=
  (∃ c, (s.position c).isSend = true) ∨ ∃ f ∈ s.requests, f.isSend = true

/-- The loop thread has something to write, or is about to. -/
def mayWrite (s : Race ι T) : Bool := s.world.conn.channel.isWriting || s.act.isSend

/-- A single message is on its way: it is queued, and what comes before it writes nothing. -/
def Lone (s : Race ι T) : Prop :=
  (∀ c, (s.position c).isSend = false) ∧ s.requests.countP Functor.isSend = 1 ∧
    s.mayWrite = false ∧ s.act ≠ .finishWrite

/-- The store of `shutdown`, made on the loop thread, finds nothing on its way, and made on another at
most a lone message. -/
def ShutsLast (s : Race ι T) : RaceStep T → Prop
  | .proceed => s.act = .shutdown → ¬ s.InFlight
  | .foreignProceed c => s.position c = .shutdown → s.InFlight → s.Lone
  | _ => True

/-- Once `shutdownWrite` has been called no accepted message is still to reach `sendInLoop`, and nothing
has been written since. -/
structure Graceful (s : Race ι T) : Prop where
  arrived : (∃ e ∈ s.world.trace, isShutdownWrite e = true) → ¬ s.InFlight
  order : s.world.trace.Pairwise fun e e' => isShutdownWrite e = true → isWrite e' = false

/-! ### The queue -/

structure Sound (s : Race ι T) : Prop where
  wf : s.world.Wf
  ran : s.ran ≤ (queued s.world.trace).length

theorem requests_append {es : List Effect} (h : s.Sound) (hr : t.ran = s.ran)
    (ht : t.world.trace = s.world.trace ++ es) :
    t.requests = s.requests ++ (queued es).filter Functor.isRequest := by
  rw [requests, requests, ht, hr, queued, List.filterMap_append, ← queued, ← queued,
    List.drop_append_of_le_length h.ran, List.filter_append]

theorem requests_routine {es : List Effect} (h : s.Sound) (hr : t.ran = s.ran)
    (ht : t.world.trace = s.world.trace ++ es) (hes : Routine es) : t.requests = s.requests := by
  rw [requests_append h hr ht, hes.filter_queued, List.append_nil]

theorem nextFunctor_lt {f : Functor} (hf : s.nextFunctor = some f) :
    s.ran < (queued s.world.trace).length :=
  (List.getElem?_eq_some_iff.1 hf).1

theorem requests_pop {f : Functor} (hf : s.nextFunctor = some f) :
    s.requests = (if f.isRequest then [f] else []) ++ { s with ran := s.ran + 1 }.requests := by
  obtain ⟨hlt, hget⟩ := List.getElem?_eq_some_iff.1 hf
  rw [requests, List.drop_eq_getElem_cons hlt, hget, List.filter_cons]
  split
  · rfl
  · rfl

theorem Sound.append {es : List Effect} (h : s.Sound) (hwf : t.world.Wf) (hr : t.ran = s.ran)
    (ht : t.world.trace = s.world.trace ++ es) : t.Sound := by
  refine ⟨hwf, ?_⟩
  rw [ht, hr, queued, List.filterMap_append, List.length_append]
  exact Nat.le_add_right_of_le h.ran

/-! ### What a step does -/

/-- A step that half-closes nothing and leaves the requests where they are. -/
structure Calm (s t : Race ι T) : Prop where
  sound : t.Sound
  state : t.world.conn.state = s.world.conn.state ∨ t.world.conn.state = .disconnected
  establish : t.act = .establish → s.act = .establish
  finish : t.act = .finishWrite → s.act = .finishWrite ∨ s.mayWrite = true
  writes : t.mayWrite = true → s.mayWrite = true
  position : ∀ c, t.position c = s.position c ∨ t.position c = .idle ∨
    t.position c = .shutdown ∧ s.world.conn.state = .connected
  requests : t.requests = s.requests
  trace : ∃ es, t.world.trace = s.world.trace ++ es ∧ Silent es ∧
    (s.mayWrite = false → ∀ e ∈ es, isWrite e = false)

/-- Steps of the loop thread that add to the trace, if anything. -/
theorem Calm.of_append {es : List Effect} (h : s.Sound) (hwf : t.world.Wf) (hr : t.ran = s.ran)
    (ht : t.world.trace = s.world.trace ++ es) (hes : Routine es)
    (hwr : s.mayWrite = false → ∀ e ∈ es, isWrite e = false)
    (hst : t.world.conn.state = s.world.conn.state ∨ t.world.conn.state = .disconnected)
    (hpos : t.position = s.position) (he : t.act ≠ .establish)
    (hf : t.act = .finishWrite → s.mayWrite = true)
    (hw : t.mayWrite = true → s.mayWrite = true) : Calm s t where
  sound := h.append hwf hr ht
  state := hst
  establish ha := absurd ha he
  finish ha := .inr (hf ha)
  writes := hw
  position c := .inl (congrFun hpos c)
  requests := requests_routine h hr ht hes
  trace := ⟨es, ht, hes.silent, hwr⟩

theorem mayWrite_idle (h : s.act = .idle) :
    s.mayWrite = s.world.conn.channel.isWriting := by
  rw [mayWrite, h]; exact Bool.or_false _

/-- Steps that leave the world alone. -/
theorem Calm.of_world (h : s.Sound) (hw : t.world = s.world) (hr : t.ran = s.ran)
    (hpos : t.position = s.position) (he : t.act ≠ .establish) (hf : t.act ≠ .finishWrite)
    (ha : t.act.isSend = true → s.act.isSend = true) : Calm s t := by
  refine .of_append h (hw ▸ h.wf) hr (by rw [hw, List.append_nil]) routine_nil
    (fun _ => by simp) (.inl (by rw [hw])) hpos he (fun h => absurd h hf) fun hwr => ?_
  rw [mayWrite, Bool.or_eq_true, hw] at hwr
  rw [mayWrite, Bool.or_eq_true]
  exact hwr.imp_right ha

/-- The functions that begin with a store, and the one that makes none. -/
theorem Calm.enter {i : Act} (h : s.Sound) (hi : i ∈ [.idle, .close, .shutdown, .destroy, .remove]) :
    Calm s { s with act := i } := by
  refine .of_world h rfl rfl rfl ?_ ?_ ?_
  · rintro rfl; simp at hi
  · rintro rfl; simp at hi
  · revert hi
    cases i <;> simp [Act.isSend]

/-- Steps of a function that writes nothing, ending it. -/
theorem Calm.of_quiet {w : World ι} {act : Act} {closed : Bool} (h : s.Sound) (hwf : w.Wf)
    (htr : ∃ es, w.trace = s.world.trace ++ es ∧ Routine es ∧ ∀ e ∈ es, isWrite e = false)
    (hst : w.conn.state = s.world.conn.state ∨ w.conn.state = .disconnected)
    (hw : w.conn.channel.isWriting = true → s.world.conn.channel.isWriting = true)
    (he : act ≠ .establish) (hf : act ≠ .finishWrite) (ha : act.isSend = false) :
    Calm s { s with world := w, act := act, closed := closed } := by
  obtain ⟨es, ht, hes, hwr⟩ := htr
  refine .of_append h hwf rfl ht hes (fun _ => hwr) hst rfl he (fun h => absurd h hf) fun hm => ?_
  change (w.conn.channel.isWriting || act.isSend) = true at hm
  rw [ha, Bool.or_false] at hm
  rw [mayWrite, hw hm, Bool.true_or]

/-! ### The phases -/

/-- Nobody has stored `Disconnecting`, or a close has been stored since. -/
structure Unasked (s : Race ι T) : Prop where
  state : s.world.conn.state ≠ .disconnecting
  establish : s.act = .establish → s.world.conn.state ≠ .connected ∧ ∀ c, s.position c ≠ .shutdown
  position : ∀ c, s.position c ≠ .queueShutdown
  requests : ∀ f ∈ s.requests, f.isSend = true
  silent : Silent s.world.trace

/-- The lone message has to be run before any half-close. -/
structure Owing (s : Race ι T) : Prop where
  state : s.world.conn.state ≠ .connected
  establish : s.act ≠ .establish
  finish : s.act ≠ .finishWrite
  position : ∀ c, (s.position c).isSend = false
  requests : ∃ m rest, s.requests = .sendInLoop m :: rest ∧ ∀ f ∈ rest, f.isSend = false
  writes : s.mayWrite = false
  silent : Silent s.world.trace

/-- Nothing is on its way and nothing can be. -/
structure Settled (s : Race ι T) : Prop where
  state : s.world.conn.state ≠ .connected
  establish : s.act ≠ .establish
  inFlight : ¬ s.InFlight
  writes : (∃ e ∈ s.world.trace, isShutdownWrite e = true) → s.mayWrite = false
  order : s.world.trace.Pairwise fun e e' => isShutdownWrite e = true → isWrite e' = false

structure ShutInv (s : Race ι T) : Prop where
  sound : s.Sound
  phase : s.Unasked ∨ s.Owing ∨ s.Settled

theorem not_shut {trace : List Effect} (h : Silent trace) :
    ¬ ∃ e ∈ trace, isShutdownWrite e = true := by
  rintro ⟨e, he, hsh⟩
  rw [h e he] at hsh; cases hsh

theorem order_of_silent {trace : List Effect} (h : Silent trace) :
    trace.Pairwise fun e e' => isShutdownWrite e = true → isWrite e' = false := by
  refine List.pairwise_iff_forall_sublist.2 fun hsub hsh => ?_
  rw [h _ (hsub.subset (by simp))] at hsh; cases hsh

theorem ShutInv.graceful (h : s.ShutInv) : s.Graceful := by
  rcases h.phase with hp | hp | hp
  · exact ⟨fun hsh => absurd hsh (not_shut hp.silent), order_of_silent hp.silent⟩
  · exact ⟨fun hsh => absurd hsh (not_shut hp.silent), order_of_silent hp.silent⟩
  · exact ⟨fun _ => hp.inFlight, hp.order⟩

theorem shutInv_start (h : w₀.Constructed) : (start w₀ : Race ι T).ShutInv := by
  have hreq : (start w₀ : Race ι T).requests = [] := by simp [requests, start, h.trace, queued]
  refine ⟨⟨h.wf, Nat.zero_le _⟩, .inl ?_⟩
  exact {
    state := by rw [start, h.state]; nofun
    establish := fun _ => ⟨by rw [start, h.state]; nofun, nofun⟩
    position := nofun
    requests := by rw [hreq]; simp
    silent := by rw [start, h.trace]; exact silent_nil }

/-! ### Calm steps -/

theorem Calm.position_eq (h : Calm s t) {c : T} {p : Caller} (hp : t.position c = p)
    (hi : p ≠ .idle) (hs : p ≠ .shutdown) : s.position c = p := by
  rcases h.position c with hc | hc | ⟨hc, -⟩
  · rw [← hc, hp]
  · exact absurd (hp.symm.trans hc) hi
  · exact absurd (hp.symm.trans hc) hs

theorem Calm.isSend (h : Calm s t) {c : T} (hp : (t.position c).isSend = true) :
    (s.position c).isSend = true := by
  rcases h.position c with hc | hc | ⟨hc, -⟩
  · rwa [hc] at hp
  · rw [hc] at hp; cases hp
  · rw [hc] at hp; cases hp

theorem Calm.inFlight (h : Calm s t) (hf : t.InFlight) : s.InFlight := by
  rcases hf with ⟨c, hc⟩ | hf
  · exact .inl ⟨c, h.isSend hc⟩
  · exact .inr (h.requests ▸ hf)

theorem Calm.silent (h : Calm s t) (hs : Silent s.world.trace) : Silent t.world.trace := by
  obtain ⟨es, ht, hes, -⟩ := h.trace
  rw [ht]
  exact hs.append hes

theorem Calm.mayWrite (h : Calm s t) (hw : s.mayWrite = false) : t.mayWrite = false := by
  rw [Bool.eq_false_iff]
  intro ht
  rw [h.writes ht] at hw; cases hw

theorem Unasked.calm (h : s.Unasked) (hc : Calm s t) : t.Unasked where
  state := by
    rcases hc.state with hst | hst
    · rw [hst]; exact h.state
    · rw [hst]; nofun
  establish ha := by
    obtain ⟨hst, hpos⟩ := h.establish (hc.establish ha)
    refine ⟨?_, fun c hp => ?_⟩
    · rcases hc.state with hst' | hst'
      · rw [hst']; exact hst
      · rw [hst']; nofun
    · rcases hc.position c with hp' | hp' | ⟨-, hst'⟩
      · exact hpos c (hp' ▸ hp)
      · rw [hp'] at hp; cases hp
      · exact hst hst'
  position c hp := h.position c (hc.position_eq hp nofun nofun)
  requests := hc.requests ▸ h.requests
  silent := hc.silent h.silent

theorem Owing.calm (h : s.Owing) (hc : Calm s t) : t.Owing where
  state := by
    rcases hc.state with hst | hst
    · rw [hst]; exact h.state
    · rw [hst]; nofun
  establish ha := h.establish (hc.establish ha)
  finish ha := by
    rcases hc.finish ha with ha | hw
    · exact h.finish ha
    · rw [h.writes] at hw; cases hw
  position c := by
    rw [Bool.eq_false_iff]
    intro hp
    have := hc.isSend hp
    rw [h.position c] at this; cases this
  requests := hc.requests ▸ h.requests
  writes := hc.mayWrite h.writes
  silent := hc.silent h.silent

theorem Settled.calm (h : s.Settled) (hc : Calm s t) : t.Settled where
  state := by
    rcases hc.state with hst | hst
    · rw [hst]; exact h.state
    · rw [hst]; nofun
  establish ha := h.establish (hc.establish ha)
  inFlight hf := h.inFlight (hc.inFlight hf)
  writes hsh := by
    obtain ⟨es, ht, hes, -⟩ := hc.trace
    obtain ⟨e, he, hse⟩ := hsh
    rw [ht] at he
    rcases List.mem_append.1 he with he | he
    · exact hc.mayWrite (h.writes ⟨e, he, hse⟩)
    · rw [hes e he] at hse; cases hse
  order := by
    obtain ⟨es, ht, hes, hwr⟩ := hc.trace
    rw [ht, List.pairwise_append]
    refine ⟨h.order, order_of_silent hes, fun e he e' he' hsh => ?_⟩
    exact hwr (h.writes ⟨e, he, hsh⟩) e' he'

@[simp] theorem queued_shutdownInLoop (w : World ι) :
    queued w.shutdownInLoop.trace = queued w.trace := by
  rw [World.shutdownInLoop_eq, queued, List.filterMap_append]
  split
  · exact List.append_nil _
  · exact List.append_nil _

/-- A half-close with nothing on its way. -/
theorem settled_shut {w : World ι} (hw : w.trace = s.world.trace) (hst : w.conn.state ≠ .connected)
    (hfl : ¬ s.InFlight) (hord : s.Graceful)
    (hoff : (∃ e ∈ s.world.trace, isShutdownWrite e = true) → w.conn.channel.isWriting = false)
    (ht : t.world = w.shutdownInLoop) (hact : t.act = .idle) (hpos : t.position = s.position)
    (hreq : ∀ f ∈ ((queued w.trace).drop t.ran).filter Functor.isRequest, f ∈ s.requests) :
    t.Settled := by
  have htr : t.world.trace = s.world.trace ++ if w.conn.channel.isWriting = true then []
      else [.shutdownWrite w.unsent] := by
    rw [ht, World.shutdownInLoop_eq, hw]
  have hch : t.world.conn = w.conn := by rw [ht, World.shutdownInLoop_conn]
  refine ⟨by rw [hch]; exact hst, by rw [hact]; nofun, ?_, fun hsh => ?_, ?_⟩
  · rintro (⟨c, hc⟩ | ⟨f, hf, hfs⟩)
    · exact hfl (.inl ⟨c, hpos ▸ hc⟩)
    · rw [requests, ht, queued_shutdownInLoop] at hf
      exact hfl (.inr ⟨f, hreq f hf, hfs⟩)
  · rw [mayWrite_idle hact, hch]
    cases hwr : w.conn.channel.isWriting with
    | false => rfl
    | true =>
      rw [htr, if_pos hwr, List.append_nil] at hsh
      rw [hoff hsh] at hwr; cases hwr
  · rw [htr, List.pairwise_append]
    refine ⟨hord.order, ?_, fun e _ e' he' _ => ?_⟩
    · split <;> simp
    · split at he'
      · cases he'
      · rw [List.mem_singleton.1 he']; rfl

/-! ### Every step -/

inductive Moved (s : Race ι T) [DecidableEq T] : RaceStep T → Race ι T → Prop
  | calm {a : RaceStep T} {t : Race ι T} (h : Calm s t) : Moved s a t
  | established (hact : s.act = .establish) : Moved s .proceed
      { s with world := s.world.setState .connected, act := .establishRest }
  | called {m : Bytes} {r : WriteResult} (hact : s.act = .idle)
      (hst : s.world.conn.state = .connected) :
      Moved s (.send m r) { s with act := .sendInLoop m r }
  | reached {m : Bytes} {r : WriteResult} (hact : s.act = .idle)
      (hf : s.nextFunctor = some (.sendInLoop m)) :
      Moved s (.functor r) { s with ran := s.ran + 1, act := .sendInLoop m r }
  | halfClosed {r : WriteResult} (hact : s.act = .idle)
      (hf : s.nextFunctor = some .shutdownInLoop) :
      Moved s (.functor r) { s with ran := s.ran + 1, world := s.world.shutdownInLoop }
  | shut (hact : s.act = .shutdown) :
      Moved s .proceed (s.done (s.world.setState .disconnecting).shutdownInLoop)
  | finished (hact : s.act = .finishWrite) (hst : s.world.conn.state = .disconnecting) :
      Moved s .proceed (s.done s.world.shutdownInLoop)
  | accepted {c : T} {m : Bytes} (hst : s.world.conn.state = .connected) :
      Moved s (.foreignSend c m) (s.moveTo c (.send m))
  | sent {c : T} {m : Bytes} (hpos : s.position c = .send m) :
      Moved s (.foreignProceed c)
        { s.moveTo c .idle with world := s.world.queueInLoop (.sendInLoop m) }
  | stored {c : T} (hpos : s.position c = .shutdown) :
      Moved s (.foreignProceed c)
        { s.moveTo c .queueShutdown with world := s.world.setState .disconnecting }
  | requested {c : T} (hpos : s.position c = .queueShutdown) :
      Moved s (.foreignProceed c)
        { s.moveTo c .idle with world := s.world.queueInLoop .shutdownInLoop }

theorem makeCallback_calm {cb : Callback} {r : ReadResult} {r' : WriteResult} (h : s.Sound)
    (hact : s.act = .idle) (hs : s.makeCallback cb r r' = some t) : Calm s t := by
  cases cb with
  | close => cases hs; exact .enter h (by simp)
  | error => cases hs; exact .of_world h rfl rfl rfl (by rw [hact]; nofun) (by rw [hact]; nofun) id
  | read =>
    obtain ⟨⟨w, atEnd⟩, ho, hs⟩ := Option.map_eq_some_iff.1 hs
    cases hs
    obtain ⟨inp, hwf, ⟨rfl, rfl | rfl⟩ | ⟨rfl, rfl, rfl⟩⟩ :=
      World.readInput_ok h.wf (toOption_eq_some.1 ho)
    · exact .of_quiet h hwf ⟨[], (List.append_nil _).symm, routine_nil, by simp⟩ (.inl rfl) id nofun
        nofun rfl
    · exact .of_quiet h (hwf.emit _) ⟨_, rfl, routine_singleton rfl, by simp [isWrite]⟩ (.inl rfl) id
        nofun nofun rfl
    · exact .of_quiet h hwf ⟨[], (List.append_nil _).symm, routine_nil, by simp⟩ (.inl rfl) id nofun
        nofun rfl
  | write =>
    change (if r'.Legal _ then _ else _) = some t at hs
    split at hs
    · obtain ⟨⟨w, drained⟩, ho, hs⟩ := Option.map_eq_some_iff.1 hs
      cases hs
      have hd := World.drain_ok h.wf (toOption_eq_some.1 ho)
      have hst : w.conn.state = s.world.conn.state := by rw [hd.eq]
      cases hw : s.world.conn.channel.isWriting with
      | true =>
        -- Whatever is written, there was something to write before.
        have hm : s.mayWrite = true := by rw [mayWrite, hw, Bool.true_or]
        obtain ⟨es, ht, hes⟩ := hd.routine
        refine .of_append h hd.wf rfl ht hes (fun hf => ?_) (.inl hst) rfl ?_ (fun _ => hm) fun _ => hm
        · rw [hm] at hf; cases hf
        · show (if drained = true then Act.finishWrite else .idle) ≠ .establish
          split <;> nofun
      | false =>
        rw [World.drain_not_writing hw] at ho
        cases ho
        exact .of_world h rfl rfl rfl nofun nofun nofun
    · cases hs

variable [DecidableEq T] {logErrno : Errno → Errno} {a : RaceStep T} {as : List (RaceStep T)}

theorem functor_moved {r : WriteResult} (h : s.Sound) (hs : s.functor r = some t) :
    Moved s (.functor r) t := by
  unfold Race.functor at hs
  split at hs
  · rename_i hen
    obtain ⟨f, hf, hs⟩ := Option.map_eq_some_iff.1 hs
    subst hs
    have hcall (hfr : f.isRequest = false) : Calm s { s with ran := s.ran + 1 } := by
      have hreq := requests_pop hf
      rw [hfr, if_neg (by decide), List.nil_append] at hreq
      exact {
        sound := ⟨h.wf, nextFunctor_lt hf⟩
        state := .inl rfl
        establish := id
        finish := .inl
        writes := id
        position := fun _ => .inl rfl
        requests := hreq.symm
        trace := ⟨[], (List.append_nil _).symm, silent_nil, by simp⟩ }
    cases f with
    | sendInLoop m => exact .reached hen.1 hf
    | shutdownInLoop => exact .halfClosed hen.1 hf
    | writeComplete => exact .calm (hcall rfl)
    | highWaterMark len => exact .calm (hcall rfl)
  · cases hs

theorem proceed_moved (h : s.Sound) (hs : s.proceed logErrno = some t) : Moved s .proceed t := by
  unfold Race.proceed at hs
  split at hs
  · cases hs
  · rename_i hact
    cases hs
    exact .established hact
  · obtain ⟨w, ho, hs⟩ := Option.map_eq_some_iff.1 hs
    cases hs
    obtain ⟨hwf, hst, hw, htr⟩ := World.establishRest_ok h.wf (toOption_eq_some.1 ho)
    exact .calm (.of_quiet h hwf htr (.inl hst) (fun hm => hw ▸ hm) nofun nofun rfl)
  · rename_i inData r hact
    split at hs
    · rename_i hr
      obtain ⟨w, ho, hs⟩ := Option.map_eq_some_iff.1 hs
      cases hs
      have hm : s.mayWrite = true := by rw [mayWrite, hact]; exact Bool.or_true _
      rcases World.sendInLoop_ok h.wf hr (toOption_eq_some.1 ho) with ⟨-, rfl⟩ | ⟨-, hsent⟩
      · exact .calm (.of_world h rfl rfl rfl nofun nofun nofun)
      · obtain ⟨es, ht, hes⟩ := hsent.routine
        refine .calm (.of_append h hsent.wf rfl ht hes (fun hf => ?_) (.inl (by rw [hsent.eq]; rfl)) rfl
          nofun (fun _ => hm) fun _ => hm)
        rw [hm] at hf; cases hf
    · cases hs
  · rename_i hact
    cases hs
    exact .shut hact
  · cases hs
    exact .calm (.of_quiet h (h.wf.setState _) ⟨[], (List.append_nil _).symm, routine_nil, by simp⟩
      (.inr rfl) id nofun nofun rfl)
  · obtain ⟨w, ho, hs⟩ := Option.map_eq_some_iff.1 hs
    cases hs
    have hcl := World.closeRest_ok h.wf (toOption_eq_some.1 ho)
    refine .calm (.of_quiet h hcl.wf hcl.calls (.inl (by rw [hcl.eq])) (fun hm => ?_) nofun nofun rfl)
    rw [hcl.disabled.isWriting, ChannelOp.writing_disableAll] at hm; cases hm
  · rename_i hact
    cases hs
    rw [World.finishWrite_eq]
    split
    · rename_i hst
      exact .finished hact hst.2
    · exact .calm (.of_world h rfl rfl rfl nofun nofun nofun)
  · cases hs
    exact .calm (.of_quiet h (h.wf.setState _) ⟨[], (List.append_nil _).symm, routine_nil, by simp⟩
      (.inr rfl) id nofun nofun rfl)
  · obtain ⟨w, ho, hs⟩ := Option.map_eq_some_iff.1 hs
    cases hs
    have hl := World.destroyConnected_ok h.wf (toOption_eq_some.1 ho)
    refine .calm (.of_quiet h hl.wf hl.calls (.inl (by rw [hl.eq])) (fun hm => ?_) nofun nofun rfl)
    rw [hl.disabled.isWriting, ChannelOp.writing_disableAll] at hm; cases hm
  · obtain ⟨w, ho, hs⟩ := Option.map_eq_some_iff.1 hs
    cases hs
    have ho' := toOption_eq_some.1 ho
    obtain ⟨heq, -, hd⟩ := World.channelOp_ok h.wf.synced ho'
    refine .calm (.of_quiet h (h.wf.channelOp ho') ⟨[], by rw [heq, List.append_nil], routine_nil,
      by simp⟩ (.inl (by rw [heq])) (fun hm => ?_) nofun nofun rfl)
    rw [hd.isWriting] at hm
    rw [Channel.isWriting_eq]
    exact hm

theorem position_moveTo (s : Race ι T) (c c' : T) (p : Caller) :
    (s.moveTo c p).position c' = if c' = c then p else s.position c' :=
  Function.update_apply s.position c p c'

theorem Calm.moveTo {c : T} {p : Caller} (h : s.Sound)
    (hsh : p = .idle ∨ p = .shutdown ∧ s.world.conn.state = .connected) : Calm s (s.moveTo c p) where
  sound := ⟨h.wf, h.ran⟩
  state := .inl rfl
  establish := id
  finish := .inl
  writes := id
  position c' := by
    rw [position_moveTo]
    split
    · exact .inr hsh
    · exact .inl rfl
  requests := rfl
  trace := ⟨[], (List.append_nil _).symm, silent_nil, by simp⟩

theorem step_moved (h : s.Sound) (hs : step logErrno s a = some t) : Moved s a t := by
  cases a with
  | poll revents =>
    simp only [step, Race.poll] at hs
    split at hs
    · rename_i hen
      cases hs
      refine .calm (.of_append h ⟨h.wf.out, h.wf.inp, h.wf.synced.added, h.wf.synced.absent⟩
        rfl (List.append_nil _).symm routine_nil (fun _ => by simp) (.inl rfl) rfl ?_ ?_ id)
      · show s.act ≠ _
        simp [hen.1]
      · show s.act = _ → _
        simp [hen.1]
    · cases hs
  | callback r r' =>
    simp only [step, Race.callback] at hs
    split at hs
    · rename_i cb cbs hact hcb
      have hc := makeCallback_calm (s := { s with callbacks := cbs }) ⟨h.wf, h.ran⟩ hact hs
      exact .calm { hc with }
    · cases hs
  | functor r => exact functor_moved h hs
  | send inMsg r =>
    simp only [step] at hs
    split at hs
    · rename_i hact
      cases hs
      split
      · rename_i hst
        exact .called hact (of_decide_eq_true hst)
      · exact .calm (.enter h (by simp))
    · cases hs
  | shutdown =>
    simp only [step] at hs
    split at hs
    · cases hs
      split
      · exact .calm (.enter h (by simp))
      · exact .calm (.enter h (by simp))
    · cases hs
  | connectDestroyed =>
    simp only [step] at hs
    split at hs
    · cases hs
      split
      · exact .calm (.enter h (by simp))
      · exact .calm (.enter h (by simp))
    · cases hs
  | proceed => exact proceed_moved h hs
  | foreignSend c inMsg =>
    simp only [step] at hs
    split at hs
    · cases hs
      split
      · rename_i hst
        exact .accepted (of_decide_eq_true hst)
      · exact .calm (.moveTo h (.inl rfl))
    · cases hs
  | foreignShutdown c =>
    simp only [step] at hs
    split at hs
    · cases hs
      split
      · rename_i hst
        exact .calm (.moveTo h (.inr ⟨rfl, of_decide_eq_true hst⟩))
      · exact .calm (.moveTo h (.inl rfl))
    · cases hs
  | foreignProceed c =>
    simp only [step, Race.foreignProceed] at hs
    split at hs
    · cases hs
    · rename_i hpos
      cases hs; exact .sent hpos
    · rename_i hpos
      cases hs; exact .stored hpos
    · rename_i hpos
      cases hs; exact .requested hpos

theorem Moved.sound (h : s.Sound) (hm : Moved s a t) : t.Sound := by
  cases hm with
  | calm hc => exact hc.sound
  | established _ => exact ⟨h.wf.setState _, h.ran⟩
  | called _ _ | accepted _ => exact ⟨h.wf, h.ran⟩
  | reached _ hf => exact ⟨h.wf, nextFunctor_lt hf⟩
  | halfClosed _ hf =>
    have hpop : Sound { s with ran := s.ran + 1 } := ⟨h.wf, nextFunctor_lt hf⟩
    exact hpop.append h.wf.shutdownInLoop rfl (congrArg World.trace (World.shutdownInLoop_eq _))
  | shut _ =>
    exact h.append (h.wf.setState _).shutdownInLoop rfl
      (congrArg World.trace (World.shutdownInLoop_eq _))
  | finished _ _ =>
    exact h.append h.wf.shutdownInLoop rfl (congrArg World.trace (World.shutdownInLoop_eq _))
  | sent _ | requested _ => exact h.append (h.wf.emit _) rfl rfl
  | stored _ => exact ⟨h.wf.setState _, h.ran⟩

/-- Another thread moves on without a message. -/
theorem isSend_moveTo {c c' : T} {p : Caller} (hp : p.isSend = false)
    (hc : ((s.moveTo c p).position c').isSend = true) : (s.position c').isSend = true := by
  rw [position_moveTo] at hc
  split at hc
  · rw [hp] at hc; cases hc
  · exact hc

theorem not_isSend_moveTo {c : T} {p : Caller} (hp : p.isSend = false)
    (h : ∀ c', (s.position c').isSend = false) (c' : T) :
    ((s.moveTo c p).position c').isSend = false := by
  rw [position_moveTo]
  split
  · exact hp
  · exact h c'

theorem Unasked.moved (h : s.Unasked) (hs : s.Sound) (hC : s.ShutsLast a) (hm : Moved s a t) :
    t.Unasked ∨ t.Owing ∨ t.Settled := by
  have hnot := not_shut h.silent
  cases hm with
  | calm hc => exact .inl (h.calm hc)
  | established _ => exact .inl ⟨nofun, nofun, h.position, h.requests, h.silent⟩
  | called _ _ => exact .inl ⟨h.state, nofun, h.position, h.requests, h.silent⟩
  | reached hact hf =>
    refine .inl ⟨h.state, nofun, h.position, fun f hmem => h.requests f ?_, h.silent⟩
    rw [requests_pop hf]
    exact List.mem_append_right _ hmem
  | halfClosed _ hf =>
    have := h.requests .shutdownInLoop (by rw [requests_pop hf]; simp [Functor.isRequest])
    cases this
  | shut hact =>
    exact .inr (.inr (settled_shut (w := s.world.setState .disconnecting) rfl nofun (hC hact)
      ⟨fun hsh => absurd hsh hnot, order_of_silent h.silent⟩ (fun hsh => absurd hsh hnot) rfl rfl rfl
      fun f hf => hf))
  | finished _ hst => exact absurd hst h.state
  | accepted hst =>
    rename_i c m
    refine .inl ⟨h.state, fun ha => absurd hst (h.establish ha).1, fun c' => ?_, h.requests, h.silent⟩
    rw [position_moveTo]
    split
    · nofun
    · exact h.position c'
  | sent hpos =>
    rename_i c m
    refine .inl ⟨h.state, fun ha => ⟨(h.establish ha).1, fun c' => ?_⟩, fun c' => ?_, fun f hf => ?_,
      h.silent.append (silent_singleton rfl)⟩
    · show (s.moveTo c .idle).position c' ≠ _
      rw [position_moveTo]
      split
      · nofun
      · exact (h.establish ha).2 c'
    · show (s.moveTo c .idle).position c' ≠ _
      rw [position_moveTo]
      split
      · nofun
      · exact h.position c'
    · rw [requests_append hs (t := { s.moveTo c .idle with world := _ }) rfl rfl] at hf
      rcases List.mem_append.1 hf with hf | hf
      · exact h.requests f hf
      · rw [List.mem_singleton.1 (show f ∈ [Functor.sendInLoop m] from hf)]; rfl
  | stored hpos =>
    rename_i c
    have hne : s.act ≠ .establish := fun ha => (h.establish ha).2 c hpos
    by_cases hfl : s.InFlight
    · obtain ⟨hpos', hcount, hw, hfin⟩ := hC hpos hfl
      obtain ⟨m, rest, hreq, hrest⟩ : ∃ m rest, s.requests = .sendInLoop m :: rest ∧
          ∀ f ∈ rest, f.isSend = false := by
        have hlen : s.requests.length = 1 := by
          rw [← hcount, List.countP_eq_length.2 h.requests]
        obtain ⟨f, hf⟩ := List.length_eq_one_iff.1 hlen
        have hsend := h.requests f (by rw [hf]; simp)
        cases f with
        | sendInLoop m => exact ⟨m, [], hf, by simp⟩
        | shutdownInLoop | writeComplete | highWaterMark _ => cases hsend
      exact .inr (.inl ⟨nofun, hne, hfin, not_isSend_moveTo rfl hpos', ⟨m, rest, hreq, hrest⟩, hw,
        h.silent⟩)
    · refine .inr (.inr ⟨nofun, hne, ?_, fun hsh => absurd hsh hnot, order_of_silent h.silent⟩)
      rintro (⟨c', hc⟩ | hf)
      · exact hfl (.inl ⟨c', isSend_moveTo rfl hc⟩)
      · exact hfl (.inr hf)
  | requested hpos => exact absurd hpos (h.position _)

theorem Owing.moved (h : s.Owing) (hs : s.Sound) (hC : s.ShutsLast a) (hm : Moved s a t) :
    t.Owing ∨ t.Settled := by
  have hnot := not_shut h.silent
  obtain ⟨m, rest, hreq, hrest⟩ := h.requests
  cases hm with
  | calm hc => exact .inl (h.calm hc)
  | established hact => exact absurd hact h.establish
  | called _ hst => exact absurd hst h.state
  | reached hact hf =>
    -- The lone message reaches `sendInLoop`.
    have hpop := (requests_pop hf).symm.trans hreq
    have hrest' := (List.cons.inj hpop).2
    refine .inr ⟨h.state, nofun, ?_, fun hsh => absurd hsh hnot, order_of_silent h.silent⟩
    rintro (⟨c, hc⟩ | ⟨f, hf, hfs⟩)
    · rw [h.position c] at hc; cases hc
    · rw [hrest f (hrest' ▸ hf)] at hfs; cases hfs
  | halfClosed _ hf =>
    have hpop := (requests_pop hf).symm.trans hreq
    cases (List.cons.inj hpop).1
  | shut hact => exact absurd (.inr ⟨_, by rw [hreq]; exact List.mem_cons_self, rfl⟩) (hC hact)
  | finished hact _ => exact absurd hact h.finish
  | accepted hst => exact absurd hst h.state
  | sent hpos =>
    rename_i c m
    have := h.position c
    rw [hpos] at this; cases this
  | stored hpos =>
    exact .inl ⟨nofun, h.establish, h.finish, not_isSend_moveTo rfl h.position, ⟨m, rest, hreq, hrest⟩,
      h.writes, h.silent⟩
  | requested hpos =>
    rename_i c
    refine .inl ⟨h.state, h.establish, h.finish, not_isSend_moveTo rfl h.position,
      ⟨m, rest ++ [.shutdownInLoop], ?_, ?_⟩, h.writes, h.silent.append (silent_singleton rfl)⟩
    · rw [requests_append hs (t := { s.moveTo c .idle with world := _ }) rfl rfl, hreq]
      rfl
    · intro f hf
      rcases List.mem_append.1 hf with hf | hf
      · exact hrest f hf
      · rw [List.mem_singleton.1 hf]; rfl

theorem Settled.moved (h : s.Settled) (hs : s.Sound) (hm : Moved s a t) : t.Settled := by
  have hg : s.Graceful := ⟨fun _ => h.inFlight, h.order⟩
  have hoff (hact : s.act.isSend = false) (hsh : ∃ e ∈ s.world.trace, isShutdownWrite e = true) :
      s.world.conn.channel.isWriting = false := by
    have := h.writes hsh
    rwa [mayWrite, hact, Bool.or_false] at this
  cases hm with
  | calm hc => exact h.calm hc
  | established hact => exact absurd hact h.establish
  | called _ hst => exact absurd hst h.state
  | reached hact hf =>
    rename_i m r
    have hmem : .sendInLoop m ∈ s.requests := by simp [requests_pop hf, Functor.isRequest]
    exact absurd (.inr ⟨_, hmem, rfl⟩) h.inFlight
  | halfClosed hact hf =>
    refine settled_shut rfl h.state h.inFlight hg (hoff (by rw [hact]; rfl)) rfl hact rfl
      fun f hmem => ?_
    rw [requests_pop hf]
    exact List.mem_append_right _ hmem
  | shut hact =>
    exact settled_shut (w := s.world.setState .disconnecting) rfl nofun h.inFlight hg
      (hoff (by rw [hact]; rfl)) rfl rfl rfl fun f hmem => hmem
  | finished hact hst =>
    exact settled_shut rfl h.state h.inFlight hg (hoff (by rw [hact]; rfl)) rfl rfl rfl
      fun f hmem => hmem
  | accepted hst => exact absurd hst h.state
  | sent hpos => exact absurd (.inl ⟨_, by rw [hpos]; rfl⟩) h.inFlight
  | stored hpos =>
    refine ⟨nofun, h.establish, ?_, h.writes, h.order⟩
    rintro (⟨c', hc⟩ | hf)
    · exact h.inFlight (.inl ⟨c', isSend_moveTo rfl hc⟩)
    · exact h.inFlight (.inr hf)
  | requested hpos =>
    rename_i c
    have hshut : (∃ e ∈ s.world.trace ++ [.queueInLoop .shutdownInLoop], isShutdownWrite e = true) →
        ∃ e ∈ s.world.trace, isShutdownWrite e = true := by
      rintro ⟨e, he, hsh⟩
      rcases List.mem_append.1 he with he | he
      · exact ⟨e, he, hsh⟩
      · rw [List.mem_singleton.1 he] at hsh; cases hsh
    refine ⟨h.state, h.establish, ?_, fun hsh => h.writes (hshut hsh), ?_⟩
    · rintro (⟨c', hc⟩ | ⟨f, hf, hfs⟩)
      · exact h.inFlight (.inl ⟨c', isSend_moveTo rfl hc⟩)
      · rw [requests_append hs (t := { s.moveTo c .idle with world := _ }) rfl rfl] at hf
        rcases List.mem_append.1 hf with hf | hf
        · exact h.inFlight (.inr ⟨f, hf, hfs⟩)
        · rw [List.mem_singleton.1 (show f ∈ [Functor.shutdownInLoop] from hf)] at hfs; cases hfs
    · refine List.pairwise_append.2 ⟨h.order, List.pairwise_singleton _ _, fun e _ e' he' _ => ?_⟩
      rw [List.mem_singleton.1 he']; rfl

theorem ShutInv.step (h : s.ShutInv) (hC : s.ShutsLast a) (hs : step logErrno s a = some t) :
    t.ShutInv := by
  have hm := step_moved h.sound hs
  refine ⟨hm.sound h.sound, ?_⟩
  rcases h.phase with hp | hp | hp
  · exact hp.moved h.sound hC hm
  · exact .inr (hp.moved h.sound hC hm)
  · exact .inr (.inr (hp.moved h.sound hm))

theorem run_shutInv (h : s.ShutInv) (hC : Along (step logErrno) ShutsLast s as)
    (hr : run (step logErrno) s as = some t) : t.ShutInv :=
  run_inv_along (fun _ _ _ hsl hs hi => hi.step hsl hs) hC hr h

/-- In a run in which every `shutdown` stores `Disconnecting` with nothing on its way, or on another
thread with a lone message: no accepted message is overtaken by the half-close, and nothing is written
after it. -/
theorem shutdown_graceful (logErrno : Errno → Errno) (as : List (RaceStep T))
    (h₀ : w₀.Constructed) (hC : Along (step logErrno) ShutsLast (start w₀) as) :
    Always (step logErrno) Graceful (start w₀) as := by
  rintro bs ⟨cs, rfl⟩ t hr
  exact (run_shutInv (shutInv_start h₀) hC.append.1 hr).graceful

section Decidable
variable [Fintype T]

instance (s : Race ι T) : Decidable s.InFlight :=
  inferInstanceAs (Decidable (_ ∨ _))

instance (s : Race ι T) : Decidable s.Lone :=
  inferInstanceAs (Decidable (_ ∧ _ ∧ _ ∧ _))

instance (s : Race ι T) : ∀ a, Decidable (s.ShutsLast a)
  | .proceed => inferInstanceAs (Decidable (_ → _))
  | .foreignProceed _ => inferInstanceAs (Decidable (_ → _ → _))
  | .poll _ | .callback _ _ | .functor _ | .send _ _ | .shutdown | .connectDestroyed
  | .foreignSend _ _ | .foreignShutdown _ => isTrue trivial

end Decidable

set_option maxRecDepth 20000 in
/-- Thread `false` has its message in the queue when thread `true` shuts the connection down. -/
theorem shutdown_graceful_lone : ∃ t : Race Unit Bool,
    run (step id) (start (World.alone 5 ())) [.proceed, .proceed, .foreignSend false [1, 2],
      .foreignProceed false, .foreignShutdown true, .foreignProceed true, .foreignProceed true,
      .functor (.accepted 2), .proceed, .functor (.accepted 0)] = some t ∧
    t.world.trace = [.queueInLoop (.sendInLoop [1, 2]), .queueInLoop .shutdownInLoop,
      .write [1, 2] (.accepted 2), .shutdownWrite []] ∧ t.Graceful := by
  refine ⟨_, rfl, by decide +kernel, ?_⟩
  exact shutdown_graceful id [.proceed, .proceed, .foreignSend false [1, 2], .foreignProceed false,
    .foreignShutdown true, .foreignProceed true, .foreignProceed true, .functor (.accepted 2), .proceed,
    .functor (.accepted 0)] (World.alone_constructed 5 ()) (by decide +kernel) _ List.prefix_rfl _ rfl

set_option maxRecDepth 20000 in
/-- A thread has loaded `Connected` in `send` when the loop thread shuts the connection down: the
half-close is made at once, and the message written after it. -/
theorem shutdown_overtakes : ∃ s t : Race Unit Unit,
    run (step id) (start (World.alone 5 ())) [.proceed, .proceed, .foreignSend () [1], .shutdown,
      .proceed] = some s ∧
    s.closed = false ∧ ¬ s.Graceful ∧
    run (step id) s [.foreignProceed (), .functor (.error EPIPE), .proceed] = some t ∧
    t.world.trace = [.shutdownWrite [], .queueInLoop (.sendInLoop [1]),
      .write [1] (.error EPIPE)] := by
  refine ⟨_, _, rfl, rfl, fun h => h.arrived ⟨.shutdownWrite [], ?_, rfl⟩ (.inl ⟨(), rfl⟩), rfl, ?_⟩
  · decide +kernel
  · decide +kernel

end Race
end Muduo
