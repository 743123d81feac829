import Muduo.BufferFifo
import Muduo.HalfClose

/-!
# The two ends of a connection

A `TcpConnection` at each end, each driven by its own loop and used by its own user, and the kernel's two
streams between them: what `::write` accepts at one end `::readv` delivers at the other, in order, and after
the last byte `shutdown(SHUT_WR)` is read as 0. From a message given to `send` to the user's `retrieve` at
the other end the bytes pass through four places: the output buffer, the stream, the input buffer, the user.
-/

namespace Muduo
open Lts

/-- The operations by which a user takes bytes out of a buffer. -/
def Buffer.Op.Takes : Buffer.Op → Prop
  | .retrieve _ | .retrieveAll | .retrieveAllAsString | .retrieveAsString _ => True
  | .append _ | .ensureWriteableBytes _ | .readFd _ | .writeFd _ => False

instance : ∀ op : Buffer.Op, Decidable op.Takes
  | .retrieve _ | .retrieveAll | .retrieveAllAsString | .retrieveAsString _ => .isTrue trivial
  | .append _ | .ensureWriteableBytes _ | .readFd _ | .writeFd _ => .isFalse id

/-- The bytes `::readv` delivers in a step. -/
def ConnStep.delivered {ι : Type} : ConnStep ι → Bytes
  | .handleRead r => r.bytes
  | _ => []

inductive Side
  | left
  | right
deriving DecidableEq, Repr

theorem Side.eq_of_ne {i j k : Side} (hij : i ≠ j) (hk : k ≠ i) : k = j := by
  cases i <;> cases j <;> cases k <;> simp_all

structure Peer (ι : Type) where
  world : World ι
  /-- Accepted by the kernel at the other end and not yet delivered at this one. -/
  incoming : Bytes
  /-- The other end has shut down its writing. -/
  fin : Bool
  /-- What the user has taken out of the input buffer; the code keeps no such record. -/
  taken : Bytes

inductive PeerStep (ι : Type)
  | conn (a : ConnStep ι)
  /-- The user, in a callback. -/
  | take (op : Buffer.Op)
deriving DecidableEq, Repr

structure Link (ι : Type) where
  peer : Side → Peer ι
  cut : Bool

inductive LinkStep (ι : Type)
  | peer (i : Side) (a : PeerStep ι)
  /-- The TCP connection is reset, or closed by the descriptor of one end: what is on its way is lost. -/
  | cut
deriving DecidableEq, Repr

namespace Peer
variable {ι : Type}

def input (p : Peer ι) : Bytes := p.world.conn.inputBuffer.readable

/-- Everything that has come in at this end. -/
def received (p : Peer ι) : Bytes := p.taken ++ p.input

/-- The kernel delivers the next bytes; it answers 0 after the last one, or on a connection that is cut. -/
def Answers (p : Peer ι) (cut : Bool) : PeerStep ι → Prop
  | .conn (.handleRead (.delivered data)) =>
    data <+: p.incoming ∧ (data = [] → p.incoming = [] ∧ (p.fin = true ∨ cut = true))
  | _ => True

instance (p : Peer ι) (cut : Bool) (a : PeerStep ι) : Decidable (p.Answers cut a) := by
  unfold Answers
  split <;> infer_instance

def step (logErrno : Errno → Errno) (p : Peer ι) : PeerStep ι → Option (Peer ι)
  | .conn a => (a.exec logErrno p.world).toOption.map fun w =>
    { p with world := w, incoming := p.incoming.drop a.delivered.length }
  | .take op =>
    if op.Takes then
      (op.exec p.world.conn.inputBuffer).toOption.map fun (_, b) =>
        { p with
          world.conn.inputBuffer := b
          taken := p.taken ++ p.input.take (p.input.length - b.readable.length) }
    else none

/-- The kernel's part of what the other end has done. -/
def carry (p : Peer ι) (cut : Bool) (es : List Effect) : Peer ι :=
  { p with
    incoming := if cut then p.incoming else p.incoming ++ accepted es
    fin := p.fin || es.any isShutdownWrite }

/-- What the kernel and the user of a step that has returned owe. -/
def Offered (p : Peer ι) : PeerStep ι → Prop
  | .conn a => a.Offered p.world
  | .take _ => True

instance (p : Peer ι) (a : PeerStep ι) : Decidable (p.Offered a) := by
  unfold Offered
  split <;> infer_instance

/-- The bytes of a message that `sendInLoop` keeps in a step. -/
def sent (logErrno : Errno → Errno) (p : Peer ι) : PeerStep ι → Bytes
  | .conn a => a.kept logErrno p.world
  | .take _ => []

end Peer

namespace Link
variable {ι : Type}

def step (logErrno : Errno → Errno) (s : Link ι) : LinkStep ι → Option (Link ι)
  | .peer i a =>
    if (s.peer i).Answers s.cut a then
      ((s.peer i).step logErrno a).map fun p =>
        { s with peer := fun j =>
            if j = i then p
            else (s.peer j).carry s.cut (p.world.trace.drop (s.peer i).world.trace.length) }
    else none
  | .cut => some { peer := fun j => { s.peer j with incoming := [] }, cut := true }

/-- The two connections once they are established, with nothing on its way. -/
def opened (w : Side → World ι) : Link ι where
  peer i := ⟨w i, [], false, []⟩
  cut := false

def Offered (s : Link ι) : LinkStep ι → Prop
  | .peer i a => (s.peer i).Offered a
  | .cut => True

instance (s : Link ι) (a : LinkStep ι) : Decidable (s.Offered a) := by
  unfold Offered
  split <;> infer_instance

/-- What the user of one end sends and `sendInLoop` does not drop. -/
def sent (logErrno : Errno → Errno) (i : Side) (s : Link ι) : LinkStep ι → Bytes
  | .peer j a => if j = i then (s.peer i).sent logErrno a else []
  | .cut => []

end Link

/-! ### One step of an end -/

namespace ConnStep
variable {ι : Type} {logErrno : Errno → Errno} {w w' : World ι} {a : ConnStep ι}

/-- A step only adds to the trace. -/
theorem Did.trace (hd : Did logErrno w a w') : ∃ es, w'.trace = w.trace ++ es := by
  cases hd with
  | sent _ _ hs => exact ⟨_, by rw [hs.trace, List.append_assoc]⟩
  | halfClosed _ => exact ⟨_, by rw [World.shutdownInLoop_eq]; rfl⟩
  | shut => exact ⟨_, by rw [World.shutdownInLoop_eq]⟩
  | ended _ hc => exact ⟨_, by rw [hc.trace, List.append_assoc]; rfl⟩
  | closed hc => exact ⟨_, by rw [hc.trace, List.append_assoc]; rfl⟩
  | destroyed hc => exact ⟨_, hc.trace⟩
  | drained hdr =>
    rw [World.finishWrite_eq]
    split
    · exact ⟨_, by rw [World.shutdownInLoop_eq]; simp only [hdr.trace, List.append_assoc]; rfl⟩
    · exact ⟨_, by rw [hdr.trace, List.append_assoc]⟩
  | queued | requested _ | delivered _ => exact ⟨_, rfl⟩
  | refused _ | read _ | other _ _ => exact ⟨[], (List.append_nil _).symm⟩

theorem Did.input (hd : Did logErrno w a w') (ha : ∀ r, a ≠ .handleRead r) :
    w'.conn.inputBuffer = w.conn.inputBuffer := by
  cases hd with
  | sent _ _ hs => rw [hs.eq]
  | halfClosed _ => rw [World.shutdownInLoop_conn]; rfl
  | shut => rw [World.shutdownInLoop_conn]
  | drained hdr => rw [World.finishWrite_conn, hdr.eq]
  | closed hc => rw [hc.eq]; rfl
  | destroyed hc => rw [hc.eq]
  | read _ | delivered _ | ended _ _ => exact absurd rfl (ha _)
  | refused _ | queued | requested _ | other _ _ => rfl

theorem handleRead_input {r : ReadResult} (h : w.Wf) (ho : w.handleRead r = .ok w') :
    w'.conn.inputBuffer.readable = w.conn.inputBuffer.readable ++ r.bytes := by
  obtain ⟨⟨v, atEnd⟩, hv, ho⟩ := bind_eq_ok.1 ho
  have hin : v.conn.inputBuffer.readable = w.conn.inputBuffer.readable ++ r.bytes := by
    obtain ⟨⟨n, inp⟩, hread, hv⟩ := bind_eq_ok.1 hv
    obtain ⟨-, -, hreadable⟩ := Buffer.readFd_ok h.inp hread
    rw [← hreadable]
    dsimp only at hv
    split at hv
    · cases hv
      split
      · rfl
      · rfl
    · split at hv
      · cases hv
        rfl
      · cases hv
        rfl
  obtain ⟨inp, hwf, hcases⟩ := World.readInput_ok h hv
  cases atEnd with
  | false =>
    cases ho
    exact hin
  | true =>
    have hvw : v.Wf := by
      rcases hcases with ⟨hf, -⟩ | ⟨-, -, rfl⟩
      · cases hf
      · exact hwf
    rw [(World.closeRest_ok (hvw.setState .disconnected) ho).eq]
    exact hin

/-- Only what `::readv` delivers comes into the input buffer. -/
theorem exec_input (h : w.Wf) (hof : a.Offered w) (ho : a.exec logErrno w = .ok w') :
    w'.conn.inputBuffer.readable = w.conn.inputBuffer.readable ++ a.delivered := by
  by_cases ha : ∃ r, a = .handleRead r
  · obtain ⟨r, rfl⟩ := ha
    exact handleRead_input h ho
  · have hne : ∀ r, a ≠ .handleRead r := fun r hr => ha ⟨r, hr⟩
    have hnil : a.delivered = [] := by
      cases a with
      | handleRead r => exact absurd rfl (hne r)
      | _ => rfl
    rw [(exec_ok h hof ho).input hne, hnil, List.append_nil]

end ConnStep

theorem World.connectEstablished_input {ι : Type} {w w' : World ι} (h : w.Constructed)
    (ho : w.connectEstablished = .ok w') : w'.conn.inputBuffer.readable = [] := by
  obtain ⟨v, hv, ho⟩ := bind_eq_ok.1 ho
  obtain ⟨heq, -, -⟩ := channelOp_ok h.synced_tie hv
  rw [runConnectionCallback_eq] at ho
  cases ho
  have hin : v.conn.inputBuffer = .initial := by
    rw [heq]
    exact h.input
  rw [hin, Buffer.readable_initial]

/-- What a user takes out comes from the front. -/
theorem Buffer.Op.Takes.exec {op : Buffer.Op} {b b' : Buffer} {o : Buffer.Output} (ht : op.Takes) (h : b.Inv)
    (ho : op.exec b = .ok (o, b')) : b'.Inv ∧ ∃ n, b'.readable = b.readable.drop n := by
  have all : b.retrieveAll.Inv ∧ ∃ n, b.retrieveAll.readable = b.readable.drop n :=
    ⟨h.retrieveAll, b.readable.length, by rw [Buffer.readable_retrieveAll, List.drop_length]⟩
  have some (n : Nat) : (b.retrieve n).Inv ∧ ∃ m, (b.retrieve n).readable = b.readable.drop m :=
    ⟨h.retrieve, n, Buffer.readable_retrieve h⟩
  have string {n : Nat} {s : Bytes} (hs : b.retrieveAsString n = .ok (s, b')) :
      b'.Inv ∧ ∃ m, b'.readable = b.readable.drop m := by
    unfold Buffer.retrieveAsString at hs
    split at hs
    · cases hs
      exact some n
    · cases hs
  cases op with
  | retrieve n =>
    cases ho
    exact some n
  | retrieveAll =>
    cases ho
    exact all
  | retrieveAllAsString =>
    obtain ⟨⟨s, b''⟩, hs, ho⟩ := map_eq_ok.1 ho
    cases ho
    exact string hs
  | retrieveAsString n =>
    obtain ⟨⟨s, b''⟩, hs, ho⟩ := map_eq_ok.1 ho
    cases ho
    exact string hs
  | append _ | ensureWriteableBytes _ | readFd _ | writeFd _ => exact ht.elim

namespace Peer
variable {ι : Type} {logErrno : Errno → Errno} {p p' q q' : Peer ι} {a : PeerStep ι} {cut : Bool}
  {es : List Effect}

@[simp] theorem carry_world : (p.carry cut es).world = p.world := rfl

/-- Everything a step of one end does at that end. -/
structure Stepped (logErrno : Errno → Errno) (p : Peer ι) (a : PeerStep ι) (p' : Peer ι) : Prop where
  wf : p'.world.Wf
  trace : ∃ es, p'.world.trace = p.world.trace ++ es
  stream : p'.world.stream = p.world.stream ++ p.sent logErrno a
  fin : p'.fin = p.fin
  received : ∃ data, data <+: p.incoming ∧ p'.received = p.received ++ data ∧
    p'.incoming = p.incoming.drop data.length

theorem delivered_prefix {a : ConnStep ι} (h : p.Answers cut (.conn a)) : a.delivered <+: p.incoming := by
  cases a with
  | handleRead r =>
    cases r with
    | delivered data => exact h.1
    | error e => exact List.nil_prefix
  | _ => exact List.nil_prefix

theorem take_received {b : Buffer} {n : Nat} (h : b.readable = p.input.drop n) :
    (p.taken ++ p.input.take (p.input.length - b.readable.length)) ++ b.readable = p.received := by
  rw [received, List.append_assoc]
  congr 1
  rw [h, List.length_drop]
  rcases Nat.le_total n p.input.length with hn | hn
  · rw [Nat.sub_sub_self hn, List.take_append_drop]
  · rw [List.drop_eq_nil_of_le hn, Nat.sub_eq_zero_of_le hn, Nat.sub_zero, List.take_length, List.append_nil]

theorem step_ok (h : p.world.Wf) (hof : p.Offered a) (hans : p.Answers cut a)
    (hs : p.step logErrno a = some p') : Stepped logErrno p a p' := by
  cases a with
  | conn a =>
    obtain ⟨w, hw, rfl⟩ := Option.map_eq_some_iff.1 hs
    have ho := toOption_eq_some.1 hw
    have hd := ConnStep.exec_ok h hof ho
    refine ⟨hd.wf h, hd.trace, hd.stream h, rfl, a.delivered, delivered_prefix hans, ?_, rfl⟩
    rw [received, received, input, input, ConnStep.exec_input h hof ho, List.append_assoc]
  | take op =>
    rw [step] at hs
    split at hs
    · rename_i ht
      obtain ⟨⟨o, b⟩, hb, rfl⟩ := Option.map_eq_some_iff.1 hs
      obtain ⟨hinv, n, hn⟩ := ht.exec h.inp (toOption_eq_some.1 hb)
      refine ⟨⟨h.out, hinv, h.synced⟩, ⟨[], (List.append_nil _).symm⟩, (List.append_nil _).symm, rfl, [],
        List.nil_prefix, ?_, rfl⟩
      rw [List.append_nil]
      exact take_received hn
    · cases hs

/-- What has come in at `q` and what is on its way is what `::write` accepted at `p`, up to what was cut
off. -/
structure Carries (cut : Bool) (p q : Peer ι) : Prop where
  stream : ∃ lost, q.received ++ q.incoming ++ lost = accepted p.world.trace ∧ (cut = false → lost = [])
  fin : q.fin = p.world.trace.any isShutdownWrite

theorem Carries.send (h : Carries cut p q) (ht : p'.world.trace = p.world.trace ++ es) :
    Carries cut p' (q.carry cut es) := by
  obtain ⟨lost, hl, hnil⟩ := h.stream
  refine ⟨?_, by rw [ht, List.any_append, ← h.fin]; rfl⟩
  rw [ht, accepted_append, ← hl]
  cases cut with
  | true => exact ⟨lost ++ accepted es, (List.append_assoc ..).symm, fun hc => by cases hc⟩
  | false =>
    refine ⟨[], ?_, fun _ => rfl⟩
    rw [hnil rfl, List.append_nil, List.append_nil, List.append_assoc]
    rfl

theorem Carries.receive (h : Carries cut p q) (hq : Stepped logErrno q a q') : Carries cut (p.carry cut es) q' := by
  obtain ⟨lost, hl, hnil⟩ := h.stream
  obtain ⟨data, ⟨rest, hrest⟩, hrec, hinc⟩ := hq.received
  refine ⟨⟨lost, ?_, hnil⟩, hq.fin.trans h.fin⟩
  rw [hrec, hinc, ← hrest, List.drop_left, List.append_assoc q.received, hrest]
  exact hl

theorem Carries.lose (h : Carries cut p q) :
    Carries true { p with incoming := [] } { q with incoming := [] } := by
  obtain ⟨lost, hl, -⟩ := h.stream
  refine ⟨⟨q.incoming ++ lost, ?_, fun hc => by cases hc⟩, h.fin⟩
  show q.received ++ [] ++ (q.incoming ++ lost) = _
  rw [List.append_nil, ← List.append_assoc]
  exact hl

end Peer

/-! ### The two streams -/

namespace Link
variable {ι : Type} {logErrno : Errno → Errno} {s t : Link ι} {w₀ w : Side → World ι} {i j : Side}
  {a : LinkStep ι} {b : PeerStep ι} {as : List (LinkStep ι)}

structure Inv (s : Link ι) : Prop where
  wf : ∀ i, (s.peer i).world.Wf
  carries : ∀ i j, i ≠ j → Peer.Carries s.cut (s.peer i) (s.peer j)

/-- Everything a step of an end does. -/
structure Moved (logErrno : Errno → Errno) (s : Link ι) (i : Side) (a : PeerStep ι) (t : Link ι) : Prop where
  answers : (s.peer i).Answers s.cut a
  stepped : Peer.Stepped logErrno (s.peer i) a (t.peer i)
  cut : t.cut = s.cut
  other : ∃ es, (t.peer i).world.trace = (s.peer i).world.trace ++ es ∧
    ∀ j, j ≠ i → t.peer j = (s.peer j).carry s.cut es

theorem step_ok (h : s.Inv) (hof : (s.peer i).Offered b) (hs : s.step logErrno (.peer i b) = some t) :
    Moved logErrno s i b t := by
  rw [step] at hs
  split at hs
  · rename_i hans
    obtain ⟨p, hp, rfl⟩ := Option.map_eq_some_iff.1 hs
    have hst := Peer.step_ok (h.wf i) hof hans hp
    obtain ⟨es, hes⟩ := hst.trace
    refine ⟨hans, ?_, rfl, es, ?_, fun j hj => ?_⟩
    · simpa using hst
    · simpa using hes
    · dsimp only
      rw [if_neg hj, hes, List.drop_left]
  · cases hs

theorem Moved.world (h : Moved logErrno s i b t) (hj : j ≠ i) : (t.peer j).world = (s.peer j).world := by
  obtain ⟨es, -, hes⟩ := h.other
  rw [hes j hj, Peer.carry_world]

theorem Inv.step (h : s.Inv) (hof : s.Offered a) (hs : s.step logErrno a = some t) : t.Inv := by
  cases a with
  | peer i b =>
    have hm := step_ok h hof hs
    obtain ⟨es, hes, hother⟩ := hm.other
    refine ⟨fun j => ?_, fun j k hjk => ?_⟩
    · by_cases hj : j = i
      · exact hj ▸ hm.stepped.wf
      · rw [hm.world hj]
        exact h.wf j
    · rw [hm.cut]
      by_cases hj : j = i
      · subst hj
        rw [hother k (Ne.symm hjk)]
        exact (h.carries j k hjk).send hes
      · obtain rfl := Side.eq_of_ne hj (Ne.symm hjk)
        rw [hother j hj]
        exact (h.carries j k hjk).receive hm.stepped
  | cut =>
    cases hs
    exact ⟨fun j => h.wf j, fun j k hjk => (h.carries j k hjk).lose⟩

/-- What the user of an end sends goes to the end of what the end has written and is to write. -/
theorem step_stream (h : s.Inv) (hof : s.Offered a) (hs : s.step logErrno a = some t) :
    (t.peer i).world.stream = (s.peer i).world.stream ++ s.sent logErrno i a := by
  cases a with
  | peer j b =>
    have hm := step_ok h hof hs
    by_cases hj : j = i
    · subst hj
      rw [sent, if_pos rfl]
      exact hm.stepped.stream
    · rw [sent, if_neg hj, hm.world (Ne.symm hj), List.append_nil]
  | cut =>
    cases hs
    exact (List.append_nil _).symm

theorem opened_inv (h₀ : ∀ i, (w₀ i).Constructed) (he : ∀ i, (w₀ i).connectEstablished = .ok (w i)) :
    (opened w).Inv := by
  have hw := fun i => World.connectEstablished_ok (h₀ i) (he i)
  refine ⟨fun i => (hw i).wf, fun i j _ => ?_⟩
  have htrace : accepted (w i).trace = [] ∧ (w i).trace.any isShutdownWrite = false := by
    rw [(hw i).trace]
    split <;> exact ⟨rfl, rfl⟩
  refine ⟨⟨[], ?_, fun _ => rfl⟩, htrace.2.symm⟩
  show [] ++ (w j).conn.inputBuffer.readable ++ [] ++ [] = accepted (w i).trace
  rw [World.connectEstablished_input (h₀ j) (he j), htrace.1]
  rfl

theorem run_inv (h : s.Inv) (hof : Along (step logErrno) Offered s as)
    (hr : run (step logErrno) s as = some t) : t.Inv :=
  run_inv_along (fun _ _ _ hc hs hi => hi.step hc hs) hof hr h

theorem run_stream (h : s.Inv) (hof : Along (step logErrno) Offered s as)
    (hr : run (step logErrno) s as = some t) :
    (t.peer i).world.stream = (s.peer i).world.stream ++ collect (step logErrno) (sent logErrno i) s as :=
  run_collect (g := fun s => (s.peer i).world.stream) (fun _ _ _ hc hs hi => hi.step hc hs)
    (fun _ _ _ hc hs hi => step_stream hi hc hs) hof hr h

theorem opened_stream (h₀ : ∀ i, (w₀ i).Constructed) (he : ∀ i, (w₀ i).connectEstablished = .ok (w i)) :
    ((opened w).peer i).world.stream = [] := by
  have hw := World.connectEstablished_ok (h₀ i) (he i)
  rw [World.stream]
  show accepted (w i).trace ++ (w i).unsent = []
  rw [hw.unsent, hw.trace]
  split <;> rfl

end Link

/-! ### Half-closing -/

namespace World
variable {ι : Type} {w w' : World ι} {es : List Effect}

/-- Once half-closed, for good, and nothing is written any more. -/
theorem Shut.stays (h : w.Shut) (h' : w'.HalfClose) (ht : w'.trace = w.trace ++ es) :
    w'.Shut ∧ accepted w'.trace = accepted w.trace := by
  obtain ⟨pre, post, htr, hpre, -, hnone⟩ := h.once
  have hmem : .shutdownWrite [] ∈ w'.trace := by simp [ht, htr]
  have hs : w'.Shut := h'.phase.resolve_left fun hp => by
    have := hp.silent _ hmem
    cases this
  refine ⟨hs, ?_⟩
  obtain ⟨pre', post', htr', hpre', hpost', hnone'⟩ := hs.once
  have heq : pre' ++ .shutdownWrite [] :: post' = pre ++ .shutdownWrite [] :: (post ++ es) := by
    rw [← htr', ht, htr, List.append_assoc, List.cons_append]
  obtain ⟨rfl, -, -⟩ := shutdownWrite_unique heq hpre' hpost'
  have only (t : List Effect) (hn : accepted t = []) :
      accepted (pre' ++ .shutdownWrite [] :: t) = accepted pre' := by
    rw [accepted_append, ← List.singleton_append, accepted_append, hn]
    exact List.append_nil _
  rw [htr, htr', only _ hnone, only _ hnone']

end World

/-- `send` and `shutdown` are called on the loop thread. -/
def PeerStep.OnLoop {ι : Type} : PeerStep ι → Prop
  | .conn a => a.OnLoop
  | .take _ => True

instance {ι : Type} (a : PeerStep ι) : Decidable a.OnLoop := by
  unfold PeerStep.OnLoop
  split <;> infer_instance

/-- By the end `i`. -/
def LinkStep.OnLoop {ι : Type} (i : Side) : LinkStep ι → Prop
  | .peer j a => j = i → a.OnLoop
  | .cut => True

instance {ι : Type} (i : Side) (a : LinkStep ι) : Decidable (a.OnLoop i) := by
  unfold LinkStep.OnLoop
  split <;> infer_instance

theorem Peer.step_halfClose {ι : Type} {logErrno : Errno → Errno} {p p' : Peer ι} {a : PeerStep ι}
    (h : p.world.HalfClose) (hof : p.Offered a) (ha : a.OnLoop) (hst : Stepped logErrno p a p')
    (hs : p.step logErrno a = some p') : p'.world.HalfClose := by
  cases a with
  | conn a =>
    obtain ⟨w, hw, rfl⟩ := Option.map_eq_some_iff.1 hs
    exact (ConnStep.exec_ok h.wf hof (toOption_eq_some.1 hw)).halfClose h ha
  | take op =>
    rw [step] at hs
    split at hs
    · obtain ⟨⟨o, b⟩, -, rfl⟩ := Option.map_eq_some_iff.1 hs
      exact h.extend hst.wf (List.append_nil _).symm silent_nil rfl rfl rfl rfl
    · cases hs

namespace Link
variable {ι : Type} {logErrno : Errno → Errno} {s t : Link ι} {w₀ w : Side → World ι} {i j : Side}
  {a : LinkStep ι} {b : PeerStep ι} {as bs : List (LinkStep ι)}

/-- The state of a run in which `i` half-closes from its own loop. -/
structure Closing (i : Side) (s : Link ι) : Prop where
  inv : s.Inv
  halfClose : (s.peer i).world.HalfClose

/-- Half-closed at `i`, and all come in at `j`. -/
structure Complete (i j : Side) (s : Link ι) : Prop where
  shut : (s.peer i).world.Shut
  all : (s.peer j).received = accepted (s.peer i).world.trace

theorem Closing.step (h : s.Closing i) (hof : s.Offered a) (ha : a.OnLoop i)
    (hs : s.step logErrno a = some t) : t.Closing i := by
  refine ⟨h.inv.step hof hs, ?_⟩
  cases a with
  | peer k b =>
    have hm := step_ok h.inv hof hs
    by_cases hk : k = i
    · subst hk
      refine Peer.step_halfClose h.halfClose hof (ha rfl) hm.stepped ?_
      rw [Link.step, if_pos hm.answers] at hs
      obtain ⟨p, hp, rfl⟩ := Option.map_eq_some_iff.1 hs
      simpa using hp
    · rw [hm.world (Ne.symm hk)]
      exact h.halfClose
  | cut =>
    cases hs
    exact h.halfClose

theorem opened_closing (h₀ : ∀ i, (w₀ i).Constructed) (he : ∀ i, (w₀ i).connectEstablished = .ok (w i)) :
    (opened w).Closing i :=
  ⟨opened_inv h₀ he, (World.connectEstablished_ok (h₀ i) (he i)).halfClose⟩

theorem Complete.step (hs : s.Complete i j) (h : s.Inv) (h' : t.Closing i) (hij : i ≠ j) (hof : s.Offered a)
    (ht : s.step logErrno a = some t) : t.Complete i j := by
  cases a with
  | peer k b =>
    have hm := step_ok h hof ht
    by_cases hk : k = i
    · subst hk
      obtain ⟨es, hes, hother⟩ := hm.other
      obtain ⟨hshut, hacc⟩ := hs.shut.stays h'.halfClose hes
      refine ⟨hshut, ?_⟩
      rw [hother j (Ne.symm hij), hacc]
      exact hs.all
    · obtain rfl := Side.eq_of_ne hij hk
      -- nothing is on its way any more
      obtain ⟨lost, hl, -⟩ := (h.carries i k hij).stream
      obtain ⟨data, hdata, hrec, -⟩ := hm.stepped.received
      have hnil : (s.peer k).incoming ++ lost = [] := by
        rw [hs.all.symm, List.append_assoc] at hl
        exact List.append_cancel_left (hl.trans (List.append_nil _).symm)
      rw [(List.append_eq_nil_iff.1 hnil).1, List.prefix_nil] at hdata
      refine ⟨?_, ?_⟩
      · rw [hm.world (Ne.symm hk)]
        exact hs.shut
      · rw [hm.world (Ne.symm hk), hrec, hdata, List.append_nil]
        exact hs.all
  | cut =>
    cases ht
    exact ⟨hs.shut, hs.all⟩

end Link

/-! ### Delivery -/

namespace Peer
variable {ι : Type} {logErrno : Errno → Errno} {p p' : Peer ι} {a : PeerStep ι} {mask : EventMask}

/-- The descriptor is in the poller's interest set for one of the events. -/
def Watched (p : Peer ι) (mask : EventMask) : Prop :=
  ∃ e, p.world.poller.interest p.world.conn.channel.fd = some ⟨e, p.world.ptr⟩ ∧ e &&& mask ≠ 0

/-- A connection still open is watched for reading, and for writing while it has something to write. -/
theorem flowing_watched (h : p.world.Flowing) : p.Watched Channel.kReadEvent ∧
    (p.world.unsent ≠ [] → p.Watched Channel.kWriteEvent) := by
  have hadd := h.wf.synced.added h.status
  refine ⟨⟨_, hadd, fun hz => ?_⟩, fun hne => ⟨_, hadd, ?_⟩⟩
  · have hbit : (p.world.conn.channel.events &&& Channel.kReadEvent).getLsbD 0 = true := by
      rw [BitVec.getLsbD_and, h.reading]
      decide
    rw [hz] at hbit
    cases hbit
  · have hw := h.writing.2 hne
    rw [Channel.isWriting, bne_iff_ne] at hw
    exact hw

def Closes : PeerStep ι → Prop
  | .conn a => a.Closes
  | .take _ => False

theorem step_flowing (h : p.world.Flowing) (hof : p.Offered a) (ha : ¬ Closes a) (hst : Stepped logErrno p a p')
    (hs : p.step logErrno a = some p') : p'.world.Flowing := by
  cases a with
  | conn a =>
    obtain ⟨w, hw, rfl⟩ := Option.map_eq_some_iff.1 hs
    exact (ConnStep.exec_ok h.wf hof (toOption_eq_some.1 hw)).flowing h ha
  | take op =>
    rw [step] at hs
    split at hs
    · obtain ⟨⟨o, b⟩, -, rfl⟩ := Option.map_eq_some_iff.1 hs
      exact h.congr hst.wf rfl rfl
    · cases hs

/-- A byte can always be read into a buffer that has been taken empty. -/
theorem one_byte_legal {b : Buffer} {x : UInt8} (h : b.Inv) (hw : b.writerIndex = Buffer.kCheapPrepend) :
    b.ReadLegal (.delivered [x]) ∧ b.ReadNoOverflow (.delivered [x]) := by
  have hwr := h.writableBytes_eq
  have hlen := h.writer
  rw [hw] at hwr hlen
  constructor
  · show 1 ≤ b.iovecLength
    unfold Buffer.iovecLength Buffer.kExtraBufSize
    split <;> omega
  · intro hlt hfull
    change b.writableBytes < 1 at hlt
    have hsize : b.buffer.length = Buffer.kCheapPrepend := by omega
    have hmax : Buffer.kCheapPrepend + 1 ≤ maxSize := by decide
    have hone : ([x] : Bytes).length - b.writableBytes ≤ 1 := Nat.sub_le _ _
    refine ⟨by omega, fun _ => ?_⟩
    show b.buffer.length + _ ≤ maxSize
    omega

end Peer

namespace Link
variable {ι : Type} {logErrno : Errno → Errno} {s t : Link ι} {w₀ w : Side → World ι} {i j : Side}
  {a : LinkStep ι} {b : PeerStep ι} {as bs : List (LinkStep ι)}

/-- The end `i` writes, the end `j` reads, or the user there takes all there is in the input buffer; each
as its poller would report it. -/
inductive Delivery (i j : Side) (s : Link ι) : LinkStep ι → Prop
  | write {n : Nat} (hw : (s.peer i).Watched Channel.kWriteEvent) (hn : 0 < n)
      (hle : n ≤ (s.peer i).world.unsent.length) : Delivery i j s (.peer i (.conn (.handleWrite (.accepted n))))
  | read {data : Bytes} (hw : (s.peer j).Watched Channel.kReadEvent) (hne : data ≠ [])
      (hle : (s.peer j).world.conn.inputBuffer.ReadLegal (.delivered data)) :
      Delivery i j s (.peer j (.conn (.handleRead (.delivered data))))
  | take (hw : (s.peer j).world.conn.inputBuffer.writerIndex ≠ Buffer.kCheapPrepend) :
      Delivery i j s (.peer j (.take .retrieveAll))

/-- The steps that leave both ends open. -/
def StaysOpen : LinkStep ι → Prop
  | .peer _ a => ¬ Peer.Closes a
  | .cut => False

instance (a : LinkStep ι) : Decidable (StaysOpen a) := by
  unfold StaysOpen Peer.Closes
  split
  · split <;> infer_instance
  · infer_instance

/-- Both ends are open, and nothing has been cut off. -/
structure Open (s : Link ι) : Prop where
  inv : s.Inv
  flowing : ∀ i, (s.peer i).world.Flowing
  cut : s.cut = false

/-- What the bytes sent from `i` to `j` have still before them. -/
def undelivered (i j : Side) (s : Link ι) : Nat :=
  5 * (s.peer i).world.unsent.length + 3 * (s.peer j).incoming.length + (s.peer j).input.length +
    if (s.peer j).world.conn.inputBuffer.writerIndex = Buffer.kCheapPrepend then 0 else 1

theorem Open.step (h : s.Open) (hof : s.Offered a) (ha : StaysOpen a) (hs : s.step logErrno a = some t) :
    t.Open := by
  cases a with
  | peer i b =>
    have hm := step_ok h.inv hof hs
    refine ⟨h.inv.step hof hs, fun j => ?_, hm.cut.trans h.cut⟩
    by_cases hj : j = i
    · subst hj
      refine Peer.step_flowing (h.flowing j) hof ha hm.stepped ?_
      rw [Link.step, if_pos hm.answers] at hs
      obtain ⟨p, hp, rfl⟩ := Option.map_eq_some_iff.1 hs
      simpa using hp
    · rw [hm.world hj]
      exact h.flowing j
  | cut => exact ha.elim

theorem opened_open (h₀ : ∀ i, (w₀ i).Constructed) (he : ∀ i, (w₀ i).connectEstablished = .ok (w i)) :
    (opened w).Open :=
  ⟨opened_inv h₀ he, fun i => (World.connectEstablished_ok (h₀ i) (he i)).flowing, rfl⟩

namespace Delivery
variable (h : s.Open) (hd : Delivery i j s a)
include hd

theorem offered : s.Offered a := by
  cases hd <;> trivial

theorem staysOpen : StaysOpen a := by
  cases hd with
  | write => exact id
  | read _ hne _ => exact fun hc => hne (ReadResult.delivered.inj hc)
  | take => exact id

theorem onLoop : a.OnLoop i := by
  cases hd with
  | write => exact fun _ => trivial
  | read => exact fun _ => trivial
  | take => exact fun _ => trivial

theorem sent_eq : s.sent logErrno i a = [] := by
  cases hd with
  | write => exact if_pos rfl
  | read => exact ite_self _
  | take => exact ite_self _

end Delivery

theorem write_unsent {n : Nat} (h : s.Open) (hn : 0 < n) (hle : n ≤ (s.peer i).world.unsent.length)
    (hs : s.step logErrno (.peer i (.conn (.handleWrite (.accepted n)))) = some t) :
    (t.peer i).world.unsent = (s.peer i).world.unsent.drop n := by
  have hwr : (s.peer i).world.conn.channel.isWriting = true :=
    (h.flowing i).writing.2 (List.ne_nil_of_length_pos (Nat.lt_of_lt_of_le hn hle))
  rw [step] at hs
  split at hs
  · obtain ⟨p, hp, rfl⟩ := Option.map_eq_some_iff.1 hs
    obtain ⟨w, hw, rfl⟩ := Option.map_eq_some_iff.1 hp
    obtain ⟨⟨v, b⟩, hv, ho⟩ := map_eq_ok.1 (toOption_eq_some.1 hw)
    cases ho
    have hun : (World.finishWrite (v, b)).unsent = v.unsent := by
      rw [World.unsent, World.finishWrite_conn]
      rfl
    simp only [if_true, hun, (World.drain_ok (h.inv.wf i) hv).unsent, World.taken, hwr]
  · cases hs

theorem write_decreases {n : Nat} (h : s.Open) (hij : i ≠ j) (hn : 0 < n)
    (hle : n ≤ (s.peer i).world.unsent.length)
    (hs : s.step logErrno (.peer i (.conn (.handleWrite (.accepted n)))) = some t) :
    undelivered i j t < undelivered i j s := by
  have hun := write_unsent h hn hle hs
  have hstr : (t.peer i).world.stream = (s.peer i).world.stream ++
      s.sent logErrno i (.peer i (.conn (.handleWrite (.accepted n)))) :=
    step_stream (a := .peer i (.conn (.handleWrite (.accepted n)))) h.inv trivial hs
  obtain ⟨es, hes, hother⟩ := (step_ok (b := .conn (.handleWrite (.accepted n))) h.inv trivial hs).other
  -- what leaves the output buffer is what comes into the stream
  have hlen : (accepted es).length + (t.peer i).world.unsent.length = (s.peer i).world.unsent.length := by
    rw [World.stream, hes, accepted_append, World.stream, sent, if_pos rfl] at hstr
    have hcancel : accepted es ++ (t.peer i).world.unsent = (s.peer i).world.unsent := by
      simpa [Peer.sent, ConnStep.kept, ConnStep.passed] using hstr
    rw [← List.length_append, hcancel]
  have hlen' : (t.peer i).world.unsent.length = (s.peer i).world.unsent.length - n := by
    rw [hun, List.length_drop]
  rw [undelivered, undelivered, hother j (Ne.symm hij)]
  simp only [Peer.carry, h.cut, Bool.false_eq_true, if_false, List.length_append, Peer.input]
  omega

theorem read_decreases {data : Bytes} (h : s.Open) (hij : i ≠ j) (hne : data ≠ [])
    (hs : s.step logErrno (.peer j (.conn (.handleRead (.delivered data)))) = some t) :
    undelivered i j t < undelivered i j s := by
  have hm := step_ok (b := .conn (.handleRead (.delivered data))) h.inv trivial hs
  have hpre : data.length ≤ (s.peer j).incoming.length := (hm.answers).1.length_le
  have hpos : 0 < data.length := List.length_pos_iff.2 hne
  have hun : (t.peer i).world.unsent = (s.peer i).world.unsent := by rw [World.unsent, hm.world hij]; rfl
  rw [step, if_pos hm.answers] at hs
  obtain ⟨p, hp, rfl⟩ := Option.map_eq_some_iff.1 hs
  obtain ⟨w, hw, rfl⟩ := Option.map_eq_some_iff.1 hp
  have hin := ConnStep.exec_input (h.inv.wf j) (by exact trivial) (toOption_eq_some.1 hw)
  rw [undelivered, undelivered, hun]
  simp only [if_true, Peer.input, hin, List.length_append, List.length_drop, ConnStep.delivered,
    ReadResult.bytes]
  split <;> split <;> omega

theorem take_decreases (h : s.Open) (hij : i ≠ j)
    (hw : (s.peer j).world.conn.inputBuffer.writerIndex ≠ Buffer.kCheapPrepend)
    (hs : s.step logErrno (.peer j (.take .retrieveAll)) = some t) :
    undelivered i j t < undelivered i j s := by
  have hm := step_ok (b := .take .retrieveAll) h.inv trivial hs
  have hun : (t.peer i).world.unsent = (s.peer i).world.unsent := by rw [World.unsent, hm.world hij]; rfl
  rw [step, if_pos hm.answers] at hs
  obtain ⟨p, hp, rfl⟩ := Option.map_eq_some_iff.1 hs
  cases hp
  have hidx : (s.peer j).world.conn.inputBuffer.retrieveAll.writerIndex = Buffer.kCheapPrepend := rfl
  rw [undelivered, undelivered, hun, if_neg hw]
  simp only [if_true, Peer.input, Buffer.readable_retrieveAll, List.length_nil, hidx]
  omega

theorem Delivery.decreases (h : s.Open) (hij : i ≠ j) (hd : Delivery i j s a)
    (hs : s.step logErrno a = some t) : undelivered i j t < undelivered i j s := by
  cases hd with
  | write _ hn hle => exact write_decreases h hij hn hle hs
  | read _ hne _ => exact read_decreases h hij hne hs
  | take hw => exact take_decreases h hij hw hs

/-- An event of the direction finds something undelivered. -/
theorem Delivery.undelivered_ne_zero (hd : Delivery i j s a) (hs : s.step logErrno a = some t) :
    undelivered i j s ≠ 0 := by
  unfold undelivered
  cases hd with
  | write _ hn hle => omega
  | @read data _ hne _ =>
    obtain ⟨hans, -⟩ := Option.ite_none_right_eq_some.1 hs
    have hpos : 0 < data.length := List.length_pos_iff.2 hne
    have hle : data.length ≤ (s.peer j).incoming.length := hans.1.length_le
    omega
  | take hw =>
    rw [if_neg hw]
    exact Nat.succ_ne_zero _

theorem step_returns {b : ConnStep ι} (h : s.Inv) (hans : (s.peer i).Answers s.cut (.conn b))
    (hreq : b.Requires (s.peer i).world) : ∃ t, s.step logErrno (.peer i (.conn b)) = some t := by
  obtain ⟨w, hw⟩ := ConnStep.exec_returns logErrno (h.wf i) hreq
  rw [step, if_pos hans, Peer.step, hw]
  exact ⟨_, rfl⟩

/-- While something is undelivered there is an event for it. -/
theorem Open.delivers (h : s.Open) (logErrno : Errno → Errno) (i j : Side) :
    ((s.peer i).world.unsent = [] ∧ (s.peer j).incoming = [] ∧ (s.peer j).input = []) ∨
      ∃ a t, Delivery i j s a ∧ s.step logErrno a = some t := by
  by_cases hw : (s.peer j).world.conn.inputBuffer.writerIndex = Buffer.kCheapPrepend
  · by_cases hun : (s.peer i).world.unsent = []
    · cases hinc : (s.peer j).incoming with
      | nil =>
        have hinv := (h.inv.wf j).inp
        refine .inl ⟨hun, rfl, List.eq_nil_of_length_eq_zero ?_⟩
        rw [Peer.input, hinv.length_readable, hinv.readableBytes_eq, hw]
        exact Nat.sub_eq_zero_of_le hinv.prepend
      | cons x rest =>
        obtain ⟨hlegal, hno⟩ := Peer.one_byte_legal (x := x) (h.inv.wf j).inp hw
        have hans : (s.peer j).Answers s.cut (.conn (.handleRead (.delivered [x]))) :=
          ⟨⟨rest, by rw [hinc]; rfl⟩, fun hc => by cases hc⟩
        obtain ⟨t, ht⟩ := step_returns h.inv hans ⟨hlegal, hno⟩
        exact .inr ⟨_, t, .read (Peer.flowing_watched (h.flowing j)).1 (by simp) hlegal, ht⟩
    · have hlen := (h.inv.wf i).out.length_readable
      obtain ⟨t, ht⟩ := step_returns (i := i) (b := .handleWrite (.accepted (s.peer i).world.unsent.length))
        h.inv trivial (Nat.le_of_eq hlen)
      exact .inr ⟨_, t, .write ((Peer.flowing_watched (h.flowing i)).2 hun) (List.length_pos_iff.2 hun)
        (Nat.le_refl _), ht⟩
  · exact .inr ⟨_, _, .take hw, rfl⟩

/-- Whatever both ends have done so far, as long as they are open: the events of one direction alone come to
an end, and no earlier than the user of the other end has every byte sent, and can read 0 if the sender has
shut down. -/
theorem delivery_completes (h₀ : ∀ i, (w₀ i).Constructed) (he : ∀ i, (w₀ i).connectEstablished = .ok (w i))
    (hof : Along (step logErrno) (fun s a => s.Offered a ∧ StaysOpen a) (opened w) as)
    (hr : run (step logErrno) (opened w) as = some s) (hij : i ≠ j)
    (hdel : Along (step logErrno) (Delivery i j) s bs) (hbs : run (step logErrno) s bs = some t) :
    bs.length ≤ undelivered i j s ∧ ((∃ a u, Delivery i j t a ∧ t.step logErrno a = some u) ∨
      (t.peer j).taken = collect (step logErrno) (sent logErrno i) (opened w) as ∧
      (Along (step logErrno) (fun _ a => a.OnLoop i) (opened w) as →
        (t.peer i).world.conn.state = .disconnecting →
        (t.peer j).Answers t.cut (.conn (.handleRead (.delivered []))))) := by
  have hopen : s.Open := run_inv_along (fun _ _ _ hc hs hi => Open.step hi hc.1 hc.2 hs) hof hr
    (opened_open h₀ he)
  have hstay {u v : Link ι} {a : LinkStep ι} (hd : Delivery i j u a) (hv : step logErrno u a = some v)
      (hu : u.Open) : v.Open := hu.step hd.offered hd.staysOpen hv
  have hbound := run_bounded (μ := undelivered i j)
    (fun _ _ _ hd hv hu => ⟨hstay hd hv hu, Delivery.decreases hu hij hd hv⟩) hdel hbs hopen
  refine ⟨by omega, ?_⟩
  have hto : t.Open := run_inv_along (fun _ _ _ hd hv hu => hstay hd hv hu) hdel hbs hopen
  rcases hto.delivers logErrno i j with ⟨hun, hinc, hin⟩ | hmore
  · right
    obtain ⟨lost, hl, hnil⟩ := (hto.inv.carries i j hij).stream
    rw [hnil hto.cut, hinc, Peer.received, hin, List.append_nil, List.append_nil, List.append_nil] at hl
    have hstr := run_stream (i := i) (opened_inv h₀ he) (hof.mono fun _ _ hc => hc.1) hr
    have hsame : (t.peer i).world.stream = (s.peer i).world.stream := by
      have hc := run_collect (g := fun s => (s.peer i).world.stream) (f := fun _ _ => [])
        (fun _ _ _ hd hv hu => hstay hd hv hu)
        (fun u a v hd hv hu => by rw [step_stream hu.inv hd.offered hv, hd.sent_eq]) hdel hbs hopen
      rwa [collect_const_nil, List.append_nil] at hc
    rw [opened_stream h₀ he, List.nil_append, ← hsame, World.stream, hun, List.append_nil, ← hl] at hstr
    refine ⟨hstr, fun hon hst => ⟨List.nil_prefix, fun _ => ⟨hinc, .inl ?_⟩⟩⟩
    have hclosing : s.Closing i := run_inv_along (fun _ _ _ hc hv hu => hu.step hc.1.1 hc.2 hv)
      (hof.and hon) hr (opened_closing h₀ he)
    have hclosed : t.Closing i := run_inv_along
      (fun _ _ _ hd hv hu => hu.step hd.offered hd.onLoop hv) hdel hbs hclosing
    rw [(hto.inv.carries i j hij).fin, List.any_eq_true]
    obtain ⟨pre, post, htr, -⟩ := (hclosed.halfClose.phase.resolve_left fun hp => hp.waiting hst hun).once
    exact ⟨.shutdownWrite [], by simp [htr], rfl⟩
  · exact .inl hmore

/-- The last event of two bytes sent and read: the user takes them, and the next read is the 0. -/
theorem delivery_completes_two : ∃ (w : World Unit) (s t : Link Unit),
    (World.alone 5 ()).connectEstablished = .ok w ∧
    run (step id) (opened fun _ => w) [.peer .left (.conn (.send true [1, 2] (.accepted 2))),
      .peer .left (.conn (.shutdown true)), .peer .right (.conn (.handleRead (.delivered [1, 2])))] = some s ∧
    run (step id) s [.peer .right (.take .retrieveAll)] = some t ∧ (t.peer .right).taken = [1, 2] ∧
    (t.peer .right).Answers t.cut (.conn (.handleRead (.delivered []))) := by
  let w := (World.alone 5 ()).connectEstablished.toOption.getD (World.alone 5 ())
  let as : List (LinkStep Unit) := [.peer .left (.conn (.send true [1, 2] (.accepted 2))),
    .peer .left (.conn (.shutdown true)), .peer .right (.conn (.handleRead (.delivered [1, 2])))]
  have hidx : (run (step id) (opened fun _ => w) as).map
      (fun s => (s.peer .right).world.conn.inputBuffer.writerIndex) = some 10 := by decide +kernel
  have hlast : ((run (step id) (opened fun _ => w) as).bind
      fun s => s.step id (.peer .right (.take .retrieveAll))).map
      (fun t => (undelivered .left .right t, (t.peer .left).world.conn.state)) = some (0, .disconnecting) := by
    decide +kernel
  obtain ⟨s, hs, hidx⟩ := Option.map_eq_some_iff.1 hidx
  obtain ⟨t, ht, hend⟩ := Option.map_eq_some_iff.1 hlast
  rw [hs, Option.bind_some] at ht
  obtain ⟨hzero, hst⟩ := Prod.mk.inj hend
  have hbs : run (step id) s [.peer .right (.take .retrieveAll)] = some t := run_cons_some.2 ⟨t, ht, rfl⟩
  have hdel : Along (step id) (Delivery .left .right) s [.peer .right (.take .retrieveAll)] :=
    ⟨.take (by rw [hidx]; decide), fun _ _ => trivial⟩
  have h := delivery_completes (i := .left) (j := .right) (fun _ => World.alone_constructed 5 ())
    (fun _ => rfl) (by decide +kernel) hs (by decide) hdel hbs
  obtain ⟨htaken, hanswers⟩ := h.2.resolve_left fun ⟨_, _, hd, hu⟩ => hd.undelivered_ne_zero hu hzero
  exact ⟨w, s, t, rfl, hs, hbs, htaken.trans (by decide +kernel), hanswers (by decide +kernel) hst⟩

end Link
end Muduo
