import Muduo.Lifecycle

/-!
# What keeps a registered connection alive

A poller knows a channel by a plain pointer, and the channel dies with its connection. `Rooted` says that
an accepted connection is held by the map or by the user until it is closed, and by the jobs of its
closing until the end of `connectDestroyed`, whatever else the loops, the users and the server's
destructor do; a poller refers to no other connection. Unlike `Inv` it allows any events and any names, so a
connection may be closed several times over and its entry in the map may be another's.
-/

namespace Muduo
open EPollPoller ServerLoop Lts

/-- The functor of `removeConnection`, and `removeConnection` itself, which use the server. -/
def Job.removal : Job → Bool
  | .removeConnection _ => true
  | .removeConnectionInLoop _ => true
  | _ => false

/-- The jobs of a closed connection `c` of loop `io`, if they are loop `l`'s. -/
def Closing (c io l : Nat) (j : Job) : Prop :=
  j = .removeConnection c ∧ l = io ∨ j = .removeConnectionInLoop c ∧ l = 0 ∨
    j = .queueDestroyed c ∧ l = 0 ∨ j = .connectDestroyed c ∧ l = io

/-- The lifecycle jobs that the loops have for a connection `c` of loop `io`. -/
def Scheduled (state : ConnState) (c io : Nat) (jobs : Nat → List Job) : Prop :=
  match state with
  | .connecting => ∃ l₀ j, (j = .establish c ∧ l₀ = 0 ∨ j = .connectEstablished c ∧ l₀ = io) ∧
      ∀ l, jobs l = if l = l₀ then [j] else []
  | .connected => ∀ l, jobs l = []
  | .disconnecting => ∀ l, jobs l = []
  | .disconnected => ∀ l, ∀ j ∈ jobs l, Closing c io l j

/-- Once it is established only a closed connection has lifecycle jobs. -/
theorem Scheduled.closing {state : ConnState} {c io l : Nat} {jobs : Nat → List Job} {j : Job}
    (h : Scheduled state c io jobs) (hne : state ≠ .connecting) (hj : j ∈ jobs l) :
    state = .disconnected ∧ Closing c io l j := by
  cases state with
  | connecting => exact absurd rfl hne
  | connected =>
    rw [h l] at hj; cases hj
  | disconnecting =>
    rw [h l] at hj; cases hj
  | disconnected => exact ⟨rfl, h l j hj⟩

/-- What a connection in the state `state` looks like to its own functions. -/
def Standing (state : ConnState) (w : World Nat) : Prop :=
  match state with
  | .connecting => w.Constructed
  | .connected => w.Flowing
  | .disconnecting => w.Flowing
  | .disconnected => w.Wf

theorem Standing.wf {state : ConnState} {w : World Nat} (h : Standing state w) : w.Wf := by
  cases state with
  | connecting => exact World.Constructed.wf h
  | connected => exact World.Flowing.wf h
  | disconnecting => exact World.Flowing.wf h
  | disconnected => exact h

theorem Standing.flowing {state : ConnState} {w : World Nat} (h : Standing state w)
    (hst : state = .connected ∨ state = .disconnecting) : w.Flowing := by
  rcases hst with rfl | rfl
  · exact h
  · exact h

/-- `Standing` looks at the poller through the connection's fd, and the trace counts only before the
connection is established. -/
theorem Standing.congr {state : ConnState} {w w' : World Nat} (h : Standing state w)
    (hconn : w'.conn = w.conn) (hptr : w'.ptr = w.ptr)
    (htr : w'.trace = w.trace ∨ state ≠ .connecting)
    (hp : w'.poller.interest w.conn.channel.fd = w.poller.interest w.conn.channel.fd) :
    Standing state w' := by
  obtain ⟨conn, ptr, poller, trace⟩ := w'
  cases hconn; cases hptr
  have wf (hw : w.Wf) : World.Wf ⟨w.conn, w.ptr, poller, trace⟩ :=
    ⟨hw.out, hw.inp, hw.synced.congr hp⟩
  cases state with
  | connecting =>
    have hc : w.Constructed := h
    obtain rfl : trace = w.trace := htr.resolve_right fun hne => hne rfl
    exact { hc with absent := hp.trans hc.absent }
  | connected => exact World.Flowing.congr h (wf (World.Flowing.wf h)) rfl rfl
  | disconnecting => exact World.Flowing.congr h (wf (World.Flowing.wf h)) rfl rfl
  | disconnected => exact wf h

namespace World
variable {ι : Type} {w w' v : World ι} {logErrno : Errno → Errno} {inData : Bytes} {r : WriteResult}

/-- The poller's entry under the connection's fd is the old one, or the connection's own. -/
def EntryKept (w w' : World ι) : Prop := ∀ i, w'.poller.channels w.conn.channel.fd = some i →
  i = w.ptr ∨ w.poller.channels w.conn.channel.fd = some i

theorem EntryKept.of_same (hp : w'.poller = w.poller) : EntryKept w w' := fun _ hi => .inr (hp ▸ hi)

theorem EntryKept.of_op {op : ChannelOp} (hd : OpDone w op w') : EntryKept w w' := by
  intro i hi
  rw [hd.entry] at hi
  split at hi
  · cases hi
  split at hi
  · exact .inl (Option.some.inj hi).symm
  split at hi
  · cases hi
  · exact .inr hi

theorem Sent.entryKept (h : Sent logErrno inData r w w') : EntryKept w w' := by
  by_cases hsame : rest logErrno inData r w = [] ∨ w.conn.channel.isWriting = true
  · exact .of_same (h.same hsame).2
  · rw [not_or, Bool.not_eq_true] at hsame
    exact .of_op (h.enabled hsame.1 hsame.2)

theorem Drained.entryKept {b b' : Bool} (h : Drained r w w' b) :
    EntryKept w (finishWrite (w', b')) := by
  have hp : (finishWrite (w', b')).poller = w'.poller := by
    rw [finishWrite_eq]
    split
    · exact shutdownInLoop_poller w'
    · rfl
  cases b with
  | false => exact .of_same (hp.trans (h.same rfl).2)
  | true =>
    intro i hi
    exact EntryKept.of_op (h.disabled rfl) i (hp ▸ hi)

theorem connectEstablished_entryKept (h : w.Constructed) (ho : w.connectEstablished = .ok w') :
    EntryKept w w' := by
  obtain ⟨v, hv, ho⟩ := bind_eq_ok.1 ho
  obtain ⟨-, -, hd⟩ := channelOp_ok h.synced_tie hv
  rw [runConnectionCallback_eq] at ho
  cases ho
  exact fun i hi => EntryKept.of_op (w := (w.setState .connected).tie) hd i hi

/-- The last that `connectDestroyed` does is to take the channel out of the poller. -/
theorem connectDestroyed_entry (h : w.Wf) (ho : w.connectDestroyed = .ok w') :
    w'.poller.channels w.conn.channel.fd = none := by
  by_cases hst : w.conn.state = .connected
  · rw [connectDestroyed, if_pos hst] at ho
    obtain ⟨v, hv, ho⟩ := bind_eq_ok.1 ho
    have hl := destroyConnected_ok (h.setState .disconnected) hv
    obtain ⟨-, -, hd⟩ := channelOp_ok hl.wf.synced ho
    have hfd : v.conn.channel.fd = w.conn.channel.fd := by rw [hl.disabled.channel]; rfl
    rw [← hfd, hd.entry, if_pos rfl]
  · rw [connectDestroyed, if_neg hst] at ho
    obtain ⟨-, -, hd⟩ := channelOp_ok h.synced ho
    rw [hd.entry, if_pos rfl]

end World

namespace TcpServer
variable {s t u : TcpServer} {c l : Nat} {w : World Nat} {j : Job} {rest : List Job}

/-- Accepted, and not closed or with its closing under way. -/
def Present (s : TcpServer) (c : Nat) : Prop :=
  c < s.accepted ∧ ((s.conn c).tcp.state ≠ .disconnected ∨ ∃ l, ((s.loop l).view c).lifecycle ≠ [])

def Unclosed (s : TcpServer) (c : Nat) : Prop :=
  c < s.accepted ∧ (s.conn c).tcp.state ≠ .disconnected

instance (s : TcpServer) (c : Nat) : Decidable (s.Unclosed c) := by unfold Unclosed; infer_instance

/-- A pointer in the map, or with the user. -/
def Held (s : TcpServer) (c : Nat) : Prop :=
  s.connections (s.conn c).name = some c ∨ 0 < s.held c

/-- The poller of loop `l` has the channel of `c` under `fd`, in its own map or in the kernel's. -/
def Refers (s : TcpServer) (l : Nat) (fd : Int) (c : Nat) : Prop :=
  (s.loop l).poller.channels fd = some c ∨
    ∃ e, (s.loop l).poller.interest fd = some e ∧ e.ptr = c

structure Root (s : TcpServer) (c : Nat) : Prop where
  loop_le : (s.conn c).loop ≤ s.numThreads
  closeCallback : (s.conn c).tcp.closeCallback = true
  scheduled : Scheduled (s.conn c).tcp.state c (s.conn c).loop fun l => ((s.loop l).view c).lifecycle
  standing : s.Present c → (s.loop (s.conn c).loop).ended = false →
    Standing (s.conn c).tcp.state (s.world c)
  handling : ∀ l, ((s.loop l).view c).active ≠ [] ∨ ((s.loop l).view c).events ≠ [] →
    l = (s.conn c).loop ∧ (s.conn c).tcp.state ≠ .connecting ∧ s.Present c
  finished : s.Present c ∨ .destroyed ∈ (s.conn c).log
  held : (s.conn c).tcp.state ≠ .disconnected → s.Held c

structure Rooted (s : TcpServer) : Prop where
  next : s.numThreads = 0 ∨ s.next < s.numThreads
  shape : ∀ l, (s.loop l).Shape
  fresh : ∀ c, s.accepted ≤ c → ∀ l, (s.loop l).view c = ⟨[], [], []⟩
  roots : ∀ c < s.accepted, s.Root c
  refs : ∀ l fd c, s.Refers l fd c →
    s.Present c ∧ (s.conn c).loop = l ∧ (s.conn c).tcp.channel.fd = fd
  fds : ∀ c c', s.Present c → s.Present c' →
    (s.conn c).tcp.channel.fd = (s.conn c').tcp.channel.fd → c = c'

theorem Rooted.root (h : s.Rooted) (hp : s.Present c) : s.Root c := h.roots c hp.1

/-! ### Changes to one connection, or to none -/

/-- What `Root` looks at, beside the poller. -/
theorem Root.congr (h : s.Root c) (hn : t.numThreads = s.numThreads)
    (hacc : c < t.accepted ↔ c < s.accepted) (hconn : t.conn c = s.conn c)
    (hview : ∀ l, (t.loop l).view c = (s.loop l).view c)
    (he : (t.loop (s.conn c).loop).ended = (s.loop (s.conn c).loop).ended)
    (hp : s.Present c → ((t.world c).poller.interest (s.conn c).tcp.channel.fd =
      (s.world c).poller.interest (s.conn c).tcp.channel.fd))
    (hheld : (s.conn c).tcp.state ≠ .disconnected → s.Held c → t.Held c) : t.Root c := by
  have hpres : t.Present c ↔ s.Present c := by rw [Present, Present, hacc, hconn]; simp only [hview]
  refine ⟨?_, ?_, ?_, fun hpc hend => ?_, fun l hl => ?_, ?_, fun hst => ?_⟩
  · rw [hconn, hn]; exact h.loop_le
  · rw [hconn]; exact h.closeCallback
  · rw [hconn]; simp only [hview]; exact h.scheduled
  · rw [hconn] at hend ⊢
    have hps := hpres.1 hpc
    exact (h.standing hps (he ▸ hend)).congr (by rw [world, hconn]; rfl) rfl (.inl rfl) (hp hps)
  · rw [hview] at hl
    rw [hconn, hpres]
    exact h.handling l hl
  · rw [hpres, hconn]; exact h.finished
  · rw [hconn] at hst
    exact hheld hst (h.held hst)

theorem Rooted.touch (h : s.Rooted) (ht : Touched s c t) (hp : s.Present c)
    (hshape : ∀ l, (t.loop l).Shape) (hroot : t.Root c)
    (hrefs : ∀ c', t.Refers (s.conn c).loop (s.conn c).tcp.channel.fd c' → c' = c ∧ t.Present c)
    (hheld : ∀ c', c' ≠ c → s.Unclosed c' → s.Held c' → t.Held c') : t.Rooted := by
  have present (c' : Nat) (hne : c' ≠ c) : t.Present c' ↔ s.Present c' := by
    rw [Present, Present, ht.accepted, ht.others c' hne]
    simp only [ht.views c' hne]
  have fd (c' : Nat) : (t.conn c').tcp.channel.fd = (s.conn c').tcp.channel.fd := by
    by_cases hc : c' = c
    · rw [hc, ht.fd]
    · rw [ht.others c' hc]
  have present_s (c' : Nat) (hc' : t.Present c') : s.Present c' := by
    by_cases hc : c' = c
    · rw [hc]; exact hp
    · exact (present c' hc).1 hc'
  refine ⟨by rw [ht.numThreads, ht.next]; exact h.next, hshape, fun c' hc' l => ?_, fun c' hc' => ?_,
    fun l fd' c' hr => ?_, fun c₁ c₂ h₁ h₂ heq => ?_⟩
  · rw [ht.accepted] at hc'
    rw [ht.views c' (by have := hp.1; omega)]
    exact h.fresh c' hc' l
  · rw [ht.accepted] at hc'
    by_cases hc : c' = c
    · rw [hc]; exact hroot
    · refine (h.roots c' hc').congr ht.numThreads (by rw [ht.accepted]) (ht.others c' hc)
        (ht.views c' hc) (ht.ended _) (fun hps => ?_) fun hst => hheld c' hc ⟨hc', hst⟩
      show (t.loop (t.conn c').loop).poller.interest _ = (s.loop (s.conn c').loop).poller.interest _
      rw [ht.others c' hc]
      by_cases hl : (s.conn c').loop = (s.conn c).loop
      · rw [hl]
        exact ht.frame.interest _ fun hfd => hc (h.fds c' c hps hp hfd)
      · rw [ht.pollers _ hl]
  · by_cases hown : l = (s.conn c).loop ∧ fd' = (s.conn c).tcp.channel.fd
    · obtain ⟨rfl, rfl⟩ := hown
      obtain ⟨rfl, hpt⟩ := hrefs c' hr
      exact ⟨hpt, ht.loop, ht.fd⟩
    · have hold : s.Refers l fd' c' := by
        by_cases hl : l = (s.conn c).loop
        · subst hl
          have hne : fd' ≠ (s.conn c).tcp.channel.fd := fun hfd => hown ⟨rfl, hfd⟩
          rw [Refers, ht.frame.channels _ hne, ht.frame.interest _ hne] at hr
          exact hr
        · rw [Refers, ht.pollers l hl] at hr
          exact hr
      obtain ⟨hps, hloop, hfd⟩ := h.refs l fd' c' hold
      have hne : c' ≠ c := fun hc => hown ⟨hc ▸ hloop.symm, hc ▸ hfd.symm⟩
      rw [ht.others c' hne]
      exact ⟨(present c' hne).2 hps, hloop, hfd⟩
  · rw [fd, fd] at heq
    exact h.fds c₁ c₂ (present_s c₁ h₁) (present_s c₂ h₂) heq

/-- Only the pointers of the server and the users change. -/
theorem Rooted.congr (h : s.Rooted) (hn : t.numThreads = s.numThreads) (hnext : t.next = s.next)
    (hacc : t.accepted = s.accepted) (hconn : t.conn = s.conn) (hloop : t.loop = s.loop)
    (hheld : ∀ c, s.Unclosed c → s.Held c → t.Held c) : t.Rooted where
  next := by rw [hn, hnext]; exact h.next
  shape := by rw [hloop]; exact h.shape
  fresh := by rw [hacc, hloop]; exact h.fresh
  roots c hc := by
    rw [hacc] at hc
    refine (h.roots c hc).congr hn (by rw [hacc]) (by rw [hconn]) (fun _ => by rw [hloop]) (by rw [hloop])
      (fun _ => ?_) fun hst => hheld c ⟨hc, hst⟩
    rw [world, world, hconn, hloop]
  refs l fd c hr := by
    rw [Refers, hloop] at hr
    rw [Present, hacc, hconn, hloop]
    exact h.refs l fd c hr
  fds c c' hc hc' heq := by
    rw [Present, hacc, hconn, hloop] at hc hc'
    rw [hconn] at heq
    exact h.fds c c' hc hc' heq

/-- A loop that only moves its jobs about, or has events to handle of connections that are present, or
ends. -/
theorem Rooted.setLoop {q : ServerLoop} (h : s.Rooted)
    (hp : q.poller = (s.loop l).poller ∧ q.ended = (s.loop l).ended ∨ q = .exited) (hq : q.Shape)
    (hlife : ∀ c, (q.view c).lifecycle = ((s.loop l).view c).lifecycle)
    (hev : ∀ c, (q.view c).active ≠ [] ∨ (q.view c).events ≠ [] →
      l = (s.conn c).loop ∧ (s.conn c).tcp.state ≠ .connecting ∧ s.Present c) :
    (s.setLoop l q).Rooted := by
  have life (c l' : Nat) : (((s.setLoop l q).loop l').view c).lifecycle =
      ((s.loop l').view c).lifecycle := by
    rw [loop_setLoop]
    split
    · rename_i hl; rw [hl, hlife]
    · rfl
  have present (c : Nat) : (s.setLoop l q).Present c ↔ s.Present c := by
    rw [Present, Present]
    simp only [life]
    rfl
  have same (l' : Nat) (he : ((s.setLoop l q).loop l').ended = false) :
      ((s.setLoop l q).loop l').poller = (s.loop l').poller ∧ (s.loop l').ended = false := by
    rw [loop_setLoop] at he ⊢
    split at he
    · rename_i hl
      rcases hp with ⟨hpoller, hended⟩ | rfl
      · rw [if_pos hl, hl, hpoller, ← hended]
        exact ⟨rfl, he⟩
      · cases he
    · rename_i hl
      rw [if_neg hl]
      exact ⟨rfl, he⟩
  have refers (l' : Nat) (fd : Int) (c : Nat) (hr : (s.setLoop l q).Refers l' fd c) :
      s.Refers l' fd c := by
    rw [Refers, loop_setLoop] at hr
    split at hr
    · rename_i hl
      rcases hp with ⟨hpoller, -⟩ | rfl
      · rw [hpoller, ← hl] at hr
        exact hr
      · rcases hr with hr | ⟨e, hr, -⟩
        · cases hr
        · cases hr
    · exact hr
  have hev' (c l' : Nat) (hl : (((s.setLoop l q).loop l').view c).active ≠ [] ∨
      (((s.setLoop l q).loop l').view c).events ≠ []) :
      ((s.loop l').view c).active ≠ [] ∨ ((s.loop l').view c).events ≠ [] ∨ l' = l ∧
        ((q.view c).active ≠ [] ∨ (q.view c).events ≠ []) := by
    rw [loop_setLoop] at hl
    split at hl
    · rename_i hll; exact .inr (.inr ⟨hll, hl⟩)
    · exact hl.imp_right .inl
  refine ⟨h.next, shape_setLoop h.shape hq, fun c hc l' => ?_, fun c hc => ?_, fun l' fd c hr => ?_,
    fun c c' hc hc' => h.fds c c' ((present c).1 hc) ((present c').1 hc')⟩
  · have hno (hor : (q.view c).active ≠ [] ∨ (q.view c).events ≠ []) : False := by
      have := (hev c hor).2.2.1
      have hle : s.accepted ≤ c := hc
      omega
    rw [loop_setLoop]
    split
    · have hl := hlife c
      rw [h.fresh c hc] at hl
      have ha : (q.view c).active = [] := by_contra fun ha => hno (.inl ha)
      have he : (q.view c).events = [] := by_contra fun he => hno (.inr he)
      cases hv : q.view c
      rw [hv] at hl ha he
      cases hl; cases ha; cases he
      rfl
    · exact h.fresh c hc l'
  · have hr := h.roots c hc
    refine ⟨hr.loop_le, hr.closeCallback, ?_, fun hpc hend => ?_, fun l' hl => ?_, ?_, hr.held⟩
    · simp only [life]; exact hr.scheduled
    · obtain ⟨hpoller, hended⟩ := same (s.conn c).loop hend
      refine (hr.standing ((present c).1 hpc) hended).congr rfl rfl (.inl rfl) ?_
      show ((s.setLoop l q).loop (s.conn c).loop).poller.interest _ = _
      rw [hpoller]
      rfl
    · rw [present]
      rcases hev' c l' hl with ha | he | ⟨rfl, hor⟩
      · exact hr.handling l' (.inl ha)
      · exact hr.handling l' (.inr he)
      · exact hev c hor
    · rw [present]; exact hr.finished
  · rw [present]
    exact h.refs l' fd c (refers l' fd c hr)

/-! ### Jobs that pass a closed connection on -/

/-- Loop `l` gets the job `j`, and nothing else is to be done with its connection. -/
def Adds (s : TcpServer) (l : Nat) (j : Job) (t : TcpServer) : Prop :=
  ∀ l', ((t.loop l').view j.conn).active = ((s.loop l').view j.conn).active ∧
    ((t.loop l').view j.conn).events = ((s.loop l').view j.conn).events ∧
    ∀ i, i ∈ ((t.loop l').view j.conn).lifecycle ↔
      i ∈ ((s.loop l').view j.conn).lifecycle ∨ l' = l ∧ i = j

theorem adds_enter (hj : j.lifecycle = true) : Adds s l j (s.enter l j) := by
  intro l'
  rw [TcpServer.enter, loop_setLoop]
  split
  · rename_i hl
    have hv : ({ s.loop l with stack := j :: (s.loop l).stack } : ServerLoop).view j.conn = _ :=
      view_push_lifecycle (q := s.loop l) hj
    rw [hv, hl]
    exact ⟨rfl, rfl, fun i => by simp [or_comm]⟩
  · rename_i hl
    exact ⟨rfl, rfl, fun i => by simp [hl]⟩

theorem adds_queueInLoop (hj : j.lifecycle = true) : Adds s l j (s.queueInLoop l j) := by
  intro l'
  rw [TcpServer.queueInLoop, loop_setLoop]
  split
  · rename_i hl
    have hv : ({ s.loop l with pendingFunctors := (s.loop l).pendingFunctors ++ [j] } :
        ServerLoop).view j.conn = _ := view_queue_lifecycle (q := s.loop l) hj
    rw [hv, hl]
    exact ⟨rfl, rfl, fun i => by simp⟩
  · rename_i hl
    exact ⟨rfl, rfl, fun i => by simp [hl]⟩

theorem adds_runInLoop {target : Nat} (hj : j.lifecycle = true) :
    Adds s target j (s.runInLoop l target j) := by
  unfold TcpServer.runInLoop
  split
  · rename_i hl
    rw [← hl]; exact adds_enter hj
  · exact adds_queueInLoop hj

/-- A lifecycle job of loop `l` has been taken in hand. -/
structure InHand (s : TcpServer) (l : Nat) (j : Job) (t : TcpServer) : Prop where
  touched : Touched s j.conn t
  conn : t.conn = s.conn
  connections : t.connections = s.connections
  held : t.held = s.held
  pollers : ∀ l, (t.loop l).poller = (s.loop l).poller
  shape : ∀ l, (t.loop l).Shape
  busy : (t.loop l).phase ≠ .polling
  stack : j ∈ (s.loop l).stack
  view : ∀ l', (s.loop l').view j.conn = { (t.loop l').view j.conn with
    lifecycle := (if l' = l then [j] else []) ++ ((t.loop l').view j.conn).lifecycle }

theorem Rooted.inHand (h : s.Rooted) (hst : (s.loop l).stack = j :: rest)
    (hj : j.lifecycle = true) : InHand s l j (s.setLoop l ((s.loop l).pop rest)) where
  touched := .pop hst rfl
  conn := rfl
  connections := rfl
  held := rfl
  pollers := poller_setLoop rfl
  shape := shape_setLoop h.shape ((h.shape l).pop hst)
  busy := by rw [loop_setLoop, if_pos rfl]; exact (h.shape l).not_polling hst
  stack := by rw [hst]; exact List.mem_cons_self
  view l' := by
    rw [loop_setLoop]
    split
    · rename_i hl
      rw [hl]
      exact view_pop_lifecycle hst hj
    · rfl

/-- The lifecycle job in hand belongs to a connection that is present. -/
theorem InHand.mem (tk : InHand s l j t) (h : s.Rooted) :
    j ∈ ((s.loop l).view j.conn).lifecycle ∧ s.Present j.conn := by
  have hmem : j ∈ ((s.loop l).view j.conn).lifecycle := by
    rw [tk.view, if_pos rfl]
    exact List.mem_cons_self
  refine ⟨hmem, ?_, .inr ⟨l, List.ne_nil_of_mem hmem⟩⟩
  by_contra hc
  rw [h.fresh _ (Nat.le_of_not_lt hc)] at hmem
  cases hmem

theorem InHand.world (tk : InHand s l j t) (c : Nat) : t.world c = s.world c :=
  world_congr (by rw [tk.conn]) (by rw [tk.conn]) tk.pollers

theorem InHand.events (tk : InHand s l j t) (l' : Nat) :
    ((t.loop l').view j.conn).active = ((s.loop l').view j.conn).active ∧
      ((t.loop l').view j.conn).events = ((s.loop l').view j.conn).events := by
  rw [tk.view]
  exact ⟨rfl, rfl⟩

/-- A loop in the middle of something has not ended. -/
theorem InHand.running (tk : InHand s l j t) (h : s.Rooted) : (s.loop l).ended = false := by
  refine Bool.eq_false_iff.2 fun he => ?_
  have hmem := tk.stack
  rw [((h.shape l).polling ((h.shape l).ended he)).1] at hmem
  cases hmem

theorem Root.closed (h : s.Root c) (hmem : j ∈ ((s.loop l).view c).lifecycle)
    (hne : j ≠ .establish c) (hne' : j ≠ .connectEstablished c) :
    (s.conn c).tcp.state = .disconnected ∧ Closing c (s.conn c).loop l j := by
  refine h.scheduled.closing (fun hst => ?_) hmem
  have hs := h.scheduled
  rw [hst] at hs
  obtain ⟨l₀, i, hi, heq⟩ := hs
  have heq' : ((s.loop l).view c).lifecycle = _ := heq l
  rw [heq'] at hmem
  split at hmem
  · rw [List.mem_singleton] at hmem
    rcases hi with ⟨rfl, -⟩ | ⟨rfl, -⟩
    · exact hne hmem
    · exact hne' hmem
  · cases hmem

/-- A poller refers to the connection `c` alone under `c`'s fd. -/
theorem Rooted.refs_own (h : s.Rooted) (hp : s.Present c) {c' : Nat}
    (hr : s.Refers (s.conn c).loop (s.conn c).tcp.channel.fd c') : c' = c := by
  obtain ⟨hp', -, hfd⟩ := h.refs _ _ _ hr
  exact h.fds c' c hp' hp hfd

/-- The job in hand has another job of the closing follow it, here or in another loop. -/
theorem Rooted.pass {target : Nat} (h : s.Rooted) (tk : InHand s l j t) (j' : Job)
    (hc : j'.conn = j.conn) (hne : j ≠ .establish j.conn) (hne' : j ≠ .connectEstablished j.conn)
    (hcl : Closing j.conn (s.conn j.conn).loop target j') (hu : Touched s j.conn u)
    (hadds : Adds t target j' u) (htcp : (u.conn j.conn).tcp = (s.conn j.conn).tcp)
    (hpollers : ∀ l, (u.loop l).poller = (s.loop l).poller) (hshape : ∀ l, (u.loop l).Shape)
    (hheld : ∀ c, c ≠ j.conn → s.Unclosed c → s.Held c → u.Held c) :
    u.Rooted := by
  obtain ⟨hmem, hp⟩ := tk.mem h
  have hr := h.root hp
  obtain ⟨hdis, -⟩ := hr.closed hmem hne hne'
  have hviews (l' : Nat) : ((u.loop l').view j.conn).active = ((s.loop l').view j.conn).active ∧
      ((u.loop l').view j.conn).events = ((s.loop l').view j.conn).events ∧
      ∀ i ∈ ((u.loop l').view j.conn).lifecycle,
        i ∈ ((s.loop l').view j.conn).lifecycle ∨ l' = target ∧ i = j' := by
    obtain ⟨ha, he, hl⟩ := hadds l'
    rw [hc] at ha he hl
    rw [ha, he, (tk.events l').1, (tk.events l').2]
    refine ⟨rfl, rfl, fun i hi => ((hl i).1 hi).imp_left fun hi => ?_⟩
    rw [tk.view]
    exact List.mem_append_right _ hi
  have hpu : u.Present j.conn := by
    refine ⟨by rw [hu.accepted]; exact hp.1, .inr ⟨target, List.ne_nil_of_mem (a := j') ?_⟩⟩
    have := (hadds target).2.2 j'
    rw [hc] at this
    exact this.2 (.inr ⟨rfl, rfl⟩)
  have hworld : u.world j.conn = s.world j.conn := world_congr htcp hu.loop hpollers
  refine h.touch hu hp hshape ⟨?_, ?_, ?_, fun _ hend => ?_, fun l' hl => ?_, .inl hpu, fun ht => ?_⟩
    (fun c' hc' => ?_) hheld
  · rw [hu.loop, hu.numThreads]; exact hr.loop_le
  · rw [htcp]; exact hr.closeCallback
  · rw [htcp, hdis, hu.loop]
    intro l' i hi
    rcases (hviews l').2.2 i hi with hold | ⟨rfl, rfl⟩
    · exact (hr.scheduled.closing (by rw [hdis]; nofun) hold).2
    · exact hcl
  · rw [hu.loop, hu.ended] at hend
    rw [htcp, hworld]
    exact hr.standing hp hend
  · rw [(hviews l').1, (hviews l').2.1] at hl
    obtain ⟨hloop, hconn, -⟩ := hr.handling l' hl
    rw [hu.loop, htcp]
    exact ⟨hloop, hconn, hpu⟩
  · rw [htcp] at ht
    exact absurd hdis ht
  · rw [Refers, hpollers] at hc'
    exact ⟨h.refs_own hp hc', hpu⟩

theorem held_runInLoop {target : Nat} (hconn : t.conn = s.conn)
    (hconnections : t.connections = s.connections) (hheld : t.held = s.held) :
    (t.runInLoop l target j).Held c ↔ s.Held c := by
  rw [Held, conn_runInLoop, connections_runInLoop, hconn, hconnections]
  have : (t.runInLoop l target j).held = s.held := by
    rw [← hheld]
    unfold TcpServer.runInLoop
    split <;> rfl
  rw [this]
  rfl

theorem Rooted.removeConnection (h : s.Rooted) (tk : InHand s l (.removeConnection c) t) :
    (t.runInLoop l 0 (.removeConnectionInLoop c)).Rooted := by
  refine h.pass tk (.removeConnectionInLoop c) rfl nofun nofun (.inr (.inl ⟨rfl, rfl⟩))
    (tk.touched.trans (.runInLoop rfl)) (adds_runInLoop rfl) ?_ (fun l' => ?_)
    (shape_runInLoop tk.shape tk.busy rfl (by simp))
    fun c' _ _ hh => (held_runInLoop tk.conn tk.connections tk.held).2 hh
  · rw [conn_runInLoop, tk.conn]
  · rw [poller_runInLoop, tk.pollers]

theorem Rooted.removeConnectionInLoop (h : s.Rooted)
    (tk : InHand s l (.removeConnectionInLoop c) t)
    (hheld : ∀ c', s.Unclosed c' → (s.conn c').name = (s.conn c).name →
      s.connections (s.conn c').name = some c' → 0 < s.held c') :
    (((t.mark c .erased).erase c).enter l (.queueDestroyed c)).Rooted := by
  obtain ⟨hmem, hp⟩ := tk.mem h
  obtain ⟨-, hcl⟩ := (h.root hp).closed hmem nofun nofun
  have hl : l = 0 := by
    simpa [Closing, Job.conn] using hcl
  have hconn : (((t.mark c .erased).erase c).enter l (.queueDestroyed c)).conn c =
      { s.conn c with log := (s.conn c).log ++ [.erased] } := by
    rw [← tk.conn]; exact conn_mark_self t c _
  refine h.pass tk (.queueDestroyed c) rfl nofun nofun (.inr (.inr (.inl ⟨rfl, hl⟩)))
    (((tk.touched.trans .mark).trans .erase).trans (.enter rfl)) ?_
    (by rw [show (Job.removeConnectionInLoop c).conn = c from rfl, hconn]) (fun l' => ?_)
    (shape_enter (s := (t.mark c .erased).erase c) tk.shape tk.busy ⟨rfl, rfl, by simp⟩)
    fun c' hne hopen hh => ?_
  · exact adds_enter (s := (t.mark c .erased).erase c) rfl
  · rw [← tk.pollers]
    exact poller_setLoop (s := t) (q := (t.loop l).push _) rfl l'
  · have hother : (((t.mark c .erased).erase c).enter l (.queueDestroyed c)).conn c' = s.conn c' := by
      rw [← tk.conn]
      exact Function.update_of_ne hne ..
    have hheld' : (((t.mark c .erased).erase c).enter l (.queueDestroyed c)).held = s.held := tk.held
    rw [Held, connections_erased, tk.conn, tk.connections, hother, hheld']
    rcases hh with hmap | hheld'
    · by_cases hn : (s.conn c').name = (s.conn c).name
      · exact .inr (hheld c' hopen hn hmap)
      · rw [Function.update_of_ne hn]
        exact .inl hmap
    · exact .inr hheld'

theorem Rooted.queueDestroyed (h : s.Rooted) (tk : InHand s l (.queueDestroyed c) t) :
    (t.queueInLoop (t.conn c).loop (.connectDestroyed c)).Rooted := by
  refine h.pass tk (.connectDestroyed c) rfl nofun nofun
    (.inr (.inr (.inr ⟨rfl, by rw [tk.conn]; rfl⟩))) (tk.touched.trans (.queueInLoop rfl))
    (adds_queueInLoop rfl) ?_ (fun l' => ?_)
    (shape_queueInLoop tk.shape rfl) fun c' _ _ hh => ?_
  · show (t.conn c).tcp = _
    rw [tk.conn]
    rfl
  · rw [poller_queueInLoop, tk.pollers]
  · show t.connections (t.conn c').name = some c' ∨ 0 < t.held c'
    rw [tk.conn, tk.connections, tk.held]
    exact hh

/-! ### Functions of a connection -/

theorem view_absorb_rest (c' l' : Nat) :
    (((s.absorb c w).loop l').view c').active = ((s.loop l').view c').active ∧
      (((s.absorb c w).loop l').view c').events = ((s.loop l').view c').events := by
  by_cases hm : .closeCallback ∈ w.trace
  · rw [absorb_called hm, loop_setLoop]
    split
    · rename_i hl
      rw [view_push, view_afterwards, hl]
      simp [Job.isEvent]
    · exact ⟨rfl, rfl⟩
  · rw [view_absorb_uncalled hm]
    exact ⟨rfl, rfl⟩

/-- After one of its functions a poller refers to the connection alone under its fd. -/
theorem Rooted.refs_absorb (h : s.Rooted) (hp : s.Present c) (hk : World.Kept (s.world c) w)
    (hwf : w.Wf) (he : World.EntryKept (s.world c) w) {c' : Nat}
    (hr : (s.absorb c w).Refers (s.conn c).loop (s.conn c).tcp.channel.fd c') : c' = c := by
  rw [Refers, poller_absorb] at hr
  rcases hr with hr | ⟨e, hr, rfl⟩
  · rcases he c' hr with hc | hold
    · exact hc
    · exact h.refs_own hp (.inl hold)
  · have hfd : w.conn.channel.fd = (s.conn c).tcp.channel.fd := hk.fd
    rw [← hfd] at hr
    by_cases hst : w.conn.channel.status = .added
    · rw [hwf.synced.added hst] at hr
      cases hr
      exact hk.ptr
    · rw [hwf.synced.absent hst] at hr; cases hr

/-- A function that does not call the close callback, and leaves the state or half-closes. -/
theorem Rooted.absorb (h : s.Rooted) (hp : s.Present c) (hk : World.Kept (s.world c) w)
    (hq : w.Uncalled) (he : World.EntryKept (s.world c) w)
    (hst : w.conn.state = (s.conn c).tcp.state ∨
      (s.conn c).tcp.state = .connected ∧ w.conn.state = .disconnecting)
    (hstd : Standing w.conn.state { w with trace := [] }) : (s.absorb c w).Rooted := by
  have hr := h.root hp
  have hconn := conn_absorb s c w
  have hdis : w.conn.state = .disconnected ↔ (s.conn c).tcp.state = .disconnected := by
    rcases hst with heq | ⟨hs, hw⟩
    · rw [heq]
    · rw [hs, hw]; decide
  have hcon : w.conn.state = .connecting ↔ (s.conn c).tcp.state = .connecting := by
    rcases hst with heq | ⟨hs, hw⟩
    · rw [heq]
    · rw [hs, hw]; decide
  have hpt : (s.absorb c w).Present c := by
    refine ⟨hp.1, ?_⟩
    rw [hconn]
    simp only [view_absorb_uncalled hq, ne_eq, hdis]
    exact hp.2
  have hshape (l : Nat) : ((s.absorb c w).loop l).Shape := by
    rw [absorb_uncalled hq]
    exact shape_setLoop h.shape (shape_afterwards h.shape) l
  refine h.touch (.absorb hk) hp hshape ⟨?_, ?_, ?_, fun _ _ => ?_, fun l hl => ?_, .inl hpt, fun hd => ?_⟩
    (fun c' hc' => ⟨h.refs_absorb hp hk ?_ he hc', hpt⟩) fun c' hne _ hh => ?_
  · rw [hconn]; exact hr.loop_le
  · rw [hconn]; exact hk.closeCallback.trans hr.closeCallback
  · rw [hconn]
    simp only [view_absorb_uncalled hq]
    rcases hst with heq | ⟨hs, hw⟩
    · rw [heq]; exact hr.scheduled
    · have hsch := hr.scheduled
      rw [hs] at hsch
      rw [hw]; exact hsch
  · rw [hconn, world_absorb (show w.ptr = c from hk.ptr)]
    exact hstd
  · rw [(view_absorb_rest c l).1, (view_absorb_rest c l).2] at hl
    obtain ⟨hloop, hne, -⟩ := hr.handling l hl
    rw [hconn]
    exact ⟨hloop, fun hc => hne (hcon.1 hc), hpt⟩
  · rw [hconn] at hd
    have hheld := hr.held fun hs => hd (hdis.2 hs)
    rw [Held, hconn]
    exact hheld
  · have hwf : World.Wf { w with trace := [] } := hstd.wf
    exact ⟨hwf.out, hwf.inp, hwf.synced⟩
  · show (s.absorb c w).connections ((s.absorb c w).conn c').name = some c' ∨ _
    rw [show (s.absorb c w).conn c' = s.conn c' from Function.update_of_ne hne ..]
    exact hh

/-- `handleClose` of a connection that is present and established. -/
theorem Rooted.closed (h : s.Rooted) (hp : s.Present c) (hne : (s.conn c).tcp.state ≠ .connecting)
    (hbusy : (s.loop (s.conn c).loop).phase ≠ .polling) (hk : World.Kept (s.world c) w)
    (hm : .closeCallback ∈ w.trace) (he : World.EntryKept (s.world c) w) (hwf : w.Wf)
    (hst : w.conn.state = .disconnected) : ((s.mark c .closed).absorb c w).Rooted := by
  have hr := h.root hp
  have hconn : ((s.mark c .closed).absorb c w).conn c =
      { s.conn c with tcp := w.conn, log := (s.conn c).log ++ [.closed] } := by
    rw [conn_absorb, conn_mark_self]
  have hk' : World.Kept ((s.mark c .closed).world c) w := by rw [world_mark]; exact hk
  have hloop : ((s.mark c .closed).conn c).loop = (s.conn c).loop := by rw [conn_mark_self]
  have hlife (l : Nat) : ((((s.mark c .closed).absorb c w).loop l).view c).lifecycle =
      (if l = (s.conn c).loop then [.removeConnection c] else []) ++ ((s.loop l).view c).lifecycle := by
    rw [absorb_called hm, loop_setLoop, hloop]
    split
    · rename_i hl
      have hv := view_push_lifecycle (q := (s.mark c .closed).afterwards c w)
        (j := .removeConnection c) rfl
      rw [show (Job.removeConnection c).conn = c from rfl, view_afterwards, hloop] at hv
      rw [hv, hl]
      rfl
    · rfl
  have hpt : ((s.mark c .closed).absorb c w).Present c := by
    refine ⟨hp.1, .inr ⟨(s.conn c).loop, ?_⟩⟩
    rw [hlife, if_pos rfl]
    exact List.cons_ne_nil _ _
  have hshape (l : Nat) : (((s.mark c .closed).absorb c w).loop l).Shape := by
    rw [absorb_called hm]
    have hafter := shape_afterwards (s := s.mark c .closed) (c := c) (w := w) h.shape
    refine shape_setLoop h.shape (hafter.push (j := .removeConnection c) ?_ ⟨rfl, rfl, by simp⟩) l
    show (s.loop ((s.mark c .closed).conn c).loop).phase ≠ .polling
    rw [hloop]
    exact hbusy
  have hu : Touched s c ((s.mark c .closed).absorb c w) := Touched.mark.trans (.absorb hk')
  refine h.touch hu hp hshape ⟨?_, ?_, ?_, fun _ _ => ?_, fun l hl => ?_, .inl hpt, fun hd => ?_⟩
    (fun c' hc' => ⟨?_, hpt⟩) fun c' hne' _ hh => ?_
  · rw [hconn]; exact hr.loop_le
  · rw [hconn]; exact hk.closeCallback.trans hr.closeCallback
  · rw [hconn, hst]
    intro l j hj
    dsimp only at hj
    rw [hlife] at hj
    rcases List.mem_append.1 hj with hj | hj
    · split at hj
      · rename_i hl
        rw [List.mem_singleton.1 hj]
        exact .inl ⟨rfl, hl⟩
      · cases hj
    · exact (hr.scheduled.closing hne hj).2
  · rw [hconn, world_absorb (show w.ptr = c from hk.ptr), hst]
    exact ⟨hwf.out, hwf.inp, hwf.synced⟩
  · have hv := view_absorb_rest (s := s.mark c .closed) (c := c) (w := w) c l
    rw [hv.1, hv.2] at hl
    obtain ⟨hl', -, -⟩ := hr.handling l hl
    rw [hconn, hst]
    exact ⟨hl', nofun, hpt⟩
  · rw [hconn] at hd
    exact absurd hst hd
  · rw [Refers, show (((s.mark c .closed).absorb c w).loop (s.conn c).loop).poller = w.poller from by
      rw [← hloop, poller_absorb]] at hc'
    rw [← poller_absorb s c w] at hc'
    exact h.refs_absorb hp hk hwf he hc'
  · show s.connections (((s.mark c .closed).absorb c w).conn c').name = some c' ∨ _
    rw [hu.others c' hne']
    exact hh

/-! ### Establishing and destroying -/

/-- The job that establishes a connection is the only one it has, and `connectEstablished` one of its own
loop. -/
theorem Rooted.opening (h : s.Rooted) (tk : InHand s l j t)
    (hj : j = .establish c ∨ j = .connectEstablished c) :
    s.Present c ∧ (s.conn c).tcp.state = .connecting ∧ t.Free c ∧
      (j = .connectEstablished c → l = (s.conn c).loop) := by
  have hc : j.conn = c := by
    rcases hj with rfl | rfl
    · rfl
    · rfl
  subst hc
  obtain ⟨hmem, hp⟩ := tk.mem h
  have hs := (h.root hp).scheduled
  have hcon : (s.conn j.conn).tcp.state = .connecting := by
    by_contra hne
    obtain ⟨-, hcl⟩ := hs.closing hne hmem
    rcases hj with hj | hj
    · rw [hj] at hcl
      simp [Closing] at hcl
    · rw [hj] at hcl
      simp [Closing] at hcl
  rw [hcon] at hs
  obtain ⟨l₀, i, hi, heq⟩ := hs
  have heq' (l' : Nat) : ((s.loop l').view j.conn).lifecycle = if l' = l₀ then [i] else [] := heq l'
  have hl₀ : l = l₀ := by
    by_contra hne
    rw [heq', if_neg hne] at hmem; cases hmem
  refine ⟨hp, hcon, fun l' => ?_, fun hest => ?_⟩
  · have hview := heq' l'
    rw [tk.view, ← hl₀] at hview
    split at hview
    · exact (List.cons.inj hview).2
    · exact hview
  · rw [heq', if_pos hl₀, List.mem_singleton] at hmem
    rcases hi with ⟨rfl, -⟩ | ⟨-, hio⟩
    · rw [hest] at hmem; cases hmem
    · exact hl₀.trans hio

/-- A connection that is being established has no event to handle. -/
theorem Root.no_events (h : s.Root c) (hcon : (s.conn c).tcp.state = .connecting) (l : Nat) :
    ((s.loop l).view c).active = [] ∧ ((s.loop l).view c).events = [] := by
  constructor
  · by_contra ha
    exact (h.handling l (.inl ha)).2.1 hcon
  · by_contra he
    exact (h.handling l (.inr he)).2.1 hcon

theorem Rooted.establish (h : s.Rooted) (tk : InHand s l (.establish c) t) :
    (t.runInLoop l (t.conn c).loop (.connectEstablished c)).Rooted := by
  obtain ⟨hp, hcon, hfree, -⟩ := h.opening tk (.inl rfl)
  have hr := h.root hp
  have hu : Touched s c (t.runInLoop l (t.conn c).loop (.connectEstablished c)) :=
    tk.touched.trans (.runInLoop rfl)
  have hconn : (t.runInLoop l (t.conn c).loop (.connectEstablished c)).conn = s.conn := by
    rw [conn_runInLoop, tk.conn]
  have hpollers (l' : Nat) : ((t.runInLoop l (t.conn c).loop (.connectEstablished c)).loop l').poller =
      (s.loop l').poller := by
    rw [poller_runInLoop, tk.pollers]
  have hview (l' : Nat) : ((t.runInLoop l (t.conn c).loop (.connectEstablished c)).loop l').view c =
      { (t.loop l').view c with
        lifecycle := if l' = (t.conn c).loop then [.connectEstablished c] else [] } :=
    view_runInLoop hfree rfl rfl l'
  have hpt : (t.runInLoop l (t.conn c).loop (.connectEstablished c)).Present c := by
    refine ⟨by rw [hu.accepted]; exact hp.1, .inl ?_⟩
    rw [hconn, hcon]; nofun
  refine h.touch hu hp (shape_runInLoop tk.shape tk.busy rfl (by simp))
    ⟨?_, ?_, ?_, fun _ hend => ?_, fun l' hl => ?_, .inl hpt, fun _ => ?_⟩ (fun c' hc' => ⟨?_, hpt⟩)
    fun c' _ _ hh => (held_runInLoop tk.conn tk.connections tk.held).2 hh
  · rw [hconn, hu.numThreads]; exact hr.loop_le
  · rw [hconn]; exact hr.closeCallback
  · rw [hconn, hcon]
    exact ⟨_, _, .inr ⟨rfl, rfl⟩, fun l' => by dsimp only; rw [hview, tk.conn]⟩
  · rw [hconn, hu.ended] at hend
    rw [hconn, world_congr (by rw [hconn]) (by rw [hconn]) hpollers]
    exact hr.standing hp hend
  · rw [hview] at hl
    have hnone := hr.no_events hcon l'
    rcases hl with ha | he
    · exact absurd ((tk.events l').1.trans hnone.1) ha
    · exact absurd ((tk.events l').2.trans hnone.2) he
  · exact (held_runInLoop tk.conn tk.connections tk.held).2 (hr.held (by rw [hcon]; nofun))
  · rw [Refers, hpollers] at hc'
    exact h.refs_own hp hc'

/-- The state after the function of the job in hand, with its mark. -/
theorem InHand.conn_absorb {m : Mark} (tk : InHand s l j t) (c : Nat) :
    ((t.mark c m).absorb c w).conn c =
      { s.conn c with tcp := w.conn, log := (s.conn c).log ++ [m] } := by
  rw [TcpServer.conn_absorb, conn_mark_self, tk.conn]

theorem InHand.poller_absorb {m : Mark} (tk : InHand s l j t) (c : Nat) :
    (((t.mark c m).absorb c w).loop (s.conn c).loop).poller = w.poller := by
  have hloop : ((t.mark c m).conn c).loop = (s.conn c).loop := by rw [conn_mark_self, tk.conn]
  rw [← hloop, TcpServer.poller_absorb]

theorem InHand.touched_absorb {m : Mark} (tk : InHand s l j t)
    (hk : World.Kept (s.world j.conn) w) : Touched s j.conn ((t.mark j.conn m).absorb j.conn w) :=
  (tk.touched.trans .mark).trans (.absorb (by rw [world_mark, tk.world]; exact hk))

theorem InHand.shape_absorb {m : Mark} (tk : InHand s l j t) (hq : w.Uncalled) (c l' : Nat) :
    (((t.mark c m).absorb c w).loop l').Shape := by
  rw [absorb_uncalled hq]
  exact shape_setLoop (s := t.mark c m) tk.shape (shape_afterwards (s := t.mark c m) tk.shape) l'

theorem InHand.held_absorb {m : Mark} (tk : InHand s l j t) (hu : Touched s c ((t.mark c m).absorb c w))
    {c' : Nat} : ((t.mark c m).absorb c w).Held c' ↔ s.Held c' := by
  show t.connections (((t.mark c m).absorb c w).conn c').name = some c' ∨ 0 < t.held c' ↔ _
  rw [hu.names, tk.connections, tk.held]
  rfl

theorem Rooted.connectEstablished (h : s.Rooted) (tk : InHand s l (.connectEstablished c) t)
    (ho : (t.world c).connectEstablished = .ok w) :
    ((t.mark c .established).absorb c w).Rooted := by
  obtain ⟨hp, hcon, hfree, hown⟩ := h.opening tk (.inr rfl)
  have hr := h.root hp
  rw [tk.world] at ho
  have hcons : (s.world c).Constructed := by
    have := hr.standing hp (hown rfl ▸ tk.running h)
    rw [hcon] at this
    exact this
  have hk := World.connectEstablished_kept hcons ho
  have he := World.connectEstablished_ok hcons ho
  have hentry := World.connectEstablished_entryKept hcons ho
  have hq := he.uncalled
  have hu : Touched s c ((t.mark c .established).absorb c w) := tk.touched_absorb hk
  have hconn := tk.conn_absorb (m := .established) (w := w) c
  have hpt : ((t.mark c .established).absorb c w).Present c := by
    refine ⟨by rw [hu.accepted]; exact hp.1, .inl ?_⟩
    rw [hconn, he.state]; nofun
  refine h.touch hu hp (tk.shape_absorb hq c) ⟨?_, ?_, ?_, fun _ _ => ?_, fun l' hl => ?_, .inl hpt,
    fun _ => ?_⟩ (fun c' hc' => ⟨?_, hpt⟩) fun c' _ _ hh => (tk.held_absorb hu).2 hh
  · rw [hconn, hu.numThreads]; exact hr.loop_le
  · rw [hconn]; exact hk.closeCallback.trans hr.closeCallback
  · rw [hconn, he.state]
    intro l'
    dsimp only
    rw [view_absorb_uncalled hq]
    exact hfree l'
  · rw [hconn, world_absorb (show w.ptr = c from hk.ptr), he.state]
    exact World.Flowing.congr he.flowing ⟨he.wf.out, he.wf.inp, he.wf.synced⟩ rfl rfl
  · rw [view_absorb_uncalled hq] at hl
    have hnone := hr.no_events hcon l'
    rcases hl with ha | hev
    · exact absurd ((tk.events l').1.trans hnone.1) ha
    · exact absurd ((tk.events l').2.trans hnone.2) hev
  · exact (tk.held_absorb hu).2 (hr.held (by rw [hcon]; nofun))
  · rw [Refers, tk.poller_absorb, ← poller_absorb s c w] at hc'
    exact h.refs_absorb hp hk he.wf hentry hc'

theorem Rooted.connectDestroyed (h : s.Rooted) (tk : InHand s l (.connectDestroyed c) t)
    (ho : (t.world c).connectDestroyed = .ok w) : ((t.mark c .destroyed).absorb c w).Rooted := by
  obtain ⟨hmem, hp⟩ := tk.mem h
  change Job.connectDestroyed c ∈ ((s.loop l).view c).lifecycle at hmem
  change s.Present c at hp
  have hr := h.root hp
  obtain ⟨hdis, hcl⟩ := hr.closed hmem (by simp) (by simp)
  have hl : l = (s.conn c).loop := by simpa [Closing, Job.conn] using hcl
  rw [tk.world] at ho
  have hwf := (hr.standing hp (hl ▸ tk.running h)).wf
  have hentry := World.connectDestroyed_entry hwf ho
  obtain ⟨v, hv, hd⟩ := World.connectDestroyed_spec hwf
  rw [hv] at ho; cases ho
  have hq : w.Uncalled := hd.uncalled (uncalled_world s c)
  have hwst : w.conn.state = .disconnected := by
    rw [hd.eq]
    show (if (s.conn c).tcp.state = _ then _ else (s.conn c).tcp.state) = _
    rw [hdis]
    rfl
  have hu : Touched s c ((t.mark c .destroyed).absorb c w) := tk.touched_absorb hd.kept
  have hconn := tk.conn_absorb (m := .destroyed) (w := w) c
  -- The functor runs in a batch, and no handler does.
  have hidle (l' : Nat) : ((s.loop l').view c).active = [] ∧ ((s.loop l').view c).events = [] := by
    by_cases hl' : l' = (s.conn c).loop
    · have hcalling := ((h.shape l).leaving c tk.stack).1
      obtain ⟨hactive, hev⟩ := (h.shape l).calling hcalling
      rw [hl', ← hl, ServerLoop.view, hactive]
      refine ⟨rfl, List.filter_eq_nil_iff.2 fun j hj => ?_⟩
      rw [hev j hj]
      simp
    · constructor
      · by_contra ha
        exact hl' (hr.handling l' (.inl ha)).1
      · by_contra he
        exact hl' (hr.handling l' (.inr he)).1
  refine h.touch hu hp (tk.shape_absorb hq c) ⟨?_, ?_, ?_, fun _ _ => ?_, fun l' hl' => ?_, .inr ?_,
    fun hne => ?_⟩ (fun c' hc' => ?_) fun c' _ _ hh => (tk.held_absorb hu).2 hh
  · rw [hconn, hu.numThreads]; exact hr.loop_le
  · rw [hconn]; exact hd.kept.closeCallback.trans hr.closeCallback
  · rw [hconn, hwst]
    intro l' j hj
    dsimp only at hj
    rw [view_absorb_uncalled hq] at hj
    refine (hr.scheduled.closing (by simp [hdis]) ?_).2
    have hview := tk.view l'
    rw [show (Job.connectDestroyed c).conn = c from rfl] at hview
    rw [hview]
    exact List.mem_append_right _ hj
  · rw [hconn, world_absorb (show w.ptr = c from hd.kept.ptr), hwst]
    exact ⟨hd.wf.out, hd.wf.inp, hd.wf.synced⟩
  · rw [view_absorb_uncalled hq] at hl'
    rcases hl' with ha | he
    · exact absurd ((tk.events l').1.trans (hidle l').1) ha
    · exact absurd ((tk.events l').2.trans (hidle l').2) he
  · rw [hconn]; simp
  · rw [hconn] at hne
    exact absurd hwst hne
  · -- Nothing refers to the fd any more.
    exfalso
    have hnew : w.conn.channel.status ≠ .added := by rw [hd.channel]; simp
    have hfd : w.conn.channel.fd = (s.conn c).tcp.channel.fd := hd.kept.fd
    rw [Refers, tk.poller_absorb] at hc'
    rcases hc' with hc' | ⟨e, he, -⟩
    · rw [show w.poller.channels (s.conn c).tcp.channel.fd = none from hentry] at hc'; cases hc'
    · rw [← hfd, hd.wf.synced.absent hnew] at he; cases he

end TcpServer
end Muduo
