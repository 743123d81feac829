import Muduo.PollEvents

/-!
# `Acceptor` (`Acceptor.h`, `Acceptor.cpp`, `Socket.cpp`)

The listening channel among the other channels of its loop, from the construction of the acceptor to
its destruction. The kernel's part is the queue of connections behind the listening socket and the
answers of `::accept4`; a failing `::socket`, `::bind` or `::listen` ends the process in `LOG_FATAL`.
`κ` is the type of connections.
-/

namespace Muduo
open Lts EPollPoller

/-- What `::accept4` answers. -/
inductive AcceptResult
  | accepted (connectionFd : Nat)
  | error (e : Errno)
deriving DecidableEq, Repr

/-- What became of a connection that waited to be accepted. -/
inductive Fate
  /-- Passed to the callback. -/
  | newConnection (sockfd : Nat)
  | closed (fd : Nat)
  /-- Reset by the kernel: the listening socket was closed before. -/
  | reset
deriving DecidableEq, Repr

structure Acceptor (ι κ : Type) where
  /-- The channels of the loop; `activeChannels` holds those that `loop` has still to handle. -/
  loop : EventPoller ι
  /-- The address of `m_acceptChannel`. -/
  acceptChannel : ι
  /-- `m_newConnectionCallback` is not empty. -/
  newConnectionCallback : Bool
  listenning : Bool
  /-- The acceptor has not been destroyed. -/
  alive : Bool
  /-- The connections that wait behind the listening socket. -/
  backlog : List κ
  /-- The connections that ever waited there, and what became of them; the code keeps no such record. -/
  arrived : List κ
  fates : List (κ × Fate)

inductive AcceptStep (ι κ : Type)
  | poll (ready taken : List (Int × EventMask))
  /-- The next active channel, with the answer of `::accept4` if it is the acceptor's. -/
  | handleEvent (r : AcceptResult)
  /-- A handler or a functor of the loop changes another channel. -/
  | op (c : ι) (op : ChannelOp)
  | setNewConnectionCallback (inCallback : Bool)
  | listen
  | destroy
  /-- A connection is completed by the kernel. -/
  | arrive (peer : κ)

namespace Acceptor
variable {ι κ : Type} [DecidableEq ι] {s t : Acceptor ι κ} {a : AcceptStep ι κ} {as : List (AcceptStep ι κ)}
  {w : Registry ι} {ptr c : ι}

/-- A constructed acceptor, whose channel is `ptr`. -/
def new (w : Registry ι) (ptr : ι) : Acceptor ι κ where
  loop := .new w
  acceptChannel := ptr
  newConnectionCallback := false
  listenning := false
  alive := true
  backlog := []
  arrived := []
  fates := []

def channel (s : Acceptor ι κ) : Channel := s.loop.registry.chan s.acceptChannel

def listen (s : Acceptor ι κ) : Option (Acceptor ι κ) :=
  (s.loop.step (.op s.acceptChannel .enableReading)).map fun q => { s with loop := q, listenning := true }

def handleRead (s : Acceptor ι κ) : AcceptResult → Option (Acceptor ι κ)
  | .accepted connectionFd =>
    match s.backlog with
    | peer :: rest =>
      some { s with
        backlog := rest
        fates := s.fates ++ [(peer, if s.newConnectionCallback then .newConnection connectionFd
          else .closed connectionFd)] }
    | [] => none
  | .error _ => some s

/-- `handleEvent` of the acceptor's channel: no callback but the read callback is set. -/
def handleEvent (s : Acceptor ι κ) (r : AcceptResult) : Option (Acceptor ι κ) :=
  if .read ∈ s.channel.handleEvent false then s.handleRead r else some s

/-- `~Acceptor`, and `~Socket` after it. -/
def destroy (s : Acceptor ι κ) : Option (Acceptor ι κ) := do
  let q ← s.loop.step (.op s.acceptChannel .disableAll)
  let q ← q.step (.op s.acceptChannel .remove)
  return { s with
    loop := q
    alive := false
    backlog := []
    fates := s.fates ++ s.backlog.map fun peer => (peer, .reset) }

def step (s : Acceptor ι κ) : AcceptStep ι κ → Option (Acceptor ι κ)
  | .poll ready taken =>
    if s.loop.activeChannels = [] then
      (s.loop.step (.poll ready taken)).map fun q => { s with loop := q }
    else none
  | .handleEvent r =>
    match s.loop.activeChannels with
    | [] => none
    | c :: rest =>
      if c = s.acceptChannel then
        -- the channel is a member of the acceptor
        if s.alive then { s with loop.activeChannels := rest }.handleEvent r else none
      else some { s with loop.activeChannels := rest }
  | .op c op =>
    if c ≠ s.acceptChannel then (s.loop.step (.op c op)).map fun q => { s with loop := q } else none
  | .setNewConnectionCallback inCallback =>
    if s.alive then some { s with newConnectionCallback := inCallback } else none
  | .listen => if s.alive then s.listen else none
  | .destroy => if s.alive then s.destroy else none
  | .arrive peer =>
    if s.alive ∧ s.listenning then
      some { s with backlog := s.backlog ++ [peer], arrived := s.arrived ++ [peer] }
    else none

/-! ### The listening channel -/

/-- What the acceptor's channel is registered for. -/
structure Inv (s : Acceptor ι κ) : Prop where
  loop : s.loop.Inv
  untied : s.channel.tied = false
  listening : s.alive = true → s.listenning = true →
    s.channel.status = .added ∧ s.channel.events = Channel.kReadEvent
  silent : s.alive = true → s.listenning = false → s.channel.status = .new ∧ s.channel.events = 0 ∧
    s.backlog = []
  gone : s.alive = false → s.channel.status = .new ∧ s.backlog = []
  fates : s.fates.map Prod.fst ++ s.backlog = s.arrived

omit [DecidableEq ι] in
theorem new_inv (h : w.Fresh) (hptr : w.chan ptr = { fd := (w.chan ptr).fd }) :
    (new w ptr : Acceptor ι κ).Inv where
  loop := EventPoller.new_inv h
  untied := by
    show (w.chan ptr).tied = false
    rw [hptr]
  listening _ hl := by cases hl
  silent _ _ := by
    refine ⟨h.status ptr, ?_, rfl⟩
    show (w.chan ptr).events = 0
    rw [hptr]
  gone ha := by cases ha
  fates := rfl

omit [DecidableEq ι] in
/-- What `Inv` looks at. -/
theorem Inv.congr (h : s.Inv) (hl : t.loop.Inv) (htied : t.channel.tied = s.channel.tied)
    (hstatus : t.channel.status = s.channel.status) (hevents : t.channel.events = s.channel.events)
    (hlis : t.listenning = s.listenning) (halive : t.alive = s.alive)
    (hback : (s.listenning = false ∨ s.alive = false) → s.backlog = [] → t.backlog = [])
    (hfates : t.fates.map Prod.fst ++ t.backlog = t.arrived) : t.Inv where
  loop := hl
  untied := htied.trans h.untied
  listening ha hlt := by
    rw [hstatus, hevents]
    exact h.listening (halive ▸ ha) (hlis ▸ hlt)
  silent ha hlt := by
    rw [hstatus, hevents]
    obtain ⟨h₁, h₂, h₃⟩ := h.silent (halive ▸ ha) (hlis ▸ hlt)
    exact ⟨h₁, h₂, hback (.inl (hlis ▸ hlt)) h₃⟩
  gone ha := by
    rw [hstatus]
    obtain ⟨h₁, h₂⟩ := h.gone (halive ▸ ha)
    exact ⟨h₁, hback (.inr (halive ▸ ha)) h₂⟩
  fates := hfates

/-! ### The steps -/

/-- What a step does, on a loop in its invariant. -/
inductive Did (s : Acceptor ι κ) : AcceptStep ι κ → Acceptor ι κ → Prop
  | polled {ready taken q} (hd : s.loop.Polled taken q) : Did s (.poll ready taken) { s with loop := q }
  /-- Another channel, an event without a read, or a failing `::accept4`. -/
  | passed {r c rest} (hc : s.loop.activeChannels = c :: rest) :
    Did s (.handleEvent r) { s with loop.activeChannels := rest }
  | accepted {connectionFd rest peer peers} (hc : s.loop.activeChannels = s.acceptChannel :: rest)
      (ha : s.alive = true) (hb : s.backlog = peer :: peers) :
    Did s (.handleEvent (.accepted connectionFd)) { s with
      loop.activeChannels := rest
      backlog := peers
      fates := s.fates ++ [(peer, if s.newConnectionCallback then .newConnection connectionFd
        else .closed connectionFd)] }
  | operated {c op q} (hc : c ≠ s.acceptChannel) (hd : s.loop.Operated c op q) (hi : q.Inv) :
    Did s (.op c op) { s with loop := q }
  | callbackSet {inCallback} (ha : s.alive = true) :
    Did s (.setNewConnectionCallback inCallback) { s with newConnectionCallback := inCallback }
  | listened {q} (ha : s.alive = true) (hd : s.loop.Operated s.acceptChannel .enableReading q) (hi : q.Inv) :
    Did s .listen { s with loop := q, listenning := true }
  | destroyed {q₁ q₂} (ha : s.alive = true) (hd₁ : s.loop.Operated s.acceptChannel .disableAll q₁)
      (hd₂ : q₁.Operated s.acceptChannel .remove q₂) (hi : q₂.Inv) :
    Did s .destroy { s with
      loop := q₂
      alive := false
      backlog := []
      fates := s.fates ++ s.backlog.map fun peer => (peer, .reset) }
  | arrived {peer} (ha : s.alive = true) (hl : s.listenning = true) :
    Did s (.arrive peer) { s with backlog := s.backlog ++ [peer], arrived := s.arrived ++ [peer] }

/-- No call of `epoll_ctl` fails in `listen`. -/
theorem Inv.listen (h : s.Inv) (ha : s.alive = true) : ∃ t, s.step .listen = some t ∧ s.Did .listen t := by
  obtain ⟨q, hq, hi, hd⟩ := h.loop.op s.acceptChannel .enableReading
  refine ⟨_, ?_, .listened ha hd hi⟩
  rw [step, if_pos ha, Acceptor.listen, hq]
  rfl

/-- Nor in the destructor, in whatever state the channel is. -/
theorem Inv.destroy (h : s.Inv) (ha : s.alive = true) : ∃ t, s.step .destroy = some t ∧ s.Did .destroy t := by
  obtain ⟨q₁, hq₁, hi₁, hd₁⟩ := h.loop.op s.acceptChannel .disableAll
  obtain ⟨q₂, hq₂, hi₂, hd₂⟩ := hi₁.op s.acceptChannel .remove
  refine ⟨_, ?_, .destroyed ha hd₁ hd₂ hi₂⟩
  rw [step, if_pos ha, Acceptor.destroy, hq₁, Option.bind_eq_bind, Option.bind_some, hq₂]
  rfl

omit [DecidableEq ι] in
theorem handleEvent_did {r : AcceptResult} {rest : List ι} (ha : s.alive = true)
    (hc : s.loop.activeChannels = s.acceptChannel :: rest)
    (ht : handleEvent { s with loop.activeChannels := rest } r = some t) : s.Did (.handleEvent r) t := by
  rw [handleEvent] at ht
  split at ht
  · cases r with
    | error e =>
      cases ht
      exact .passed hc
    | accepted connectionFd =>
      cases hb : s.backlog with
      | nil => simp [handleRead, hb] at ht
      | cons peer peers =>
        simp only [handleRead, hb, Option.some.injEq] at ht
        subst ht
        exact .accepted hc ha hb
  · cases ht
    exact .passed hc

theorem step_did (h : s.Inv) (ht : s.step a = some t) : s.Did a t := by
  cases a with
  | poll ready taken =>
    rw [step] at ht
    split at ht
    · obtain ⟨q, hq, rfl⟩ := Option.map_eq_some_iff.1 ht
      obtain ⟨q', hq', hd⟩ := EventPoller.polled h.loop.owned (EventPoller.legal_of_step hq)
      cases hq.symm.trans hq'
      exact .polled hd
    · cases ht
  | handleEvent r =>
    rw [step] at ht
    split at ht
    · cases ht
    · rename_i c rest hactive
      split at ht
      · rename_i hc
        subst hc
        split at ht
        · rename_i ha
          exact handleEvent_did ha hactive ht
        · cases ht
      · cases ht
        exact .passed hactive
  | op c op =>
    rw [step] at ht
    split at ht
    · rename_i hc
      obtain ⟨q, hq, hi, hd⟩ := h.loop.op c op
      rw [hq] at ht
      cases ht
      exact .operated hc hd hi
    · cases ht
  | setNewConnectionCallback cb =>
    rw [step] at ht
    split at ht
    · rename_i ha
      cases ht
      exact .callbackSet ha
    · cases ht
  | listen =>
    have ha : s.alive = true := by
      rw [step] at ht
      split at ht
      · assumption
      · cases ht
    obtain ⟨t', ht', hd⟩ := h.listen ha
    cases ht.symm.trans ht'
    exact hd
  | destroy =>
    have ha : s.alive = true := by
      rw [step] at ht
      split at ht
      · assumption
      · cases ht
    obtain ⟨t', ht', hd⟩ := h.destroy ha
    cases ht.symm.trans ht'
    exact hd
  | arrive peer =>
    rw [step] at ht
    split at ht
    · rename_i ha
      cases ht
      exact .arrived ha.1 ha.2
    · cases ht

omit [DecidableEq ι] in
theorem Did.inv (h : s.Inv) (hd : s.Did a t) : t.Inv := by
  cases hd with
  | polled hd =>
    obtain ⟨m, hm⟩ := hd.chan s.acceptChannel
    refine h.congr (hd.inv h.loop) ?_ ?_ ?_ rfl rfl (fun _ hn => hn) h.fates
    · exact (congrArg Channel.tied hm :)
    · exact (congrArg Channel.status hm :)
    · exact (congrArg Channel.events hm :)
  | passed hc =>
    exact h.congr ⟨h.loop.sync, h.loop.entries, h.loop.owned, h.loop.size⟩ rfl rfl rfl rfl rfl
      (fun _ hn => hn) h.fates
  | accepted hc ha hb =>
    refine h.congr ⟨h.loop.sync, h.loop.entries, h.loop.owned, h.loop.size⟩ rfl rfl rfl rfl rfl
      (fun _ hn => ?_) ?_
    · rw [hb] at hn
      cases hn
    · have hf := h.fates
      rw [hb] at hf
      simpa using hf
  | operated hc hd hi =>
    have hch := hd.others s.acceptChannel (Ne.symm hc)
    refine h.congr hi ?_ ?_ ?_ rfl rfl (fun _ hn => hn) h.fates
    · exact (congrArg Channel.tied hch :)
    · exact (congrArg Channel.status hch :)
    · exact (congrArg Channel.events hch :)
  | callbackSet ha => exact h.congr h.loop rfl rfl rfl rfl rfl (fun _ hn => hn) h.fates
  | listened ha hd hi =>
    rename_i q
    have hevents : (q.registry.chan s.acceptChannel).events = Channel.kReadEvent := by
      rw [hd.executed.events]
      show s.channel.events ||| Channel.kReadEvent = _
      cases hl : s.listenning with
      | true => rw [(h.listening ha hl).2]; decide
      | false => rw [(h.silent ha hl).2.1]; decide
    have hadded : (q.registry.chan s.acceptChannel).status = .added :=
      hd.executed.added (i := 0) (by decide) (by rw [← hd.executed.events, hevents]; decide)
    have htied : (q.registry.chan s.acceptChannel).tied = false := by
      rw [hd.executed.channel]
      exact h.untied
    refine ⟨hi, htied, fun _ _ => ⟨hadded, hevents⟩, fun _ hl => ?_, fun hn => ?_, h.fates⟩
    · cases hl
    · change s.alive = false at hn
      rw [ha] at hn
      cases hn
  | destroyed ha hd₁ hd₂ hi =>
    rename_i q₁ q₂
    have hstatus : (q₂.registry.chan s.acceptChannel).status = .new := by
      rw [hd₂.executed.status, if_pos rfl]
    have htied : (q₂.registry.chan s.acceptChannel).tied = false := by
      rw [hd₂.executed.channel]
      show (q₁.registry.chan s.acceptChannel).tied = false
      rw [hd₁.executed.channel]
      exact h.untied
    refine ⟨hi, htied, fun hn => ?_, fun hn => ?_, fun _ => ⟨hstatus, rfl⟩, ?_⟩
    · cases hn
    · cases hn
    · show (s.fates ++ s.backlog.map fun peer => (peer, Fate.reset)).map Prod.fst ++ [] = s.arrived
      rw [List.append_nil, List.map_append, List.map_map, ← h.fates]
      exact congrArg _ (List.map_id s.backlog)
  | arrived ha hl =>
    refine h.congr h.loop rfl rfl rfl rfl rfl (fun hn _ => ?_) ?_
    · simp [ha, hl] at hn
    · show s.fates.map Prod.fst ++ (s.backlog ++ [_]) = s.arrived ++ [_]
      rw [← List.append_assoc, h.fates]

omit [DecidableEq ι] in
/-- Whom the loop has still to handle after a step: those from before, and after a poll those that the
kernel reported. -/
theorem Did.active (hd : s.Did a t) {c : ι} (hc : c ∈ t.loop.activeChannels) :
    c ∈ s.loop.activeChannels ∨ ∃ fd x, t.loop.registry.poller.interest fd = some x ∧ x.ptr = c := by
  cases hd with
  | polled hd =>
    obtain ⟨x, hx, hptr⟩ := hd.registered c hc
    exact .inr ⟨_, x, hx, hptr⟩
  | passed hact => exact .inl (hact ▸ List.mem_cons_of_mem _ hc)
  | accepted hact _ _ => exact .inl (hact ▸ List.mem_cons_of_mem _ hc)
  | operated _ hd _ => exact .inl (hd.active ▸ hc)
  | callbackSet _ => exact .inl hc
  | listened _ hd _ => exact .inl (hd.active ▸ hc)
  | destroyed _ hd₁ hd₂ _ => exact .inl (hd₁.active ▸ hd₂.active ▸ hc)
  | arrived _ _ => exact .inl hc

omit [DecidableEq ι] in
theorem Did.acceptChannel (hd : s.Did a t) : t.acceptChannel = s.acceptChannel := by
  cases hd <;> rfl

theorem run_inv_new (h : w.Fresh) (hptr : w.chan ptr = { fd := (w.chan ptr).fd })
    (hs : run step (new w ptr) as = some s) : s.Inv :=
  run_inv (fun _ _ _ ht hi => (step_did hi ht).inv hi) hs (new_inv h hptr)

omit [DecidableEq ι] in
/-- What the kernel holds of an acceptor that listens, and of one that has been destroyed. -/
theorem Inv.interest (h : s.Inv) :
    (s.alive = true → s.listenning = true →
      s.loop.registry.poller.interest s.channel.fd = some ⟨Channel.kReadEvent, s.acceptChannel⟩) ∧
    (s.alive = false → ∀ fd, (∀ x, s.loop.registry.poller.interest fd = some x → x.ptr ≠ s.acceptChannel) ∧
      s.loop.registry.poller.channels fd ≠ some s.acceptChannel) := by
  have hsync := h.loop.sync.synced s.acceptChannel
  refine ⟨fun ha hl => ?_, fun hn fd => ⟨fun x hx hc => ?_, fun hc => ?_⟩⟩
  · obtain ⟨hadded, hev⟩ := h.listening ha hl
    rw [← hev]
    exact hsync.added hadded
  · have hfd := h.loop.owned fd x hx
    have hnone := hsync.absent (by rw [show (s.loop.registry.chan s.acceptChannel).status = _ from (h.gone hn).1]
                                   decide)
    rw [← hc, hfd, hx] at hnone
    cases hnone
  · obtain ⟨-, hadded⟩ := h.loop.entries fd _ hc
    rw [show (s.loop.registry.chan s.acceptChannel).status = _ from (h.gone hn).1] at hadded
    cases hadded

/-! ### Over all runs -/

/-- Nothing that the loop goes by refers to a destroyed acceptor. Of `m_activeChannels` this is the part still
to be handled: the pointers before it stay until the next poll clears them, and are not used again. -/
def Safe (s : Acceptor ι κ) : Prop :=
  s.alive = false → s.acceptChannel ∉ s.loop.activeChannels ∧
    ∀ fd, (∀ x, s.loop.registry.poller.interest fd = some x → x.ptr ≠ s.acceptChannel) ∧
      s.loop.registry.poller.channels fd ≠ some s.acceptChannel

/-- The acceptor is not destroyed while its channel has an event that the loop has still to handle. -/
def NotPending (s : Acceptor ι κ) : AcceptStep ι κ → Prop
  | .destroy => s.acceptChannel ∉ s.loop.activeChannels
  | _ => True

instance (s : Acceptor ι κ) (a : AcceptStep ι κ) : Decidable (s.NotPending a) :=
  match a with
  | .destroy => inferInstanceAs (Decidable (s.acceptChannel ∉ s.loop.activeChannels))
  | .poll _ _ | .handleEvent _ | .op _ _ | .setNewConnectionCallback _ | .listen | .arrive _ => .isTrue trivial

omit [DecidableEq ι] in
/-- A step that leaves a living acceptor alive, or finds it destroyed, leads to no destroyed channel. -/
theorem Did.safe (h : t.Inv) (hs : s.Safe) (halive : t.alive = s.alive) (hd : s.Did a t) : t.Safe := by
  intro hn
  refine ⟨fun hc => ?_, h.interest.2 hn⟩
  rcases hd.active hc with hold | ⟨fd, x, hx, hptr⟩
  · rw [hd.acceptChannel] at hold
    exact (hs (halive ▸ hn)).1 hold
  · exact (h.interest.2 hn fd).1 x hx hptr

/-- Over every run of the loop, with any operations on its other channels: no event still to be handled, no entry of
the kernel's interest set or of `m_channels` ever refers to a destroyed acceptor, exactly when the acceptor
is not destroyed while its channel has an event still to be handled. The destructor takes care of the other
two by itself, whether the acceptor listened or not. -/
theorem nothing_refers_to_destroyed_iff (w : Registry ι) (ptr : ι) (h : w.Fresh)
    (hptr : w.chan ptr = { fd := (w.chan ptr).fd }) (as : List (AcceptStep ι κ)) :
    Always step Safe (new w ptr) as ↔ Along step NotPending (new w ptr) as := by
  refine always_iff_along_of (I := Inv) (fun s a t ht hi hs => ?_) (fun s a hn hi hs => ?_)
    (new_inv h hptr) (fun hn => ?_)
  · have hd := step_did hi ht
    have hti := hd.inv hi
    refine ⟨hti, ?_⟩
    cases a with
    | destroy =>
      have hdead : t.alive = false := by
        cases hd
        rfl
      have hact : t.loop.activeChannels = s.loop.activeChannels := by
        cases hd with
        | destroyed _ hd₁ hd₂ _ => exact hd₂.active.trans hd₁.active
      have hnow : t.Safe ↔ t.acceptChannel ∉ t.loop.activeChannels :=
        ⟨fun hsafe => (hsafe hdead).1, fun hc _ => ⟨hc, hti.interest.2 hdead⟩⟩
      rw [hnow, hact, hd.acceptChannel]
      exact Iff.rfl
    | _ =>
      have halive : t.alive = s.alive := by
        cases hd <;> rfl
      exact ⟨fun _ => trivial, fun _ => hd.safe hti hs halive⟩
  · cases a with
    | destroy =>
      -- the destructor of a living acceptor goes through
      cases ha : s.alive with
      | false => exact (hs ha).1
      | true =>
        obtain ⟨t, ht, -⟩ := hi.destroy ha
        rw [hn] at ht
        cases ht
    | _ => trivial
  · cases hn

/-- Two connections arrive, one is accepted, and the acceptor is destroyed from a handler that comes after
its own. -/
def acceptsOne : List (AcceptStep Nat Nat) :=
  [.setNewConnectionCallback true, .op 4 .enableReading, .listen, .arrive 100, .arrive 101,
    .poll [(3, EPOLLIN), (4, EPOLLIN)] [(3, EPOLLIN), (4, EPOLLIN)], .handleEvent (.accepted 7),
    .handleEvent (.error 0), .destroy, .poll [(4, EPOLLIN)] [(4, EPOLLIN)]]

theorem destroyed_after_its_event : Always step Safe (new Registry.numbered 3) acceptsOne :=
  (nothing_refers_to_destroyed_iff Registry.numbered 3 Registry.numbered_fresh rfl acceptsOne).2
    (by decide +kernel)

/-- Every connection that the kernel completes is still waiting, or was passed to the callback, closed, or
reset with the listening socket, one fate for each and in the order of arrival. While one waits the
listening channel is registered so that the next poll finds it ready. No call of `epoll_ctl` fails, so that
`listen` and the destructor go through in every state. -/
theorem accepts_in_order (w : Registry ι) (ptr : ι) (h : w.Fresh)
    (hptr : w.chan ptr = { fd := (w.chan ptr).fd }) (as : List (AcceptStep ι κ)) (s : Acceptor ι κ)
    (hs : run step (new w ptr) as = some s) :
    s.fates.map Prod.fst ++ s.backlog = s.arrived ∧
      (s.backlog ≠ [] → Reports s.loop.registry.poller.interest (s.channel.fd, EPOLLIN)) ∧
      (∀ k ∈ s.loop.registry.poller.calls, k.ok = true) ∧
      (s.alive = true → (∃ t, s.step .listen = some t) ∧ ∃ t, s.step .destroy = some t) := by
  have hi := run_inv_new h hptr hs
  refine ⟨hi.fates, fun hb => ?_, hi.loop.sync.calls, fun ha => ⟨?_, ?_⟩⟩
  · have ha : s.alive = true := by
      by_contra hn
      exact hb (hi.gone (Bool.eq_false_of_not_eq_true hn)).2
    have hl : s.listenning = true := by
      by_contra hn
      exact hb (hi.silent ha (Bool.eq_false_of_not_eq_true hn)).2.2
    unfold Reports
    rw [hi.interest.1 ha hl]
    exact (by decide : EPOLLIN ≠ 0 ∧
      EPOLLIN &&& ~~~(Channel.kReadEvent ||| (EPOLLERR ||| EPOLLHUP)) = 0)
  · obtain ⟨t, ht, -⟩ := hi.listen ha
    exact ⟨t, ht⟩
  · obtain ⟨t, ht, -⟩ := hi.destroy ha
    exact ⟨t, ht⟩

set_option maxRecDepth 20000 in
theorem one_of_two_accepted : ∃ s : Acceptor Nat Nat, run step (new Registry.numbered 3) acceptsOne = some s ∧
    s.fates = [(100, .newConnection 7), (101, .reset)] ∧ s.fates.map Prod.fst ++ s.backlog = s.arrived := by
  have h : ((run step (new Registry.numbered 3) acceptsOne).map fun s => s.fates) =
      some [(100, .newConnection 7), (101, .reset)] := by
    decide +kernel
  obtain ⟨s, hs, hf⟩ := Option.map_eq_some_iff.1 h
  exact ⟨s, hs, hf, (accepts_in_order Registry.numbered 3 Registry.numbered_fresh rfl acceptsOne s hs).1⟩

end Acceptor
end Muduo
