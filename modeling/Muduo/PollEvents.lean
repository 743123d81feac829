import Muduo.IdleChannel
import Muduo.Buffer
import Mathlib.Data.List.Induction
import Mathlib.Data.List.Nodup
import Mathlib.Tactic.Ring

/-!
# `EPollPoller::poll` (`EPollPoller.h`, `EPollPoller.cpp`)

`epoll_wait` writes its answer to the front of `m_events`, `fillActiveChannels` reads it back, and a full
list is doubled. The runs interleave polls with any operations on the channels, as the handlers and
functors of a loop do; the kernel answers with as many of the ready descriptors as the list has room for,
in any choice and order.
-/

namespace Muduo
open Lts EPollPoller

structure EventPoller (ι : Type) where
  /-- The channels, with what is registered of them. -/
  registry : Registry ι
  /-- `m_events`; the pointer of an entry that was never written to is null. -/
  events : List (Option (EpollEvent ι))
  /-- `m_activeChannels` of the loop. -/
  activeChannels : List ι

inductive PollStep (ι : Type)
  | op (c : ι) (op : ChannelOp)
  /-- `loop` clears `m_activeChannels` and polls; of the `ready` descriptors the kernel reports `taken`. -/
  | poll (ready taken : List (Int × EventMask))
  /-- `epoll_wait` fails. -/
  | pollError (errno : Errno)

/-- The kernel reports what was asked for, and errors and hang-ups always. -/
def Reports {ι : Type} (interest : Int → Option (EpollEvent ι)) (e : Int × EventMask) : Prop :=
  match interest e.1 with
  | some x => e.2 ≠ 0 ∧ e.2 &&& ~~~(x.events ||| (EPOLLERR ||| EPOLLHUP)) = 0
  | none => False

instance {ι : Type} (interest : Int → Option (EpollEvent ι)) (e : Int × EventMask) :
    Decidable (Reports interest e) := by
  unfold Reports
  split <;> infer_instance

namespace Channel
variable {ch : Channel}

theorem read_mem : .read ∈ ch.handleEventWithGuard ↔ ch.revents &&& kReadEvent ≠ 0 := by
  simp [handleEventWithGuard, kReadEvent]

theorem write_mem : .write ∈ ch.handleEventWithGuard ↔ ch.revents &&& kWriteEvent ≠ 0 := by
  simp [handleEventWithGuard, kWriteEvent]

end Channel

namespace EventPoller
variable {ι : Type} [DecidableEq ι] {p q : EventPoller ι} {w w₀ : Registry ι}
  {ready taken : List (Int × EventMask)} {as : List (PollStep ι)} {a : PollStep ι}

def kInitEventListSize : Nat := 16

/-- A poller that has been constructed; nothing is registered. -/
def new (w : Registry ι) : EventPoller ι := ⟨w, List.replicate kInitEventListSize none, []⟩

/-- `static_cast<int>(m_events.size())`. -/
def maxEvents (p : EventPoller ι) : Int := (BitVec.ofNat 32 p.events.length).toInt

def setRevents (chan : ι → Channel) (e : EpollEvent ι) : ι → Channel :=
  Function.update chan e.ptr { chan e.ptr with revents := e.events }

/-- The loop of `fillActiveChannels` from `i` on, with `n` iterations to go. -/
def fillFrom (events : List (Option (EpollEvent ι))) :
    Nat → Nat → (ι → Channel) → List ι → Except Fault ((ι → Channel) × List ι)
  | _, 0, chan, out => .ok (chan, out)
  | i, n + 1, chan, out =>
    match events[i]? with
    | some (some e) => fillFrom events (i + 1) n (setRevents chan e) (out ++ [e.ptr])
    | _ => .error .outOfBounds

def fillActiveChannels (p : EventPoller ι) (numEvents : Nat) : Except Fault (EventPoller ι) :=
  (fillFrom p.events 0 numEvents p.registry.chan p.activeChannels).map fun (chan, out) =>
    { p with registry.chan := chan, activeChannels := out }

/-- What `epoll_wait` writes for the reported descriptors. -/
def written (p : EventPoller ι) (taken : List (Int × EventMask)) : List (EpollEvent ι) :=
  taken.filterMap fun e => (p.registry.poller.interest e.1).map fun x => ⟨e.2, x.ptr⟩

/-- `poll` after an `epoll_wait` that returned `written.length`. -/
def poll (p : EventPoller ι) (written : List (EpollEvent ι)) : Except Fault (EventPoller ι) :=
  let p := { p with events := written.map some ++ p.events.drop written.length }
  if 0 < written.length then do
    let p ← p.fillActiveChannels written.length
    return if written.length = p.events.length then
      { p with events := p.events ++ List.replicate p.events.length none } else p
  else .ok p

/-- A legal answer: as many of the ready descriptors as there is room for, each once. -/
structure Answer (p : EventPoller ι) (ready taken : List (Int × EventMask)) : Prop where
  room : 0 < p.maxEvents
  ready_nodup : (ready.map Prod.fst).Nodup
  reports : ∀ e ∈ ready, Reports p.registry.poller.interest e
  taken_nodup : (taken.map Prod.fst).Nodup
  mem : ∀ e ∈ taken, e ∈ ready
  length : taken.length = min ready.length p.maxEvents.toNat

instance (p : EventPoller ι) (ready taken : List (Int × EventMask)) : Decidable (p.Answer ready taken) :=
  decidable_of_iff (0 < p.maxEvents ∧ (ready.map Prod.fst).Nodup ∧
    (∀ e ∈ ready, Reports p.registry.poller.interest e) ∧ (taken.map Prod.fst).Nodup ∧
    (∀ e ∈ taken, e ∈ ready) ∧ taken.length = min ready.length p.maxEvents.toNat)
    ⟨fun ⟨h₁, h₂, h₃, h₄, h₅, h₆⟩ => ⟨h₁, h₂, h₃, h₄, h₅, h₆⟩,
      fun h => ⟨h.room, h.ready_nodup, h.reports, h.taken_nodup, h.mem, h.length⟩⟩

def step (p : EventPoller ι) : PollStep ι → Option (EventPoller ι)
  | .op c op => (p.registry.step (c, op)).map fun w => { p with registry := w }
  | .poll ready taken =>
    if p.Answer ready taken then (poll { p with activeChannels := [] } (p.written taken)).toOption
    else none
  | .pollError _ => some { p with activeChannels := [] }

/-! ### Filling -/

theorem fillFrom_eq (pre : List (Option (EpollEvent ι))) (es : List (EpollEvent ι))
    (post : List (Option (EpollEvent ι))) (chan : ι → Channel) (out : List ι) :
    fillFrom (pre ++ (es.map some ++ post)) pre.length es.length chan out =
      .ok (es.foldl setRevents chan, out ++ es.map EpollEvent.ptr) := by
  induction es generalizing pre chan out with
  | nil => rw [List.length_nil, fillFrom, List.map_nil, List.append_nil]; rfl
  | cons e es ih =>
    have hget : (pre ++ ((e :: es).map some ++ post))[pre.length]? = some (some e) := by simp
    have hsplit : pre ++ ((e :: es).map some ++ post) =
        (pre ++ [some e]) ++ (es.map some ++ post) := by simp
    have hlen : pre.length + 1 = (pre ++ [some e]).length := by simp
    rw [List.length_cons, fillFrom, hget]
    dsimp only
    rw [hsplit, hlen, ih, List.append_assoc]
    rfl

theorem poll_eq (written : List (EpollEvent ι)) (hlen : written.length ≤ p.events.length) :
    ∃ events, p.poll written = .ok ⟨⟨p.registry.poller, written.foldl setRevents p.registry.chan⟩,
        events, p.activeChannels ++ written.map EpollEvent.ptr⟩ ∧
      events.length = if written.length = p.events.length ∧ 0 < written.length then
        2 * p.events.length else p.events.length := by
  have hsize : (written.map some ++ p.events.drop written.length).length = p.events.length := by
    rw [List.length_append, List.length_map, List.length_drop]
    omega
  have hfill := fillFrom_eq [] written (p.events.drop written.length) p.registry.chan p.activeChannels
  rw [List.nil_append, List.length_nil] at hfill
  unfold poll fillActiveChannels
  dsimp only
  rw [hfill]
  by_cases hpos : 0 < written.length
  · rw [if_pos hpos]
    by_cases hfull : written.length = p.events.length
    · refine ⟨(written.map some ++ p.events.drop written.length) ++ List.replicate p.events.length none,
        ?_, ?_⟩
      · show Except.ok (if written.length = _ then _ else _) = _
        rw [if_pos (hfull.trans hsize.symm), hsize]
      · rw [if_pos ⟨hfull, hpos⟩, List.length_append, hsize, List.length_replicate]
        omega
    · refine ⟨written.map some ++ p.events.drop written.length, ?_, ?_⟩
      · show Except.ok (if written.length = _ then _ else _) = _
        rw [if_neg fun h => hfull (h.trans hsize)]
      · rw [if_neg fun h => hfull h.1, hsize]
  · have hnil : written = [] := List.length_eq_zero_iff.1 (by omega)
    subst hnil
    refine ⟨p.events, ?_, by simp⟩
    simp

/-! ### One poll -/

/-- Every registered fd is that of the channel whose pointer the kernel holds. -/
def Owned (p : EventPoller ι) : Prop :=
  ∀ fd x, p.registry.poller.interest fd = some x → (p.registry.chan x.ptr).fd = fd

omit [DecidableEq ι] in
theorem written_map (h : p.Owned) (hr : ∀ e ∈ taken, Reports p.registry.poller.interest e) :
    (p.written taken).map (fun x => ((p.registry.chan x.ptr).fd, x.events)) = taken := by
  induction taken with
  | nil => rfl
  | cons e es ih =>
    have he := hr e (by simp)
    have hes := ih fun e' he' => hr e' (by simp [he'])
    unfold Reports at he
    cases hi : p.registry.poller.interest e.1 with
    | none => rw [hi] at he; exact he.elim
    | some x =>
      have hw : p.written (e :: es) = ⟨e.2, x.ptr⟩ :: p.written es := by
        rw [written, List.filterMap_cons, hi]; rfl
      rw [hw, List.map_cons, hes, h e.1 x hi]

omit [DecidableEq ι] in
theorem mem_written {x : EpollEvent ι} (hx : x ∈ p.written taken) :
    ∃ e ∈ taken, ∃ y, p.registry.poller.interest e.1 = some y ∧ x = ⟨e.2, y.ptr⟩ := by
  obtain ⟨e, he, hy⟩ := List.mem_filterMap.1 hx
  obtain ⟨y, hi, rfl⟩ := Option.map_eq_some_iff.1 hy
  exact ⟨e, he, y, hi, rfl⟩

theorem foldl_setRevents_of_notMem {es : List (EpollEvent ι)} {chan : ι → Channel} {c : ι}
    (h : c ∉ es.map EpollEvent.ptr) : es.foldl setRevents chan c = chan c := by
  induction es generalizing chan with
  | nil => rfl
  | cons e es ih =>
    rw [List.map_cons, List.mem_cons, not_or] at h
    rw [List.foldl_cons, ih h.2, setRevents, Function.update_of_ne h.1]

theorem foldl_setRevents_of_mem {es : List (EpollEvent ι)} {chan : ι → Channel} {e : EpollEvent ι}
    (hn : (es.map EpollEvent.ptr).Nodup) (he : e ∈ es) :
    es.foldl setRevents chan e.ptr = { chan e.ptr with revents := e.events } := by
  induction es generalizing chan with
  | nil => cases he
  | cons e' es ih =>
    rw [List.map_cons, List.nodup_cons] at hn
    rw [List.foldl_cons]
    rcases List.mem_cons.1 he with rfl | he
    · rw [foldl_setRevents_of_notMem hn.1, setRevents, Function.update_self]
    · have hne : e.ptr ≠ e'.ptr := fun h => hn.1 (h ▸ List.mem_map_of_mem he)
      rw [ih hn.2 he, setRevents, Function.update_of_ne hne]

/-- What a poll does that is answered with `taken`. -/
structure Polled (p : EventPoller ι) (taken : List (Int × EventMask)) (q : EventPoller ι) : Prop where
  poller : q.registry.poller = p.registry.poller
  chan : ∀ c, ∃ m, q.registry.chan c = { p.registry.chan c with revents := m }
  active : q.activeChannels.map (fun c => ((q.registry.chan c).fd, (q.registry.chan c).revents)) = taken
  others : ∀ c, c ∉ q.activeChannels → q.registry.chan c = p.registry.chan c
  registered : ∀ c ∈ q.activeChannels, ∃ x, q.registry.poller.interest (q.registry.chan c).fd = some x ∧
    x.ptr = c
  size : q.events.length = if taken.length = p.events.length ∧ 0 < taken.length then
    2 * p.events.length else p.events.length

omit [DecidableEq ι] in
theorem maxEvents_toNat_le : p.maxEvents.toNat ≤ p.events.length := by
  have h : p.maxEvents ≤ p.events.length := by
    rw [maxEvents, BitVec.toInt_eq_toNat_cond, BitVec.toNat_ofNat]
    have := Nat.mod_le p.events.length (2 ^ 32)
    split <;> omega
  omega

omit [DecidableEq ι] in
/-- What the cast leaves of a length that is `kInitEventListSize` doubled some number of times. -/
theorem maxEvents_eq {k : Nat} (h : p.events.length = kInitEventListSize * 2 ^ k) (hroom : 0 < p.maxEvents) :
    p.maxEvents.toNat = p.events.length := by
  rw [maxEvents, BitVec.toInt_eq_toNat_cond, BitVec.toNat_ofNat] at hroom ⊢
  by_cases hk : k ≤ 26
  · have hle : 2 ^ k ≤ 2 ^ 26 := Nat.pow_le_pow_right (by decide) hk
    rw [kInitEventListSize] at h
    have hlt : p.events.length < 2 ^ 31 := by omega
    rw [Nat.mod_eq_of_lt (by omega), if_pos (by omega), Int.toNat_natCast]
  · -- from `2 ^ 31` on the cast gives a negative number or zero
    exfalso
    obtain ⟨j, rfl⟩ : ∃ j, k = j + 27 := ⟨k - 27, by omega⟩
    have hlen : p.events.length = 2 ^ 31 * 2 ^ j := by
      rw [h, kInitEventListSize, pow_add]
      ring
    rcases Nat.eq_zero_or_pos j with rfl | hj
    · rw [hlen] at hroom
      simp at hroom
    · obtain ⟨i, rfl⟩ : ∃ i, j = i + 1 := ⟨j - 1, by omega⟩
      have hmod : p.events.length % 2 ^ 32 = 0 := by
        rw [hlen, pow_succ]
        omega
      rw [hmod] at hroom
      simp at hroom

/-- A poll with a legal answer returns. -/
theorem polled (hp : p.Owned) (ha : p.Answer ready taken) :
    ∃ q, p.step (.poll ready taken) = some q ∧ p.Polled taken q := by
  have hmap := written_map hp fun e he => ha.reports e (ha.mem e he)
  have hlen : (p.written taken).length = taken.length := by
    rw [← List.length_map, hmap]
  have hfit : taken.length ≤ p.events.length :=
    ha.length ▸ (min_le_right _ _).trans maxEvents_toNat_le
  obtain ⟨events, hpoll, hsize⟩ := poll_eq (p := { p with activeChannels := [] }) (p.written taken)
    (hlen ▸ hfit)
  rw [hlen] at hsize
  rw [List.nil_append] at hpoll
  -- distinct fds have distinct channels
  have hnodup : ((p.written taken).map EpollEvent.ptr).Nodup := by
    have h := ha.taken_nodup
    rw [← hmap, List.map_map] at h
    refine List.Nodup.of_map (fun c => (p.registry.chan c).fd) ?_
    rwa [List.map_map]
  have hfold : ∀ e ∈ p.written taken, (p.written taken).foldl setRevents p.registry.chan e.ptr =
      { p.registry.chan e.ptr with revents := e.events } := fun e he => foldl_setRevents_of_mem hnodup he
  have hstep : p.step (.poll ready taken) = some ⟨⟨p.registry.poller,
      (p.written taken).foldl setRevents p.registry.chan⟩, events, (p.written taken).map EpollEvent.ptr⟩ := by
    rw [step, if_pos ha, hpoll]
    rfl
  refine ⟨_, hstep, ⟨rfl, fun c => ?_, ?_, fun c hc => foldl_setRevents_of_notMem hc, fun c hc => ?_, hsize⟩⟩
  · show ∃ m, (p.written taken).foldl setRevents p.registry.chan c = _
    by_cases hc : c ∈ (p.written taken).map EpollEvent.ptr
    · obtain ⟨e, he, rfl⟩ := List.mem_map.1 hc
      exact ⟨e.events, hfold e he⟩
    · exact ⟨(p.registry.chan c).revents, foldl_setRevents_of_notMem hc⟩
  · show ((p.written taken).map EpollEvent.ptr).map _ = taken
    rw [List.map_map]
    refine Eq.trans (List.map_congr_left fun e he => ?_) hmap
    show (((p.written taken).foldl setRevents p.registry.chan e.ptr).fd,
      ((p.written taken).foldl setRevents p.registry.chan e.ptr).revents) = _
    rw [hfold e he]
  · obtain ⟨e, he, rfl⟩ := List.mem_map.1 hc
    show ∃ x, p.registry.poller.interest ((p.written taken).foldl setRevents p.registry.chan e.ptr).fd =
      some x ∧ _
    rw [hfold e he]
    obtain ⟨e', -, y, hi, rfl⟩ := mem_written he
    refine ⟨y, ?_, rfl⟩
    show p.registry.poller.interest (p.registry.chan y.ptr).fd = some y
    rw [hp _ _ hi, hi]

/-! ### Runs -/

structure Inv (p : EventPoller ι) : Prop where
  sync : p.registry.InSync
  entries : p.registry.Entries
  owned : p.Owned
  size : ∃ k, p.events.length = kInitEventListSize * 2 ^ k

omit [DecidableEq ι] in
theorem new_inv (h : w.Fresh) : (new w).Inv where
  sync := h.inSync
  entries := h.entries
  owned fd x hx := by
    rw [new, h.interest] at hx
    cases hx
  size := ⟨0, by rw [new, List.length_replicate, pow_zero, mul_one]⟩

omit [DecidableEq ι] in
theorem Polled.inv (h : p.Inv) (hq : p.Polled taken q) : q.Inv := by
  have hfd : ∀ c, (q.registry.chan c).fd = (p.registry.chan c).fd := by
    intro c
    obtain ⟨m, hm⟩ := hq.chan c
    rw [hm]
  refine ⟨⟨fun c d hcd => ?_, fun c => ?_, ?_⟩, fun fd c hc => ?_, fun fd x hx => ?_, ?_⟩
  · simp only [hfd] at hcd
    exact h.sync.fd_inj hcd
  · obtain ⟨m, hm⟩ := hq.chan c
    rw [hm, hq.poller]
    exact ⟨(h.sync.synced c).added, (h.sync.synced c).absent⟩
  · rw [hq.poller]
    exact h.sync.calls
  · rw [hq.poller] at hc
    obtain ⟨m, hm⟩ := hq.chan c
    rw [hm]
    exact h.entries fd c hc
  · rw [hq.poller] at hx
    rw [hfd, h.owned fd x hx]
  · obtain ⟨k, hk⟩ := h.size
    rw [hq.size]
    split
    · exact ⟨k + 1, by rw [hk, pow_succ]; ring⟩
    · exact ⟨k, hk⟩

/-- What an operation on channel `c` does. -/
structure Operated (p : EventPoller ι) (c : ι) (op : ChannelOp) (q : EventPoller ι) : Prop where
  executed : Executed p.registry.poller c (p.registry.chan c) op q.registry.poller (q.registry.chan c)
  others : ∀ d, d ≠ c → q.registry.chan d = p.registry.chan d
  events : q.events = p.events
  active : q.activeChannels = p.activeChannels

/-- An operation goes through. -/
theorem Inv.op (h : p.Inv) (c : ι) (op : ChannelOp) :
    ∃ q, p.step (.op c op) = some q ∧ q.Inv ∧ p.Operated c op q := by
  obtain ⟨w', hw', hs⟩ := h.sync.step (c, op)
  obtain ⟨p', ch', hex, hd⟩ := Registry.exec_executed h.sync c op
  cases hw'.symm.trans hex
  have ht : p.registry.Touched c op p' ch' :=
    ⟨by rw [hd.channel], hd.synced, hd.frame, fun hc => hc.append opCalls_ok hd.calls, .of_executed hd⟩
  have hstep : p.step (.op c op) =
      some { p with registry := ⟨p', Function.update p.registry.chan c ch'⟩ } := by
    rw [step, hex]
    rfl
  refine ⟨_, hstep, ⟨hs, h.entries.touched h.sync ht, fun fd x hx => ?_, h.size⟩, ⟨?_, fun d hd => ?_, rfl, rfl⟩⟩
  · change p'.interest fd = some x at hx
    show (Function.update p.registry.chan c ch' x.ptr).fd = fd
    by_cases hfd : fd = (p.registry.chan c).fd
    · subst hfd
      rw [← ht.fd] at hx ⊢
      have hadded : ch'.status = .added := hd.synced.legal.2 (by rw [hx]; rfl)
      have he := hd.synced.added hadded
      rw [hx, Option.some.injEq] at he
      rw [he, Function.update_self]
    · rw [hd.frame.interest fd hfd] at hx
      have hold := h.owned fd x hx
      rw [Function.update_of_ne fun hxc => hfd (by rw [← hold, hxc]), hold]
  · show Executed p.registry.poller c (p.registry.chan c) op p' (Function.update p.registry.chan c ch' c)
    rw [Function.update_self]
    exact hd
  · exact Function.update_of_ne hd ..

/-- The polls of the run are answered legally. -/
def Legal (p : EventPoller ι) : PollStep ι → Prop
  | .poll ready taken => p.Answer ready taken
  | _ => True

instance (p : EventPoller ι) (a : PollStep ι) : Decidable (p.Legal a) :=
  match a with
  | .poll ready taken => inferInstanceAs (Decidable (p.Answer ready taken))
  | .op _ _ | .pollError _ => .isTrue trivial

theorem Inv.total (h : p.Inv) (ha : p.Legal a) : ∃ q, p.step a = some q ∧ q.Inv := by
  cases a with
  | op c op =>
    obtain ⟨q, hq, hi, -⟩ := h.op c op
    exact ⟨q, hq, hi⟩
  | poll ready taken =>
    obtain ⟨q, hq, hp⟩ := polled h.owned ha
    exact ⟨q, hq, hp.inv h⟩
  | pollError errno => exact ⟨_, rfl, h.sync, h.entries, h.owned, h.size⟩

theorem legal_of_step (h : p.step a = some q) : p.Legal a := by
  cases a with
  | op c op => trivial
  | pollError errno => trivial
  | poll ready taken =>
    by_contra hn
    have hna : ¬ p.Answer ready taken := hn
    rw [step, if_neg hna] at h
    cases h

theorem Inv.step (h : p.Inv) (hq : p.step a = some q) : q.Inv := by
  obtain ⟨q', hq', hi⟩ := h.total (legal_of_step hq)
  rw [hq, Option.some.injEq] at hq'
  rw [hq']
  exact hi

/-- What was reported is within what was asked for, but for errors and hang-ups. -/
theorem and_eq_zero_of_asked {r m k : EventMask} (hr : r &&& ~~~(m ||| (EPOLLERR ||| EPOLLHUP)) = 0)
    (hk : k &&& (EPOLLERR ||| EPOLLHUP) = 0) (hm : m &&& k = 0) : r &&& k = 0 := by
  ext i hi
  have h₁ := congrArg (fun v : EventMask => v[i]) hr
  have h₂ := congrArg (fun v : EventMask => v[i]) hk
  have h₃ := congrArg (fun v : EventMask => v[i]) hm
  simp only [BitVec.getElem_and, BitVec.getElem_or, BitVec.getElem_not] at h₁ h₂ h₃ ⊢
  grind

/-- A run of channel operations and of polls, each answered legally, goes through: every `epoll_ctl` call
succeeds and `fillActiveChannels` reads no entry that was not written. In every state it leads to, a poll
fills the list with the channels of the reported descriptors, in their order and with the reported
events, and nothing but these `m_revents` changes. Each channel listed is added; its read callback is
called only if it is reading, its write callback only if it is writing. -/
theorem polls_report (w₀ : Registry ι) (h : w₀.Fresh) (as : List (PollStep ι))
    (hl : Along step Legal (new w₀) as) : ∃ p, run step (new w₀) as = some p ∧
      (∀ k ∈ p.registry.poller.calls, k.ok = true) ∧
      ∀ ready taken, p.Answer ready taken → ∃ q, p.step (.poll ready taken) = some q ∧
        q.registry.poller = p.registry.poller ∧
        q.activeChannels.map (fun c => ((q.registry.chan c).fd, (q.registry.chan c).revents)) = taken ∧
        (∀ c, q.registry.chan c = { p.registry.chan c with revents := (q.registry.chan c).revents }) ∧
        (∀ c, c ∉ q.activeChannels → q.registry.chan c = p.registry.chan c) ∧
        ∀ c ∈ q.activeChannels, (q.registry.chan c).status = .added ∧
          (.read ∈ (q.registry.chan c).handleEventWithGuard → (q.registry.chan c).isReading = true) ∧
          (.write ∈ (q.registry.chan c).handleEventWithGuard → (q.registry.chan c).isWriting = true) := by
  obtain ⟨p, hp, hi⟩ := run_total (I := Inv) (fun s a ha hs => hs.total ha) hl (new_inv h)
  refine ⟨p, hp, hi.sync.calls, fun ready taken ha => ?_⟩
  obtain ⟨q, hq, hd⟩ := polled hi.owned ha
  have hqi := hd.inv hi
  refine ⟨q, hq, hd.poller, hd.active, fun c => ?_, hd.others, fun c hc => ?_⟩
  · obtain ⟨m, hm⟩ := hd.chan c
    rw [hm]
  · obtain ⟨x, hx, rfl⟩ := hd.registered c hc
    have hadded := (hqi.sync.synced x.ptr).legal.2 (by rw [hx]; rfl)
    have hsync := (hqi.sync.synced x.ptr).added hadded
    rw [hx, Option.some.injEq] at hsync
    have hmem : ((q.registry.chan x.ptr).fd, (q.registry.chan x.ptr).revents) ∈ taken := by
      rw [← hd.active]
      exact List.mem_map_of_mem hc
    have hr := ha.reports _ (ha.mem _ hmem)
    unfold Reports at hr
    rw [← hd.poller, hx] at hr
    have hasked : ∀ k, k &&& (EPOLLERR ||| EPOLLHUP) = 0 → (q.registry.chan x.ptr).revents &&& k ≠ 0 →
        (q.registry.chan x.ptr).events &&& k ≠ 0 := fun k hk hne h0 =>
      hne (and_eq_zero_of_asked (hsync ▸ hr.2) hk h0)
    refine ⟨hadded, fun hread => ?_, fun hwrite => ?_⟩
    · rw [Channel.isReading, bne_iff_ne]
      exact hasked _ (by decide) (Channel.read_mem.1 hread)
    · rw [Channel.isWriting, bne_iff_ne]
      exact hasked _ (by decide) (Channel.write_mem.1 hwrite)

/-- Two channels, both reported; then one of them stops reading, and a hang-up is reported of it. -/
theorem polls_report_two : ∃ p q : EventPoller Nat, run step (new Registry.numbered)
      [.op 3 .enableReading, .op 4 .enableWriting, .poll [(3, EPOLLIN), (4, EPOLLOUT)] [(4, EPOLLOUT), (3, EPOLLIN)],
        .op 4 .enableReading, .op 4 .disableWriting] = some p ∧
    p.step (.poll [(4, EPOLLHUP)] [(4, EPOLLHUP)]) = some q ∧
    q.activeChannels.map (fun c => ((q.registry.chan c).fd, (q.registry.chan c).revents)) = [(4, EPOLLHUP)] ∧
    ∀ k ∈ p.registry.poller.calls, k.ok = true := by
  obtain ⟨p, hp, hcalls, h⟩ := polls_report Registry.numbered Registry.numbered_fresh [.op 3 .enableReading,
    .op 4 .enableWriting, .poll [(3, EPOLLIN), (4, EPOLLOUT)] [(4, EPOLLOUT), (3, EPOLLIN)],
    .op 4 .enableReading, .op 4 .disableWriting] (by decide +kernel)
  have hanswer : ((run step (new Registry.numbered) [.op 3 .enableReading, .op 4 .enableWriting,
      .poll [(3, EPOLLIN), (4, EPOLLOUT)] [(4, EPOLLOUT), (3, EPOLLIN)], .op 4 .enableReading,
      .op 4 .disableWriting]).map fun p => decide (p.Answer [(4, EPOLLHUP)] [(4, EPOLLHUP)])) = some true := by
    decide +kernel
  rw [hp, Option.map_some, Option.some.injEq, decide_eq_true_iff] at hanswer
  obtain ⟨q, hq, -, hactive, -⟩ := h _ _ hanswer
  exact ⟨p, q, hp, hq, hactive, hcalls⟩

/-! ### How the list grows -/

/-- A poll that fills the list. -/
def doubled (p : EventPoller ι) : PollStep ι → List (List (Int × EventMask))
  | .poll _ taken => if taken.length = p.events.length then [taken] else []
  | _ => []

/-- A poll that leaves a ready descriptor out. -/
def cut (_ : EventPoller ι) : PollStep ι → List (List (Int × EventMask))
  | .poll ready taken => if taken.length < ready.length then [ready] else []
  | _ => []

/-- `n` distinct descriptors are registered in some state of the run. -/
def Peak (w : Registry ι) (as : List (PollStep ι)) (n : Nat) : Prop :=
  ∃ bs, bs <+: as ∧ ∃ q, run step (new w) bs = some q ∧ ∃ fds : List Int, fds.Nodup ∧
    (∀ fd ∈ fds, (q.registry.poller.interest fd).isSome) ∧ fds.length = n

theorem Peak.append {n : Nat} (h : Peak w as n) (bs : List (PollStep ι)) : Peak w (as ++ bs) n := by
  obtain ⟨cs, hpre, h⟩ := h
  exact ⟨cs, hpre.trans (List.prefix_append as bs), h⟩

omit [DecidableEq ι] in
theorem isSome_of_reports {e : Int × EventMask} (h : Reports p.registry.poller.interest e) :
    (p.registry.poller.interest e.1).isSome := by
  unfold Reports at h
  cases hi : p.registry.poller.interest e.1 with
  | none => rw [hi] at h; exact h.elim
  | some x => rfl

theorem Peak.of_ready {es : List (Int × EventMask)} (hp : run step (new w) as = some p)
    (hn : (es.map Prod.fst).Nodup) (hr : ∀ e ∈ es, Reports p.registry.poller.interest e) :
    Peak w as es.length := by
  refine ⟨as, List.prefix_refl as, p, hp, es.map Prod.fst, hn, fun fd hfd => ?_, List.length_map _⟩
  obtain ⟨e, he, rfl⟩ := List.mem_map.1 hfd
  exact isSome_of_reports (hr e he)

/-- What a step does to the list. -/
theorem Inv.length_step (h : p.Inv) (hq : p.step a = some q) :
    q.events.length = p.events.length * 2 ^ (doubled p a).length ∧
      ((cut p a).length ≤ (doubled p a).length) := by
  cases a with
  | op c op =>
    obtain ⟨q', hq', -, hd⟩ := h.op c op
    rw [hq, Option.some.injEq] at hq'
    rw [hq', hd.events]
    exact ⟨(mul_one _).symm, le_refl _⟩
  | pollError errno =>
    cases hq
    exact ⟨(mul_one _).symm, le_refl _⟩
  | poll ready taken =>
    have ha : p.Answer ready taken := legal_of_step hq
    obtain ⟨q', hq', hd⟩ := polled h.owned ha
    rw [hq, Option.some.injEq] at hq'
    rw [hq']
    obtain ⟨k, hk⟩ := h.size
    have hmax := maxEvents_eq hk ha.room
    have hpos : 0 < p.events.length := by
      have := ha.room
      omega
    rw [hd.size, doubled, cut]
    by_cases hfull : taken.length = p.events.length
    · rw [if_pos ⟨hfull, hfull ▸ hpos⟩, if_pos hfull]
      refine ⟨by rw [List.length_singleton]; ring, ?_⟩
      split <;> simp
    · have hall : ¬ taken.length < ready.length := by
        have := ha.length
        omega
      rw [if_neg fun hf => hfull hf.1, if_neg hfull, if_neg hall]
      exact ⟨(mul_one _).symm, le_refl _⟩

theorem run_inv_new (h : w.Fresh) (hp : run step (new w) as = some p) : p.Inv :=
  run_inv (fun _ _ _ hst hi => hi.step hst) hp (new_inv h)

theorem length_events (h : w.Fresh) (hp : run step (new w) as = some p) :
    p.events.length = kInitEventListSize * 2 ^ (collect step doubled (new w) as).length := by
  induction as using List.reverseRecOn generalizing p with
  | nil =>
    cases hp
    rw [collect_nil, List.length_nil, pow_zero, mul_one, new, List.length_replicate]
  | append_singleton as a ih =>
    obtain ⟨r, hr, hstep⟩ := run_concat_some.1 hp
    rw [((run_inv_new h hr).length_step hstep).1, ih hr, collect_concat hr hstep,
      List.length_append, pow_add]
    ring

theorem length_cut_le (h : w.Fresh) (hp : run step (new w) as = some p) :
    (collect step cut (new w) as).length ≤ (collect step doubled (new w) as).length := by
  induction as using List.reverseRecOn generalizing p with
  | nil => exact le_refl _
  | append_singleton as a ih =>
    obtain ⟨r, hr, hstep⟩ := run_concat_some.1 hp
    have hle := ((run_inv_new h hr).length_step hstep).2
    have hold := ih hr
    rw [collect_concat hr hstep, collect_concat hr hstep, List.length_append, List.length_append]
    omega

/-- 17 channels on one poller, and a poll when all of them have input. -/
def seventeenReady : List (PollStep Nat) :=
  ((List.range 17).map fun n => .op n .enableReading) ++
    [.poll ((List.range 17).map fun n => (↑n, EPOLLIN)) ((List.range 16).map fun n => (↑n, EPOLLIN))]

/-- Over every run `m_events` has 16 entries, doubled once for each poll that filled it; and unless it
still has 16 it has just twice as many as there were distinct descriptors registered at some moment of the
run, so that its size follows the load and not the length of the run. -/
theorem event_list_follows_load (w₀ : Registry ι) (h : w₀.Fresh) (as : List (PollStep ι))
    (p : EventPoller ι) (hp : run step (new w₀) as = some p) :
    p.events.length = kInitEventListSize * 2 ^ (collect step doubled (new w₀) as).length ∧
      (p.events.length = kInitEventListSize ∨ ∃ n, p.events.length = 2 * n ∧ Peak w₀ as n) := by
  refine ⟨length_events h hp, ?_⟩
  induction as using List.reverseRecOn generalizing p with
  | nil =>
    cases hp
    exact .inl (by rw [new, List.length_replicate])
  | append_singleton as a ih =>
    obtain ⟨r, hr, hstep⟩ := run_concat_some.1 hp
    have hlen := ((run_inv_new h hr).length_step hstep).1
    by_cases hd : doubled r a = []
    · rw [hd, List.length_nil, pow_zero, mul_one] at hlen
      rcases ih r hr with hinit | ⟨n, hn, hpeak⟩
      · exact .inl (hlen.trans hinit)
      · exact .inr ⟨n, hlen.trans hn, hpeak.append [a]⟩
    · -- the poll reported as many descriptors as the list had entries
      cases a with
      | op c op => exact absurd rfl hd
      | pollError errno => exact absurd rfl hd
      | poll ready taken =>
        have ha : r.Answer ready taken := legal_of_step hstep
        by_cases hfull : taken.length = r.events.length
        · rw [doubled, if_pos hfull, List.length_singleton, pow_one] at hlen
          refine .inr ⟨taken.length, by omega, Peak.append ?_ _⟩
          exact .of_ready hr ha.taken_nodup fun e he => ha.reports e (ha.mem e he)
        · rw [doubled, if_neg hfull] at hd
          exact absurd rfl hd

set_option maxRecDepth 20000 in
/-- The seventeenth descriptor waits for the second poll, and the list is doubled for it. -/
theorem list_of_seventeen : ∃ p : EventPoller Nat, run step (new Registry.numbered) seventeenReady = some p ∧
    p.events.length = 32 ∧ Peak Registry.numbered seventeenReady 16 := by
  have h : ((run step (new Registry.numbered) seventeenReady).map fun p => p.events.length) = some 32 := by
    decide +kernel
  obtain ⟨p, hp, hlen⟩ := Option.map_eq_some_iff.1 h
  obtain ⟨-, hsize⟩ := event_list_follows_load _ Registry.numbered_fresh _ p hp
  refine ⟨p, hp, hlen, ?_⟩
  rcases hsize with hinit | ⟨n, hn, hpeak⟩
  · rw [hlen] at hinit
    cases hinit
  · obtain rfl : n = 16 := by omega
    exact hpeak

/-- Few polls leave a ready descriptor out: if `k` polls of a run did, at some moment of the run more
than `8 * 2 ^ k` distinct descriptors were registered. -/
theorem few_polls_cut (w₀ : Registry ι) (h : w₀.Fresh) (as : List (PollStep ι)) (p : EventPoller ι)
    (hp : run step (new w₀) as = some p) :
    collect step cut (new w₀) as = [] ∨
      ∃ n, 8 * 2 ^ (collect step cut (new w₀) as).length < n ∧ Peak w₀ as n := by
  induction as using List.reverseRecOn generalizing p with
  | nil => exact .inl rfl
  | append_singleton as a ih =>
    obtain ⟨r, hr, hstep⟩ := run_concat_some.1 hp
    rw [collect_concat hr hstep]
    by_cases hc : cut r a = []
    · rw [hc, List.append_nil]
      rcases ih r hr with hnil | ⟨n, hn, hpeak⟩
      · exact .inl hnil
      · exact .inr ⟨n, hn, hpeak.append [a]⟩
    · cases a with
      | op c op => exact absurd rfl hc
      | pollError errno => exact absurd rfl hc
      | poll ready taken =>
        have ha : r.Answer ready taken := legal_of_step hstep
        by_cases hlt : taken.length < ready.length
        · -- the list was full of reported descriptors, and one more was ready
          have hi := run_inv_new h hr
          obtain ⟨k, hk⟩ := hi.size
          have hmax := maxEvents_eq hk ha.room
          have hle := Nat.pow_le_pow_right (n := 2) (by decide) (length_cut_le h hr)
          have hlen := length_events h hr
          rw [kInitEventListSize] at hlen
          refine .inr ⟨ready.length, ?_, Peak.append (.of_ready hr ha.ready_nodup ha.reports) _⟩
          rw [cut, if_pos hlt, List.length_append, List.length_singleton, pow_succ]
          have := ha.length
          omega
        · rw [cut, if_neg hlt] at hc
          exact absurd rfl hc

set_option maxRecDepth 20000 in
theorem one_poll_cut : (∃ p : EventPoller Nat, run step (new Registry.numbered) seventeenReady = some p) ∧
    ∃ n, 8 * 2 ^ (collect step cut (new Registry.numbered) seventeenReady).length < n ∧
      Peak Registry.numbered seventeenReady n := by
  have h : ((run step (new Registry.numbered) seventeenReady).map fun p => p.events.length) = some 32 := by
    decide +kernel
  obtain ⟨p, hp, -⟩ := Option.map_eq_some_iff.1 h
  have hcut : collect step cut (new Registry.numbered) seventeenReady ≠ [] := by
    decide +kernel
  exact ⟨⟨p, hp⟩, (few_polls_cut _ Registry.numbered_fresh _ p hp).resolve_left hcut⟩

end EventPoller
end Muduo
