import Muduo.PollerInv
import Muduo.Lib.Lts

/-!
# The channels of one loop

Any number of channels registered with one poller, each on its own fd. `InSync` is what every
operation on any of them keeps; the map `m_channels` needs more, because a channel that is enabled
again out of `kStatusDeleted` is not put back into it.
-/

namespace Muduo
open Lts EPollPoller

structure Registry (ι : Type) where
  poller : EPollPoller ι
  chan : ι → Channel

namespace Registry
variable {ι : Type} [DecidableEq ι] {w w' : Registry ι} {c : ι} {op : ChannelOp}

def exec (w : Registry ι) : ι × ChannelOp → Except Fault (Registry ι)
  | (c, op) => do
    let (p, ch) ← op.exec (w.chan c) c w.poller
    return ⟨p, Function.update w.chan c ch⟩

def step (w : Registry ι) (a : ι × ChannelOp) : Option (Registry ι) := (w.exec a).toOption

/-- Distinct fds, every channel new, nothing registered and no call made yet. -/
structure Fresh (w : Registry ι) : Prop where
  fd_inj : Function.Injective fun c => (w.chan c).fd
  status : ∀ c, (w.chan c).status = .new
  interest : ∀ fd, w.poller.interest fd = none
  channels : ∀ fd, w.poller.channels fd = none
  calls : w.poller.calls = []

structure InSync (w : Registry ι) : Prop where
  fd_inj : Function.Injective fun c => (w.chan c).fd
  synced : ∀ c, w.poller.Synced c (w.chan c)
  calls : w.poller.CallsOk

omit [DecidableEq ι] in
theorem Fresh.inSync (h : w.Fresh) : w.InSync where
  fd_inj := h.fd_inj
  synced c := ⟨fun ha => by simp [h.status c] at ha, fun _ => h.interest _⟩
  calls := by intro k hk; simp [h.calls] at hk

/-- What an operation does to the status of its channel and to the map entry of its fd. -/
inductive MapChange (c : ι) (op : ChannelOp) :
    ChannelStatus → ChannelStatus → Option ι → Option ι → Prop
  | insert {e} (h : op ≠ .remove) : MapChange c op .new .added e (some c)
  | erase {e} (h : op ≠ .remove) : MapChange c op .added .deleted e none
  | keep {e} (h : op ≠ .remove) : MapChange c op .added .added e e
  /-- Enabled again out of `kStatusDeleted`: registered, but not put back into the map. -/
  | revive {e} (h : op ≠ .remove) : MapChange c op .deleted .added e e
  | remove {s e} (h : op = .remove) : MapChange c op s .new e none

/-- What a returning operation does. -/
structure Touched (w : Registry ι) (c : ι) (op : ChannelOp) (p' : EPollPoller ι) (ch' : Channel) :
    Prop where
  fd : ch'.fd = (w.chan c).fd
  synced : p'.Synced c ch'
  frame : Frame w.poller (w.chan c).fd p'
  calls : w.poller.CallsOk → p'.CallsOk
  map : MapChange c op (w.chan c).status ch'.status (w.poller.channels (w.chan c).fd)
    (p'.channels (w.chan c).fd)

omit [DecidableEq ι] in
theorem MapChange.of_executed {p p' : EPollPoller ι} {ch ch' : Channel}
    (h : Executed p c ch op p' ch') :
    MapChange c op ch.status ch'.status (p.channels ch.fd) (p'.channels ch.fd) := by
  rw [h.entry, h.status]
  by_cases hop : op = .remove
  · rw [if_pos hop, if_pos hop]
    exact .remove hop
  · rw [if_neg hop, if_neg hop]
    generalize ({ ch with events := op.mask ch.events } : Channel).isNoneEvent = none
    cases hs : ch.status with
    | new => simpa using .insert hop
    | added =>
      cases none with
      | true => simpa using .erase hop
      | false => simpa using .keep hop
    | deleted => simpa using .revive hop

/-- Every operation returns. -/
theorem exec_touched (h : w.InSync) (c : ι) (op : ChannelOp) :
    ∃ p' ch', w.exec (c, op) = .ok ⟨p', Function.update w.chan c ch'⟩ ∧ w.Touched c op p' ch' := by
  obtain ⟨p', ch', hex, hd⟩ := exec_spec c (h.synced c).legal op
  refine ⟨p', ch', by simp only [exec, hex]; rfl, ?_⟩
  exact ⟨by rw [hd.channel], hd.synced, hd.frame, fun hc => hc.append opCalls_ok hd.calls,
    .of_executed hd⟩

theorem InSync.touched {p' : EPollPoller ι} {ch' : Channel} (h : w.InSync)
    (ht : w.Touched c op p' ch') : InSync ⟨p', Function.update w.chan c ch'⟩ := by
  have hfd : ∀ d, (Function.update w.chan c ch' d).fd = (w.chan d).fd := by
    intro d
    by_cases hd : d = c
    · subst hd; rw [Function.update_self, ht.fd]
    · rw [Function.update_of_ne hd]
  refine ⟨?_, ?_, ht.calls h.calls⟩
  · intro d e hde
    simp only [hfd] at hde
    exact h.fd_inj hde
  · intro d
    show p'.Synced d (Function.update w.chan c ch' d)
    by_cases hd : d = c
    · subst hd; rw [Function.update_self]; exact ht.synced
    · rw [Function.update_of_ne hd]
      exact (h.synced d).congr (ht.frame.interest _ fun he => hd (h.fd_inj he))

theorem InSync.step (h : w.InSync) (a : ι × ChannelOp) : ∃ w', w.step a = some w' ∧ w'.InSync := by
  obtain ⟨p', ch', hex, ht⟩ := exec_touched h a.1 a.2
  exact ⟨_, toOption_eq_some.2 hex, h.touched ht⟩

/-- Over every sequence of operations on any channels: no `epoll_ctl` call fails, so the process
does not exit, and each channel is added exactly while the kernel holds its fd, with the channel's
mask and pointer. -/
theorem epoll_ctl_legal (w₀ : Registry ι) (h : w₀.Fresh) (ops : List (ι × ChannelOp)) :
    ∃ w, run step w₀ ops = some w ∧ (∀ k ∈ w.poller.calls, k.ok = true) ∧
      ∀ c, ((w.chan c).status = .added ↔ (w.poller.interest (w.chan c).fd).isSome) ∧
        ∀ e, w.poller.interest (w.chan c).fd = some e →
          e.events = (w.chan c).events ∧ e.ptr = c := by
  have hall : Along step (fun _ _ => True) w₀ ops := .of_forall fun _ _ _ => trivial
  obtain ⟨w, hrun, hw⟩ := run_total (fun w a _ hw => InSync.step hw a) hall h.inSync
  refine ⟨w, hrun, hw.calls, fun c => ⟨(hw.synced c).legal, fun e he => ?_⟩⟩
  have ha := (hw.synced c).added ((hw.synced c).legal.2 (by rw [he]; rfl))
  rw [he, Option.some.injEq] at ha
  rw [ha]
  exact ⟨rfl, rfl⟩

/-- Channels numbered by their fds, as constructed, in a new poller. -/
def numbered : Registry Nat := ⟨.new, fun n => { fd := n }⟩

theorem numbered_fresh : numbered.Fresh where
  fd_inj := fun _ _ h => Int.ofNat.inj h
  status _ := rfl
  interest _ := rfl
  channels _ := rfl
  calls := rfl

theorem epoll_ctl_legal_numbered :
    ∃ w, run step numbered [(3, .enableReading), (4, .disableAll), (3, .disableAll),
        (3, .disableAll), (4, .remove)] = some w ∧ (∀ k ∈ w.poller.calls, k.ok = true) ∧
      ∀ c, ((w.chan c).status = .added ↔ (w.poller.interest (w.chan c).fd).isSome) ∧
        ∀ e, w.poller.interest (w.chan c).fd = some e →
          e.events = (w.chan c).events ∧ e.ptr = c :=
  epoll_ctl_legal numbered numbered_fresh _

/-! ### The map -/

/-- `hasChannel` holds of every added channel, and no entry is a new channel. -/
def MapAgrees (w : Registry ι) : Prop :=
  (∀ c, (w.chan c).status = .added → w.poller.hasChannel c (w.chan c) = true) ∧
    ∀ fd c, w.poller.channels fd = some c → (w.chan c).status ≠ .new

/-- Every entry of the map is an added channel, under its own fd. -/
def Entries (w : Registry ι) : Prop :=
  ∀ fd c, w.poller.channels fd = some c → (w.chan c).fd = fd ∧ (w.chan c).status = .added

/-- The operation does not enable or disable a channel that is in `kStatusDeleted`. -/
def NotRevived (w : Registry ι) (a : ι × ChannelOp) : Prop :=
  a.2 = .remove ∨ (w.chan a.1).status ≠ .deleted

instance (w : Registry ι) (a : ι × ChannelOp) : Decidable (NotRevived w a) :=
  inferInstanceAs (Decidable (_ ∨ _))

theorem hasChannel_iff {p : EPollPoller ι} {ch : Channel} :
    p.hasChannel c ch = true ↔ p.channels ch.fd = some c := by
  rw [hasChannel, beq_iff_eq]

theorem step_eq {p' : EPollPoller ι} {ch' : Channel}
    (h : w.exec (c, op) = .ok ⟨p', Function.update w.chan c ch'⟩) :
    w.step (c, op) = some ⟨p', Function.update w.chan c ch'⟩ := toOption_eq_some.2 h

omit [DecidableEq ι] in
/-- An entry after an operation: the operated channel's own, or one of another channel, kept. -/
theorem Touched.entry_cases {p' : EPollPoller ι} {ch' : Channel} (h : w.Entries)
    (ht : w.Touched c op p' ch') {fd : Int} {d : ι} (hd : p'.channels fd = some d) :
    fd = (w.chan c).fd ∨ d ≠ c ∧ w.poller.channels fd = some d := by
  by_cases hfd : fd = (w.chan c).fd
  · exact .inl hfd
  · rw [ht.frame.channels fd hfd] at hd
    exact .inr ⟨fun hdc => hfd (by rw [← (h fd d hd).1, hdc]), hd⟩

theorem Entries.touched {p' : EPollPoller ι} {ch' : Channel} (hs : w.InSync) (h : w.Entries)
    (ht : w.Touched c op p' ch') : Entries ⟨p', Function.update w.chan c ch'⟩ := by
  intro fd d hd
  change p'.channels fd = some d at hd
  show (Function.update w.chan c ch' d).fd = fd ∧ (Function.update w.chan c ch' d).status = .added
  rcases ht.entry_cases h hd with rfl | ⟨hne, hold⟩
  · have own : ∀ e, e = w.poller.channels (w.chan c).fd → e = some d →
        d = c ∧ (w.chan c).status = .added := by
      intro e he hed
      obtain ⟨hfd, hst⟩ := h _ d (he ▸ hed)
      obtain rfl : d = c := hs.fd_inj hfd
      exact ⟨rfl, hst⟩
    have hm := ht.map
    rw [hd] at hm
    generalize he : w.poller.channels (w.chan c).fd = e at hm
    generalize hs' : ch'.status = s' at hm
    generalize hs₀ : (w.chan c).status = s₀ at hm
    cases hm with
    | insert => rw [Function.update_self]; exact ⟨ht.fd, hs'⟩
    | keep =>
      obtain ⟨rfl, -⟩ := own _ he.symm rfl
      rw [Function.update_self]; exact ⟨ht.fd, hs'⟩
    | revive =>
      obtain ⟨-, ha⟩ := own _ he.symm rfl
      rw [hs₀] at ha; cases ha
  · rw [Function.update_of_ne hne]; exact h fd d hold

/-- Every added channel is in the map. -/
def Mapped (w : Registry ι) : Prop :=
  ∀ c, (w.chan c).status = .added → w.poller.channels (w.chan c).fd = some c

theorem mapAgrees_iff (h : w.Entries) : w.MapAgrees ↔ w.Mapped := by
  constructor
  · exact fun hm c hc => hasChannel_iff.1 (hm.1 c hc)
  · refine fun hm => ⟨fun c hc => hasChannel_iff.2 (hm c hc), fun fd c hc hnew => ?_⟩
    rw [(h fd c hc).2] at hnew; cases hnew

theorem Mapped.touched {p' : EPollPoller ι} {ch' : Channel} (hs : w.InSync) (h : w.Mapped)
    (hr : w.NotRevived (c, op)) (ht : w.Touched c op p' ch') :
    Mapped ⟨p', Function.update w.chan c ch'⟩ := by
  intro d hd
  change (Function.update w.chan c ch' d).status = .added at hd
  show p'.channels (Function.update w.chan c ch' d).fd = some d
  by_cases hdc : d = c
  · subst hdc
    rw [Function.update_self] at hd ⊢
    rw [ht.fd]
    have hm := ht.map
    rw [hd] at hm
    generalize he : w.poller.channels (w.chan d).fd = e at hm
    generalize he' : p'.channels (w.chan d).fd = e' at hm
    generalize hs₀ : (w.chan d).status = s₀ at hm
    cases hm with
    | insert => rfl
    | keep => rw [← he]; exact h d hs₀
    | revive hop =>
      rcases hr with hr | hr
      · exact absurd hr hop
      · exact absurd hs₀ hr
  · rw [Function.update_of_ne hdc] at hd ⊢
    rw [ht.frame.channels _ fun hfd => hdc (hs.fd_inj hfd)]
    exact h d hd

/-- The step that goes wrong: a channel enabled or disabled out of `kStatusDeleted` is registered
with the kernel and missing from the map. -/
theorem not_mapped_of_revived {p' : EPollPoller ι} {ch' : Channel} (h : w.Entries)
    (hr : ¬ w.NotRevived (c, op)) (ht : w.Touched c op p' ch') :
    ¬ Mapped ⟨p', Function.update w.chan c ch'⟩ := by
  intro hmap
  obtain ⟨hop, hdel⟩ := not_or.1 hr
  rw [not_not] at hdel
  have hm := ht.map
  rw [hdel] at hm
  have hc := hmap c
  change (Function.update w.chan c ch' c).status = .added →
    p'.channels (Function.update w.chan c ch' c).fd = some c at hc
  rw [Function.update_self, ht.fd] at hc
  generalize he : w.poller.channels (w.chan c).fd = e at hm
  generalize he' : p'.channels (w.chan c).fd = e' at hm hc
  generalize hs' : ch'.status = s' at hm hc
  cases hm with
  | revive =>
    obtain ⟨-, ha⟩ := h _ c (he.trans (hc rfl))
    rw [hdel] at ha; cases ha
  | remove h => exact hop h

theorem always_mapped_iff (ops : List (ι × ChannelOp)) (hs : w.InSync) (he : w.Entries)
    (hm : w.Mapped) : Always step MapAgrees w ops ↔ Along step NotRevived w ops := by
  refine always_iff_along (I := fun w => w.InSync ∧ w.Entries) (fun w a hi hmap => ?_) ⟨hs, he⟩
    ((mapAgrees_iff he).2 hm)
  obtain ⟨hs, he⟩ := hi
  obtain ⟨p', ch', hex, ht⟩ := exec_touched hs a.1 a.2
  have he' := he.touched hs ht
  refine ⟨_, step_eq hex, ⟨hs.touched ht, he'⟩, ?_⟩
  rw [mapAgrees_iff he']
  constructor
  · intro hm'
    by_contra hr
    exact not_mapped_of_revived he hr ht hm'
  · exact fun hr => ((mapAgrees_iff he).1 hmap).touched hs hr ht

omit [DecidableEq ι] in
theorem Fresh.entries (h : w.Fresh) : w.Entries := by
  intro fd c hc
  rw [h.channels] at hc; cases hc

omit [DecidableEq ι] in
theorem Fresh.mapped (h : w.Fresh) : w.Mapped := by
  intro c hc
  rw [h.status] at hc; cases hc

/-- The map agrees with the registration after every operation exactly in the runs in which no
operation enables or disables a channel that is in `kStatusDeleted`. -/
theorem map_agrees_iff (w₀ : Registry ι) (h : w₀.Fresh) (ops : List (ι × ChannelOp)) :
    Always step MapAgrees w₀ ops ↔ Along step NotRevived w₀ ops :=
  always_mapped_iff ops h.inSync h.entries h.mapped

/-- A channel removed and registered again is in the map; one disabled and enabled again is not. -/
theorem map_agrees_iff_numbered :
    Always step MapAgrees numbered [(3, .enableReading), (3, .disableAll), (3, .remove),
      (3, .enableReading)] ∧
    ¬ Always step MapAgrees numbered [(3, .enableReading), (3, .disableAll), (3, .enableReading)] :=
  ⟨(map_agrees_iff numbered numbered_fresh _).2 (by decide),
    fun h => absurd ((map_agrees_iff numbered numbered_fresh _).1 h) (by decide)⟩

/-- `enableReading`, `disableAll`, `enableReading`: the channel is registered and can deliver
events, and `hasChannel` denies it. -/
theorem map_misses_revived :
    numbered.Fresh ∧ ∃ w, run step numbered
        [(3, .enableReading), (3, .disableAll), (3, .enableReading)] = some w ∧
      (w.chan 3).status = .added ∧ w.poller.interest 3 = some ⟨Channel.kReadEvent, 3⟩ ∧
      w.poller.hasChannel 3 (w.chan 3) = false :=
  ⟨numbered_fresh, _, rfl, by decide, by decide, by decide⟩

end Registry
end Muduo
