import Muduo.Channel

/-!
# One channel and its registration

`Synced p ptr ch`: the status says whether the fd is in the kernel's interest set, and if it is the
kernel holds the channel's mask and pointer. `updateChannel` and `removeChannel` restore it from the
status half alone (`Legal`), which is what a mask change leaves of it; `Updated` and `Removed` say
all that a call does.
-/

namespace Muduo
variable {ι : Type} {p p' : EPollPoller ι} {ptr : ι} {ch ch' : Channel}

namespace EPollPoller

/-- The status and the interest set agree on whether the fd is registered. -/
def Legal (p : EPollPoller ι) (ch : Channel) : Prop :=
  ch.status = .added ↔ (p.interest ch.fd).isSome

instance (p : EPollPoller ι) (ch : Channel) : Decidable (p.Legal ch) := by
  unfold Legal; infer_instance

structure Synced (p : EPollPoller ι) (ptr : ι) (ch : Channel) : Prop where
  added : ch.status = .added → p.interest ch.fd = some ⟨ch.events, ptr⟩
  absent : ch.status ≠ .added → p.interest ch.fd = none

theorem Synced.legal (h : p.Synced ptr ch) : p.Legal ch := by
  constructor
  · intro ha; rw [h.added ha]; rfl
  · intro hs
    by_contra ha
    rw [h.absent ha] at hs; cases hs

theorem Synced.congr (h : p.Synced ptr ch) (hi : p'.interest ch.fd = p.interest ch.fd) :
    p'.Synced ptr ch :=
  ⟨fun ha => hi ▸ h.added ha, fun ha => hi ▸ h.absent ha⟩

def CallsOk (p : EPollPoller ι) : Prop := ∀ k ∈ p.calls, k.ok = true

theorem CallsOk.append {ks : List CtlCall} (h : p.CallsOk) (hks : ∀ k ∈ ks, k.ok = true)
    (hp : p'.calls = p.calls ++ ks) : p'.CallsOk := by
  intro k hk
  rw [hp] at hk
  rcases List.mem_append.1 hk with hk | hk
  · exact h k hk
  · exact hks k hk

/-- The calls of `epoll_ctl` that `updateChannel` makes. -/
def updateCalls (ch : Channel) : List CtlCall :=
  [⟨if ch.status = .added then if ch.isNoneEvent then .del else .mod else .add, ch.fd, true⟩]

/-- The calls of `epoll_ctl` that `removeChannel` makes. -/
def removeCalls (ch : Channel) : List CtlCall :=
  if ch.status = .added then [⟨.del, ch.fd, true⟩] else []

/-- The part of a poller that belongs to other fds is untouched, and no call of `epoll_ctl` failed. -/
structure Frame (p : EPollPoller ι) (fd : Int) (p' : EPollPoller ι) : Prop where
  interest : ∀ fd', fd' ≠ fd → p'.interest fd' = p.interest fd'
  channels : ∀ fd', fd' ≠ fd → p'.channels fd' = p.channels fd'
  calls : p.CallsOk → p'.CallsOk

theorem Frame.refl (p : EPollPoller ι) (fd : Int) : Frame p fd p := ⟨fun _ _ => rfl, fun _ _ => rfl, id⟩

theorem Frame.trans {p'' : EPollPoller ι} {fd : Int} (h : Frame p fd p') (h' : Frame p' fd p'') :
    Frame p fd p'' :=
  ⟨fun fd' hne => (h'.interest fd' hne).trans (h.interest fd' hne),
    fun fd' hne => (h'.channels fd' hne).trans (h.channels fd' hne), fun hok => h'.calls (h.calls hok)⟩

/-- What `updateChannel` does to a legal channel. -/
structure Updated (p : EPollPoller ι) (ptr : ι) (ch : Channel) (p' : EPollPoller ι)
    (ch' : Channel) : Prop where
  channel : ch' = { ch with status := ch'.status }
  status : ch'.status = if ch.status = .added ∧ ch.isNoneEvent = true then .deleted else .added
  synced : p'.Synced ptr ch'
  entry : p'.channels ch.fd =
    if ch.status = .new then some ptr
    else if ch.status = .added ∧ ch.isNoneEvent = true then none
    else p.channels ch.fd
  frame : Frame p ch.fd p'
  calls : p'.calls = p.calls ++ updateCalls ch

/-- What `removeChannel` does to a legal channel. -/
structure Removed (p : EPollPoller ι) (ptr : ι) (ch : Channel) (p' : EPollPoller ι)
    (ch' : Channel) : Prop where
  channel : ch' = { ch with status := .new }
  synced : p'.Synced ptr ch'
  entry : p'.channels ch.fd = none
  frame : Frame p ch.fd p'
  calls : p'.calls = p.calls ++ removeCalls ch

theorem interest_eq_none (h : p.Legal ch) (hs : ch.status ≠ .added) : p.interest ch.fd = none := by
  cases hi : p.interest ch.fd with
  | none => rfl
  | some e => exact absurd (h.2 (by rw [hi]; rfl)) hs

theorem interest_eq_some (h : p.Legal ch) (hs : ch.status = .added) :
    ∃ e, p.interest ch.fd = some e :=
  Option.isSome_iff_exists.1 (h.1 hs)

/-! ### The three calls of `update` -/

theorem update_add (h : p.interest ch.fd = none) : p.update .add ptr ch =
    .ok { p with interest := Function.update p.interest ch.fd (some ⟨ch.events, ptr⟩),
                 calls := p.calls ++ [⟨.add, ch.fd, true⟩] } := by
  simp [update, epollCtl, h]

theorem update_mod {e : EpollEvent ι} (h : p.interest ch.fd = some e) : p.update .mod ptr ch =
    .ok { p with interest := Function.update p.interest ch.fd (some ⟨ch.events, ptr⟩),
                 calls := p.calls ++ [⟨.mod, ch.fd, true⟩] } := by
  simp [update, epollCtl, h]

theorem update_del {e : EpollEvent ι} (h : p.interest ch.fd = some e) : p.update .del ptr ch =
    .ok { p with interest := Function.update p.interest ch.fd none,
                 calls := p.calls ++ [⟨.del, ch.fd, true⟩] } := by
  simp [update, epollCtl, h]

theorem updateChannel_mod {e : EpollEvent ι} (hs : ch.status = .added)
    (hn : ch.isNoneEvent = false) (hi : p.interest ch.fd = some e) :
    p.updateChannel ptr ch =
      .ok ({ p with interest := Function.update p.interest ch.fd (some ⟨ch.events, ptr⟩),
                    calls := p.calls ++ [⟨.mod, ch.fd, true⟩] }, ch) := by
  simp [updateChannel, hs, hn, update_mod hi]

theorem updateChannel_del {e : EpollEvent ι} (hs : ch.status = .added)
    (hn : ch.isNoneEvent = true) (hi : p.interest ch.fd = some e) :
    p.updateChannel ptr ch =
      .ok ({ channels := Function.update p.channels ch.fd none,
             interest := Function.update p.interest ch.fd none,
             calls := p.calls ++ [⟨.del, ch.fd, true⟩] }, { ch with status := .deleted }) := by
  simp [updateChannel, hs, hn, update_del hi]

theorem updateChannel_add (hs : ch.status ≠ .added) (hi : p.interest ch.fd = none) :
    p.updateChannel ptr ch =
      .ok ({ channels := if ch.status = .new then Function.update p.channels ch.fd (some ptr)
               else p.channels,
             interest := Function.update p.interest ch.fd (some ⟨ch.events, ptr⟩),
             calls := p.calls ++ [⟨.add, ch.fd, true⟩] }, { ch with status := .added }) := by
  cases hst : ch.status with
  | added => exact absurd hst hs
  | new => simp [updateChannel, hst, update_add, hi]
  | deleted => simp [updateChannel, hst, update_add, hi]

theorem updateChannel_spec (ptr : ι) (h : p.Legal ch) :
    ∃ p' ch', p.updateChannel ptr ch = .ok (p', ch') ∧ Updated p ptr ch p' ch' := by
  by_cases hs : ch.status = .added
  · obtain ⟨e, hi⟩ := interest_eq_some h hs
    cases hn : ch.isNoneEvent with
    | true =>
      refine ⟨_, _, updateChannel_del hs hn hi, ?_⟩
      exact {
        channel := rfl
        status := by simp [hs, hn]
        synced := ⟨fun ha => by simp at ha, fun _ => by simp⟩
        entry := by simp [hs, hn]
        frame := ⟨fun fd hf => by simp [hf], fun fd hf => by simp [hf], fun hok => hok.append (by simp) rfl⟩
        calls := by simp [updateCalls, hs, hn] }
    | false =>
      refine ⟨_, _, updateChannel_mod hs hn hi, ?_⟩
      exact {
        channel := rfl
        status := by simp [hs, hn]
        synced := ⟨fun _ => by simp, fun ha => absurd hs ha⟩
        entry := by simp [hs, hn]
        frame := ⟨fun fd hf => by simp [hf], fun fd hf => rfl, fun hok => hok.append (by simp) rfl⟩
        calls := by simp [updateCalls, hs, hn] }
  · refine ⟨_, _, updateChannel_add hs (interest_eq_none h hs), ?_⟩
    exact {
      channel := rfl
      status := by simp [hs]
      synced := ⟨fun _ => by simp, fun ha => absurd rfl ha⟩
      entry := by by_cases hn : ch.status = .new <;> simp [hs, hn]
      frame := {
        interest := fun fd hf => by simp [hf]
        channels := fun fd hf => by by_cases hn : ch.status = .new <;> simp [hn, hf]
        calls := fun hok => hok.append (by simp) rfl }
      calls := by simp [updateCalls, hs] }

theorem removeChannel_del {e : EpollEvent ι} (hs : ch.status = .added)
    (hi : p.interest ch.fd = some e) :
    p.removeChannel ptr ch =
      .ok ({ channels := Function.update p.channels ch.fd none,
             interest := Function.update p.interest ch.fd none,
             calls := p.calls ++ [⟨.del, ch.fd, true⟩] }, { ch with status := .new }) := by
  simp [removeChannel, hs, update, epollCtl, hi]

theorem removeChannel_idle (hs : ch.status ≠ .added) :
    p.removeChannel ptr ch =
      .ok ({ p with channels := Function.update p.channels ch.fd none },
        { ch with status := .new }) := by
  simp only [removeChannel, hs, if_false]
  rfl

theorem removeChannel_spec (ptr : ι) (h : p.Legal ch) :
    ∃ p' ch', p.removeChannel ptr ch = .ok (p', ch') ∧ Removed p ptr ch p' ch' := by
  by_cases hs : ch.status = .added
  · obtain ⟨e, hi⟩ := interest_eq_some h hs
    refine ⟨_, _, removeChannel_del hs hi, ?_⟩
    exact {
      channel := rfl
      synced := ⟨fun ha => by simp at ha, fun _ => by simp⟩
      entry := by simp
      frame := ⟨fun fd hf => by simp [hf], fun fd hf => by simp [hf], fun hok => hok.append (by simp) rfl⟩
      calls := by simp [removeCalls, hs] }
  · refine ⟨_, _, removeChannel_idle hs, ?_⟩
    have hnone : p.interest ch.fd = none := interest_eq_none h hs
    exact {
      channel := rfl
      synced := ⟨fun ha => by simp at ha, fun _ => hnone⟩
      entry := by simp
      frame := ⟨fun fd hf => rfl, fun fd hf => by simp [hf], id⟩
      calls := by simp [removeCalls, hs] }

/-! ### Any of the operations -/

/-- The calls of `epoll_ctl` that an operation makes. -/
def opCalls (op : ChannelOp) (ch : Channel) : List CtlCall :=
  if op = .remove then removeCalls ch else updateCalls { ch with events := op.mask ch.events }

theorem opCalls_ok {op : ChannelOp} : ∀ k ∈ opCalls op ch, k.ok = true := by
  intro k hk
  simp only [opCalls, removeCalls, updateCalls] at hk
  split at hk
  · split at hk
    · rw [List.mem_singleton.1 hk]
    · cases hk
  · rw [List.mem_singleton.1 hk]

/-- What an operation does to a legal channel. -/
structure Executed (p : EPollPoller ι) (ptr : ι) (ch : Channel) (op : ChannelOp)
    (p' : EPollPoller ι) (ch' : Channel) : Prop where
  channel : ch' = { ch with events := op.mask ch.events, status := ch'.status }
  status : ch'.status =
    if op = .remove then .new
    else if ch.status = .added ∧
      ({ ch with events := op.mask ch.events } : Channel).isNoneEvent then .deleted
    else .added
  synced : p'.Synced ptr ch'
  frame : Frame p ch.fd p'
  entry : p'.channels ch.fd =
    if op = .remove then none
    else if ch.status = .new then some ptr
    else if ch.status = .added ∧
      ({ ch with events := op.mask ch.events } : Channel).isNoneEvent then none
    else p.channels ch.fd
  calls : p'.calls = p.calls ++ opCalls op ch

theorem exec_spec (ptr : ι) (h : p.Legal ch) (op : ChannelOp) :
    ∃ p' ch', op.exec ch ptr p = .ok (p', ch') ∧ Executed p ptr ch op p' ch' := by
  by_cases hop : op = .remove
  · obtain ⟨p', ch', hex, hr⟩ := removeChannel_spec ptr h
    refine ⟨p', ch', by rw [hop]; exact hex, ?_⟩
    exact {
      channel := by rw [hr.channel, hop]; rfl
      status := by rw [if_pos hop, hr.channel]
      synced := hr.synced
      frame := hr.frame
      entry := by rw [if_pos hop, hr.entry]
      calls := by rw [hr.calls, opCalls, if_pos hop] }
  · have hl : p.Legal { ch with events := op.mask ch.events } := h
    obtain ⟨p', ch', hex, hu⟩ := updateChannel_spec ptr hl
    refine ⟨p', ch', by rw [ChannelOp.exec_update hop]; exact hex, ?_⟩
    exact {
      channel := hu.channel
      status := by rw [if_neg hop, hu.status]
      synced := hu.synced
      frame := hu.frame
      entry := by rw [if_neg hop]; exact hu.entry
      calls := by rw [hu.calls, opCalls, if_neg hop] }

namespace Executed
variable {op : ChannelOp}

theorem events (h : Executed p ptr ch op p' ch') : ch'.events = op.mask ch.events := by
  rw [h.channel]

theorem isWriting (h : Executed p ptr ch op p' ch') :
    ch'.isWriting = (op.mask ch.events).getLsbD 2 := by
  rw [Channel.isWriting_eq, h.events]

/-- An operation that leaves a bit in the mask leaves the channel added. -/
theorem added (h : Executed p ptr ch op p' ch') {i : Nat} (hop : op ≠ .remove)
    (hbit : (op.mask ch.events).getLsbD i = true) : ch'.status = .added := by
  rw [h.status, if_neg hop, if_neg]
  rintro ⟨-, hn⟩
  rw [Channel.isNoneEvent_of_getLsbD (i := i) hbit] at hn; cases hn

end Executed
end EPollPoller
end Muduo
