import Muduo.Registration

/-!
# Channels without interest

`updateChannel` looks at the mask only of a channel that is added. Disabled out of `kStatusNew` or
`kStatusDeleted`, as `~Acceptor` and a connection closed twice do, a channel is registered with an
empty mask, for which the kernel still reports `EPOLLERR` and `EPOLLHUP`.
-/

namespace Muduo
open Lts EPollPoller

namespace Registry
variable {ι : Type} [DecidableEq ι] {w w' w₁ w₂ : Registry ι} {c : ι} {op : ChannelOp}

/-- No channel with an empty mask is in the kernel's interest set. -/
def NoIdle (w : Registry ι) : Prop :=
  ∀ c, (w.chan c).isNoneEvent = true → w.poller.interest (w.chan c).fd = none

/-- An operation that leaves the mask empty finds its channel added. -/
def EmptiesAdded (w : Registry ι) (a : ι × ChannelOp) : Prop :=
  a.2 = .remove ∨ a.2.mask (w.chan a.1).events ≠ Channel.kNoneEvent ∨ (w.chan a.1).status = .added

instance (w : Registry ι) (a : ι × ChannelOp) : Decidable (w.EmptiesAdded a) := by
  unfold EmptiesAdded; infer_instance

theorem exec_executed (h : w.InSync) (c : ι) (op : ChannelOp) :
    ∃ p' ch', w.step (c, op) = some ⟨p', Function.update w.chan c ch'⟩ ∧
      Executed w.poller c (w.chan c) op p' ch' := by
  obtain ⟨p', ch', hex, hd⟩ := exec_spec c (h.synced c).legal op
  exact ⟨p', ch', step_eq (by simp only [exec, hex]; rfl), hd⟩

omit [DecidableEq ι] in
theorem interest_eq_none_iff (h : w.InSync) (c : ι) :
    w.poller.interest (w.chan c).fd = none ↔ (w.chan c).status ≠ .added := by
  constructor
  · intro hn ha
    rw [(h.synced c).added ha] at hn
    cases hn
  · exact (h.synced c).absent

omit [DecidableEq ι] in
/-- The operated channel is left registered without interest exactly by the operations that empty a
mask, or leave it empty, on a channel that is not added. -/
theorem Executed.idle_iff {p p' : EPollPoller ι} {ch ch' : Channel}
    (h : Executed p c ch op p' ch') :
    (ch'.isNoneEvent = true → ch'.status ≠ .added) ↔
      op = .remove ∨ op.mask ch.events ≠ Channel.kNoneEvent ∨ ch.status = .added := by
  have hnone : op.mask ch.events ≠ Channel.kNoneEvent ↔ ch'.isNoneEvent ≠ true := by
    simp [Channel.isNoneEvent, h.events]
  have hmask : ({ ch with events := op.mask ch.events } : Channel).isNoneEvent = ch'.isNoneEvent := by
    rw [Channel.isNoneEvent, Channel.isNoneEvent, h.events]
  rw [h.status, hmask, hnone]
  by_cases hop : op = .remove
  · simp [hop]
  · by_cases ha : ch.status = .added
    · cases ch'.isNoneEvent <;> simp [hop, ha]
    · cases ch'.isNoneEvent <;> simp [hop, ha]

theorem noIdle_iff {p' : EPollPoller ι} {ch' : Channel} (hs : w.InSync) (h : w.NoIdle)
    (hs' : InSync ⟨p', Function.update w.chan c ch'⟩) (hd : Executed w.poller c (w.chan c) op p' ch') :
    NoIdle ⟨p', Function.update w.chan c ch'⟩ ↔ w.EmptiesAdded (c, op) := by
  rw [EmptiesAdded, ← Executed.idle_iff hd]
  constructor
  · intro hn he
    have := hn c
    rw [interest_eq_none_iff hs'] at this
    simp only [Function.update_self] at this
    exact this he
  · intro hc d he
    rw [interest_eq_none_iff hs']
    by_cases hdc : d = c
    · subst hdc
      simp only [Function.update_self] at he ⊢
      exact hc he
    · simp only [Function.update_of_ne hdc] at he ⊢
      exact (interest_eq_none_iff hs d).1 (h d he)

/-- Every `disableAll` undoes the registration the one before it left. -/
theorem disableAll_twice (h : w.InSync) (h₁ : w.step (c, .disableAll) = some w₁)
    (h₂ : w₁.step (c, .disableAll) = some w₂) :
    ((w₂.chan c).status = .added ↔ (w₁.chan c).status ≠ .added) ∧
      w₂.poller.interest (w₂.chan c).fd ≠ w₁.poller.interest (w₁.chan c).fd := by
  have status (u v : Registry ι) (hu : u.InSync) (hv : u.step (c, .disableAll) = some v) :
      v.InSync ∧ ((v.chan c).status = .added ↔ (u.chan c).status ≠ .added) := by
    obtain ⟨v', hv', hi⟩ := hu.step (c, .disableAll)
    cases hv.symm.trans hv'
    obtain ⟨p', ch', hex, hd⟩ := exec_executed hu c .disableAll
    cases hv.symm.trans hex
    refine ⟨hi, ?_⟩
    show (Function.update u.chan c ch' c).status = .added ↔ _
    rw [Function.update_self, hd.status, if_neg (by decide)]
    have hnone : ({ u.chan c with events := ChannelOp.disableAll.mask (u.chan c).events } :
        Channel).isNoneEvent = true := rfl
    simp [hnone]
  obtain ⟨hs₁, -⟩ := status w w₁ h h₁
  obtain ⟨hs₂, hst⟩ := status w₁ w₂ hs₁ h₂
  refine ⟨hst, fun heq => ?_⟩
  by_cases ha : (w₁.chan c).status = .added
  · rw [(interest_eq_none_iff hs₂ c).2 fun h => hst.1 h ha] at heq
    exact (interest_eq_none_iff hs₁ c).1 heq.symm ha
  · rw [(interest_eq_none_iff hs₁ c).2 ha] at heq
    exact (interest_eq_none_iff hs₂ c).1 heq (hst.2 ha)

omit [DecidableEq ι] in
theorem Fresh.noIdle (h : w.Fresh) : w.NoIdle := fun _ _ => h.interest _

/-- Over every sequence of operations on any channels: no channel without interest is registered
after any of them, exactly when those that leave a mask empty all find their channel added. A second
`disableAll` never leaves things as the first left them. -/
theorem no_idle_iff (w₀ : Registry ι) (h : w₀.Fresh) (ops : List (ι × ChannelOp)) :
    (Always step NoIdle w₀ ops ↔ Along step EmptiesAdded w₀ ops) ∧
      ∀ w c w₁ w₂, run step w₀ ops = some w → w.step (c, .disableAll) = some w₁ →
        w₁.step (c, .disableAll) = some w₂ →
        ((w₂.chan c).status = .added ↔ (w₁.chan c).status ≠ .added) ∧
          w₂.poller.interest (w₂.chan c).fd ≠ w₁.poller.interest (w₁.chan c).fd := by
  constructor
  · refine always_iff_along (I := InSync) (fun w a hs hn => ?_) h.inSync h.noIdle
    obtain ⟨w', hw', hs'⟩ := hs.step a
    obtain ⟨p', ch', hex, hd⟩ := exec_executed hs a.1 a.2
    cases hw'.symm.trans hex
    exact ⟨_, hex, hs', noIdle_iff hs hn hs' hd⟩
  · intro w c w₁ w₂ hr h₁ h₂
    have hs : w.InSync := by
      refine run_inv (fun u a v hv hu => ?_) hr h.inSync
      obtain ⟨v', hv', hi⟩ := hu.step a
      cases hv.symm.trans hv'
      exact hi
    exact disableAll_twice hs h₁ h₂

theorem no_idle_iff_numbered :
    Always step NoIdle numbered [(3, .enableReading), (3, .disableAll), (3, .remove),
      (4, .enableWriting), (4, .disableWriting), (4, .enableReading)] :=
  (no_idle_iff numbered numbered_fresh _).1.2 (by decide)

/-- `disableAll` on a channel that was never enabled, and `disableAll` a second time: the channel is
registered with an empty mask. -/
theorem idle_registered :
    numbered.Fresh ∧
      (∃ w, run step numbered [(3, .disableAll)] = some w ∧ (w.chan 3).isNoneEvent = true ∧
        w.poller.interest 3 = some ⟨Channel.kNoneEvent, 3⟩) ∧
      ∃ w₁ w₂, run step numbered [(3, .enableReading), (3, .disableAll)] = some w₁ ∧
        w₁.step (3, .disableAll) = some w₂ ∧ (w₁.chan 3).status = .deleted ∧
        w₁.poller.interest 3 = none ∧ (w₂.chan 3).status = .added ∧
        w₂.poller.interest 3 = some ⟨Channel.kNoneEvent, 3⟩ := by
  refine ⟨numbered_fresh, ⟨_, rfl, by decide, by decide⟩, _, _, rfl, rfl, ?_⟩
  exact ⟨by decide, by decide, by decide, by decide⟩

end Registry
end Muduo
