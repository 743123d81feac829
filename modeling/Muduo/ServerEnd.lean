import Muduo.Lib.Lts
import Muduo.ServerParts

/-!
# The end of a server

`~TcpServer` destroys the map, and then the pool: one thread after the other is told to quit and joined, and
with each goes its loop. Only then is the acceptor destroyed, and the server's memory given back. While the
server is there no loop of its has been told to quit.
-/

namespace Muduo
open EPollPoller ServerLoop Lts

namespace TcpServer
variable {s t u : TcpServer} {l : Nat} {a : ServerStep} {as : List ServerStep} {logErrno : Errno → Errno}

/-- Nothing of the server's end has come nearer. -/
structure Flags (s t : TcpServer) : Prop where
  alive : t.alive = s.alive
  numThreads : t.numThreads = s.numThreads
  quit : ∀ l, (t.loop l).quit = (s.loop l).quit
  ended : ∀ l, (t.loop l).ended = (s.loop l).ended

theorem Flags.rfl : Flags s s := ⟨.refl _, .refl _, fun _ => .refl _, fun _ => .refl _⟩

theorem Flags.trans (h : Flags s t) (h' : Flags t u) : Flags s u where
  alive := h'.alive.trans h.alive
  numThreads := h'.numThreads.trans h.numThreads
  quit l := (h'.quit l).trans (h.quit l)
  ended l := (h'.ended l).trans (h.ended l)

theorem flags_setLoop {q : ServerLoop} (hq : q.quit = (s.loop l).quit) (he : q.ended = (s.loop l).ended) :
    Flags s (s.setLoop l q) where
  alive := rfl
  numThreads := rfl
  quit l' := by
    rw [loop_setLoop]
    split
    · rename_i hl; rw [hl, hq]
    · rfl
  ended l' := by
    rw [loop_setLoop]
    split
    · rename_i hl; rw [hl, he]
    · rfl

theorem flags_setTcp (s : TcpServer) (c : Nat) (tcp : TcpConnection) : Flags s (s.setTcp c tcp) :=
  ⟨rfl, rfl, fun _ => rfl, fun _ => rfl⟩

theorem parts_flags : ServerParts Flags where
  refl _ := .rfl
  trans := .trans
  enter _ _ _ := flags_setLoop rfl rfl
  queueInLoop _ _ _ := flags_setLoop rfl rfl
  mark _ _ _ := ⟨rfl, rfl, fun _ => rfl, fun _ => rfl⟩
  erase _ _ := ⟨rfl, rfl, fun _ => rfl, fun _ => rfl⟩
  absorb s c w := (flags_setTcp s c w.conn).trans (flags_setLoop rfl rfl)

/-- The steps of the server's end. -/
def Ends (s : TcpServer) (a : ServerStep) : Prop :=
  a = .destroyServer ∨ (∃ l, a = .quitLoop l) ∨ ∃ l, a = .destroyFunctors l ∧ (s.loop l).quit = true

theorem flags_step (hs : Stepped logErrno s a t) (ha : ¬ s.Ends a) : Flags s t := by
  cases hs with
  | poll => exact flags_setLoop rfl rfl
  | accept =>
    have h : Flags s (s.enter 0 (.establish s.accepted)) := parts_flags.enter s 0 _
    exact ⟨h.alive, h.numThreads, h.quit, h.ended⟩
  | @dispatch l c revents active =>
    exact (flags_setTcp s c _).trans (flags_setLoop rfl rfl)
  | @proceed l r r' j rest _ _ ho =>
    have hpop : Flags s (s.setLoop l ((s.loop l).pop rest)) := flags_setLoop rfl rfl
    exact hpop.trans (parts_flags.perform ho)
  | swap => exact flags_setLoop rfl rfl
  | call => exact flags_setLoop rfl rfl
  | destroyFunctors => exact flags_setLoop rfl rfl
  | leave _ _ _ hq => exact absurd (.inr (.inr ⟨_, rfl, hq⟩)) ha
  | send => exact parts_flags.absorb s _ _
  | shutdown => exact parts_flags.absorb s _ _
  | hold => exact ⟨rfl, rfl, fun _ => rfl, fun _ => rfl⟩
  | release => exact ⟨rfl, rfl, fun _ => rfl, fun _ => rfl⟩
  | foreignSend =>
    split
    · exact parts_flags.queueInLoop s _ _
    · exact .rfl
  | foreignShutdown =>
    split
    · exact (parts_flags.absorb s _ _).trans (parts_flags.queueInLoop _ _ _)
    · exact .rfl
  | destroyServer => exact absurd (.inl rfl) ha
  | quitLoop => exact absurd (.inr (.inl ⟨_, rfl⟩)) ha

/-- Only the loops of the pool are told to quit, and only by a destroyed server; only such a loop ends. -/
structure Ending (s : TcpServer) : Prop where
  quit : ∀ l, (s.loop l).quit = true → s.alive = false ∧ 0 < l ∧ l ≤ s.numThreads
  ended : ∀ l, (s.loop l).ended = true → (s.loop l).quit = true

theorem Ending.flags (h : s.Ending) (hf : Flags s t) : t.Ending where
  quit l hq := by
    rw [hf.quit] at hq
    rw [hf.alive, hf.numThreads]
    exact h.quit l hq
  ended l he := by
    rw [hf.ended] at he
    rw [hf.quit]
    exact h.ended l he

/-- While the server is there its loops go on. -/
theorem Ending.goes_on (h : s.Ending) (ha : s.alive = true) (l : Nat) :
    (s.loop l).quit = false ∧ (s.loop l).ended = false := by
  have hq : (s.loop l).quit = false := by
    refine Bool.eq_false_iff.2 fun hq => ?_
    rw [(h.quit l hq).1] at ha
    cases ha
  refine ⟨hq, Bool.eq_false_iff.2 fun he => ?_⟩
  rw [h.ended l he] at hq
  cases hq

theorem flags_closeFds (s : TcpServer) : Flags s s.closeFds := ⟨rfl, rfl, fun _ => rfl, fun _ => rfl⟩

theorem stepped_ending (hs : Stepped logErrno s a t) (h : s.Ending) : t.Ending := by
  by_cases ha : s.Ends a
  · rcases ha with rfl | ⟨l, rfl⟩ | ⟨l, rfl, hquit⟩
    · cases hs
      exact ⟨fun l hq => ⟨rfl, (h.quit l hq).2⟩, h.ended⟩
    · cases hs with
      | quitLoop hdead hl hq hbefore =>
        refine ⟨fun l' hq' => ?_, fun l' he => ?_⟩
        · rw [loop_setLoop] at hq'
          split at hq'
          · rename_i hll
            rw [hll]; exact ⟨hdead, hl⟩
          · exact h.quit l' hq'
        · rw [loop_setLoop] at he ⊢
          split at he
          · rw [if_pos ‹_›]
          · rw [if_neg ‹_›]; exact h.ended l' he
    · cases hs with
      | destroyFunctors _ _ _ hq =>
        rw [hquit] at hq
        cases hq
      | leave =>
        refine ⟨fun l' hq' => ?_, fun l' he => ?_⟩
        · rw [loop_setLoop] at hq'
          split at hq'
          · rename_i hll
            rw [hll]; exact h.quit l hquit
          · exact h.quit l' hq'
        · rw [loop_setLoop] at he ⊢
          split at he
          · rw [if_pos ‹_›]; rfl
          · rw [if_neg ‹_›]; exact h.ended l' he
  · exact h.flags (flags_step hs ha)

theorem step_ending (hs : step logErrno s a = some t) (h : s.Ending) : t.Ending := by
  obtain ⟨u, hu, rfl⟩ := step_some hs
  exact (stepped_ending hu h).flags (flags_closeFds u)

theorem started_ending (name ipPort : String) (numThreads : Nat) (cb cb' cb'' : Bool) :
    (started name ipPort numThreads cb cb' cb'').Ending := ⟨nofun, nofun⟩

/-- Only its destructor ends the server. -/
theorem step_alive (hs : step logErrno s a = some t) (ha : a ≠ .destroyServer) : t.alive = s.alive := by
  obtain ⟨u, hu, rfl⟩ := step_some hs
  show u.alive = s.alive
  by_cases hends : s.Ends a
  · rcases hends with rfl | ⟨l, rfl⟩ | ⟨l, rfl, -⟩
    · exact absurd rfl ha
    · cases hu; rfl
    · cases hu with
      | destroyFunctors => rfl
      | leave => rfl
  · exact (flags_step hu hends).alive

end TcpServer
end Muduo
