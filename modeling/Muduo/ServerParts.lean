import Muduo.ServerEvents

/-!
# What the server's functions are made of

Every function a loop can be in the middle of puts together the same few parts: it enters another function,
pushes a functor, stores what a connection's function has done. What holds of the parts holds of the functions.
-/

namespace Muduo
namespace TcpServer

/-- A relation between the states before and after that each part keeps. -/
structure ServerParts (R : TcpServer → TcpServer → Prop) : Prop where
  refl : ∀ s, R s s
  trans : ∀ {s t u}, R s t → R t u → R s u
  enter : ∀ s l j, R s (s.enter l j)
  queueInLoop : ∀ s l j, R s (s.queueInLoop l j)
  mark : ∀ s c m, R s (s.mark c m)
  erase : ∀ s c, R s (s.erase c)
  absorb : ∀ s c w, R s (s.absorb c w)

namespace ServerParts
variable {R : TcpServer → TcpServer → Prop} {s t : TcpServer} {c l : Nat} {w : World Nat} {j : Job}
  {cb : Callback} {r : ReadResult} {r' : WriteResult} {logErrno : Errno → Errno}

theorem runInLoop (h : ServerParts R) (s : TcpServer) (l target : Nat) (j : Job) : R s (s.runInLoop l target j) := by
  unfold TcpServer.runInLoop
  split
  · exact h.enter s l j
  · exact h.queueInLoop s target j

theorem mark_absorb (h : ServerParts R) (s : TcpServer) (c : Nat) (m : Mark) (w : World Nat) :
    R s ((s.mark c m).absorb c w) :=
  h.trans (h.mark s c m) (h.absorb _ c w)

theorem handleClose (h : ServerParts R) (ho : s.handleClose c w = some t) : R s t := by
  obtain ⟨v, -, rfl⟩ := Option.map_eq_some_iff.1 ho
  exact h.mark_absorb s c .closed v

theorem makeCallback (h : ServerParts R) (ho : s.makeCallback c cb r r' = some t) : R s t := by
  cases makeCallback_some ho with
  | close ho => exact h.handleClose ho
  | error => exact h.absorb s c _
  | read _ => exact h.absorb s c _
  | readEnd _ ho => exact h.handleClose ho
  | write _ => exact h.absorb s c _

theorem perform (h : ServerParts R) (ho : s.perform logErrno l r r' j = some t) : R s t := by
  cases j with
  | establish c =>
    cases ho
    exact h.runInLoop s l _ _
  | connectEstablished c =>
    obtain ⟨w, -, rfl⟩ := Option.map_eq_some_iff.1 ho
    exact h.mark_absorb s c .established w
  | handleEvent c cbs =>
    cases cbs with
    | nil =>
      cases ho
      exact h.refl s
    | cons cb cbs => exact h.trans (h.trans (h.enter s l _) (h.mark _ c (.handler cb))) (h.makeCallback ho)
  | removeConnection c =>
    cases ho
    exact h.runInLoop s l _ _
  | removeConnectionInLoop c =>
    cases ho
    exact h.trans (h.trans (h.mark s c .erased) (h.erase _ c)) (h.enter _ l _)
  | queueDestroyed c =>
    cases ho
    exact h.queueInLoop s _ _
  | connectDestroyed c =>
    obtain ⟨w, -, rfl⟩ := Option.map_eq_some_iff.1 ho
    exact h.mark_absorb s c .destroyed w
  | userCallback c =>
    cases ho
    exact h.refl s
  | sendInLoop c msg =>
    unfold TcpServer.perform at ho
    dsimp only at ho
    split at ho
    · obtain ⟨w, -, rfl⟩ := Option.map_eq_some_iff.1 ho
      exact h.absorb s c w
    · cases ho
  | shutdownInLoop c =>
    cases ho
    exact h.absorb s c _

end ServerParts
end TcpServer
end Muduo
