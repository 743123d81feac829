import Mathlib
import Muduo.Lib.Lts
import Muduo.TcpServer

/-!
# The connection map

Accepts and removals, in any order and any number. The keys are names rendered from a counter of 32
bits, so the map is the live set exactly as long as no connection is accepted while one accepted a
multiple of `2 ^ 32` accepts before is still in it.
-/

namespace Muduo
open Lts

inductive MapStep
  | newConnection (inSockfd : Int)
  | removeConnectionInLoop (c : Nat)
deriving DecidableEq, Repr

namespace TcpServer
variable {s t : TcpServer} {a : MapStep} {as : List MapStep} {c d i j : Nat}

/-- Accepted and not yet removed. -/
def Live (s : TcpServer) (c : Nat) : Prop := c < s.accepted ∧ Mark.erased ∉ (s.conn c).log

instance (s : TcpServer) (c : Nat) : Decidable (s.Live c) := inferInstanceAs (Decidable (_ ∧ _))

/-- A connection is removed at most once. -/
def mapStep (s : TcpServer) : MapStep → Option TcpServer
  | .newConnection inSockfd => some (s.newConnection inSockfd)
  | .removeConnectionInLoop c =>
    if s.Live c then some (((s.mark c .erased).erase c).enter 0 (.queueDestroyed c)) else none

/-- One entry for each live connection, under its own name, and no other entry. -/
structure MapExact (s : TcpServer) : Prop where
  live : ∀ c, s.Live c → s.connections (s.conn c).name = some c
  only : ∀ n c, s.connections n = some c → s.Live c ∧ (s.conn c).name = n

/-- The step leaves the map exact, and what it changes is its own connection's entry. -/
def ExactStep (s : TcpServer) (a : MapStep) : Prop :=
  ∀ t, s.mapStep a = some t → t.MapExact ∧
    match a with
    | .newConnection _ => ∀ n d, s.connections n = some d → t.connections n = some d
    | .removeConnectionInLoop c => s.connections (s.conn c).name = some c ∧
        ∀ n d, d ≠ c → s.connections n = some d → t.connections n = some d

/-- No connection in the map was accepted a multiple of `2 ^ 32` accepts ago. -/
def Unwrapped (s : TcpServer) : MapStep → Prop
  | .newConnection _ => ∀ c, s.Live c → c % 2 ^ 32 ≠ s.accepted % 2 ^ 32
  | .removeConnectionInLoop _ => True

/-! ### Names -/

/-- The name of the `i`-th connection of the server. -/
def nameOf (s : TcpServer) (i : Nat) : String :=
  s.name ++ "-" ++ s.ipPort ++ "#" ++ toString (BitVec.ofNat 32 (i + 1)).toInt

theorem nameOf_inj : s.nameOf i = s.nameOf j ↔ i % 2 ^ 32 = j % 2 ^ 32 := by
  unfold nameOf
  rw [String.append_right_inj, Int.toString_eq_repr, Int.toString_eq_repr, Int.repr_inj,
    BitVec.toInt_inj, ← BitVec.toNat_inj, BitVec.toNat_ofNat, BitVec.toNat_ofNat]
  omega

/-- The counter counts the accepts, and names are made from it. -/
structure Named (s : TcpServer) : Prop where
  next : s.nextConnId = BitVec.ofNat 32 (s.accepted + 1)
  names : ∀ c, c < s.accepted → (s.conn c).name = s.nameOf c

theorem Named.connName (h : s.Named) : s.connName = s.nameOf s.accepted := by
  rw [TcpServer.connName, nameOf, h.next]

theorem started_named (name ipPort : String) (numThreads : Nat) (cc mc wc : Bool) :
    (started name ipPort numThreads cc mc wc).Named :=
  ⟨rfl, fun _ hc => absurd hc (Nat.not_lt_zero _)⟩

theorem started_mapExact (name ipPort : String) (numThreads : Nat) (cc mc wc : Bool) :
    (started name ipPort numThreads cc mc wc).MapExact :=
  ⟨fun _ hc => absurd hc.1 (Nat.not_lt_zero _), fun _ _ hc => by cases hc⟩

/-! ### Accepting -/

theorem name_newConnection {inSockfd : Int} :
    ((s.newConnection inSockfd).conn s.accepted).name = s.connName := by
  rw [newConnection_self]

theorem live_newConnection {inSockfd : Int} :
    (s.newConnection inSockfd).Live c ↔ c = s.accepted ∨ s.Live c := by
  show c < s.accepted + 1 ∧ _ ↔ _
  by_cases hc : c = s.accepted
  · subst hc
    rw [newConnection_self]
    simp
  · rw [newConnection_of_ne hc]
    unfold Live
    simp only [hc, false_or]
    exact and_congr_left fun _ => by omega

theorem Named.newConnection (h : s.Named) (inSockfd : Int) : (s.newConnection inSockfd).Named where
  next := by
    show s.nextConnId + 1 = BitVec.ofNat 32 (s.accepted + 1 + 1)
    rw [h.next, BitVec.ofNat_add (s.accepted + 1) 1]
    rfl
  names := fun c hc => by
    show _ = s.nameOf c
    by_cases hacc : c = s.accepted
    · subst hacc
      rw [name_newConnection, h.connName]
    · have hlt : c < s.accepted + 1 := hc
      rw [newConnection_of_ne hacc]
      exact h.names c (by omega)

/-- The new name is in the map exactly when a live connection's number is the counter's value. -/
theorem MapExact.connName_free (hm : s.MapExact) (hn : s.Named) :
    s.connections s.connName = none ↔ ∀ c, s.Live c → c % 2 ^ 32 ≠ s.accepted % 2 ^ 32 := by
  constructor
  · intro hfree c hc heq
    have hname : (s.conn c).name = s.connName := by
      rw [hn.names c hc.1, hn.connName]; exact nameOf_inj.2 heq
    rw [← hname, hm.live c hc] at hfree
    cases hfree
  · intro hun
    by_contra hne
    obtain ⟨c, hc⟩ := Option.ne_none_iff_exists'.1 hne
    obtain ⟨hl, hname⟩ := hm.only _ c hc
    rw [hn.names c hl.1, hn.connName] at hname
    exact hun c hl (nameOf_inj.1 hname)

theorem MapExact.newConnection (hm : s.MapExact) (inSockfd : Int)
    (hfree : s.connections s.connName = none) : (s.newConnection inSockfd).MapExact where
  live := fun c hc => by
    rw [connections_newConnection]
    rcases live_newConnection.1 hc with rfl | hl
    · rw [name_newConnection, Function.update_self]
    · have hne : c ≠ s.accepted := Nat.ne_of_lt hl.1
      rw [newConnection_of_ne hne]
      have hent := hm.live c hl
      rw [Function.update_of_ne, hent]
      intro heq
      rw [heq, hfree] at hent
      cases hent
  only := fun n c hc => by
    rw [connections_newConnection] at hc
    by_cases hname : n = s.connName
    · subst hname
      rw [Function.update_self] at hc
      cases hc
      exact ⟨live_newConnection.2 (.inl rfl), name_newConnection⟩
    · rw [Function.update_of_ne hname] at hc
      obtain ⟨hl, hcn⟩ := hm.only n c hc
      rw [newConnection_of_ne (Nat.ne_of_lt hl.1)]
      exact ⟨live_newConnection.2 (.inr hl), hcn⟩

/-! ### Removing -/

/-- `removeConnectionInLoop` on the server's own loop. -/
def removed (s : TcpServer) (c : Nat) : TcpServer :=
  ((s.mark c .erased).erase c).enter 0 (.queueDestroyed c)

theorem name_removed : ((s.removed c).conn d).name = (s.conn d).name := by
  show (Function.update s.conn c _ d).name = _
  by_cases hd : d = c
  · subst hd; rw [Function.update_self]
  · rw [Function.update_of_ne hd]

theorem live_removed (hc : s.Live c) : (s.removed c).Live d ↔ d ≠ c ∧ s.Live d := by
  show d < s.accepted ∧ Mark.erased ∉ (Function.update s.conn c _ d).log ↔ _
  by_cases hd : d = c
  · subst hd
    rw [Function.update_self]
    simp
  · rw [Function.update_of_ne hd]
    simp [Live, hd]

theorem connections_removed :
    (s.removed c).connections = Function.update s.connections (s.conn c).name none :=
  connections_erased s c 0

theorem Named.removed (h : s.Named) : (s.removed c).Named where
  next := h.next
  names := fun d hd => by rw [name_removed]; exact h.names d hd

theorem MapExact.removed (hm : s.MapExact) (hc : s.Live c) : (s.removed c).MapExact where
  live := fun d hd => by
    obtain ⟨hne, hl⟩ := (live_removed hc).1 hd
    rw [connections_removed, name_removed, Function.update_of_ne]
    · exact hm.live d hl
    · intro heq
      have hent := hm.live d hl
      rw [heq, hm.live c hc] at hent
      exact hne (Option.some.inj hent).symm
  only := fun n d hd => by
    rw [connections_removed] at hd
    by_cases hn : n = (s.conn c).name
    · rw [hn, Function.update_self] at hd
      cases hd
    · rw [Function.update_of_ne hn] at hd
      obtain ⟨hl, hname⟩ := hm.only n d hd
      refine ⟨(live_removed hc).2 ⟨?_, hl⟩, by rw [name_removed, hname]⟩
      rintro rfl
      exact hn hname.symm

/-! ### Runs -/

theorem mapStep_removed (h : s.mapStep (.removeConnectionInLoop c) = some t) :
    s.Live c ∧ t = s.removed c := by
  simp only [mapStep] at h
  split at h
  · rename_i hl
    cases h
    exact ⟨hl, rfl⟩
  · cases h

theorem Named.mapStep (hn : s.Named) (h : s.mapStep a = some t) : t.Named := by
  cases a with
  | newConnection inSockfd => cases h; exact hn.newConnection inSockfd
  | removeConnectionInLoop c =>
    obtain ⟨-, rfl⟩ := mapStep_removed h
    exact hn.removed

/-- One step on an exact map. -/
theorem exactStep_iff (hm : s.MapExact) (hn : s.Named) : s.ExactStep a ↔ s.Unwrapped a := by
  cases a with
  | newConnection inSockfd =>
    constructor
    · intro hex
      obtain ⟨-, hkeep⟩ := hex _ rfl
      refine (hm.connName_free hn).1 ?_
      by_contra hne
      obtain ⟨c, hc⟩ := Option.ne_none_iff_exists'.1 hne
      have hnew := hkeep _ c hc
      rw [connections_newConnection, Function.update_self] at hnew
      exact Nat.ne_of_gt (hm.only _ c hc).1.1 (Option.some.inj hnew)
    · intro hun t ht
      cases ht
      have hfree := (hm.connName_free hn).2 hun
      refine ⟨hm.newConnection inSockfd hfree, fun n d hd => ?_⟩
      rw [connections_newConnection, Function.update_of_ne, hd]
      rintro rfl
      rw [hfree] at hd
      cases hd
  | removeConnectionInLoop c =>
    refine iff_of_true ?_ trivial
    intro t ht
    obtain ⟨hl, rfl⟩ := mapStep_removed ht
    refine ⟨hm.removed hl, hm.live c hl, fun n d hne hd => ?_⟩
    rw [connections_removed, Function.update_of_ne, hd]
    rintro rfl
    rw [hm.live c hl] at hd
    exact hne (Option.some.inj hd).symm

theorem run_exact_iff (hm : s.MapExact) (hn : s.Named) :
    Along mapStep ExactStep s as ↔ Along mapStep Unwrapped s as := by
  induction as generalizing s with
  | nil => exact Iff.rfl
  | cons a as ih =>
    rw [along_cons, along_cons, exactStep_iff hm hn]
    refine and_congr_right fun hun => forall_congr' fun t => imp_congr_right fun ht => ?_
    exact ih ((exactStep_iff hm hn).2 hun t ht).1 (hn.mapStep ht)

/-- From a started server and over any accepts and removals: after every step the map is the live
set under its own names, no accept replaces an entry and no removal touches another's, exactly when
no accept finds in the map a connection accepted a multiple of `2 ^ 32` accepts before. -/
theorem connections_exact_iff (name ipPort : String) (numThreads : Nat) (cc mc wc : Bool)
    (as : List MapStep) :
    Along mapStep ExactStep (started name ipPort numThreads cc mc wc) as ↔
      Along mapStep Unwrapped (started name ipPort numThreads cc mc wc) as :=
  run_exact_iff (started_mapExact ..) (started_named ..)

/-- `n` connections accepted and removed in turn, with another open before them. -/
def churn (n : Nat) : List MapStep :=
  (List.range n).flatMap fun k => [.newConnection 6, .removeConnectionInLoop (k + 1)]

theorem churn_succ (n : Nat) : churn (n + 1) =
    churn n ++ [.newConnection 6, .removeConnectionInLoop (n + 1)] := by
  simp [churn, List.range_succ]

/-- The connection that was open stays open, and nothing else does. -/
theorem run_churn (hs : s.accepted = 1) (hl : s.Live 0) (n : Nat) :
    ∃ t, run mapStep s (churn n) = some t ∧ t.accepted = n + 1 ∧ t.Live 0 := by
  induction n with
  | zero => exact ⟨s, rfl, hs, hl⟩
  | succ n ih =>
    obtain ⟨t, hrun, hacc, hlive⟩ := ih
    have hnew : (t.newConnection 6).Live (n + 1) := live_newConnection.2 (.inl hacc.symm)
    refine ⟨(t.newConnection 6).removed (n + 1), ?_, ?_, ?_⟩
    · rw [churn_succ]
      refine run_append_some.2 ⟨t, hrun, run_cons_some.2 ⟨_, rfl, run_cons_some.2 ⟨_, ?_, rfl⟩⟩⟩
      exact if_pos hnew
    · show t.accepted + 1 = n + 1 + 1
      rw [hacc]
    · exact (live_removed hnew).2 ⟨by omega, live_newConnection.2 (.inr hlive)⟩

/-- One connection stays open while `2 ^ 32 - 1` others come and go; the next takes its name and its
entry. -/
theorem connections_wrap :
    ∃ t, run mapStep (started "s" "ip" 0 true true true) (.newConnection 5 :: churn (2 ^ 32 - 1)) = some t ∧
      t.Live 0 ∧ t.connName = (t.conn 0).name ∧
      ¬ Along mapStep ExactStep (started "s" "ip" 0 true true true)
        (.newConnection 5 :: churn (2 ^ 32 - 1) ++ [.newConnection 6]) := by
  have hn₀ := started_named "s" "ip" 0 true true true
  have hm₀ := started_mapExact "s" "ip" 0 true true true
  obtain ⟨t, hrun, hacc, hlive⟩ := run_churn (s := (started "s" "ip" 0 true true true).newConnection 5)
    rfl (live_newConnection.2 (.inl rfl)) (2 ^ 32 - 1)
  have hrun' : run mapStep (started "s" "ip" 0 true true true)
      (.newConnection 5 :: churn (2 ^ 32 - 1)) = some t := run_cons_some.2 ⟨_, rfl, hrun⟩
  have hn : t.Named := run_inv (fun _ _ _ h hn => Named.mapStep hn h) hrun' hn₀
  refine ⟨t, hrun', hlive, ?_, fun hex => ?_⟩
  · rw [hn.connName, hn.names 0 hlive.1, hacc]
    exact nameOf_inj.2 (by decide)
  · have hun := ((run_exact_iff hm₀ hn₀).1 hex).append.2 t hrun'
    exact hun.1 0 hlive (by rw [hacc]; decide)

end TcpServer
end Muduo
