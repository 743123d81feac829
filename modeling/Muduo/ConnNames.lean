import Mathlib.Data.List.Basic
import Muduo.ConnMap
import Muduo.InetAddress
import Muduo.Thread
import Muduo.Threads

/-!
# Names of connections and threads

A connection is named by its server's name and listening address and by its number. The name says which:
whatever text a server's name is, the address and the number can be read off its end. A thread without a
name is given one by number.
-/

namespace Muduo
open Lts

/-- The last separator of a text is where its end begins. -/
theorem append_cons_inj_last {α : Type*} {x₁ x₂ z₁ z₂ : List α} {a : α} (h₁ : a ∉ z₁) (h₂ : a ∉ z₂) :
    x₁ ++ a :: z₁ = x₂ ++ a :: z₂ ↔ x₁ = x₂ ∧ z₁ = z₂ := by
  constructor
  · intro h
    rcases List.append_eq_append_iff.1 h with ⟨bs, rfl, hb⟩ | ⟨bs, rfl, hb⟩
    · cases bs with
      | nil => exact ⟨(List.append_nil _).symm, (List.cons.inj hb).2⟩
      | cons b bs =>
        obtain ⟨rfl, rfl⟩ := List.cons.inj hb
        exact absurd (by simp) h₁
    · cases bs with
      | nil => exact ⟨List.append_nil _, (List.cons.inj hb).2.symm⟩
      | cons b bs =>
        obtain ⟨rfl, rfl⟩ := List.cons.inj hb
        exact absurd (by simp) h₂
  · rintro ⟨rfl, rfl⟩
    rfl

theorem notMem_toString_int (z : Int) {c : Char} (hc : c.isDigit = false) (hd : c ≠ '-') :
    c ∉ (toString z).toList := by
  rw [Int.toString_eq_repr]
  cases z with
  | ofNat n =>
    show c ∉ n.repr.toList
    rw [Nat.toList_repr]
    exact notMem_decimal hc
  | negSucc n =>
    show c ∉ ("-" ++ (n + 1).repr).toList
    rw [String.toList_append, Nat.toList_repr, List.mem_append, not_or]
    exact ⟨by simpa using hd, notMem_decimal hc⟩

namespace InetAddress

theorem notMem_text {a : InetAddress} {c : Char} (hc : c.isDigit = false) (h₁ : c ≠ '.') (h₂ : c ≠ ':') :
    c ∉ a.text := by
  intro h
  rcases mem_text h with h | h | h
  · rw [hc] at h
    cases h
  · exact h₁ h
  · exact h₂ h

end InetAddress

namespace TcpServer
variable {s t : TcpServer} {a : ServerStep} {logErrno : Errno → Errno} {i j : Nat}

/-- What is in a name. -/
theorem nameOf_inj_of_text {a b : InetAddress} (hs : s.ipPort = String.ofList a.text)
    (ht : t.ipPort = String.ofList b.text) :
    s.nameOf i = t.nameOf j ↔ s.name = t.name ∧ a.text = b.text ∧ i % 2 ^ 32 = j % 2 ^ 32 := by
  have parts : ∀ (u : TcpServer) (c : InetAddress) (k : Nat), u.ipPort = String.ofList c.text →
      (u.nameOf k).toList = (u.name.toList ++ '-' :: c.text) ++ '#' ::
        (toString (BitVec.ofNat 32 (k + 1)).toInt).toList := by
    intro u c k hu
    rw [nameOf, hu]
    simp
  have hash : ∀ k : Nat, '#' ∉ (toString (BitVec.ofNat 32 (k + 1)).toInt).toList := fun k =>
    notMem_toString_int _ (by decide) (by decide)
  have dash : ∀ c : InetAddress, '-' ∉ c.text := fun c =>
    InetAddress.notMem_text (by decide) (by decide) (by decide)
  rw [← String.toList_inj, parts s a i hs, parts t b j ht, append_cons_inj_last (hash i) (hash j),
    append_cons_inj_last (dash a) (dash b), String.toList_inj, String.toList_inj, Int.toString_eq_repr,
    Int.toString_eq_repr, Int.repr_inj, BitVec.toInt_inj, ← BitVec.toNat_inj, BitVec.toNat_ofNat,
    BitVec.toNat_ofNat, and_assoc]
  refine and_congr_right fun _ => and_congr_right fun _ => ?_
  omega

/-! ### Over all runs -/

theorem Named.settled (h : s.Named) (hs : Settled s t) : t.Named where
  next := by rw [hs.nextConnId, hs.accepted, h.next]
  names c hc := by
    rw [hs.accepted] at hc
    rw [hs.name, h.names c hc, nameOf, nameOf, hs.server, hs.ipPort]

theorem step_named (hs : step logErrno s a = some t) (hsane : s.Sane) (h : s.Named) :
    t.Named ∧ t.name = s.name ∧ t.ipPort = s.ipPort := by
  by_cases haccept : ∃ fd, a = .accept fd
  · obtain ⟨fd, rfl⟩ := haccept
    obtain ⟨u, hu, rfl⟩ := step_some hs
    cases hu
    have hnew := h.newConnection fd
    exact ⟨⟨hnew.next, hnew.names⟩, rfl, rfl⟩
  · have hset := settled_step hs hsane fun fd hfd => haccept ⟨fd, hfd⟩
    exact ⟨h.settled hset, hset.server, hset.ipPort⟩

theorem run_named (name ipPort : String) (numThreads : Nat) (cb cb' cb'' : Bool) (as : List ServerStep)
    (hr : run (step logErrno) (started name ipPort numThreads cb cb' cb'') as = some t) :
    t.Named ∧ t.name = name ∧ t.ipPort = ipPort := by
  have h := run_inv (I := fun s => s.Sane ∧ s.Named ∧ s.name = name ∧ s.ipPort = ipPort)
    (fun s a u hs h => ?_) hr ⟨started_sane .., started_named .., rfl, rfl⟩
  · exact h.2
  · obtain ⟨hsane, hn, hname, hip⟩ := h
    obtain ⟨hn', hname', hip'⟩ := step_named hs hsane hn
    exact ⟨step_sane hs hsane, hn', hname'.trans hname, hip'.trans hip⟩

/-- Connections of any two servers, in any states of any runs of theirs, have the same name exactly when the
servers have the same name and listen at the same address, and their numbers agree in 32 bits. -/
theorem names_identify (logErrno : Errno → Errno) (name₁ name₂ ipPort₁ ipPort₂ : String)
    (a₁ a₂ : InetAddress) (hf₁ : a₁.addr.family = AF_INET) (hf₂ : a₂.addr.family = AF_INET)
    (hip₁ : a₁.toIpPort = .ok ipPort₁) (hip₂ : a₂.toIpPort = .ok ipPort₂) (n₁ n₂ : Nat)
    (cb cb' cb'' : Bool) (as₁ as₂ : List ServerStep) (t₁ t₂ : TcpServer)
    (hr₁ : run (step logErrno) (started name₁ ipPort₁ n₁ cb cb' cb'') as₁ = some t₁)
    (hr₂ : run (step logErrno) (started name₂ ipPort₂ n₂ cb cb' cb'') as₂ = some t₂) (c₁ c₂ : Nat)
    (hc₁ : c₁ < t₁.accepted) (hc₂ : c₂ < t₂.accepted) :
    (t₁.conn c₁).name = (t₂.conn c₂).name ↔
      name₁ = name₂ ∧ a₁ = a₂ ∧ c₁ % 2 ^ 32 = c₂ % 2 ^ 32 := by
  obtain ⟨hn₁, hname₁, hp₁⟩ := run_named name₁ ipPort₁ n₁ cb cb' cb'' as₁ hr₁
  obtain ⟨hn₂, hname₂, hp₂⟩ := run_named name₂ ipPort₂ n₂ cb cb' cb'' as₂ hr₂
  rw [InetAddress.toIpPort_eq, Except.ok.injEq] at hip₁ hip₂
  have htext : a₁.text = a₂.text ↔ a₁ = a₂ := by
    rw [InetAddress.text_inj]
    refine ⟨fun ⟨hport, haddr⟩ => ?_, fun h => by rw [h]; exact ⟨rfl, rfl⟩⟩
    obtain ⟨⟨family₁, port₁, addr₁⟩⟩ := a₁
    obtain ⟨⟨family₂, port₂, addr₂⟩⟩ := a₂
    cases hf₁
    cases hf₂
    cases hport
    cases haddr
    rfl
  rw [hn₁.names c₁ hc₁, hn₂.names c₂ hc₂,
    nameOf_inj_of_text (hp₁.trans hip₁.symm) (hp₂.trans hip₂.symm), hname₁, hname₂, htext]

set_option maxRecDepth 20000 in
/-- Two servers of one name, on two ports. -/
theorem names_of_two_ports : ∃ t₁ t₂,
    run (step id) (started "s" "127.0.0.1:80" 0 true true true) [.poll 0 [], .accept 5] = some t₁ ∧
    run (step id) (started "s" "127.0.0.1:8080" 0 true true true) [.poll 0 [], .accept 6] = some t₂ ∧
    (t₁.conn 0).name ≠ (t₂.conn 0).name := by
  have h : ∀ ipPort fd, ipPort = "127.0.0.1:80" ∧ fd = 5 ∨ ipPort = "127.0.0.1:8080" ∧ fd = 6 →
      ((run (step id) (started "s" ipPort 0 true true true) [.poll 0 [], .accept fd]).map fun t =>
        t.accepted) = some 1 := by
    rintro ipPort fd (⟨rfl, rfl⟩ | ⟨rfl, rfl⟩)
    · decide +kernel
    · decide +kernel
  obtain ⟨t₁, ht₁, h₁⟩ := Option.map_eq_some_iff.1 (h _ 5 (.inl ⟨rfl, rfl⟩))
  obtain ⟨t₂, ht₂, h₂⟩ := Option.map_eq_some_iff.1 (h _ 6 (.inr ⟨rfl, rfl⟩))
  refine ⟨t₁, t₂, ht₁, ht₂, fun hname => ?_⟩
  have haddr := ((names_identify id "s" "s" "127.0.0.1:80" "127.0.0.1:8080" (.new 80 "127.0.0.1")
    (.new 8080 "127.0.0.1") rfl rfl (by decide +kernel) (by decide +kernel) 0 0 true true true _ _ t₁ t₂
    ht₁ ht₂ 0 0 (by omega) (by omega)).1 hname).2.1
  revert haddr
  decide +kernel

end TcpServer

namespace Thread

/-- `setDefaultName` of the `num`-th thread created; the buffer of 32 has room for any number. -/
def defaultName (num : BitVec 32) (inName : String) : String :=
  if inName.isEmpty then "Thread" ++ toString num.toInt else inName

/-- The names of threads constructed one after the other, `s_numCreated` being `num` before. -/
def names : BitVec 32 → List String → List String
  | _, [] => []
  | num, inName :: rest => defaultName (num + 1) inName :: names (num + 1) rest

theorem getElem?_names {num : BitVec 32} {ks : List String} {i : Nat} :
    (names num ks)[i]? = ks[i]?.map (defaultName (num + BitVec.ofNat 32 (i + 1))) := by
  induction ks generalizing num i with
  | nil => rfl
  | cons k ks ih =>
    cases i with
    | zero => rfl
    | succ i =>
      rw [names, List.getElem?_cons_succ, List.getElem?_cons_succ, ih, BitVec.add_assoc,
        BitVec.ofNat_add (i + 1) 1, BitVec.add_comm 1]
      rfl

/-- Threads constructed without a name have different names, as long as `s_numCreated` has not come round. -/
theorem default_names_distinct {num : BitVec 32} {ks : List String} {i j : Nat} (hi : i < 2 ^ 32)
    (hj : j < 2 ^ 32) (hki : ks[i]? = some "") (hkj : ks[j]? = some "")
    (h : (names num ks)[i]? = (names num ks)[j]?) : i = j := by
  rw [getElem?_names, getElem?_names, hki, hkj, Option.map_some, Option.map_some, Option.some.injEq] at h
  have hnum : (num + BitVec.ofNat 32 (i + 1)).toInt = (num + BitVec.ofNat 32 (j + 1)).toInt := by
    have hs : "Thread" ++ toString (num + BitVec.ofNat 32 (i + 1)).toInt =
        "Thread" ++ toString (num + BitVec.ofNat 32 (j + 1)).toInt := h
    rwa [String.append_right_inj, Int.toString_eq_repr, Int.toString_eq_repr, Int.repr_inj] at hs
  rw [BitVec.toInt_inj, BitVec.add_right_inj, ← BitVec.toNat_inj, BitVec.toNat_ofNat,
    BitVec.toNat_ofNat] at hnum
  omega

end Thread
end Muduo
