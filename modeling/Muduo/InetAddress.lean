import Muduo.SizeT
import Mathlib.Data.List.TakeWhile

/-!
# `InetAddress` (`InetAddress.h`, `InetAddress.cpp`)

An IPv4 address and a port as `sockaddr_in` holds them, and their text. The library functions are
modelled as documented, on a little-endian machine: `inet_addr` accepts one to four numbers, each in
decimal, octal or hexadecimal, and gives `INADDR_NONE` for anything else; `inet_ntop` writes four decimal
numbers.
-/

namespace Muduo

/-! ### Byte order -/

/-- Also `ntohs`: the two bytes change places. -/
def htons (x : BitVec 16) : BitVec 16 := x.extractLsb' 0 8 ++ x.extractLsb' 8 8

/-- The bytes of an address, in the order they have in memory. -/
def addrBytes (a : BitVec 32) : List (BitVec 8) :=
  [a.extractLsb' 0 8, a.extractLsb' 8 8, a.extractLsb' 16 8, a.extractLsb' 24 8]

/-- The address with the bytes `a`, `b`, `c`, `d` in memory. -/
def ofBytes (a b c d : BitVec 8) : BitVec 32 := d ++ c ++ b ++ a

theorem htons_htons (x : BitVec 16) : htons (htons x) = x := by
  ext i hi
  unfold htons
  grind

theorem ofBytes_addrBytes (x : BitVec 32) :
    ofBytes (x.extractLsb' 0 8) (x.extractLsb' 8 8) (x.extractLsb' 16 8) (x.extractLsb' 24 8) = x := by
  ext i hi
  unfold ofBytes
  grind

/-! ### The text of an address -/

/-- `%u`. -/
def decimal (n : Nat) : List Char := Nat.toDigits 10 n

/-- `inet_ntop(AF_INET, …)`. -/
def inetNtop (a : BitVec 32) : List Char := ['.'].intercalate ((addrBytes a).map fun b => decimal b.toNat)

def isSpace (c : Char) : Bool := c.toNat == 32 || (9 ≤ c.toNat && c.toNat ≤ 13)

def digitValue (base : Nat) (c : Char) : Option Nat :=
  let value :=
    if '0' ≤ c ∧ c ≤ '9' then some (c.toNat - 48)
    else if 'a' ≤ c ∧ c ≤ 'f' then some (c.toNat - 87)
    else if 'A' ≤ c ∧ c ≤ 'F' then some (c.toNat - 55)
    else none
  value.filter (· < base)

/-- The value of `strtoul` where it consumes all of the text. -/
def strtoul (base : Nat) (cs : List Char) : Option Nat :=
  cs.foldlM (fun n c => (digitValue base c).map fun d => n * base + d) 0

/-- One of the numbers: `0x` starts a hexadecimal one, another `0` an octal one. -/
def addrPart : List Char → Option Nat
  | [] => none
  | '0' :: c :: cs =>
    if c = 'x' ∨ c = 'X' then if cs = [] then none else strtoul 16 cs else strtoul 8 (c :: cs)
  | cs => strtoul 10 cs

/-- The bytes in memory; the last number fills those that are left. White space ends the text. -/
def inetAton (cp : List Char) : Option (BitVec 32) :=
  let cs := cp.takeWhile fun c => c.toNat != 0 && !isSpace c
  match (cs.splitOn '.').mapM addrPart with
  | some [a] => if a < 2 ^ 32 then
      some (ofBytes (.ofNat 8 (a / 2 ^ 24)) (.ofNat 8 (a / 2 ^ 16)) (.ofNat 8 (a / 2 ^ 8)) (.ofNat 8 a))
    else none
  | some [a, b] => if a < 2 ^ 8 ∧ b < 2 ^ 24 then
      some (ofBytes (.ofNat 8 a) (.ofNat 8 (b / 2 ^ 16)) (.ofNat 8 (b / 2 ^ 8)) (.ofNat 8 b))
    else none
  | some [a, b, c] => if a < 2 ^ 8 ∧ b < 2 ^ 8 ∧ c < 2 ^ 16 then
      some (ofBytes (.ofNat 8 a) (.ofNat 8 b) (.ofNat 8 (c / 2 ^ 8)) (.ofNat 8 c))
    else none
  | some [a, b, c, d] => if a < 2 ^ 8 ∧ b < 2 ^ 8 ∧ c < 2 ^ 8 ∧ d < 2 ^ 8 then
      some (ofBytes (.ofNat 8 a) (.ofNat 8 b) (.ofNat 8 c) (.ofNat 8 d))
    else none
  | _ => none

def INADDR_NONE : BitVec 32 := 0xffffffff

def inetAddr (cp : List Char) : BitVec 32 := (inetAton cp).getD INADDR_NONE

/-! ### The class -/

def AF_INET : BitVec 16 := 2

structure SockaddrIn where
  family : BitVec 16
  /-- In network byte order, as the address. -/
  port : BitVec 16
  addr : BitVec 32
deriving DecidableEq

structure InetAddress where
  addr : SockaddrIn
deriving DecidableEq

namespace InetAddress

def new (inPort : BitVec 16) (inIp : String) : InetAddress := ⟨⟨AF_INET, htons inPort, inetAddr inIp.toList⟩⟩

def toPort (a : InetAddress) : BitVec 16 := htons a.addr.port

def toIp (a : InetAddress) : String := String.ofList (inetNtop a.addr.addr)

/-- `buf` has 64 elements, the last of them for the NUL. -/
def toIpPort (a : InetAddress) : Except Fault String :=
  let buf := inetNtop a.addr.addr ++ ':' :: decimal a.toPort.toNat
  if buf.length < 64 then .ok (String.ofList buf) else .error .outOfBounds

end InetAddress

/-! ### Decimal numbers -/

theorem decimal_inj {m n : Nat} : decimal m = decimal n ↔ m = n := by
  refine ⟨fun h => ?_, fun h => by rw [h]⟩
  rw [← Nat.ofDigitChars_ten_toDigits (n := m), ← Nat.ofDigitChars_ten_toDigits (n := n)]
  exact congrArg (fun cs => Nat.ofDigitChars 10 cs 0) h

/-- Digits are no separators. -/
theorem notMem_decimal {n : Nat} {c : Char} (hc : c.isDigit = false) : c ∉ decimal n := by
  intro h
  rw [Nat.isDigit_of_mem_toDigits (by decide) (by decide) h] at hc
  cases hc

theorem length_decimal_le {n k : Nat} (hk : 0 < k) (h : n < 10 ^ k) : (decimal n).length ≤ k :=
  (Nat.length_toDigits_le_iff (by decide) hk).2 h

theorem addrPart_decimal (b : BitVec 8) : addrPart (decimal b.toNat) = some b.toNat := by
  have h : ∀ n < 256, addrPart (decimal n) = some n := by decide +kernel
  exact h _ b.isLt

/-! ### Reading back what was written -/

/-- The decimal digits and the dot. -/
theorem mem_inetNtop {a : BitVec 32} {c : Char} (h : c ∈ inetNtop a) : c.isDigit = true ∨ c = '.' := by
  simp only [inetNtop, addrBytes, List.map_cons, List.map_nil, List.intercalate_cons_cons,
    List.intercalate_singleton, List.mem_append, List.mem_singleton] at h
  have digit : ∀ n, c ∈ decimal n → c.isDigit = true := fun n hc =>
    Nat.isDigit_of_mem_toDigits (by decide) (by decide) hc
  rcases h with (h | h) | (h | h) | (h | h) | h
  · exact .inl (digit _ h)
  · exact .inr h
  · exact .inl (digit _ h)
  · exact .inr h
  · exact .inl (digit _ h)
  · exact .inr h
  · exact .inl (digit _ h)

theorem takeWhile_inetNtop (a : BitVec 32) :
    (inetNtop a).takeWhile (fun c => c.toNat != 0 && !isSpace c) = inetNtop a := by
  rw [List.takeWhile_eq_self_iff]
  intro c hc
  rcases mem_inetNtop hc with h | rfl
  · have hle : 48 ≤ c.toNat := by
      simp only [Char.isDigit, Bool.and_eq_true, decide_eq_true_eq] at h
      exact h.1
    simp [isSpace]
    omega
  · decide

theorem splitOn_inetNtop (a : BitVec 32) :
    (inetNtop a).splitOn '.' = (addrBytes a).map fun b => decimal b.toNat := by
  refine List.splitOn_intercalate '.' (fun l hl => ?_) (by simp [addrBytes])
  obtain ⟨b, -, rfl⟩ := List.mem_map.1 hl
  exact notMem_decimal (by decide)

theorem mapM_addrPart (bs : List (BitVec 8)) :
    (bs.map fun b => decimal b.toNat).mapM addrPart = some (bs.map BitVec.toNat) := by
  induction bs with
  | nil => rfl
  | cons b bs ih =>
    rw [List.map_cons, List.mapM_cons, addrPart_decimal, ih]
    rfl

theorem inetAddr_inetNtop (a : BitVec 32) : inetAddr (inetNtop a) = a := by
  have hlt : ∀ b : BitVec 8, b.toNat < 2 ^ 8 := fun b => b.isLt
  rw [inetAddr, inetAton, takeWhile_inetNtop, splitOn_inetNtop, mapM_addrPart]
  simp only [addrBytes, List.map_cons, List.map_nil, hlt, and_self, if_true, BitVec.ofNat_toNat,
    BitVec.setWidth_eq, Option.getD_some]
  exact ofBytes_addrBytes a

theorem length_inetNtop_le (a : BitVec 32) : (inetNtop a).length ≤ 15 := by
  have hle : ∀ b : BitVec 8, (decimal b.toNat).length ≤ 3 := fun b =>
    length_decimal_le (by decide) (Nat.lt_of_lt_of_le b.isLt (by decide))
  have h₀ := hle (a.extractLsb' 0 8)
  have h₁ := hle (a.extractLsb' 8 8)
  have h₂ := hle (a.extractLsb' 16 8)
  have h₃ := hle (a.extractLsb' 24 8)
  simp only [inetNtop, addrBytes, List.map_cons, List.map_nil, List.intercalate_cons_cons,
    List.intercalate_singleton, List.length_append, List.length_singleton]
  omega

namespace InetAddress
variable {a b : InetAddress}

/-- The text of `toIpPort`. -/
def text (a : InetAddress) : List Char := inetNtop a.addr.addr ++ ':' :: decimal a.toPort.toNat

theorem length_text_le : a.text.length ≤ 21 := by
  have hip := length_inetNtop_le a.addr.addr
  have hport : (decimal a.toPort.toNat).length ≤ 5 :=
    length_decimal_le (by decide) (Nat.lt_of_lt_of_le a.toPort.isLt (by decide))
  rw [text, List.length_append, List.length_cons]
  omega

theorem mem_text {c : Char} (h : c ∈ a.text) : c.isDigit = true ∨ c = '.' ∨ c = ':' := by
  rcases List.mem_append.1 h with h | h
  · rcases mem_inetNtop h with h | h
    · exact .inl h
    · exact .inr (.inl h)
  · rcases List.mem_cons.1 h with h | h
    · exact .inr (.inr h)
    · exact .inl (Nat.isDigit_of_mem_toDigits (by decide) (by decide) h)

theorem text_inj : a.text = b.text ↔ a.addr.port = b.addr.port ∧ a.addr.addr = b.addr.addr := by
  have hip : ∀ x, ':' ∉ inetNtop x := fun x hc => by
    rcases mem_inetNtop hc with h | h
    · cases h
    · cases h
  constructor
  · intro h
    obtain ⟨haddr, -, hport⟩ := (List.append_cons_inj_of_notMem (hip _) (notMem_decimal (by decide))).1 h
    refine ⟨?_, ?_⟩
    · rw [decimal_inj, BitVec.toNat_inj] at hport
      rw [← htons_htons a.addr.port, ← htons_htons b.addr.port]
      exact congrArg htons hport
    · rw [← inetAddr_inetNtop a.addr.addr, ← inetAddr_inetNtop b.addr.addr, haddr]
  · rintro ⟨hport, haddr⟩
    rw [text, text, toPort, toPort, hport, haddr]

theorem toIpPort_eq (a : InetAddress) : a.toIpPort = .ok (String.ofList a.text) :=
  if_pos (Nat.lt_of_le_of_lt length_text_le (by decide))

/-- An address is what its port and its text say. Read back from them it is the same, for every IPv4
address and port; what the constructor makes of any text at all, accepted or not, is read back as well; and
`toIpPort` never overflows its buffer and gives different texts to different addresses. -/
theorem text_round_trip :
    (∀ a : InetAddress, a.addr.family = AF_INET → new a.toPort a.toIp = a) ∧
      (∀ port ip, (new port ip).toPort = port ∧ new port (new port ip).toIp = new port ip) ∧
      (∀ port ip, inetAton ip.toList = none → (new port ip).toIp = "255.255.255.255") ∧
      (∀ a : InetAddress, ∃ s, a.toIpPort = .ok s ∧ s.length ≤ 21) ∧
      ∀ a b : InetAddress, a.addr.family = AF_INET → b.addr.family = AF_INET →
        (a.toIpPort = b.toIpPort ↔ a = b) := by
  have hread : ∀ a : InetAddress, a.addr.family = AF_INET → new a.toPort a.toIp = a := by
    rintro ⟨⟨family, port, addr⟩⟩ rfl
    show (⟨⟨AF_INET, htons (htons port), inetAddr (String.ofList (inetNtop addr)).toList⟩⟩ : InetAddress) = _
    rw [htons_htons, String.toList_ofList, inetAddr_inetNtop]
  refine ⟨hread, fun port ip => ?_, fun port ip hn => ?_, fun a => ?_, fun a b ha hb => ?_⟩
  · have hport : (new port ip).toPort = port := htons_htons port
    refine ⟨hport, ?_⟩
    have h := hread (new port ip) rfl
    rwa [hport] at h
  · rw [toIp, new, inetAddr, hn]
    show String.ofList (inetNtop INADDR_NONE) = _
    decide +kernel
  · refine ⟨_, toIpPort_eq a, ?_⟩
    rw [String.length_ofList]
    exact length_text_le
  · rw [toIpPort_eq, toIpPort_eq, Except.ok.injEq, String.ofList_inj, text_inj]
    constructor
    · rintro ⟨hport, haddr⟩
      rw [← hread a ha, ← hread b hb, toPort, toPort, toIp, toIp, hport, haddr]
    · rintro rfl
      exact ⟨rfl, rfl⟩

theorem round_trip_broadcast : inetAton "300.1.1.1".toList = none ∧
    (new 80 "300.1.1.1").toIp = "255.255.255.255" ∧ (new 80 "0x7f.1").toIp = "127.0.0.1" := by
  have h : inetAton "300.1.1.1".toList = none := by
    decide +kernel
  exact ⟨h, text_round_trip.2.2.1 80 "300.1.1.1" h, by decide +kernel⟩

end InetAddress
end Muduo
