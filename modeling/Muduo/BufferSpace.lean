import Muduo.BufferBounds

/-!
# Room in the buffer

`makeSpace` either grows the vector or moves the readable bytes to its front. It grows only where the
space in front is shorter than the request, so the vector stays below twice the peak demand; and it
moves only where the space in front is longer than `kCheapPrepend`, so the copy runs to the left.
-/

namespace Muduo
namespace Buffer
open Lts Window

variable {b b' b₀ c : Buffer} {op : Op} {ops : List Op} {n inLen : Nat} {data : Bytes}

/-! ### Compaction -/

/-- `ensureWriteableBytes inLen` comes to the branch of `makeSpace` that moves the readable bytes. -/
def Compacts (b : Buffer) (inLen : Nat) : Prop :=
  b.writableBytes < inLen ∧
    ¬ addSize b.writableBytes b.prependableBytes < addSize inLen kCheapPrepend

instance (b : Buffer) (inLen : Nat) : Decidable (b.Compacts inLen) := by
  unfold Compacts; infer_instance

theorem Compacts.eq (hc : b.Compacts inLen) : b.ensureWriteableBytes inLen = .ok b.compact := by
  rw [ensureWriteableBytes, if_pos hc.1, makeSpace, if_neg hc.2]

/-- The caller's test and the one of `makeSpace` together. -/
theorem Compacts.room (h : b.Inv) (hno : inLen + kCheapPrepend < 2 ^ 64) (hc : b.Compacts inLen) :
    b.buffer.length - b.writerIndex < inLen ∧
      inLen + kCheapPrepend ≤ b.buffer.length - b.writerIndex + b.readerIndex := by
  have hr := h.reader; have hw := h.writer; have hs := h.size
  obtain ⟨hlt, hge⟩ := hc
  rw [h.writableBytes_eq] at hlt
  have e : addSize inLen kCheapPrepend = inLen + kCheapPrepend := Nat.mod_eq_of_lt hno
  rw [h.writableBytes_eq, prependableBytes, addSize_eq (by omega), e] at hge
  exact ⟨hlt, Nat.le_of_not_lt hge⟩

/-- After any number of bytes the forward copy has put that many readable bytes at `kCheapPrepend`,
and what it has still to read is untouched. -/
theorem copyWithin_readable (h : b.Inv) (hn : n ≤ b.readableBytes) :
    copyWithin b.buffer b.readerIndex kCheapPrepend n =
        overwrite b.buffer kCheapPrepend (b.readable.take n) ∧
      window (copyWithin b.buffer b.readerIndex kCheapPrepend n) (b.readerIndex + n) b.writerIndex =
        b.readable.drop n := by
  have hp := h.prepend; have hr := h.reader; have hw := h.writer
  rw [h.readableBytes_eq] at hn
  have hcopy : copyWithin b.buffer b.readerIndex kCheapPrepend n =
      overwrite b.buffer kCheapPrepend (b.readable.take n) := by
    rw [copyWithin_eq hp (by omega), readable, take_window (by omega)]
  refine ⟨hcopy, ?_⟩
  have hlen : (b.readable.take n).length = n := by
    rw [List.length_take, h.length_readable, h.readableBytes_eq]
    omega
  rw [hcopy, show b.readable.drop n = window b.buffer (b.readerIndex + n) b.writerIndex from drop_window]
  refine List.ext_getElem? fun k => ?_
  rw [getElem?_window, getElem?_window, getElem?_overwrite (by omega)]
  split
  · rw [if_neg (by omega), if_neg (by omega)]
  · rfl

/-- Where `ensureWriteableBytes` moves the readable bytes it moves them strictly to the left, each
step of the in-place copy keeps what is still to be read, and the move makes the room in the vector
as it is. -/
theorem compaction_legal (h : b.Inv) (hno : inLen + kCheapPrepend < 2 ^ 64)
    (hc : b.Compacts inLen) :
    kCheapPrepend < b.readerIndex ∧
      (∀ n ≤ b.readableBytes, copyWithin b.buffer b.readerIndex kCheapPrepend n =
          overwrite b.buffer kCheapPrepend (b.readable.take n) ∧
        window (copyWithin b.buffer b.readerIndex kCheapPrepend n) (b.readerIndex + n) b.writerIndex =
          b.readable.drop n) ∧
      ∃ b', b.ensureWriteableBytes inLen = .ok b' ∧ b'.readerIndex = kCheapPrepend ∧
        b'.writerIndex = kCheapPrepend + b.readableBytes ∧
        window b'.buffer kCheapPrepend (kCheapPrepend + b.readableBytes) = b.readable ∧
        inLen ≤ b'.writableBytes ∧ b'.buffer.length = b.buffer.length := by
  obtain ⟨hlt, hroom⟩ := hc.room h hno
  refine ⟨by omega, fun n hn => copyWithin_readable h hn, b.compact, hc.eq, rfl, ?_⟩
  obtain ⟨hi, hread, hlen, hwi⟩ := h.compact
  rw [h.length_readable] at hwi
  have hr := h.reader; have hw := h.writer
  refine ⟨hwi, ?_, ?_, hlen⟩
  · rw [← hwi]
    exact hread
  · rw [hi.writableBytes_eq, hlen, hwi, h.readableBytes_eq]
    omega

/-- Three readable bytes that overlap the place they are moved to. -/
theorem compaction_legal_overlap : ∃ b' : Buffer,
    ensureWriteableBytes ⟨[0, 0, 0, 0, 0, 0, 0, 0, 1, 2, 3, 4, 5], 10, 13⟩ 2 = .ok b' ∧
      window b'.buffer 8 11 = [3, 4, 5] ∧ 2 ≤ b'.writableBytes := by
  have h : Inv ⟨[0, 0, 0, 0, 0, 0, 0, 0, 1, 2, 3, 4, 5], 10, 13⟩ :=
    ⟨by decide, by decide, by decide, by decide⟩
  obtain ⟨-, -, b', ho, -, -, hread, hroom, -⟩ :=
    compaction_legal h (by decide : 2 + kCheapPrepend < 2 ^ 64) (by decide)
  exact ⟨b', ho, hread, hroom⟩

/-! ### Capacity -/

/-- The length a call requests, or the kernel delivers. -/
def Op.length : Op → Nat
  | .append inData => inData.length
  | .ensureWriteableBytes inLen => inLen
  | .readFd r => r.bytes.length
  | _ => 0

/-- What the buffer has to hold for an operation: what is readable, and what is to come. -/
def Op.demand (b : Buffer) (op : Op) : Nat := b.readableBytes + op.length

/-- The greatest demand of a run. -/
def peak (b : Buffer) (ops : List Op) : Nat :=
  (collect after (fun b op => [op.demand b]) b ops).foldr max 0

theorem peak_cons (ho : b.after op = some b') :
    peak b (op :: ops) = max (op.demand b) (peak b' ops) := by
  rw [peak, collect_cons ho, List.singleton_append, List.foldr_cons, peak]

/-- The vector has not shrunk, and has grown to no more than what `n` bytes need. -/
def Within (b : Buffer) (n : Nat) (b' : Buffer) : Prop :=
  b.buffer.length ≤ b'.buffer.length ∧
    b'.buffer.length ≤ max b.buffer.length (2 * n + kCheapPrepend)

theorem within_of_eq (h : b'.buffer.length = b.buffer.length) : b.Within n b' :=
  ⟨Nat.le_of_eq h.symm, by omega⟩

theorem Within.trans {m : Nat} (h : b.Within n c) (h' : c.Within m b') :
    b.Within (max n m) b' := by
  obtain ⟨hle, hmax⟩ := h
  obtain ⟨hle', hmax'⟩ := h'
  exact ⟨by omega, by omega⟩

/-- Growing means that the space in front is shorter than the request. -/
theorem ensureWriteableBytes_within (h : b.Inv) (hno : b.writerIndex + inLen < 2 ^ 64)
    (ho : b.ensureWriteableBytes inLen = .ok b') : b.Within (b.readableBytes + inLen) b' := by
  obtain ⟨rfl, -⟩ | ⟨rfl, -⟩ | ⟨hrs, hlt, hcmp⟩ := ensureWriteableBytes_cases ho
  · exact within_of_eq rfl
  · exact within_of_eq h.compact.2.2.1
  · have hr := h.reader; have hw := h.writer; have hs := h.size
    have hlen := (length_resize hrs).1
    rw [show addSize b.writerIndex inLen = b.writerIndex + inLen from Nat.mod_eq_of_lt hno] at hlen
    have hfront : b.buffer.length - b.writerIndex + b.readerIndex < inLen + kCheapPrepend := by
      have hle : addSize inLen kCheapPrepend ≤ inLen + kCheapPrepend := Nat.mod_le _ _
      rw [h.writableBytes_eq, prependableBytes, addSize_eq (by omega)] at hcmp
      omega
    rw [h.writableBytes_eq] at hlt
    refine ⟨by omega, ?_⟩
    rw [h.readableBytes_eq]
    omega

/-- An `append` that returns has not wrapped its size. -/
theorem append_within (h : b.Inv) (ho : b.append data = .ok b') :
    b.Within (b.readableBytes + data.length) b' := by
  rw [append_eq] at ho
  obtain ⟨c, hc, ho⟩ := bind_eq_ok.1 ho
  obtain ⟨d, hd, ho⟩ := bind_eq_ok.1 ho
  obtain ⟨hfit, rfl⟩ := copyIn_ok hd
  cases ho
  have hlen : (overwrite c.buffer c.writerIndex data).length = c.buffer.length :=
    length_overwrite hfit
  have hcw : b.Within (b.readableBytes + data.length) c := by
    by_cases hno : b.writerIndex + data.length < 2 ^ 64
    · exact ensureWriteableBytes_within h hno hc
    · obtain ⟨rfl, -⟩ | ⟨rfl, -⟩ | ⟨hrs, -⟩ := ensureWriteableBytes_cases hc
      · exact within_of_eq rfl
      · exact within_of_eq h.compact.2.2.1
      · -- the block fits behind the write index, which the wrapped size is below
        obtain ⟨hl, hwi⟩ := length_resize hrs
        have hwrap : addSize b.writerIndex data.length < 2 ^ 64 := Nat.mod_lt _ (by decide)
        omega
  unfold Within at hcw ⊢
  dsimp only
  rwa [hlen]

/-- The part in the stack area is what the vector's tail has no room for. -/
theorem readFd_within {r : ReadResult} {k : Int} (h : b.Inv) (ho : b.readFd r = .ok (k, b')) :
    b.Within (b.readableBytes + r.bytes.length) b' := by
  cases r with
  | error e => cases ho; exact within_of_eq rfl
  | delivered data =>
    obtain ⟨c, hc, ho⟩ := bind_eq_ok.1 ho
    obtain ⟨hfit, rfl⟩ := copyIn_ok hc
    have hlen : (overwrite b.buffer b.writerIndex (data.take b.writableBytes)).length =
        b.buffer.length := length_overwrite hfit
    split at ho
    · cases ho
      exact within_of_eq hlen
    · rename_i hgt
      obtain ⟨d, hd, ho⟩ := bind_eq_ok.1 ho
      cases ho
      have hr := h.reader; have hw := h.writer
      have hi : Inv { b with buffer := overwrite b.buffer b.writerIndex (data.take b.writableBytes),
                             writerIndex := b.buffer.length } :=
        ⟨h.prepend, Nat.le_trans hr hw, Nat.le_of_eq hlen.symm, hlen ▸ h.size⟩
      have hwithin := append_within hi hd
      have hdemand : readableBytes
            { b with buffer := overwrite b.buffer b.writerIndex (data.take b.writableBytes),
                     writerIndex := b.buffer.length } + (b.extraBuf data).length =
          b.readableBytes + data.length := by
        rw [hi.readableBytes_eq, h.readableBytes_eq, extraBuf, List.length_drop,
          h.writableBytes_eq]
        rw [h.writableBytes_eq] at hgt
        dsimp only
        omega
      rw [hdemand] at hwithin
      unfold Within at hwithin ⊢
      rwa [hlen] at hwithin

theorem length_retrieve : (b.retrieve inLen).buffer = b.buffer := by
  unfold retrieve
  split <;> rfl

/-- One operation, returning or throwing. -/
theorem after_within (h : b.Inv) (hno : op.NoWrap b) (ho : b.after op = some b') :
    b.Within (op.demand b) b' := by
  cases after_some ho with
  | append ho => exact append_within h ho
  | retrieve | retrieveAllAsString | retrieveAsString =>
    exact within_of_eq (by rw [length_retrieve])
  | retrieveAll => exact within_of_eq rfl
  | ensureWriteableBytes ho => exact ensureWriteableBytes_within h hno ho
  | readFd ho => exact readFd_within h ho
  | filled hfit => exact within_of_eq (length_overwrite hfit)
  | same => exact within_of_eq rfl

theorem run_within (h : b.Inv) (hno : Along after (fun b op => op.NoWrap b) b ops)
    (hr : run after b ops = some b') : b.Within (peak b ops) b' := by
  induction ops generalizing b with
  | nil => cases hr; exact within_of_eq rfl
  | cons op ops ih =>
    obtain ⟨c, hc, hr⟩ := run_cons_some.1 hr
    rw [peak_cons hc]
    exact (after_within h hno.1 hc).trans (ih (h.after hno.1 hc) (hno.2 c hc) hr)

/-- From any initial size and over any run whose sizes do not wrap the vector never shrinks, and it
never exceeds the size it began with or twice the peak demand, whichever is more. -/
theorem capacity_bounded (inInitialSize : Nat) (hsize : kCheapPrepend + inInitialSize < 2 ^ 64)
    (hnew : new inInitialSize = .ok b₀) (ops : List Op)
    (hno : Along after (fun b op => op.NoWrap b) b₀ ops) (hr : run after b₀ ops = some b) :
    (∀ pre c, pre <+: ops → run after b₀ pre = some c → c.buffer.length ≤ b.buffer.length) ∧
      b.buffer.length ≤ max (kCheapPrepend + inInitialSize) (2 * peak b₀ ops + kCheapPrepend) := by
  have hi := new_inv hsize hnew
  constructor
  · rintro pre c ⟨post, rfl⟩ hc
    obtain ⟨d, hd, hr⟩ := run_append_some.1 hr
    cases hc.symm.trans hd
    obtain ⟨hpre, hpost⟩ := hno.append
    have hci : c.Inv := run_inv_along (fun _ _ _ hno ho hi => Inv.after hi hno ho) hpre hc hi
    exact (run_within hci (hpost c hc) hr).1
  · have hlen : b₀.buffer.length = kCheapPrepend + inInitialSize := by
      unfold new at hnew
      rw [show addSize kCheapPrepend inInitialSize = kCheapPrepend + inInitialSize from
        Nat.mod_eq_of_lt hsize] at hnew
      dsimp only at hnew
      split at hnew
      · cases hnew
        exact List.length_replicate
      · cases hnew
    rw [← hlen]
    exact (run_within hi hno hr).2

/-- Nine bytes in a buffer of four, seven of them read, and nine more: the peak demand is eleven. -/
theorem capacity_bounded_drift : ∃ b₀ b, new 4 = .ok b₀ ∧
    run after b₀ [.append [1, 2, 3, 4, 5, 6, 7, 8, 9], .retrieve 7,
      .append [1, 2, 3, 4, 5, 6, 7, 8, 9]] = some b ∧ b.buffer.length ≤ 30 := by
  have hrun : run after ⟨List.replicate 12 0, 8, 8⟩ [.append [1, 2, 3, 4, 5, 6, 7, 8, 9], .retrieve 7,
      .append [1, 2, 3, 4, 5, 6, 7, 8, 9]] = some ⟨[0, 0, 0, 0, 0, 0, 0, 0, 1, 2, 3, 4, 5, 6, 7, 8, 9,
        1, 2, 3, 4, 5, 6, 7, 8, 9], 15, 26⟩ := by decide
  exact ⟨_, _, rfl, hrun, (capacity_bounded 4 (by decide) rfl _ (by decide) hrun).2⟩

end Buffer
end Muduo
