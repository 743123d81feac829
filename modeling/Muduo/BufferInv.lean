import Muduo.Buffer

/-!
# The buffer invariant

`Inv` is what every operation keeps: the two indices in order inside the vector, the vector within
`maxSize`. One lemma per operation says what happens to the readable bytes. The `_ok` lemmas start
from a call that returned; the `_spec` lemmas also show that it returns, when no size it computes
exceeds `maxSize` (`NoOverflow`).
-/

namespace Muduo
namespace Buffer
open Window

structure Inv (b : Buffer) : Prop where
  prepend : kCheapPrepend ≤ b.readerIndex
  reader : b.readerIndex ≤ b.writerIndex
  writer : b.writerIndex ≤ b.buffer.length
  size : b.buffer.length ≤ maxSize

/-- No size that `ensureWriteableBytes inLen` computes exceeds the vector's maximum. -/
def NoOverflow (b : Buffer) (inLen : Nat) : Prop :=
  b.writableBytes < inLen → inLen + kCheapPrepend ≤ maxSize ∧
    (b.writableBytes + b.prependableBytes < inLen + kCheapPrepend → b.writerIndex + inLen ≤ maxSize)

instance (b : Buffer) (inLen : Nat) : Decidable (b.NoOverflow inLen) := by
  unfold NoOverflow; infer_instance

variable {b b' : Buffer} {n inLen : Nat} {data s : Bytes}

theorem NoOverflow.mono (h : b.NoOverflow inLen) (hn : n ≤ inLen) : b.NoOverflow n := by
  intro hlt
  obtain ⟨hsize, hgrow⟩ := h (by omega)
  exact ⟨by omega, fun hroom => Nat.le_trans (by omega) (hgrow (by omega))⟩

namespace Inv

theorem readableBytes_eq (h : b.Inv) : b.readableBytes = b.writerIndex - b.readerIndex :=
  subSize_eq h.reader (Nat.le_trans h.writer h.size)

theorem writableBytes_eq (h : b.Inv) : b.writableBytes = b.buffer.length - b.writerIndex :=
  subSize_eq h.writer h.size

theorem length_readable (h : b.Inv) : b.readable.length = b.readableBytes := by
  rw [readable, length_window h.writer, h.readableBytes_eq]

theorem readableBytes_eq_zero (h : b.Inv) : b.readableBytes = 0 ↔ b.readable = [] := by
  rw [← h.length_readable, List.length_eq_zero_iff]

theorem readable_le_maxSize (h : b.Inv) : b.readable.length ≤ maxSize := by
  rw [h.length_readable, h.readableBytes_eq]
  have := h.writer; have := h.size
  omega

end Inv

/-! ### Construction and retrieval -/

theorem new_spec (h : kCheapPrepend + n ≤ maxSize) :
    ∃ b, new n = .ok b ∧ b.Inv ∧ b.readable = [] := by
  have e : addSize kCheapPrepend n = kCheapPrepend + n := addSize_eq h
  refine ⟨⟨List.replicate (kCheapPrepend + n) 0, kCheapPrepend, kCheapPrepend⟩, ?_, ?_, ?_⟩
  · simp [new, e, h]
  · exact ⟨Nat.le_refl _, Nat.le_refl _, by simp, by simpa using h⟩
  · simp [readable]

theorem new_initial : new kInitialSize = .ok initial := rfl

theorem initial_inv : initial.Inv := by
  have hlen : initial.buffer.length = kCheapPrepend + kInitialSize := List.length_replicate
  refine ⟨Nat.le_refl _, Nat.le_refl _, ?_, ?_⟩
  · rw [hlen]; exact Nat.le_add_right _ _
  · rw [hlen]; decide

@[simp] theorem readable_initial : initial.readable = [] := window_self

theorem Inv.retrieveAll (h : b.Inv) : b.retrieveAll.Inv :=
  ⟨Nat.le_refl _, Nat.le_refl _, Nat.le_trans h.prepend (Nat.le_trans h.reader h.writer), h.size⟩

@[simp] theorem readable_retrieveAll : b.retrieveAll.readable = [] := by
  simp [readable, Buffer.retrieveAll]

theorem Inv.retrieve (h : b.Inv) : (b.retrieve inLen).Inv := by
  unfold Buffer.retrieve
  split
  · rename_i hlt
    rw [h.readableBytes_eq] at hlt
    have hw := h.writer; have hs := h.size; have hp := h.prepend
    have e : addSize b.readerIndex inLen = b.readerIndex + inLen := addSize_eq (by omega)
    exact ⟨by simp only [e]; omega, by simp only [e]; omega, hw, hs⟩
  · exact h.retrieveAll

theorem readable_retrieve (h : b.Inv) : (b.retrieve inLen).readable = b.readable.drop inLen := by
  unfold Buffer.retrieve
  split
  · rename_i hlt
    rw [h.readableBytes_eq] at hlt
    have hw := h.writer; have hs := h.size
    have e : addSize b.readerIndex inLen = b.readerIndex + inLen := addSize_eq (by omega)
    rw [readable, readable, drop_window, e]
  · rename_i hge
    rw [readable_retrieveAll, List.drop_eq_nil_of_le (by rw [h.length_readable]; omega)]

theorem retrieveAsString_spec (h : b.Inv) (hn : inLen ≤ b.readableBytes) :
    b.retrieveAsString inLen = .ok (b.readable.take inLen, b.retrieve inLen) := by
  rw [h.readableBytes_eq] at hn
  have hr := h.reader; have hw := h.writer
  rw [retrieveAsString, if_pos (by omega), readable, take_window (by omega)]

theorem retrieveAllAsString_spec (h : b.Inv) :
    b.retrieveAllAsString = .ok (b.readable, b.retrieveAll) := by
  rw [retrieveAllAsString, retrieveAsString_spec h (Nat.le_refl _), ← h.length_readable,
    List.take_length, Buffer.retrieve, if_neg (by rw [h.length_readable]; omega)]

/-! ### Making space -/

theorem Inv.compact (h : b.Inv) : b.compact.Inv ∧ b.compact.readable = b.readable ∧
    b.compact.buffer.length = b.buffer.length ∧
    b.compact.writerIndex = kCheapPrepend + b.readable.length := by
  have hp := h.prepend; have hr := h.reader; have hw := h.writer; have hs := h.size
  have e : addSize kCheapPrepend b.readableBytes = kCheapPrepend + b.readable.length := by
    rw [h.length_readable, h.readableBytes_eq]; exact addSize_eq (by omega)
  have hlen : b.readable.length = b.writerIndex - b.readerIndex := length_window hw
  have hbuf : b.compact.buffer = overwrite b.buffer kCheapPrepend b.readable := by
    have hsum : b.readerIndex + (b.writerIndex - b.readerIndex) = b.writerIndex := by omega
    rw [Buffer.compact, copyWithin_eq hp (by omega), readable, hsum]
  have hfit : kCheapPrepend + b.readable.length ≤ b.buffer.length := by omega
  have hl : b.compact.buffer.length = b.buffer.length := length_copyWithin
  refine ⟨⟨Nat.le_refl _, ?_, ?_, ?_⟩, ?_, hl, e⟩
  · show kCheapPrepend ≤ addSize kCheapPrepend b.readableBytes
    rw [e]; omega
  · show addSize kCheapPrepend b.readableBytes ≤ b.compact.buffer.length
    rw [e, hl]; exact hfit
  · rw [hl]; exact hs
  · show window b.compact.buffer kCheapPrepend (addSize kCheapPrepend b.readableBytes) = b.readable
    rw [e, hbuf, window_overwrite_self hfit]

theorem resize_eq (ho : b.resize n = .ok b') : n ≤ maxSize ∧
    b' = { b with buffer := b.buffer.take n ++ List.replicate (n - b.buffer.length) 0 } := by
  unfold resize at ho
  split at ho
  · cases ho
    exact ⟨‹_›, rfl⟩
  · cases ho

theorem length_resize (ho : b.resize n = .ok b') :
    b'.buffer.length = n ∧ b'.writerIndex = b.writerIndex := by
  obtain ⟨-, rfl⟩ := resize_eq ho
  refine ⟨?_, rfl⟩
  simp only [List.length_append, List.length_take, List.length_replicate]
  omega

theorem resize_ok (h : b.Inv) (hn : b.writerIndex ≤ n) (ho : b.resize n = .ok b') :
    b'.Inv ∧ b'.readable = b.readable ∧ b'.buffer.length = n ∧ b'.writerIndex = b.writerIndex := by
  obtain ⟨hlen, -⟩ := length_resize ho
  obtain ⟨hmax, rfl⟩ := resize_eq ho
  have hw := h.writer
  refine ⟨⟨h.prepend, h.reader, ?_, ?_⟩, ?_, hlen, rfl⟩
  · rw [hlen]; exact hn
  · rw [hlen]; exact hmax
  · show window (b.buffer.take n ++ _) b.readerIndex b.writerIndex = b.readable
    rw [window_append_left (by simp; omega), window, List.take_take, Nat.min_eq_left hn]
    rfl

/-- What `ensureWriteableBytes` can do: nothing, compact, or resize. -/
theorem ensureWriteableBytes_cases (ho : b.ensureWriteableBytes inLen = .ok b') :
    b' = b ∧ inLen ≤ b.writableBytes ∨
    b' = b.compact ∧ b.writableBytes < inLen ∧
      addSize inLen kCheapPrepend ≤ addSize b.writableBytes b.prependableBytes ∨
    b.resize (addSize b.writerIndex inLen) = .ok b' ∧ b.writableBytes < inLen ∧
      addSize b.writableBytes b.prependableBytes < addSize inLen kCheapPrepend := by
  unfold ensureWriteableBytes at ho
  split at ho
  · rename_i hlt
    unfold makeSpace at ho
    split at ho
    · exact .inr (.inr ⟨ho, hlt, ‹_›⟩)
    · cases ho; exact .inr (.inl ⟨rfl, hlt, by omega⟩)
  · cases ho; exact .inl ⟨rfl, by omega⟩

theorem ensureWriteableBytes_ok (h : b.Inv) (hno : b.NoOverflow inLen)
    (ho : b.ensureWriteableBytes inLen = .ok b') :
    b'.Inv ∧ b'.readable = b.readable ∧ inLen ≤ b'.writableBytes := by
  have hp := h.prepend; have hr := h.reader; have hw := h.writer; have hs := h.size
  obtain ⟨rfl, hle⟩ | ⟨rfl, hlt, hcmp⟩ | ⟨hrs, hlt, hcmp⟩ := ensureWriteableBytes_cases ho
  · exact ⟨h, rfl, hle⟩
  · obtain ⟨hi, hread, hlen, hwi⟩ := h.compact
    refine ⟨hi, hread, ?_⟩
    rw [hi.writableBytes_eq, hlen, hwi, h.length_readable, h.readableBytes_eq]
    rw [addSize_eq (hno hlt).1, h.writableBytes_eq, prependableBytes,
      addSize_eq (by omega)] at hcmp
    omega
  · have hsum : b.writableBytes + b.prependableBytes < inLen + kCheapPrepend := by
      rwa [addSize_eq (hno hlt).1, h.writableBytes_eq, prependableBytes, addSize_eq (by omega),
        ← h.writableBytes_eq] at hcmp
    have e := addSize_eq ((hno hlt).2 hsum)
    obtain ⟨hi, hread, hlen, hwi⟩ := resize_ok h (by omega) (e ▸ hrs)
    exact ⟨hi, hread, by rw [hi.writableBytes_eq, hlen, hwi]; omega⟩

theorem ensureWriteableBytes_spec (h : b.Inv) (hno : b.NoOverflow inLen) :
    ∃ b', b.ensureWriteableBytes inLen = .ok b' ∧ b'.Inv ∧ b'.readable = b.readable ∧
      inLen ≤ b'.writableBytes := by
  have hret : ∃ b', b.ensureWriteableBytes inLen = .ok b' := by
    unfold ensureWriteableBytes makeSpace
    split
    · rename_i hlt
      have hr := h.reader; have hw := h.writer; have hs := h.size
      split
      · rename_i hcmp
        rw [addSize_eq (hno hlt).1, h.writableBytes_eq, prependableBytes, addSize_eq (by omega),
          ← h.writableBytes_eq] at hcmp
        have hmax := (hno hlt).2 hcmp
        exact ⟨_, by rw [addSize_eq hmax, resize, if_pos hmax]⟩
      · exact ⟨_, rfl⟩
    · exact ⟨_, rfl⟩
  obtain ⟨b', ho⟩ := hret
  exact ⟨b', ho, ensureWriteableBytes_ok h hno ho⟩

/-! ### Appending and reading -/

theorem copyIn_ok (ho : b.copyIn data = .ok b') :
    b.writerIndex + data.length ≤ b.buffer.length ∧
      b' = { b with buffer := overwrite b.buffer b.writerIndex data } := by
  unfold copyIn at ho
  split at ho
  · cases ho; exact ⟨‹_›, rfl⟩
  · cases ho

/-- Filling `data` in behind the readable bytes and moving the write index past it. -/
theorem Inv.fill (h : b.Inv) (hfit : b.writerIndex + data.length ≤ b.buffer.length) :
    Inv { b with buffer := overwrite b.buffer b.writerIndex data,
                 writerIndex := addSize b.writerIndex data.length } ∧
      readable { b with buffer := overwrite b.buffer b.writerIndex data,
                        writerIndex := addSize b.writerIndex data.length } = b.readable ++ data := by
  have hr := h.reader; have hs := h.size
  have e : addSize b.writerIndex data.length = b.writerIndex + data.length :=
    addSize_eq (by omega)
  have hl : (overwrite b.buffer b.writerIndex data).length = b.buffer.length :=
    length_overwrite hfit
  refine ⟨⟨h.prepend, ?_, ?_, ?_⟩, ?_⟩
  · simp only [e]; omega
  · simp only [e, hl]; exact hfit
  · simp only [hl]; exact hs
  · simp only [readable, e]
    exact window_overwrite_append hr hfit

/-- `append` after its `ensureWriteableBytes`. -/
def appendRest (b : Buffer) (inData : Bytes) : Except Fault Buffer := do
  let b ← b.copyIn inData
  return { b with writerIndex := addSize b.writerIndex inData.length }

theorem append_eq : b.append data = (b.ensureWriteableBytes data.length >>= (appendRest · data)) :=
  rfl

theorem appendRest_ok (h : b.Inv) (ho : b.appendRest data = .ok b') :
    b.writerIndex + data.length ≤ b.buffer.length ∧ b'.Inv ∧ b'.readable = b.readable ++ data := by
  obtain ⟨c, hc, ho⟩ := bind_eq_ok.1 ho
  obtain ⟨hfit, rfl⟩ := copyIn_ok hc
  cases ho
  exact ⟨hfit, h.fill hfit⟩

/-- An `append` that returns has appended: where a wrapped size leaves too little room, `std::copy`
runs past the vector and there is no return. -/
theorem append_ok (h : b.Inv) (ho : b.append data = .ok b') :
    b'.Inv ∧ b'.readable = b.readable ++ data := by
  rw [append_eq] at ho
  obtain ⟨c, hc, hcopy⟩ := bind_eq_ok.1 ho
  rcases ensureWriteableBytes_cases hc with ⟨rfl, -⟩ | ⟨rfl, -⟩ | ⟨hrs, hlt, -⟩
  · exact (appendRest_ok h hcopy).2
  · obtain ⟨hi, hread, -⟩ := h.compact
    exact hread ▸ (appendRest_ok hi hcopy).2
  · -- the block fits into the resized vector, so the sum did not wrap below the write index
    have hw := h.writer; have hs := h.size
    obtain ⟨d, hd, -⟩ := bind_eq_ok.1 hcopy
    have hfit := (copyIn_ok hd).1
    obtain ⟨hlen, hwi⟩ := length_resize hrs
    obtain ⟨hi, hread, -⟩ := resize_ok h (by omega) hrs
    exact hread ▸ (appendRest_ok hi hcopy).2

theorem append_spec (h : b.Inv) (hno : b.NoOverflow data.length) :
    ∃ b', b.append data = .ok b' ∧ b'.Inv ∧ b'.readable = b.readable ++ data := by
  obtain ⟨c, hc, hi, -, hroom⟩ := ensureWriteableBytes_spec h hno
  rw [hi.writableBytes_eq] at hroom
  have hw := hi.writer
  have happ : ∃ b', b.append data = .ok b' := by
    rw [append_eq, hc]
    simp only [bind, Except.bind, appendRest, copyIn]
    rw [if_pos (by omega)]
    exact ⟨_, rfl⟩
  obtain ⟨b', ho⟩ := happ
  exact ⟨b', ho, append_ok h ho⟩

/-- `::readv` delivers no more than the iovecs hold. -/
def ReadLegal (b : Buffer) : ReadResult → Prop
  | .delivered data => data.length ≤ b.iovecLength
  | .error _ => True

/-- The sizes `readFd` computes when it appends the stack area's part do not overflow. -/
def ReadNoOverflow (b : Buffer) : ReadResult → Prop
  | .delivered data => b.writableBytes < data.length →
      NoOverflow { b with writerIndex := b.buffer.length } (data.length - b.writableBytes)
  | .error _ => True

instance (b : Buffer) (r : ReadResult) : Decidable (b.ReadLegal r) := by
  cases r <;> unfold ReadLegal <;> infer_instance

instance (b : Buffer) (r : ReadResult) : Decidable (b.ReadNoOverflow r) := by
  cases r <;> unfold ReadNoOverflow <;> infer_instance

theorem length_extraBuf_le (h : b.ReadLegal (.delivered data)) :
    (b.extraBuf data).length ≤ kExtraBufSize := by
  simp only [ReadLegal, iovecLength] at h
  rw [extraBuf, List.length_drop]
  split at h <;> omega

theorem readFd_ok {r : ReadResult} {n : Int} (h : b.Inv) (ho : b.readFd r = .ok (n, b')) :
    n = r.count ∧ b'.Inv ∧ b'.readable = b.readable ++ r.bytes := by
  cases r with
  | error e => cases ho; exact ⟨rfl, h, (List.append_nil _).symm⟩
  | delivered data =>
    obtain ⟨c, hc, ho⟩ := bind_eq_ok.1 ho
    obtain ⟨hfit, rfl⟩ := copyIn_ok hc
    have hfill := h.fill hfit
    split at ho
    · rename_i hle
      cases ho
      rw [List.take_of_length_le hle] at hfill ⊢
      exact ⟨rfl, hfill⟩
    · rename_i hgt
      obtain ⟨d, hd, ho⟩ := bind_eq_ok.1 ho
      cases ho
      -- the vector's tail is full, so filling it leaves the write index at the vector's end
      have hend : addSize b.writerIndex (data.take b.writableBytes).length = b.buffer.length := by
        have hw := h.writer; have hs := h.size
        have hl : (data.take b.writableBytes).length = b.writableBytes := by
          rw [List.length_take]; omega
        rw [hl, h.writableBytes_eq, addSize_eq (by omega)]; omega
      rw [hend] at hfill
      obtain ⟨hi, hread⟩ := append_ok hfill.1 hd
      refine ⟨rfl, hi, ?_⟩
      rw [hread, hfill.2, List.append_assoc, extraBuf, List.take_append_drop]
      rfl

theorem readFd_spec {r : ReadResult} (h : b.Inv) (hno : b.ReadNoOverflow r) :
    ∃ b', b.readFd r = .ok (r.count, b') ∧ b'.Inv ∧
      b'.readable = b.readable ++ r.bytes := by
  have hret : ∃ n b', b.readFd r = .ok (n, b') := by
    cases r with
    | error e => exact ⟨_, _, rfl⟩
    | delivered data =>
      have hw := h.writer; have hs := h.size
      have hfit : b.writerIndex + (data.take b.writableBytes).length ≤ b.buffer.length := by
        rw [List.length_take, h.writableBytes_eq]; omega
      simp only [readFd, copyIn, if_pos hfit, bind, Except.bind]
      split
      · exact ⟨_, _, rfl⟩
      · rename_i hgt
        -- `append` runs on the filled vector, whose sizes are those of `b`
        have hend : addSize b.writerIndex (data.take b.writableBytes).length = b.buffer.length := by
          have hl : (data.take b.writableBytes).length = b.writableBytes := by
            rw [List.length_take]; omega
          rw [hl, h.writableBytes_eq, addSize_eq (by omega)]; omega
        have hi := (h.fill hfit).1
        rw [hend] at hi
        have hn : NoOverflow
            { b with buffer := overwrite b.buffer b.writerIndex (data.take b.writableBytes),
                     writerIndex := b.buffer.length } (b.extraBuf data).length := by
          have hl : (overwrite b.buffer b.writerIndex (data.take b.writableBytes)).length =
              b.buffer.length := length_overwrite hfit
          have hn := hno (by omega)
          rw [extraBuf, List.length_drop]
          generalize data.length - b.writableBytes = k at hn ⊢
          generalize overwrite b.buffer b.writerIndex (data.take b.writableBytes) = d at hl ⊢
          simpa only [NoOverflow, writableBytes, prependableBytes, hl] using hn
        obtain ⟨d, hd, -⟩ := append_spec hi hn
        exact ⟨_, d, by rw [hd]; rfl⟩
  obtain ⟨n, b', ho⟩ := hret
  obtain ⟨rfl, hi, hread⟩ := readFd_ok h ho
  exact ⟨b', ho, hi, hread⟩

theorem writeFd_eq {r : WriteResult} (h : b.Inv) :
    b.writeFd r = if b.readable = [] then 0 else r.count :=
  if_congr h.readableBytes_eq_zero rfl rfl

end Buffer
end Muduo
