import Muduo.BufferFifo

/-!
# Sizes that wrap, and bytes past the write index

Every buffer a program can hold comes from a constructor by operations that returned or threw
(`after`). `ensureWriteableBytes` does what it says on such a buffer exactly when
`m_writerIndex + inLen` does not wrap, and `retrieveAsString` exactly when it is asked for no more
than is readable.
-/

namespace Muduo
namespace Buffer
open Lts Window

/-- The buffer left by an operation that throws: `readFd` has filled the vector's tail by then,
nothing else has changed anything. -/
def Op.thrown (b : Buffer) : Op → Buffer
  | .readFd (.delivered data) =>
    { b with
      buffer := overwrite b.buffer b.writerIndex (data.take b.writableBytes)
      writerIndex := b.buffer.length }
  | _ => b

/-- The buffer after an operation that returns or throws. -/
def after (b : Buffer) (op : Op) : Option Buffer :=
  match op.exec b with
  | .ok (_, b') => some b'
  | .error .lengthError => some (op.thrown b)
  | .error _ => none

/-- The constructor throws or puts the indices inside the vector. -/
def NewSound (inInitialSize : Nat) : Prop :=
  new inInitialSize = .error .lengthError ∨
    ∃ b, new inInitialSize = .ok b ∧ kCheapPrepend ≤ b.readerIndex ∧
      b.readerIndex ≤ b.writerIndex ∧ b.writerIndex ≤ b.buffer.length

/-- `ensureWriteableBytes` throws and leaves the buffer alone, or makes the room it was asked for. -/
def EnsureSound (b : Buffer) (inLen : Nat) : Prop :=
  b.ensureWriteableBytes inLen = .error .lengthError ∧
      b.after (.ensureWriteableBytes inLen) = some b ∨
    ∃ b', b.ensureWriteableBytes inLen = .ok b' ∧ inLen ≤ b'.writableBytes ∧
      b'.readable = b.readable ∧ kCheapPrepend ≤ b'.readerIndex ∧
      b'.readerIndex ≤ b'.writerIndex ∧ b'.writerIndex ≤ b'.buffer.length

/-- The sum `m_writerIndex + inLen` of a call of `ensureWriteableBytes` stays below `2 ^ 64`. -/
def Op.NoWrap (b : Buffer) : Op → Prop
  | .ensureWriteableBytes inLen => b.writerIndex + inLen < 2 ^ 64
  | _ => True

instance (b : Buffer) : (op : Op) → Decidable (op.NoWrap b)
  | .ensureWriteableBytes inLen => inferInstanceAs (Decidable (b.writerIndex + inLen < 2 ^ 64))
  | .append _ | .retrieve _ | .retrieveAll | .retrieveAllAsString | .retrieveAsString _
  | .readFd _ | .writeFd _ => .isTrue trivial

variable {b b' b₀ c : Buffer} {op : Op} {ops : List Op} {n inLen : Nat} {data : Bytes}

/-! ### The constructor -/

theorem newSound_iff (hn : n < 2 ^ 64) : NewSound n ↔ kCheapPrepend + n < 2 ^ 64 := by
  unfold NewSound new
  dsimp only
  by_cases hwrap : kCheapPrepend + n < 2 ^ 64
  · have e : addSize kCheapPrepend n = kCheapPrepend + n := Nat.mod_eq_of_lt hwrap
    refine iff_of_true ?_ hwrap
    rw [e]
    split
    · exact .inr ⟨_, rfl, Nat.le_refl _, Nat.le_refl _, by simp⟩
    · exact .inl rfl
  · -- the wrapped size is below `kCheapPrepend`, where both indices are
    have e : addSize kCheapPrepend n < kCheapPrepend := by
      simp only [addSize, kCheapPrepend] at *; omega
    have hmax : addSize kCheapPrepend n ≤ maxSize := by
      simp only [kCheapPrepend, maxSize] at *; omega
    refine iff_of_false ?_ hwrap
    rw [if_pos hmax]
    rintro (h | ⟨b, h, -, -, hw⟩)
    · cases h
    · cases h
      rw [List.length_replicate] at hw
      exact absurd hw (Nat.not_le_of_lt e)

theorem new_inv (hn : kCheapPrepend + n < 2 ^ 64) (ho : new n = .ok b) : b.Inv := by
  have e : addSize kCheapPrepend n = kCheapPrepend + n := Nat.mod_eq_of_lt hn
  unfold new at ho
  rw [e] at ho
  dsimp only at ho
  split at ho
  · cases ho
    exact ⟨Nat.le_refl _, Nat.le_refl _, by simp, by simpa⟩
  · cases ho

/-! ### Making space -/

/-- Without a wrap the vector grows, or the throw comes before anything has moved. -/
theorem ensureWriteableBytes_sound (h : b.Inv) (hlt : b.writerIndex + inLen < 2 ^ 64) :
    b.ensureWriteableBytes inLen = .error .lengthError ∨
      ∃ b', b.ensureWriteableBytes inLen = .ok b' ∧ b'.Inv ∧ b'.readable = b.readable ∧
        inLen ≤ b'.writableBytes := by
  have hp := h.prepend; have hr := h.reader; have hw := h.writer; have hs := h.size
  by_cases hmax : b.writerIndex + inLen ≤ maxSize
  · exact .inr (ensureWriteableBytes_spec h fun _ => ⟨by omega, fun _ => hmax⟩)
  have e : addSize b.writerIndex inLen = b.writerIndex + inLen := Nat.mod_eq_of_lt hlt
  have e₁ : addSize inLen kCheapPrepend = inLen + kCheapPrepend :=
    Nat.mod_eq_of_lt (by omega)
  by_cases hroom : b.writableBytes + b.prependableBytes < inLen + kCheapPrepend
  · -- more than a vector can hold
    left
    have hgrow : addSize b.writableBytes b.prependableBytes < addSize inLen kCheapPrepend := by
      rw [h.writableBytes_eq, prependableBytes] at hroom ⊢
      rwa [e₁, addSize_eq (by omega)]
    rw [ensureWriteableBytes, if_pos (by rw [h.writableBytes_eq]; omega), makeSpace, if_pos hgrow, e,
      resize, if_neg hmax]
  · -- compaction makes the room
    refine .inr (ensureWriteableBytes_spec h fun _ => ⟨?_, fun hlt => absurd hlt hroom⟩)
    rw [h.writableBytes_eq, prependableBytes] at hroom
    omega

/-- A wrapped sum: `inLen + kCheapPrepend` wraps too and nothing grows, or the vector is cut short of
its write index. -/
theorem ensureWriteableBytes_wrapped (h : b.Inv) (hn : inLen < 2 ^ 64)
    (hwrap : 2 ^ 64 ≤ b.writerIndex + inLen) :
    ∃ b', b.ensureWriteableBytes inLen = .ok b' ∧
      (b'.writableBytes < inLen ∨ b'.buffer.length < b'.writerIndex) := by
  have hp := h.prepend; have hr := h.reader; have hw := h.writer; have hs := h.size
  have hmax : maxSize < 2 ^ 63 := by decide
  rw [ensureWriteableBytes, if_pos (by rw [h.writableBytes_eq]; omega), makeSpace]
  split
  · have e : addSize b.writerIndex inLen < b.writerIndex := by
      simp only [addSize]; omega
    refine ⟨_, by rw [resize, if_pos (by omega)], .inr ?_⟩
    dsimp only
    rw [List.length_append, List.length_take, List.length_replicate]
    omega
  · obtain ⟨hi, -, hlen, -⟩ := h.compact
    refine ⟨_, rfl, .inl ?_⟩
    rw [hi.writableBytes_eq, hlen]
    omega

theorem ensureSound_iff (h : b.Inv) (hn : inLen < 2 ^ 64) :
    EnsureSound b inLen ↔ b.writerIndex + inLen < 2 ^ 64 := by
  constructor
  · intro hsound
    by_contra hwrap
    obtain ⟨c, hc, hbad⟩ := ensureWriteableBytes_wrapped h hn (Nat.le_of_not_lt hwrap)
    unfold EnsureSound at hsound
    rw [hc] at hsound
    rcases hsound with ⟨he, -⟩ | ⟨b', ho, hroom, -, -, -, hin⟩
    · cases he
    · cases ho
      omega
  · intro hlt
    rcases ensureWriteableBytes_sound h hlt with he | ⟨b', ho, hi, hread, hroom⟩
    · refine .inl ⟨he, ?_⟩
      simp only [after, Op.exec, he]
      rfl
    · exact .inr ⟨b', ho, hroom, hread, hi.prepend, hi.reader, hi.writer⟩

theorem after_cases (ho : b.after op = some b') :
    (∃ o, op.exec b = .ok (o, b')) ∨ op.exec b = .error .lengthError ∧ b' = op.thrown b := by
  unfold after at ho
  split at ho
  · rename_i o d he
    cases ho
    exact .inl ⟨o, he⟩
  · rename_i he
    cases ho
    exact .inr ⟨he, rfl⟩
  · cases ho

theorem retrieveAsString_ok {s : Bytes} (ho : b.retrieveAsString inLen = .ok (s, b')) :
    b.readerIndex + inLen ≤ b.buffer.length ∧
      s = window b.buffer b.readerIndex (b.readerIndex + inLen) ∧ b' = b.retrieve inLen := by
  unfold retrieveAsString at ho
  split at ho
  · cases ho; exact ⟨‹_›, rfl, rfl⟩
  · cases ho

/-- `readFd` throws only in its `append`, with the vector's tail filled. -/
theorem readFd_lengthError {r : ReadResult} (ho : b.readFd r = .error .lengthError) :
    ∃ data, r = .delivered data ∧ b.writableBytes < data.length ∧
      b.writerIndex + (data.take b.writableBytes).length ≤ b.buffer.length := by
  cases r with
  | error e => cases ho
  | delivered data =>
    refine ⟨data, rfl, ?_⟩
    by_cases hfit : b.writerIndex + (data.take b.writableBytes).length ≤ b.buffer.length
    · refine ⟨?_, hfit⟩
      by_contra hle
      simp only [readFd, copyIn, if_pos hfit, bind, Except.bind, if_pos (Nat.le_of_not_lt hle)] at ho
      cases ho
    · simp only [readFd, copyIn, if_neg hfit, bind, Except.bind] at ho
      cases ho

/-- What an operation leaves behind, returning or throwing; a `readFd` that throws in its `append` has
filled the vector's tail, any other that throws, and `writeFd`, leave the buffer alone. -/
inductive Stepped (b : Buffer) : Op → Buffer → Prop
  | append {data : Bytes} {b' : Buffer} (ho : b.append data = .ok b') : Stepped b (.append data) b'
  | retrieve (inLen : Nat) : Stepped b (.retrieve inLen) (b.retrieve inLen)
  | retrieveAll : Stepped b .retrieveAll b.retrieveAll
  | retrieveAllAsString : Stepped b .retrieveAllAsString (b.retrieve b.readableBytes)
  | retrieveAsString (inLen : Nat) : Stepped b (.retrieveAsString inLen) (b.retrieve inLen)
  | ensureWriteableBytes {inLen : Nat} {b' : Buffer} (ho : b.ensureWriteableBytes inLen = .ok b') :
    Stepped b (.ensureWriteableBytes inLen) b'
  | readFd {r : ReadResult} {k : Int} {b' : Buffer} (ho : b.readFd r = .ok (k, b')) :
    Stepped b (.readFd r) b'
  | filled {data : Bytes}
    (hfit : b.writerIndex + (data.take b.writableBytes).length ≤ b.buffer.length) :
    Stepped b (.readFd (.delivered data)) (Op.thrown b (.readFd (.delivered data)))
  | same (op : Op) : Stepped b op b

theorem after_some (ho : b.after op = some b') : Stepped b op b' := by
  rcases after_cases ho with ⟨o, he⟩ | ⟨he, rfl⟩
  · cases op with
    | append data =>
      obtain ⟨c, hc, he⟩ := map_eq_ok.1 he
      cases he
      exact .append hc
    | retrieve inLen =>
      cases he
      exact .retrieve inLen
    | retrieveAll =>
      cases he
      exact .retrieveAll
    | retrieveAllAsString =>
      obtain ⟨⟨s, c⟩, hc, he⟩ := map_eq_ok.1 he
      cases he
      obtain ⟨-, -, rfl⟩ := retrieveAsString_ok hc
      exact .retrieveAllAsString
    | retrieveAsString inLen =>
      obtain ⟨⟨s, c⟩, hc, he⟩ := map_eq_ok.1 he
      cases he
      obtain ⟨-, -, rfl⟩ := retrieveAsString_ok hc
      exact .retrieveAsString inLen
    | ensureWriteableBytes inLen =>
      obtain ⟨c, hc, he⟩ := map_eq_ok.1 he
      cases he
      exact .ensureWriteableBytes hc
    | readFd r =>
      obtain ⟨⟨k, c⟩, hc, he⟩ := map_eq_ok.1 he
      cases he
      exact .readFd hc
    | writeFd r =>
      cases he
      exact .same _
  · cases op with
    | readFd r =>
      obtain ⟨data, rfl, -, hfit⟩ := readFd_lengthError (map_eq_error.1 he)
      exact .filled hfit
    | append _ | retrieve _ | retrieveAll | retrieveAllAsString | retrieveAsString _
    | ensureWriteableBytes _ | writeFd _ => exact .same _

/-- The vector with its tail filled keeps its size. -/
theorem Inv.thrown (h : b.Inv)
    (hfit : b.writerIndex + (data.take b.writableBytes).length ≤ b.buffer.length) :
    (Op.thrown b (.readFd (.delivered data))).Inv := by
  have hl : (overwrite b.buffer b.writerIndex (data.take b.writableBytes)).length =
      b.buffer.length := length_overwrite hfit
  have hr := h.reader; have hw := h.writer
  exact ⟨h.prepend, Nat.le_trans hr hw, Nat.le_of_eq hl.symm, hl ▸ h.size⟩

theorem Inv.after (h : b.Inv) (hno : op.NoWrap b) (ho : b.after op = some b') : b'.Inv := by
  cases after_some ho with
  | append ho => exact (append_ok h ho).1
  | retrieve | retrieveAllAsString | retrieveAsString => exact h.retrieve
  | retrieveAll => exact h.retrieveAll
  | ensureWriteableBytes hc =>
    rcases ensureWriteableBytes_sound h hno with hf | ⟨d, hd, hi, -⟩
    · rw [hc] at hf; cases hf
    · rw [hc] at hd; cases hd
      exact hi
  | readFd ho => exact (readFd_ok h ho).2.1
  | filled hfit => exact h.thrown hfit
  | same => exact h

/-- For every initial size the constructor throws or is right, and for every buffer then reached and
every length `ensureWriteableBytes` throws or is right, exactly when their sums do not wrap. -/
theorem buffer_sizes_sound_iff (inInitialSize : Nat) (hsize : inInitialSize < 2 ^ 64) :
    (NewSound inInitialSize ↔ kCheapPrepend + inInitialSize < 2 ^ 64) ∧
      ∀ b₀, kCheapPrepend + inInitialSize < 2 ^ 64 → new inInitialSize = .ok b₀ →
        ∀ ops b, Along after (fun b op => op.NoWrap b) b₀ ops → run after b₀ ops = some b →
          ∀ inLen, inLen < 2 ^ 64 → (EnsureSound b inLen ↔ b.writerIndex + inLen < 2 ^ 64) := by
  refine ⟨newSound_iff hsize, fun b₀ hno hnew ops b hC hrun inLen hlen => ?_⟩
  have hi : b.Inv := run_inv_along (fun _ _ _ hno ho hi => Inv.after hi hno ho) hC hrun (new_inv hno hnew)
  exact ensureSound_iff hi hlen

theorem buffer_sizes_sound_iff_small : ∃ b₀ b, new 4 = .ok b₀ ∧
    run after b₀ [.append [1, 2, 3], .retrieve 2, .ensureWriteableBytes 3] = some b ∧
      EnsureSound b 100 := by
  obtain ⟨-, h⟩ := buffer_sizes_sound_iff 4 (by decide)
  have hrun : run after ⟨List.replicate 12 0, 8, 8⟩
      [.append [1, 2, 3], .retrieve 2, .ensureWriteableBytes 3] =
        some ⟨[0, 0, 0, 0, 0, 0, 0, 0, 3, 2, 3, 0], 8, 9⟩ := by decide
  exact ⟨_, _, rfl, hrun, (h _ (by decide) rfl _ _ (by decide) hrun 100 (by decide)).2 (by decide)⟩

/-- A constructor that allocates seven bytes and puts its indices at eight, and a request for all but
eight of `2 ^ 64` bytes that is content with the sixteen there are. -/
theorem buffer_sizes_wrap :
    ¬ NewSound (2 ^ 64 - 1) ∧
      ∃ b, new 16 = .ok b ∧ b.ensureWriteableBytes (2 ^ 64 - 8) = .ok b ∧ b.writableBytes = 16 ∧
        ¬ EnsureSound b (2 ^ 64 - 8) := by
  refine ⟨?_, ⟨List.replicate 24 0, 8, 8⟩, rfl, by decide, by decide, ?_⟩
  · rw [newSound_iff (by decide)]
    decide
  · rw [ensureSound_iff ⟨by decide, by decide, by decide, by decide⟩ (by decide)]
    decide

/-! ### Retrieval -/

/-- What every buffer keeps, its sums wrapped or not: the vector may be short of the write index. -/
structure Ordered (b : Buffer) : Prop where
  prepend : kCheapPrepend ≤ b.readerIndex
  reader : b.readerIndex ≤ b.writerIndex
  writer : b.writerIndex < 2 ^ 64
  size : b.buffer.length ≤ maxSize

namespace Ordered

theorem readableBytes_eq (h : b.Ordered) : b.readableBytes = b.writerIndex - b.readerIndex := by
  have hr := h.reader; have hw := h.writer
  simp only [readableBytes, subSize]
  omega

theorem length_readable_le (h : b.Ordered) : b.readable.length ≤ b.readableBytes := by
  rw [h.readableBytes_eq, readable, window, List.length_drop, List.length_take]
  omega

theorem retrieveAll (h : b.Ordered) : b.retrieveAll.Ordered :=
  ⟨Nat.le_refl _, Nat.le_refl _, (by decide : kCheapPrepend < 2 ^ 64), h.size⟩

/-- `m_readerIndex` moves no further than `m_writerIndex`. -/
theorem addSize_reader (h : b.Ordered) (hlt : inLen < b.readableBytes) :
    addSize b.readerIndex inLen = b.readerIndex + inLen ∧ b.readerIndex + inLen ≤ b.writerIndex := by
  rw [h.readableBytes_eq] at hlt
  have hw := h.writer
  exact ⟨Nat.mod_eq_of_lt (by omega), by omega⟩

theorem retrieve (h : b.Ordered) : (b.retrieve inLen).Ordered := by
  unfold Buffer.retrieve
  split
  · rename_i hlt
    obtain ⟨e, hle⟩ := h.addSize_reader hlt
    have hp := h.prepend
    exact ⟨by simp only [e]; omega, by simpa only [e], h.writer, h.size⟩
  · exact h.retrieveAll

theorem readable_retrieve (h : b.Ordered) :
    (b.retrieve inLen).readable = b.readable.drop (min inLen b.readableBytes) := by
  unfold Buffer.retrieve
  split
  · rename_i hlt
    rw [readable, readable, drop_window, (h.addSize_reader hlt).1, Nat.min_eq_left (Nat.le_of_lt hlt)]
  · rename_i hge
    rw [readable_retrieveAll, Nat.min_eq_right (Nat.le_of_not_lt hge),
      List.drop_eq_nil_of_le h.length_readable_le]

theorem ensureWriteableBytes (h : b.Ordered) (ho : b.ensureWriteableBytes inLen = .ok b') :
    b'.Ordered := by
  obtain ⟨rfl, -⟩ | ⟨rfl, -⟩ | ⟨hrs, -⟩ := ensureWriteableBytes_cases ho
  · exact h
  · have hp := h.prepend; have hr := h.reader; have hw := h.writer
    have e : addSize kCheapPrepend b.readableBytes =
        kCheapPrepend + (b.writerIndex - b.readerIndex) := by
      rw [h.readableBytes_eq]; exact Nat.mod_eq_of_lt (by omega)
    refine ⟨Nat.le_refl _, ?_, Nat.mod_lt _ (by decide), ?_⟩
    · show kCheapPrepend ≤ addSize kCheapPrepend b.readableBytes
      rw [e]; omega
    · rw [show b.compact.buffer.length = b.buffer.length from length_copyWithin]; exact h.size
  · obtain ⟨hlen, -⟩ := length_resize hrs
    obtain ⟨hmax, rfl⟩ := resize_eq hrs
    exact ⟨h.prepend, h.reader, h.writer, by rw [hlen]; exact hmax⟩

/-- Filling a block in behind the write index. -/
theorem fill (h : b.Ordered) (hfit : b.writerIndex + data.length ≤ b.buffer.length) :
    Ordered { b with buffer := overwrite b.buffer b.writerIndex data,
                     writerIndex := addSize b.writerIndex data.length } := by
  have hr := h.reader; have hs := h.size
  have e : addSize b.writerIndex data.length = b.writerIndex + data.length :=
    addSize_eq (by omega)
  have hl : (overwrite b.buffer b.writerIndex data).length = b.buffer.length :=
    length_overwrite hfit
  exact ⟨h.prepend, by simp only [e]; omega, Nat.mod_lt _ (by decide), by simp only [hl]; exact hs⟩

theorem append (h : b.Ordered) (ho : b.append data = .ok b') : b'.Ordered := by
  obtain ⟨c, hc, ho⟩ := bind_eq_ok.1 ho
  obtain ⟨d, hd, ho⟩ := bind_eq_ok.1 ho
  obtain ⟨hfit, rfl⟩ := copyIn_ok hd
  cases ho
  exact (h.ensureWriteableBytes hc).fill hfit

/-- The vector with its tail filled. -/
theorem filled (h : b.Ordered)
    (hfit : b.writerIndex + (data.take b.writableBytes).length ≤ b.buffer.length) :
    Ordered { b with buffer := overwrite b.buffer b.writerIndex (data.take b.writableBytes),
                     writerIndex := b.buffer.length } := by
  have hr := h.reader; have hs := h.size
  have hl : (overwrite b.buffer b.writerIndex (data.take b.writableBytes)).length =
      b.buffer.length := length_overwrite hfit
  have hmax : maxSize < 2 ^ 64 := by decide
  exact ⟨h.prepend, by dsimp only; omega, by dsimp only; omega, by dsimp only; omega⟩

theorem readFd {r : ReadResult} {k : Int} (h : b.Ordered) (ho : b.readFd r = .ok (k, b')) :
    b'.Ordered := by
  cases r with
  | error e => cases ho; exact h
  | delivered data =>
    obtain ⟨c, hc, ho⟩ := bind_eq_ok.1 ho
    obtain ⟨hfit, rfl⟩ := copyIn_ok hc
    split at ho
    · rename_i hle
      cases ho
      rw [List.take_of_length_le hle] at hfit ⊢
      exact h.fill hfit
    · obtain ⟨d, hd, ho⟩ := bind_eq_ok.1 ho
      cases ho
      exact (h.filled hfit).append hd

theorem after (h : b.Ordered) (ho : b.after op = some b') : b'.Ordered := by
  cases after_some ho with
  | append ho => exact h.append ho
  | retrieve | retrieveAllAsString | retrieveAsString => exact h.retrieve
  | retrieveAll => exact h.retrieveAll
  | ensureWriteableBytes ho => exact h.ensureWriteableBytes ho
  | readFd ho => exact h.readFd ho
  | filled hfit => exact h.filled hfit
  | same => exact h

end Ordered

theorem new_ordered (ho : new n = .ok b) : b.Ordered := by
  unfold new at ho
  dsimp only at ho
  split at ho
  · cases ho
    exact ⟨Nat.le_refl _, Nat.le_refl _, (by decide : kCheapPrepend < 2 ^ 64), by simpa⟩
  · cases ho

/-- A buffer some constructor and some operations lead to. -/
def Reachable (b : Buffer) : Prop :=
  ∃ inInitialSize b₀ ops, new inInitialSize = .ok b₀ ∧ run after b₀ ops = some b

theorem Reachable.ordered (h : b.Reachable) : b.Ordered := by
  obtain ⟨n, b₀, ops, hnew, hrun⟩ := h
  exact run_inv (fun _ _ _ ho hi => Ordered.after hi ho) hrun (new_ordered hnew)

/-- `retrieveAsString` returns the first readable bytes and consumes those. -/
def RetrieveSound (b : Buffer) (inLen : Nat) : Prop :=
  ∃ b', b.retrieveAsString inLen = .ok (b.readable.take (min inLen b.readableBytes), b') ∧
    b'.readable = b.readable.drop (min inLen b.readableBytes)

theorem Ordered.retrieveSound_iff (h : b.Ordered) : RetrieveSound b inLen ↔
    inLen ≤ b.readableBytes ∧ b.readerIndex + inLen ≤ b.buffer.length := by
  constructor
  · rintro ⟨b', ho, -⟩
    obtain ⟨hfit, hs, -⟩ := retrieveAsString_ok ho
    refine ⟨?_, hfit⟩
    have hlen := congrArg List.length hs
    rw [length_window hfit, List.length_take] at hlen
    omega
  · rintro ⟨hle, hfit⟩
    have hr := h.reader
    refine ⟨b.retrieve inLen, ?_, h.readable_retrieve⟩
    rw [h.readableBytes_eq] at hle
    rw [Nat.min_eq_left (h.readableBytes_eq ▸ hle), retrieveAsString, if_pos hfit, readable,
      take_window (by omega)]

/-- On every buffer a program can hold `retrieveAsString` is right exactly for the lengths that are
readable, and then the string depends on the readable bytes alone. That those lengths stay inside the
vector is in doubt only where a wrapped size has cut it short of the write index. -/
theorem retrieveAsString_sound_iff (h : b.Reachable) (hc : c.Reachable)
    (hbc : b.readable = c.readable) (inLen : Nat) :
    (RetrieveSound b inLen ↔
        inLen ≤ b.readableBytes ∧ b.readerIndex + inLen ≤ b.buffer.length) ∧
      (b.writerIndex ≤ b.buffer.length → (RetrieveSound b inLen ↔ inLen ≤ b.readableBytes)) ∧
      (RetrieveSound b inLen → RetrieveSound c inLen →
        (b.retrieveAsString inLen).map Prod.fst = (c.retrieveAsString inLen).map Prod.fst) := by
  refine ⟨h.ordered.retrieveSound_iff, fun hw => ?_, fun hsb hsc => ?_⟩
  · rw [h.ordered.retrieveSound_iff, and_iff_left_iff_imp, h.ordered.readableBytes_eq]
    have hr := h.ordered.reader
    omega
  · have hb := (h.ordered.retrieveSound_iff.1 hsb).1
    have hcl := (hc.ordered.retrieveSound_iff.1 hsc).1
    obtain ⟨b', hb', -⟩ := hsb
    obtain ⟨c', hc', -⟩ := hsc
    rw [hb', hc', Nat.min_eq_left hb, Nat.min_eq_left hcl, hbc]
    rfl

/-- `[9]` readable in a buffer that held three bytes before. -/
def reused : Buffer := ⟨[0, 0, 0, 0, 0, 0, 0, 0, 9, 2, 3, 0], 8, 9⟩

/-- `[9]` readable in a fresh buffer. -/
def fresh : Buffer := ⟨[0, 0, 0, 0, 0, 0, 0, 0, 9, 0, 0, 0], 8, 9⟩

theorem reused_reachable : reused.Reachable :=
  ⟨4, _, [.append [1, 2, 3], .retrieveAll, .append [9]], rfl, by decide⟩

theorem fresh_reachable : fresh.Reachable := ⟨4, _, [.append [9]], rfl, by decide⟩

theorem retrieveAsString_sound_iff_reused : RetrieveSound reused 1 :=
  (retrieveAsString_sound_iff reused_reachable fresh_reachable (by decide) 1).1.2 (by decide)

/-- Asked for three bytes of one, both strings go past the write index, and differ there. -/
theorem retrieveAsString_stale : reused.Reachable ∧ fresh.Reachable ∧
    reused.readable = [9] ∧ fresh.readable = [9] ∧
    (reused.retrieveAsString 3).map Prod.fst = .ok [9, 2, 3] ∧
    (fresh.retrieveAsString 3).map Prod.fst = .ok [9, 0, 0] ∧
    ¬ RetrieveSound reused 3 :=
  ⟨reused_reachable, fresh_reachable, by decide, by decide, by decide, by decide,
    fun h => absurd (reused_reachable.ordered.retrieveSound_iff.1 h).1 (by decide)⟩

end Buffer
end Muduo
