import Muduo.BufferInv
import Muduo.Lib.Lts

/-!
# `Buffer` refines a FIFO of bytes

The abstract queue is a list of bytes: `Op.spec` says what each operation means on it. `Op.exec` is
the code. A run of the code returns the same strings and counts as the run of the queue, and its
readable bytes are the queue.
-/

namespace Muduo
namespace Buffer
open Lts

inductive Op
  | append (inData : Bytes)
  | retrieve (inLen : Nat)
  | retrieveAll
  | retrieveAllAsString
  | retrieveAsString (inLen : Nat)
  | ensureWriteableBytes (inLen : Nat)
  | readFd (r : ReadResult)
  | writeFd (r : WriteResult)
deriving DecidableEq, Repr

/-- What a caller sees of an operation. -/
inductive Output
  | unit
  | string (s : Bytes)
  | count (n : Int)
  /-- The bytes offered to `::write`, if it is called, and the value returned. -/
  | written (offer : Option Bytes) (n : Int)
deriving DecidableEq, Repr

def Op.exec (b : Buffer) : Op → Except Fault (Output × Buffer)
  | .append inData => (b.append inData).map (.unit, ·)
  | .retrieve inLen => .ok (.unit, b.retrieve inLen)
  | .retrieveAll => .ok (.unit, b.retrieveAll)
  | .retrieveAllAsString => b.retrieveAllAsString.map fun (s, b') => (.string s, b')
  | .retrieveAsString inLen => (b.retrieveAsString inLen).map fun (s, b') => (.string s, b')
  | .ensureWriteableBytes inLen => (b.ensureWriteableBytes inLen).map (.unit, ·)
  | .readFd r => (b.readFd r).map fun (n, b') => (.count n, b')
  | .writeFd r => .ok (.written b.writeFdOffer (b.writeFd r), b)

/-- The operation on the abstract queue. -/
def Op.spec (q : Bytes) : Op → Output × Bytes
  | .append inData => (.unit, q ++ inData)
  | .retrieve inLen => (.unit, q.drop (min inLen q.length))
  | .retrieveAll => (.unit, [])
  | .retrieveAllAsString => (.string q, [])
  | .retrieveAsString inLen => (.string (q.take inLen), q.drop inLen)
  | .ensureWriteableBytes _ => (.unit, q)
  | .readFd r => (.count r.count, q ++ r.bytes)
  | .writeFd r => if q = [] then (.written none 0, q) else (.written (some q) r.count, q)

/-- What a caller and the kernel owe: a string no longer than the readable bytes, results within
what was offered, and no size computation above the vector's maximum. -/
def Op.Requires (b : Buffer) : Op → Prop
  | .append inData => b.NoOverflow inData.length
  | .retrieveAsString inLen => inLen ≤ b.readableBytes
  | .ensureWriteableBytes inLen => b.NoOverflow inLen
  | .readFd r => b.ReadLegal r ∧ b.ReadNoOverflow r
  | .writeFd r => r.Legal b.readableBytes
  | _ => True

instance (b : Buffer) (op : Op) : Decidable (op.Requires b) := by
  cases op <;> unfold Op.Requires <;> infer_instance

/-- One operation of a run, its output put behind the earlier ones. -/
def opStep : Buffer × List Output → Op → Option (Buffer × List Output)
  | (b, outs), op => (op.exec b).toOption.map fun (o, b') => (b', outs ++ [o])

def fifoStep : Bytes × List Output → Op → Option (Bytes × List Output)
  | (q, outs), op => some ((op.spec q).2, outs ++ [(op.spec q).1])

/-- No more than the stack area's size is taken from it. -/
def StackBound (b : Buffer) (op : Op) : Prop :=
  ∀ data, op = .readFd (.delivered data) → (b.extraBuf data).length ≤ kExtraBufSize

variable {b : Buffer} {op : Op} {ops : List Op}

theorem Op.exec_spec (h : b.Inv) (hreq : op.Requires b) :
    ∃ b', op.exec b = .ok ((op.spec b.readable).1, b') ∧ b'.Inv ∧
      b'.readable = (op.spec b.readable).2 := by
  cases op with
  | append inData =>
    obtain ⟨b', ho, hi, hread⟩ := append_spec h hreq
    exact ⟨b', by simp only [Op.exec, ho]; rfl, hi, hread⟩
  | retrieve inLen =>
    refine ⟨_, rfl, h.retrieve, ?_⟩
    rw [readable_retrieve h]
    simp only [Op.spec]
    rcases Nat.le_total inLen b.readable.length with hle | hle
    · rw [Nat.min_eq_left hle]
    · rw [Nat.min_eq_right hle, List.drop_length, List.drop_eq_nil_of_le hle]
  | retrieveAll => exact ⟨_, rfl, h.retrieveAll, readable_retrieveAll⟩
  | retrieveAllAsString =>
    exact ⟨_, by simp only [Op.exec, retrieveAllAsString_spec h]; rfl, h.retrieveAll,
      readable_retrieveAll⟩
  | retrieveAsString inLen =>
    exact ⟨_, by simp only [Op.exec, retrieveAsString_spec h hreq]; rfl, h.retrieve,
      readable_retrieve h⟩
  | ensureWriteableBytes inLen =>
    obtain ⟨b', ho, hi, hread, -⟩ := ensureWriteableBytes_spec h hreq
    exact ⟨b', by simp only [Op.exec, ho]; rfl, hi, hread⟩
  | readFd r =>
    obtain ⟨b', ho, hi, hread⟩ := readFd_spec h hreq.2
    exact ⟨b', by simp only [Op.exec, ho]; rfl, hi, hread⟩
  | writeFd r =>
    refine ⟨b, ?_, h, ?_⟩
    · have ho : b.writeFdOffer = if b.readable = [] then none else some b.readable :=
        if_congr h.readableBytes_eq_zero rfl rfl
      simp only [Op.exec, Op.spec, ho, writeFd_eq h]
      split <;> rfl
    · simp only [Op.spec]; split <;> rfl

theorem Op.Requires.stackBound (h : op.Requires b) : StackBound b op := by
  rintro data rfl
  exact length_extraBuf_le h.1

/-- Between the code and the queue: the invariant, the readable bytes, the outputs. -/
def Refines (s : Buffer × List Output) (x : Bytes × List Output) : Prop :=
  s.1.Inv ∧ x = (s.1.readable, s.2)

theorem opStep_sim {s : Buffer × List Output} {x : Bytes × List Output}
    (hreq : op.Requires s.1) (hR : Refines s x) :
    ∃ t y, opStep s op = some t ∧ fifoStep x op = some y ∧ Refines t y := by
  obtain ⟨b, outs⟩ := s
  obtain ⟨hi, rfl⟩ := hR
  obtain ⟨b', ho, hi', hread⟩ := Op.exec_spec hi hreq
  refine ⟨(b', outs ++ [(op.spec b.readable).1]), _, ?_, rfl, hi', ?_⟩
  · simp only [opStep, ho, Except.toOption, Option.map_some]
  · rw [hread]

theorem run_refines_fifo {outs : List Output} (h : b.Inv)
    (hreq : Along opStep (fun s op => op.Requires s.1) (b, outs) ops) :
    ∃ b' outs', run opStep (b, outs) ops = some (b', outs') ∧ b'.Inv ∧
      run fifoStep (b.readable, outs) ops = some (b'.readable, outs') := by
  have hR : Refines (b, outs) (b.readable, outs) := ⟨h, rfl⟩
  obtain ⟨⟨b', outs'⟩, y, hrun, hfifo, hi, rfl⟩ := run_sim (fun _ _ _ => opStep_sim) hreq hR
  exact ⟨b', outs', hrun, hi, hfifo⟩

/-- From any initial size and over any run: the operations return, the indices stay in order inside
the vector, the readable bytes and every returned value are those of the byte queue, and no
`readFd` takes more than the stack area holds from it. -/
theorem buffer_refines_fifo (inInitialSize : Nat) (hsize : kCheapPrepend + inInitialSize ≤ maxSize)
    (ops : List Op) :
    ∃ b₀, new inInitialSize = .ok b₀ ∧
      (Along opStep (fun s op => op.Requires s.1) (b₀, []) ops →
        Along opStep (fun s op => StackBound s.1 op) (b₀, []) ops ∧
        ∃ b outs, run opStep (b₀, []) ops = some (b, outs) ∧
          (kCheapPrepend ≤ b.readerIndex ∧ b.readerIndex ≤ b.writerIndex ∧
            b.writerIndex ≤ b.buffer.length) ∧
          run fifoStep ([], []) ops = some (b.readable, outs)) := by
  obtain ⟨b₀, hnew, hi, hread⟩ := new_spec hsize
  refine ⟨b₀, hnew, fun hreq => ⟨hreq.mono fun _ _ h => h.stackBound, ?_⟩⟩
  obtain ⟨b, outs, hrun, hi', hfifo⟩ := run_refines_fifo hi hreq
  exact ⟨b, outs, hrun, ⟨hi'.prepend, hi'.reader, hi'.writer⟩, hread ▸ hfifo⟩

/-- A run that grows a buffer of four bytes, reads from it and drains it. -/
theorem buffer_refines_fifo_small :
    ∃ b₀ b, new 4 = .ok b₀ ∧
      run opStep (b₀, []) [.append [1, 2, 3, 4, 5], .retrieveAsString 2, .retrieve 9] =
        some (b, [.unit, .string [1, 2], .unit]) ∧ b.readable = [] := by
  obtain ⟨b₀, hnew, h⟩ := buffer_refines_fifo 4 (by decide)
    [.append [1, 2, 3, 4, 5], .retrieveAsString 2, .retrieve 9]
  obtain rfl : ⟨List.replicate 12 0, 8, 8⟩ = b₀ := by
    rw [← Except.ok.injEq (ε := Fault), ← hnew]; rfl
  obtain ⟨-, b, outs, hrun, -, hfifo⟩ := h (by decide)
  obtain ⟨hread, rfl⟩ := Prod.mk.inj (Option.some.inj hfifo)
  exact ⟨_, b, hnew, hrun, hread.symm⟩

end Buffer
end Muduo
