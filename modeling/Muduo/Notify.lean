import Muduo.Stream

/-!
# High-water and write-complete functors

Both are exact. A high-water functor is queued by the steps that take the output buffer from below
the mark to the mark or above, with the size it then has; a write-complete functor by the steps in
which the kernel takes the last outstanding byte (and by empty messages written directly).
-/

namespace Muduo
open Lts

/-- The sizes in the high-water functors queued, in order. -/
def highWaterMarks (trace : List Effect) : List Nat :=
  (queued trace).filterMap fun
    | .highWaterMark len => some len
    | _ => none

/-- The number of write-complete functors queued. -/
def completions (trace : List Effect) : Nat := (queued trace).count .writeComplete

@[simp] theorem queued_append (t t' : List Effect) : queued (t ++ t') = queued t ++ queued t' :=
  List.filterMap_append

@[simp] theorem highWaterMarks_append (t t' : List Effect) :
    highWaterMarks (t ++ t') = highWaterMarks t ++ highWaterMarks t' := by
  simp [highWaterMarks]

@[simp] theorem completions_append (t t' : List Effect) :
    completions (t ++ t') = completions t + completions t' := by
  simp [completions]

@[simp] theorem highWaterMarks_nil : highWaterMarks [] = [] := rfl

@[simp] theorem completions_nil : completions [] = 0 := rfl

def Effect.isNotice : Effect → Bool
  | .queueInLoop .writeComplete => true
  | .queueInLoop (.highWaterMark _) => true
  | _ => false

/-- No functor of either kind. -/
def Unnoticed (es : List Effect) : Prop := ∀ e ∈ es, e.isNotice = false

theorem unnoticed_nil : Unnoticed [] := fun _ he => by cases he

theorem unnoticed_single {e : Effect} (he : e.isNotice = false) : Unnoticed [e] := by
  intro e' hmem
  rw [List.mem_singleton] at hmem
  rw [hmem, he]

theorem Unnoticed.append {es es' : List Effect} (h : Unnoticed es) (h' : Unnoticed es') :
    Unnoticed (es ++ es') := by
  intro e hmem
  rcases List.mem_append.1 hmem with hm | hm
  · exact h e hm
  · exact h' e hm

theorem Unnoticed.ite {p : Prop} [Decidable p] {es es' : List Effect} (h : Unnoticed es)
    (h' : Unnoticed es') : Unnoticed (if p then es else es') := by
  split
  · exact h
  · exact h'

theorem mem_queued {f : Functor} {trace : List Effect} :
    f ∈ queued trace ↔ .queueInLoop f ∈ trace := by
  rw [queued, List.mem_filterMap]
  constructor
  · rintro ⟨e, he, hf⟩
    cases e with
    | queueInLoop g => cases hf; exact he
    | write _ _ | shutdownWrite _ | connectionCallback _ | messageCallback | closeCallback => cases hf
  · exact fun h => ⟨_, h, rfl⟩

theorem Unnoticed.highWaterMarks {es : List Effect} (h : Unnoticed es) :
    highWaterMarks es = [] := by
  refine List.filterMap_eq_nil_iff.2 fun f hf => ?_
  have he := h _ (mem_queued.1 hf)
  cases f with
  | highWaterMark len => cases he
  | writeComplete | sendInLoop _ | shutdownInLoop => rfl

theorem Unnoticed.completions {es : List Effect} (h : Unnoticed es) : completions es = 0 := by
  refine List.count_eq_zero.2 fun hf => ?_
  have he := h _ (mem_queued.1 hf)
  cases he

namespace World
variable {ι : Type} {w w' : World ι} {logErrno : Errno → Errno} {inData : Bytes} {r : WriteResult}

/-- The high-water callback is set, with the mark `mark`. -/
def HasMark (mark : Nat) (w : World ι) : Prop :=
  w.conn.highWaterMarkCallback = true ∧ w.conn.highWaterMark = mark

/-- The size after a step that crosses the mark upwards. -/
def crossing (mark : Nat) (w w' : World ι) : List Nat :=
  if w.conn.outputBuffer.readableBytes < mark ∧ mark ≤ w'.conn.outputBuffer.readableBytes then
    [w'.conn.outputBuffer.readableBytes]
  else []

theorem crossing_eq_nil {mark : Nat} (h : w.Wf) (h' : w'.Wf) (hle : w'.unsent.length ≤ w.unsent.length) :
    crossing mark w w' = [] := by
  rw [unsent, unsent, h.out.length_readable, h'.out.length_readable] at hle
  exact if_neg fun hc => absurd hc.1 (by omega)

theorem highWaterMarks_directEffects : highWaterMarks (directEffects inData r w) = [] := by
  unfold directEffects
  split
  · cases r with
    | accepted n => dsimp only; split <;> rfl
    | error e => rfl
  · rfl

theorem unnoticed_drainEffects : Unnoticed (drainEffects r w) := by
  unfold drainEffects
  exact (unnoticed_single rfl).ite unnoticed_nil

/-- The size predicted before the append is the one after it. -/
theorem Sent.readableBytes (hwf : w.Wf) (h : Sent logErrno inData r w w') :
    w'.conn.outputBuffer.readableBytes =
      w.conn.outputBuffer.readableBytes + (rest logErrno inData r w).length := by
  have hl := congrArg List.length h.unsent
  rwa [List.length_append, World.unsent, World.unsent, hwf.out.length_readable, h.wf.out.length_readable] at hl

theorem highWaterMarks_highWaterEffects {mark n : Nat} (hm : w.HasMark mark)
    (hsum : addSize w.conn.outputBuffer.readableBytes n = w'.conn.outputBuffer.readableBytes) :
    highWaterMarks (highWaterEffects n w) = crossing mark w w' := by
  unfold highWaterEffects crossing
  dsimp only
  rw [hsum, hm.1, hm.2]
  by_cases hc : w.conn.outputBuffer.readableBytes < mark ∧
      mark ≤ w'.conn.outputBuffer.readableBytes
  · rw [if_pos hc, if_pos ⟨hc.2, hc.1, rfl⟩]
    rfl
  · rw [if_neg hc, if_neg fun h => hc ⟨h.2.1, h.1⟩]
    rfl

theorem Sent.highWaterMarks {mark : Nat} (hwf : w.Wf) (hm : w.HasMark mark)
    (h : Sent logErrno inData r w w') :
    highWaterMarks w'.trace = Muduo.highWaterMarks w.trace ++ crossing mark w w' := by
  rw [h.trace, highWaterMarks_append, highWaterMarks_append, highWaterMarks_directEffects,
    List.append_nil]
  congr 1
  split
  · rename_i hnil
    rw [crossing_eq_nil hwf h.wf (Nat.le_of_eq (by rw [h.unsent, hnil, List.append_nil])),
      highWaterMarks_nil]
  · refine highWaterMarks_highWaterEffects hm ?_
    have hle := h.wf.out.readable_le_maxSize
    rw [h.wf.out.length_readable, h.readableBytes hwf] at hle
    rw [addSize_eq hle, h.readableBytes hwf]

theorem Drained.highWaterMarks {b : Bool} (h : Drained r w w' b) :
    highWaterMarks w'.trace = Muduo.highWaterMarks w.trace := by
  rw [h.trace, highWaterMarks_append, highWaterMarks_append, unnoticed_drainEffects.highWaterMarks,
    List.append_nil]
  split <;> simp [Muduo.highWaterMarks, queued]

end World

namespace ConnStep
variable {ι : Type} {logErrno : Errno → Errno} {w w₀ w' t t' : World ι} {a : ConnStep ι}
  {as : List (ConnStep ι)} {mark : Nat}

/-- No step sets a callback or moves the mark. -/
theorem Did.notices (hd : Did logErrno w a w') :
    w'.conn.highWaterMark = w.conn.highWaterMark ∧
      w'.conn.highWaterMarkCallback = w.conn.highWaterMarkCallback ∧
      w'.conn.writeCompleteCallback = w.conn.writeCompleteCallback := by
  cases hd with
  | sent _ _ h => rw [h.eq]; exact ⟨rfl, rfl, rfl⟩
  | halfClosed _ => rw [World.shutdownInLoop_conn]; exact ⟨rfl, rfl, rfl⟩
  | shut => rw [World.shutdownInLoop_conn]; exact ⟨rfl, rfl, rfl⟩
  | ended _ h => rw [h.eq]; exact ⟨rfl, rfl, rfl⟩
  | drained h => rw [World.finishWrite_conn, h.eq]; exact ⟨rfl, rfl, rfl⟩
  | closed h => rw [h.eq]; exact ⟨rfl, rfl, rfl⟩
  | destroyed h => rw [h.eq]; exact ⟨rfl, rfl, rfl⟩
  | refused _ | queued | requested _ | read _ | delivered _ | other _ _ => exact ⟨rfl, rfl, rfl⟩

theorem Did.hasMark (hd : Did logErrno w a w') (hm : w.HasMark mark) : w'.HasMark mark :=
  ⟨hd.notices.2.1.trans hm.1, hd.notices.1.trans hm.2⟩

/-- The output buffer is as it was, and neither kind of functor was queued. -/
structure Calm (w w' : World ι) : Prop where
  trace : ∃ es, w'.trace = w.trace ++ es ∧ Unnoticed es
  unsent : w'.unsent = w.unsent

theorem Calm.of_emit {e : Effect} (he : e.isNotice = false) : Calm w (w.emit e) :=
  ⟨⟨[e], rfl, unnoticed_single he⟩, rfl⟩

theorem Calm.shutdownInLoop : Calm w w.shutdownInLoop := by
  refine ⟨⟨_, by rw [World.shutdownInLoop_eq], unnoticed_nil.ite (unnoticed_single rfl)⟩, ?_⟩
  rw [World.unsent, World.shutdownInLoop_conn]
  rfl

theorem Calm.finishWrite {b : Bool} : Calm w (World.finishWrite (w, b)) := by
  rw [World.finishWrite_eq]
  split
  · exact Calm.shutdownInLoop
  · exact ⟨⟨[], (List.append_nil _).symm, unnoticed_nil⟩, rfl⟩

theorem Calm.of_closed (h : World.Closed w w') : Calm w w' :=
  ⟨⟨_, h.trace.trans (List.append_assoc _ _ _),
    ((unnoticed_single rfl).ite unnoticed_nil).append ((unnoticed_single rfl).ite unnoticed_nil)⟩,
    by rw [World.unsent, h.eq]; rfl⟩

/-- A step sends a message, writes from the output buffer, or does neither. -/
theorem Did.sends_or_drains (hd : Did logErrno w a w') :
    (∃ inData r, a.passed w = some (inData, r) ∧ w.conn.state ≠ .disconnected ∧
        World.Sent logErrno inData r w w') ∨
      (∃ r v b, a = .handleWrite r ∧ World.Drained r w v b ∧ Calm v w') ∨
      (a.passed w = none ∨ w.conn.state = .disconnected) ∧ Calm w w' := by
  have hrefl : Calm w w := ⟨⟨[], (List.append_nil _).symm, unnoticed_nil⟩, rfl⟩
  cases hd with
  | sent hp hst hs => exact .inl ⟨_, _, hp, hst, hs⟩
  | drained hdr => exact .inr (.inl ⟨_, _, _, rfl, hdr, Calm.finishWrite⟩)
  | refused hp => exact .inr (.inr ⟨hp, hrefl⟩)
  | queued => exact .inr (.inr ⟨.inl rfl, Calm.of_emit rfl⟩)
  | halfClosed _ =>
    have hc : Calm (w.setState .disconnecting) _ := Calm.shutdownInLoop
    exact .inr (.inr ⟨.inl rfl, hc.trace, hc.unsent⟩)
  | requested _ =>
    have hc : Calm (w.setState .disconnecting)
      ((w.setState .disconnecting).queueInLoop .shutdownInLoop) := Calm.of_emit rfl
    exact .inr (.inr ⟨.inl rfl, hc.trace, hc.unsent⟩)
  | shut => exact .inr (.inr ⟨.inl rfl, Calm.shutdownInLoop⟩)
  | read _ => exact .inr (.inr ⟨.inl rfl, hrefl.trace, hrefl.unsent⟩)
  | @delivered r inp _ =>
    have hc : Calm (w.received inp) ((w.received inp).emit .messageCallback) := Calm.of_emit rfl
    exact .inr (.inr ⟨.inl rfl, hc.trace, hc.unsent⟩)
  | ended _ h =>
    have hc := Calm.of_closed h
    exact .inr (.inr ⟨.inl rfl, hc.trace, hc.unsent⟩)
  | closed h =>
    have hc := Calm.of_closed h
    exact .inr (.inr ⟨.inl rfl, hc.trace, hc.unsent⟩)
  | destroyed h =>
    exact .inr (.inr ⟨.inl rfl, ⟨_, h.trace, (unnoticed_single rfl).ite unnoticed_nil⟩,
      by rw [World.unsent, h.eq]; rfl⟩)
  | other _ _ => exact .inr (.inr ⟨.inl rfl, hrefl.trace, hrefl.unsent⟩)

theorem Calm.highWaterMarks (h : Calm w w') :
    highWaterMarks w'.trace = Muduo.highWaterMarks w.trace := by
  obtain ⟨es, ht, hes⟩ := h.trace
  rw [ht, highWaterMarks_append, hes.highWaterMarks, List.append_nil]

theorem Calm.completions (h : Calm w w') : completions w'.trace = Muduo.completions w.trace := by
  obtain ⟨es, ht, hes⟩ := h.trace
  rw [ht, completions_append, hes.completions, Nat.add_zero]

/-! ### The high-water mark -/

theorem Did.highWaterMarks (h : w.Wf) (hm : w.HasMark mark) (hd : Did logErrno w a w') :
    highWaterMarks w'.trace = Muduo.highWaterMarks w.trace ++ World.crossing mark w w' := by
  have h' := hd.wf h
  rcases hd.sends_or_drains with ⟨inData, r, -, -, hs⟩ | ⟨r, v, b, -, hdr, hc⟩ | ⟨-, hc⟩
  · exact hs.highWaterMarks h hm
  · have hle : w'.unsent.length ≤ w.unsent.length := by
      rw [hc.unsent, hdr.unsent, List.length_drop]
      exact Nat.sub_le _ _
    rw [hc.highWaterMarks, hdr.highWaterMarks, World.crossing_eq_nil h h' hle, List.append_nil]
  · rw [hc.highWaterMarks, World.crossing_eq_nil h h' (Nat.le_of_eq (by rw [hc.unsent])),
      List.append_nil]

theorem run_highWaterMarks (h : w.Wf) (hm : w.HasMark mark)
    (hof : Along (step logErrno) (fun w a => a.Offered w) w as)
    (hr : run (step logErrno) w as = some t) :
    highWaterMarks t.trace = Muduo.highWaterMarks w.trace ++
      collect (step logErrno) (change (step logErrno) (World.crossing mark)) w as := by
  refine run_collect (I := fun s => s.Wf ∧ s.HasMark mark)
    (g := fun s => Muduo.highWaterMarks s.trace) ?_ ?_ hof hr ⟨h, hm⟩
  · intro s a u hc hs hi
    have hd := step_ok hi.1 hc hs
    exact ⟨hd.wf hi.1, hd.hasMark hi.2⟩
  · intro s a u hc hs hi
    rw [change_eq hs]
    exact (step_ok hi.1 hc hs).highWaterMarks hi.1 hi.2

/-- While the mark stays where it is, the high-water functors queued are the upward crossings of the
output buffer's size, in order, each with the size right after the step; no other step queues one. -/
theorem high_water_exact (logErrno : Errno → Errno) (mark : Nat) (as : List (ConnStep ι)) (h₀ : w₀.Constructed)
    (he : w₀.connectEstablished = .ok w) (hm : w.HasMark mark)
    (hof : Along (step logErrno) (fun w a => a.Offered w) w as)
    (hr : run (step logErrno) w as = some t) :
    highWaterMarks t.trace =
      collect (step logErrno) (change (step logErrno) (World.crossing mark)) w as := by
  have hw := World.connectEstablished_ok h₀ he
  have h0 : Muduo.highWaterMarks w.trace = [] := by
    rw [hw.trace]
    exact ((unnoticed_single rfl).ite unnoticed_nil).highWaterMarks
  rw [run_highWaterMarks hw.wf hm hof hr, h0, List.nil_append]

/-- A connection on a loop of its own, with both callbacks set and its mark at three bytes. -/
def noticed : World Unit :=
  { World.alone 5 () with
    conn.highWaterMarkCallback := true
    conn.highWaterMark := 3
    conn.writeCompleteCallback := true }

theorem noticed_constructed : noticed.Constructed := ⟨rfl, rfl, rfl, rfl, rfl, rfl, rfl⟩

/-- Two crossings, the second at the mark itself. -/
theorem high_water_exact_twice : ∃ w t, noticed.connectEstablished = .ok w ∧
    run (step id) w [.sendInLoop [1, 2, 3, 4] (.accepted 0), .sendInLoop [5] (.accepted 0),
      .handleWrite (.accepted 4), .sendInLoop [6, 7] (.accepted 0)] = some t ∧
    highWaterMarks t.trace = [4, 3] := by
  obtain ⟨w, he⟩ : ∃ w, noticed.connectEstablished = .ok w := ⟨_, rfl⟩
  obtain ⟨t, hr⟩ : ∃ t, run (step id) w [.sendInLoop [1, 2, 3, 4] (.accepted 0),
      .sendInLoop [5] (.accepted 0), .handleWrite (.accepted 4),
      .sendInLoop [6, 7] (.accepted 0)] = some t :=
    Option.isSome_iff_exists.1 (by cases he; decide +kernel)
  have h := high_water_exact id 3 _ noticed_constructed he
    (by cases he; exact ⟨rfl, rfl⟩) (by cases he; decide +kernel) hr
  exact ⟨w, t, he, hr, h.trans (by cases he; decide +kernel)⟩

/-! ### The write completion -/

/-- The direct write of a message takes all of it. -/
def TakesWhole (inData : Bytes) (r : WriteResult) (w : World ι) : Prop :=
  w.conn.state ≠ .disconnected ∧ w.writesDirectly = true ∧ (inData.length : Int) ≤ r.count

instance (inData : Bytes) (r : WriteResult) (w : World ι) : Decidable (TakesWhole inData r w) :=
  inferInstanceAs (Decidable (_ ∧ _ ∧ _))

/-- The message a step gets written whole by its direct write. -/
def takenWhole (w : World ι) (a : ConnStep ι) : List Bytes :=
  match a.passed w with
  | some (inData, r) => if TakesWhole inData r w then [inData] else []
  | none => []

/-- What the output buffer held, when a step empties it. -/
def emptied (w w' : World ι) : List Bytes :=
  if w.unsent ≠ [] ∧ w'.unsent = [] then [w.unsent] else []

/-- The write-complete functors a step queues. -/
def completed (w w' : World ι) : List Functor :=
  List.replicate (completions w'.trace - completions w.trace) .writeComplete

/-- The same, of steps whose message is not empty. -/
def completedByNonEmpty (logErrno : Errno → Errno) (w : World ι) (a : ConnStep ι) : List Functor :=
  if (a.passed w).map Prod.fst = some [] then [] else change (step logErrno) completed w a

theorem takenWhole_of_passed {inData : Bytes} {r : WriteResult} (hp : a.passed w = some (inData, r)) :
    takenWhole w a = if TakesWhole inData r w then [inData] else [] := by
  rw [takenWhole, hp]

theorem takenWhole_eq_nil (hp : a.passed w = none ∨ w.conn.state = .disconnected) :
    takenWhole w a = [] := by
  unfold takenWhole
  split
  · rename_i hpass
    rcases hp with hp | hst
    · rw [hp] at hpass; cases hpass
    · exact if_neg fun h => h.1 hst
  · rfl

theorem emptied_eq_nil (h : w'.unsent = w.unsent) : emptied w w' = [] :=
  if_neg fun hc => hc.1 (h ▸ hc.2)

theorem completions_highWaterEffects (n : Nat) : completions (World.highWaterEffects n w) = 0 := by
  unfold World.highWaterEffects
  dsimp only
  split <;> simp [completions, queued]

/-- The direct write completes exactly the messages it takes whole. -/
theorem completions_directEffects {inData : Bytes} {r : WriteResult}
    (hcb : w.conn.writeCompleteCallback = true) (hst : w.conn.state ≠ .disconnected) :
    completions (World.directEffects inData r w) = if TakesWhole inData r w then 1 else 0 := by
  unfold World.directEffects
  by_cases hd : w.writesDirectly = true
  · rw [if_pos hd]
    cases r with
    | accepted n =>
      have hiff : inData.length - n = 0 ∧ w.conn.writeCompleteCallback = true ↔
          TakesWhole inData (.accepted n) w := by
        rw [TakesWhole, WriteResult.count, Int.ofNat_le, Nat.sub_eq_zero_iff_le]
        exact ⟨fun h => ⟨hst, hd, h.1⟩, fun h => ⟨h.2.2, hcb⟩⟩
      dsimp only
      by_cases hw : TakesWhole inData (.accepted n) w
      · rw [if_pos (hiff.2 hw), if_pos hw]; rfl
      · rw [if_neg fun h => hw (hiff.1 h), if_neg hw]; rfl
    | error e =>
      have hneg : ¬ TakesWhole inData (.error e) w := fun h => by
        have hle := h.2.2
        simp only [WriteResult.count] at hle
        omega
      rw [if_neg hneg]
      rfl
  · rw [if_neg hd, if_neg fun h => hd h.2.1]
    rfl

/-- A message taken whole found nothing in front of it and leaves nothing. -/
theorem TakesWhole.unsent {inData : Bytes} {r : WriteResult} (h : w.Wf) (ht : TakesWhole inData r w)
    (hs : World.Sent logErrno inData r w w') : w'.unsent = [] := by
  obtain ⟨-, hd, hle⟩ := ht
  have hrest : World.rest logErrno inData r w = [] := by
    unfold World.rest
    rw [if_pos hd]
    cases r with
    | accepted n =>
      rw [WriteResult.count, Int.ofNat_le] at hle
      exact List.drop_eq_nil_of_le hle
    | error e =>
      simp only [WriteResult.count] at hle
      omega
  rw [hs.unsent, World.unsent_of_writesDirectly h hd, hrest]
  rfl

theorem Sent.emptied {inData : Bytes} {r : WriteResult} (h : World.Sent logErrno inData r w w') :
    ConnStep.emptied w w' = [] := by
  refine if_neg fun hc => hc.1 ?_
  have hun := hc.2
  rw [h.unsent] at hun
  exact (List.append_eq_nil_iff.1 hun).1

/-- A step queues one functor for a message taken whole and one for emptying the buffer. -/
theorem Did.completions (hcb : w.conn.writeCompleteCallback = true) (hd : Did logErrno w a w') :
    completions w'.trace =
      Muduo.completions w.trace + (takenWhole w a).length + (emptied w w').length := by
  rcases hd.sends_or_drains with ⟨inData, r, hp, hst, hs⟩ | ⟨r, v, b, rfl, hdr, hc⟩ | ⟨hp, hc⟩
  · rw [hs.trace, completions_append, completions_append, completions_directEffects hcb hst,
      takenWhole_of_passed hp, Sent.emptied hs]
    split <;> split <;> simp [completions_highWaterEffects]
  · have hnone : takenWhole w (.handleWrite r) = [] := takenWhole_eq_nil (.inl rfl)
    rw [hc.completions, hdr.trace, completions_append, completions_append,
      World.unnoticed_drainEffects.completions, hcb, hnone, emptied, hc.unsent]
    have hiff : b = true ↔ w.unsent ≠ [] ∧ v.unsent = [] := by
      rw [hdr.drained_iff]
      refine ⟨And.right, fun h => ⟨?_, h⟩⟩
      -- a channel that does not write takes nothing
      by_contra hw
      have htaken : World.taken r w = 0 := if_neg hw
      rw [hdr.unsent, htaken] at h
      exact h.1 h.2
    by_cases hb : b = true
    · rw [if_pos ⟨hb, rfl⟩, if_pos (hiff.1 hb)]; rfl
    · rw [if_neg fun h => hb h.1, if_neg fun h => hb (hiff.2 h)]; rfl
  · rw [hc.completions, takenWhole_eq_nil hp, emptied_eq_nil hc.unsent]
    rfl

/-- With a functor queued there is nothing left to write. -/
theorem Did.unsent_of_completed (h : w.Wf) (hcb : w.conn.writeCompleteCallback = true)
    (hd : Did logErrno w a w') (hlt : Muduo.completions w.trace < Muduo.completions w'.trace) :
    w'.unsent = [] := by
  rw [hd.completions hcb] at hlt
  by_cases hem : w.unsent ≠ [] ∧ w'.unsent = []
  · exact hem.2
  have h0 : emptied w w' = [] := if_neg hem
  rw [h0, List.length_nil, Nat.add_zero] at hlt
  rcases hd.sends_or_drains with ⟨inData, r, hp, hst, hs⟩ | ⟨r, v, b, rfl, -, -⟩ | ⟨hp, -⟩
  · rw [takenWhole_of_passed hp] at hlt
    split at hlt
    · rename_i hwhole
      exact hwhole.unsent h hs
    · exact absurd hlt (Nat.lt_irrefl _)
  · rw [takenWhole_eq_nil (.inl rfl)] at hlt
    exact absurd hlt (Nat.lt_irrefl _)
  · rw [takenWhole_eq_nil hp] at hlt
    exact absurd hlt (Nat.lt_irrefl _)

/-- A message that left nothing outstanding and was not given up was taken whole. -/
theorem takesWhole_of_rest {inData : Bytes} {r : WriteResult} (hst : w.conn.state ≠ .disconnected)
    (hne : inData ≠ []) (hf : World.faulted logErrno r w = false)
    (hrest : World.rest logErrno inData r w = []) : TakesWhole inData r w := by
  unfold World.rest at hrest
  unfold World.faulted at hf
  by_cases hd : w.writesDirectly = true
  · rw [if_pos hd] at hrest
    rw [hd, Bool.true_and] at hf
    refine ⟨hst, hd, ?_⟩
    cases r with
    | accepted n => exact Int.ofNat_le.2 (List.drop_eq_nil_iff.1 hrest)
    | error e =>
      dsimp only at hrest hf
      rw [hf] at hrest
      exact absurd hrest hne
  · rw [if_neg hd] at hrest
    exact absurd hrest hne

/-- The step in which the kernel takes the last byte queues one functor. -/
theorem Did.completes (h : w.Wf) (hcb : w.conn.writeCompleteCallback = true)
    (hd : Did logErrno w a w') (hacc : accepted w'.trace ≠ accepted w.trace) (hun : w'.unsent = []) :
    Muduo.completions w'.trace = Muduo.completions w.trace + 1 := by
  have hstr := hd.stream h
  rw [World.stream, World.stream, hun, List.append_nil] at hstr
  rw [hd.completions hcb]
  -- what was outstanding before, or else the step's own message
  by_cases hw : w.unsent = []
  · rw [hw, List.append_nil] at hstr
    have hk : kept logErrno w a ≠ [] := fun hk => hacc (by rw [hstr, hk, List.append_nil])
    have hem : emptied w w' = [] := if_neg fun hc => hc.1 hw
    rcases hd.sends_or_drains with ⟨inData, r, hp, hst, hs⟩ | ⟨r, v, b, rfl, -, -⟩ | ⟨hp, -⟩
    · have hu := hs.unsent
      rw [hun, hw, List.nil_append] at hu
      rw [kept, hp] at hk
      dsimp only at hk
      have hf : World.faulted logErrno r w = false := by
        by_contra hf
        exact hk (if_pos (.inr (by simpa using hf)))
      have hne : inData ≠ [] := fun hne => hk (by rw [hne]; split <;> rfl)
      rw [hem, takenWhole_of_passed hp, if_pos (takesWhole_of_rest hst hne hf hu.symm)]
      rfl
    · exact absurd rfl hk
    · rw [kept] at hk
      rcases hp with hp | hst
      · rw [hp] at hk; exact absurd rfl hk
      · refine absurd ?_ hk
        split
        · exact if_pos (.inl hst)
        · rfl
  · have hem : emptied w w' = [w.unsent] := if_pos ⟨hw, hun⟩
    have hta : takenWhole w a = [] := by
      rcases hd.sends_or_drains with ⟨inData, r, hp, hst, hs⟩ | ⟨r, v, b, rfl, -, -⟩ | ⟨hp, -⟩
      · rw [takenWhole_of_passed hp]
        exact if_neg fun ht => hw (World.unsent_of_writesDirectly h ht.2.1)
      · exact takenWhole_eq_nil (.inl rfl)
      · exact takenWhole_eq_nil hp
    rw [hem, hta]
    rfl

/-- Of the functors queued, those for messages that are not empty. -/
theorem Did.completedByNonEmpty (hcb : w.conn.writeCompleteCallback = true)
    (hs : step logErrno w a = some w') (hd : Did logErrno w a w') :
    (completedByNonEmpty logErrno w a).length =
      ((takenWhole w a).filter (· ≠ [])).length + (change (step logErrno) emptied w a).length := by
  rw [ConnStep.completedByNonEmpty]
  by_cases hmsg : (a.passed w).map Prod.fst = some []
  · obtain ⟨⟨inData, r⟩, hp, hnil⟩ := Option.map_eq_some_iff.1 hmsg
    dsimp only at hnil
    rw [if_pos hmsg, takenWhole_of_passed hp, hnil]
    have hem : emptied w w' = [] := by
      rcases hd.sends_or_drains with ⟨_, _, -, -, hsent⟩ | ⟨_, _, _, rfl, -, -⟩ | ⟨-, hc⟩
      · exact Sent.emptied hsent
      · cases hp
      · exact emptied_eq_nil hc.unsent
    rw [change_eq hs, hem]
    split <;> rfl
  · rw [if_neg hmsg, change_eq hs, change_eq hs, completed, List.length_replicate, hd.completions hcb]
    have hall : (takenWhole w a).filter (· ≠ []) = takenWhole w a := by
      refine List.filter_eq_self.2 fun d hmem => ?_
      unfold takenWhole at hmem
      split at hmem
      · rename_i inData r hp
        split at hmem
        · rw [List.mem_singleton] at hmem
          subst hmem
          have hne : d ≠ [] := fun hne => hmsg (by rw [hp, hne]; rfl)
          simpa using hne
        · cases hmem
      · cases hmem
    rw [hall]
    omega

theorem step_completing (s : World ι) (a : ConnStep ι) (u : World ι) (hof : a.Offered s)
    (hs : step logErrno s a = some u) (hi : s.Wf ∧ s.conn.writeCompleteCallback = true) :
    u.Wf ∧ u.conn.writeCompleteCallback = true := by
  have hd := step_ok hi.1 hof hs
  exact ⟨hd.wf hi.1, hd.notices.2.2.trans hi.2⟩

/-- The last step of a run, against all that the run has kept. -/
theorem step_completions {bs : List (ConnStep ι)} (hw : w.Established)
    (hcb : w.conn.writeCompleteCallback = true)
    (hof : Along (step logErrno) (fun w a => a.Offered w) w (bs ++ [a]))
    (hr : run (step logErrno) w bs = some t) (hs : step logErrno t a = some t') :
    (completions t.trace < completions t'.trace →
        accepted t'.trace = collect (step logErrno) (kept logErrno) w (bs ++ [a])) ∧
      (accepted t'.trace ≠ accepted t.trace →
        accepted t'.trace = collect (step logErrno) (kept logErrno) w (bs ++ [a]) →
        completions t'.trace = completions t.trace + 1) := by
  obtain ⟨hofb, hofa⟩ := hof.append
  obtain ⟨hwf, hcbt⟩ := run_inv_along step_completing hofb hr ⟨hw.wf, hcb⟩
  have hd := step_ok hwf (hofa t hr).1 hs
  have hstr := run_stream_of_run hw.wf hof (run_concat_some.2 ⟨t, hr, hs⟩)
  rw [hw.stream_eq_nil, List.nil_append, World.stream] at hstr
  refine ⟨fun hlt => ?_, fun hacc hall => ?_⟩
  · rw [← hstr, hd.unsent_of_completed hwf hcbt hlt, List.append_nil]
  · refine hd.completes hwf hcbt hacc ?_
    rw [← hall] at hstr
    exact List.append_right_eq_self.1 hstr

/-- With logging that leaves `errno` alone, a functor is queued when the kernel has accepted every message
on which `::write` did not fail with `EPIPE` or `ECONNRESET`. -/
theorem step_completions_undropped {bs : List (ConnStep ι)} (hw : w.Established)
    (hcb : w.conn.writeCompleteCallback = true)
    (hof : Along (step id) (fun w a => a.Offered w) w (bs ++ [a]))
    (hr : run (step id) w bs = some t) (hs : step id t a = some t') :
    (completions t.trace < completions t'.trace →
        accepted t'.trace = collect (step id) undropped w (bs ++ [a])) ∧
      (accepted t'.trace ≠ accepted t.trace →
        accepted t'.trace = collect (step id) undropped w (bs ++ [a]) →
        completions t'.trace = completions t.trace + 1) := by
  rw [← kept_id]
  exact step_completions hw hcb hof hr hs

/-- Whenever a write-complete functor is queued the kernel has accepted every message kept up to then;
a step in which it accepts something and after which nothing is outstanding queues exactly one; and
the functors queued for writes that are not empty are as many as the messages taken whole by the
direct write and the times the output buffer was emptied. -/
theorem write_complete_exact (logErrno : Errno → Errno) (as : List (ConnStep ι))
    (h₀ : w₀.Constructed) (he : w₀.connectEstablished = .ok w)
    (hcb : w.conn.writeCompleteCallback = true)
    (hof : Along (step logErrno) (fun w a => a.Offered w) w as) :
    (∀ bs a t t', bs ++ [a] <+: as → run (step logErrno) w bs = some t →
        step logErrno t a = some t' →
      (completions t.trace < completions t'.trace →
        accepted t'.trace = collect (step logErrno) (kept logErrno) w (bs ++ [a])) ∧
      (accepted t'.trace ≠ accepted t.trace →
        accepted t'.trace = collect (step logErrno) (kept logErrno) w (bs ++ [a]) →
        completions t'.trace = completions t.trace + 1)) ∧
      ∀ t, run (step logErrno) w as = some t →
        (collect (step logErrno) (completedByNonEmpty logErrno) w as).length =
          (collect (step logErrno) (fun w a => (takenWhole w a).filter (· ≠ [])) w as).length +
            (collect (step logErrno) (change (step logErrno) emptied) w as).length := by
  have hw := World.connectEstablished_ok h₀ he
  refine ⟨fun bs a t t' hpre hr hs => ?_, fun t hr => ?_⟩
  · obtain ⟨cs, rfl⟩ := hpre
    exact step_completions hw hcb hof.append.1 hr hs
  · refine run_length_add step_completing ?_ hof hr ⟨hw.wf, hcb⟩
    intro s a u hc hs hi
    exact (step_ok hi.1 hc hs).completedByNonEmpty hi.2 hs

/-- One message written in two parts, an empty one, and one written whole. -/
theorem write_complete_exact_three : ∃ w t, noticed.connectEstablished = .ok w ∧
    run (step id) w [.sendInLoop [1, 2, 3] (.accepted 1), .handleWrite (.accepted 2),
      .sendInLoop [] (.accepted 0), .sendInLoop [4] (.accepted 1)] = some t ∧
    (collect (step id) (completedByNonEmpty id) w [.sendInLoop [1, 2, 3] (.accepted 1),
      .handleWrite (.accepted 2), .sendInLoop [] (.accepted 0), .sendInLoop [4] (.accepted 1)]).length
        = 1 + 1 := by
  obtain ⟨w, he⟩ : ∃ w, noticed.connectEstablished = .ok w := ⟨_, rfl⟩
  obtain ⟨t, hr⟩ : ∃ t, run (step id) w [.sendInLoop [1, 2, 3] (.accepted 1),
      .handleWrite (.accepted 2), .sendInLoop [] (.accepted 0),
      .sendInLoop [4] (.accepted 1)] = some t :=
    Option.isSome_iff_exists.1 (by cases he; decide +kernel)
  obtain ⟨-, h⟩ := write_complete_exact id [.sendInLoop [1, 2, 3] (.accepted 1),
    .handleWrite (.accepted 2), .sendInLoop [] (.accepted 0), .sendInLoop [4] (.accepted 1)]
    noticed_constructed he (by cases he; rfl) (by cases he; decide +kernel)
  exact ⟨w, t, he, hr, (h t hr).trans (by cases he; decide +kernel)⟩

end ConnStep
end Muduo
