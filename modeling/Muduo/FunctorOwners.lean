import Muduo.UserCalls

/-!
# What keeps the target of a queued functor alive

A functor with a plain `this` is safe as long as the map or a user holds the connection, and safe without
them if some job that owns the connection outlives it: one in the same batch or a later one, or one that
has `connectDestroyed` queued later still. `Sound` says so for every connection at once. It knows nothing
of the pollers and of the connections' own states, so it holds whatever the kernel reports.
-/

namespace Muduo
open ServerLoop Lts

namespace Job
variable {j : Job} {js js' : List Job} {own : Bool} {c : Nat}

/-- The jobs that end in a `connectDestroyed` that is yet to be queued. -/
def closing : Job → Bool
  | .queueDestroyed _ => true
  | j => j.removal

theorem owns_of_closing (h : j.closing = true) : j.owns = true := by
  cases j <;> first | rfl | cases h

/-- Some job of `js` points to the connection, as an owner or by a plain `this`. -/
def Points (own : Bool) (c : Nat) (js : List Job) : Prop := ∃ j ∈ js, j.owns = own ∧ j.conn = c

instance (own : Bool) (c : Nat) (js : List Job) : Decidable (Points own c js) := by
  unfold Points; infer_instance

@[simp] theorem points_nil : ¬ Points own c [] := by simp [Points]

@[simp] theorem points_append : Points own c (js ++ js') ↔ Points own c js ∨ Points own c js' := by
  simp only [Points, List.mem_append, or_and_right, exists_or]

theorem Points.mono (h : Points own c js) (hsub : ∀ j ∈ js, j ∈ js') : Points own c js' := by
  obtain ⟨j, hj, hown⟩ := h
  exact ⟨j, hsub j hj, hown⟩

theorem points_none (h : ∀ j ∈ js, j.owns = !own) : ¬ Points own c js := by
  rintro ⟨j, hj, hown, -⟩
  rw [h j hj] at hown
  cases own <;> cases hown

end Job

namespace ServerLoop
variable {q q' q'' : ServerLoop} {c : Nat} {j : Job} {js rest : List Job} {P : Job → Prop}

/-- Every functor of the loop that points to `c` by a plain `this` is outlived by an owner there. -/
def Shelters (q : ServerLoop) (c : Nat) : Prop :=
  (Job.Points false c q.pendingFunctors → Job.Points true c q.pendingFunctors) ∧
    (Job.Points false c (q.stack ++ q.functors) →
      Job.Points true c (q.functors ++ q.pendingFunctors ++ q.called))

instance (q : ServerLoop) (c : Nat) : Decidable (q.Shelters c) := by unfold Shelters; infer_instance

/-- The loop has more jobs, all of which `P` allows. -/
structure Gained (P : Job → Prop) (q q' : ServerLoop) : Prop where
  phase : q'.phase = q.phase
  functors : q'.functors = q.functors
  called : q'.called = q.called
  stack : ∃ js, q'.stack = js ++ q.stack ∧ ∀ j ∈ js, P j
  pending : ∃ js, q'.pendingFunctors = q.pendingFunctors ++ js ∧ ∀ j ∈ js, P j

theorem Gained.refl : Gained P q q :=
  ⟨rfl, rfl, rfl, ⟨[], rfl, nofun⟩, ⟨[], (List.append_nil _).symm, nofun⟩⟩

theorem Gained.trans (h : Gained P q q') (h' : Gained P q' q'') : Gained P q q'' := by
  obtain ⟨js, hjs, hP⟩ := h.stack
  obtain ⟨js', hjs', hP'⟩ := h'.stack
  obtain ⟨ks, hks, hQ⟩ := h.pending
  obtain ⟨ks', hks', hQ'⟩ := h'.pending
  refine ⟨h'.phase.trans h.phase, h'.functors.trans h.functors, h'.called.trans h.called,
    ⟨js' ++ js, by rw [hjs', hjs, List.append_assoc], fun j hj => ?_⟩,
    ⟨ks ++ ks', by rw [hks', hks, List.append_assoc], fun j hj => ?_⟩⟩
  · rcases List.mem_append.1 hj with hj | hj
    · exact hP' j hj
    · exact hP j hj
  · rcases List.mem_append.1 hj with hj | hj
    · exact hQ j hj
    · exact hQ' j hj

theorem Gained.mem (h : Gained P q q') (hj : j ∈ q'.jobs) : j ∈ q.jobs ∨ P j := by
  obtain ⟨js, hjs, hP⟩ := h.stack
  obtain ⟨ks, hks, hQ⟩ := h.pending
  rw [jobs, hjs, hks, h.functors] at hj
  simp only [List.mem_append] at hj
  rw [jobs]
  simp only [List.mem_append]
  rcases hj with ((hj | hj) | hj) | hj | hj
  · exact .inr (hP j hj)
  · exact .inl (.inl (.inl hj))
  · exact .inl (.inl (.inr hj))
  · exact .inl (.inr hj)
  · exact .inr (hQ j hj)

theorem Gained.keeps (h : Gained P q q') (hj : j ∈ q.jobs) : j ∈ q'.jobs := by
  obtain ⟨js, hjs, -⟩ := h.stack
  obtain ⟨ks, hks, -⟩ := h.pending
  rw [jobs, hjs, hks, h.functors]
  rw [jobs] at hj
  simp only [List.mem_append] at hj ⊢
  tauto

theorem Gained.shelters (h : Gained P q q') (hP : ∀ j, P j → j.owns = true) (hs : q.Shelters c) :
    q'.Shelters c := by
  obtain ⟨js, hjs, hjsP⟩ := h.stack
  obtain ⟨ks, hks, hksP⟩ := h.pending
  have hjs' : ¬ Job.Points false c js := Job.points_none fun j hj => hP j (hjsP j hj)
  have hks' : ¬ Job.Points false c ks := Job.points_none fun j hj => hP j (hksP j hj)
  simp only [Shelters, Job.points_append] at hs ⊢
  rw [hjs, hks, h.functors, h.called]
  simp only [Job.points_append]
  tauto

/-- The job in hand is gone. -/
theorem Shelters.pop (h : q.Shelters c) (hst : q.stack = j :: rest) : (q.pop rest).Shelters c := by
  refine ⟨h.1, fun hp => h.2 (hp.mono fun i hi => ?_)⟩
  rw [hst]
  exact List.mem_cons_of_mem _ hi

theorem Shelters.swapped (h : q.Shelters c) (hstack : q.stack = []) : q.swapped.Shelters c := by
  refine ⟨fun hp => absurd hp Job.points_nil, fun hp => ?_⟩
  rw [show q.swapped.stack = [] from hstack] at hp
  simp only [Job.points_append]
  exact .inl (.inl (h.1 hp))

theorem Shelters.taking (h : q.Shelters c) (hstack : q.stack = []) (hfun : q.functors = j :: js) :
    (q.taking j js).Shelters c := by
  refine ⟨h.1, fun hp => ?_⟩
  have hown := h.2 (by rw [hstack, hfun]; exact hp)
  refine hown.mono fun i hi => ?_
  rw [hfun] at hi
  simp only [ServerLoop.taking, List.mem_append, List.mem_cons] at hi ⊢
  tauto

theorem Shelters.batchDone (h : q.Shelters c) (hstack : q.stack = []) (hfun : q.functors = []) :
    q.batchDone.Shelters c := by
  refine ⟨h.1, fun hp => ?_⟩
  rw [show q.batchDone.stack = [] from hstack, show q.batchDone.functors = [] from hfun] at hp
  exact absurd hp Job.points_nil

/-- A functor of another connection. -/
theorem Shelters.queue (h : q.Shelters c) (hc : j.conn ≠ c) : (q.queue [j]).Shelters c := by
  have hnone (own : Bool) : ¬ Job.Points own c [j] := by simp [Job.Points, hc]
  simp only [Shelters, ServerLoop.queue, Job.points_append, hnone, or_false] at h ⊢
  exact h

end ServerLoop

namespace TcpServer
variable {s t u : TcpServer} {c x l : Nat} {w : World Nat} {j : Job} {rest : List Job}

/-- A job that a step about the connection `x` may leave behind. -/
def Fits (s : TcpServer) (x : Nat) (j : Job) : Prop :=
  j.owns = true ∧ j.conn = x ∧ (j.removal = true → s.alive = true)

/-- Nothing is gone, and what there is more to do is about the connection `x`. -/
structure Grown (s : TcpServer) (x : Nat) (t : TcpServer) : Prop where
  numThreads : t.numThreads = s.numThreads
  next : t.next = s.next
  accepted : t.accepted = s.accepted
  alive : t.alive = s.alive
  held : t.held = s.held
  name : ∀ c, (t.conn c).name = (s.conn c).name
  loop : ∀ c, (t.conn c).loop = (s.conn c).loop
  loops : ∀ l, (s.loop l).Gained (s.Fits x) (t.loop l)
  idle : ∀ l, s.numThreads < l → t.loop l = s.loop l

theorem Grown.refl : Grown s x s :=
  ⟨rfl, rfl, rfl, rfl, rfl, fun _ => rfl, fun _ => rfl, fun _ => .refl,
    fun _ _ => rfl⟩

theorem Grown.trans (h : Grown s x t) (h' : Grown t x u) : Grown s x u where
  numThreads := h'.numThreads.trans h.numThreads
  next := h'.next.trans h.next
  accepted := h'.accepted.trans h.accepted
  alive := h'.alive.trans h.alive
  held := h'.held.trans h.held
  name c := (h'.name c).trans (h.name c)
  loop c := (h'.loop c).trans (h.loop c)
  loops l := by
    refine (h.loops l).trans ?_
    have : t.Fits x = s.Fits x := by
      funext j
      rw [Fits, h.alive]
      rfl
    rw [← this]
    exact h'.loops l
  idle l hl := (h'.idle l (h.numThreads ▸ hl)).trans (h.idle l hl)

theorem Grown.setLoop {q : ServerLoop} (hl : l ≤ s.numThreads) (hq : (s.loop l).Gained (s.Fits x) q) :
    Grown s x (s.setLoop l q) where
  numThreads := rfl
  next := rfl
  accepted := rfl
  alive := rfl
  held := rfl
  name _ := rfl
  loop _ := rfl
  loops l' := by
    rw [loop_setLoop]
    split
    · rename_i hl'
      rw [hl']; exact hq
    · exact .refl
  idle l' hl' := by
    rw [loop_setLoop, if_neg (by omega)]

theorem Grown.enter (hl : l ≤ s.numThreads) (hj : s.Fits x j) : Grown s x (s.enter l j) :=
  .setLoop hl ⟨rfl, rfl, rfl, ⟨[j], rfl, by simpa using hj⟩,
    ⟨[], (List.append_nil _).symm, nofun⟩⟩

theorem Grown.queueInLoop (hl : l ≤ s.numThreads) (hj : s.Fits x j) :
    Grown s x (s.queueInLoop l j) :=
  .setLoop hl ⟨rfl, rfl, rfl, ⟨[], rfl, nofun⟩, ⟨[j], rfl, by simpa using hj⟩⟩

theorem Grown.runInLoop {target : Nat} (hl : target ≤ s.numThreads) (hj : s.Fits x j) :
    Grown s x (s.runInLoop l target j) := by
  unfold TcpServer.runInLoop
  split
  · rename_i heq
    exact .enter (heq ▸ hl) hj
  · exact .queueInLoop hl hj

theorem Grown.setConn {k : ServerConn} (hn : k.name = (s.conn x).name) (hl : k.loop = (s.conn x).loop) :
    Grown s x { s with conn := Function.update s.conn x k } := by
  refine ⟨rfl, rfl, rfl, rfl, rfl, fun c => ?_, fun c => ?_, fun _ => .refl, fun _ _ => rfl⟩
  · show (Function.update s.conn x k c).name = _
    rw [Function.update_apply]
    split
    · rename_i hc; rw [hn, hc]
    · rfl
  · show (Function.update s.conn x k c).loop = _
    rw [Function.update_apply]
    split
    · rename_i hc; rw [hl, hc]
    · rfl

theorem Grown.mark {m : Mark} : Grown s x (s.mark x m) := .setConn rfl rfl

/-- A function that calls the close callback only while the server is there. -/
theorem Grown.absorb (hl : (s.conn x).loop ≤ s.numThreads)
    (hw : .closeCallback ∈ w.trace → s.alive = true) : Grown s x (s.absorb x w) := by
  refine (Grown.setConn (k := { s.conn x with tcp := w.conn }) rfl rfl).trans (.setLoop hl ?_)
  refine ⟨rfl, rfl, rfl, ⟨_, rfl, fun j hj => ?_⟩, ⟨_, rfl, fun j hj => ?_⟩⟩
  · split at hj
    · rename_i hm
      rw [List.mem_singleton.1 hj]
      exact ⟨rfl, rfl, fun _ => hw hm⟩
    · cases hj
  · obtain ⟨_, -, rfl⟩ := List.mem_map.1 hj
    exact ⟨rfl, rfl, nofun⟩

theorem Grown.absorb_uncalled (hl : (s.conn x).loop ≤ s.numThreads) (hw : w.Uncalled) :
    Grown s x (s.absorb x w) := .absorb hl fun hm => absurd hm hw

/-! ### Connections that their functors find alive -/

/-- Without the map and the users, every functor to come that points to the connection finds it alive. -/
def Sheltered (s : TcpServer) (c : Nat) : Prop :=
  (∃ l ≤ s.numThreads, ∃ j ∈ (s.loop l).jobs, j.closing = true ∧ j.conn = c) ∨
    ∀ l ≤ s.numThreads, (s.loop l).Shelters c

instance (s : TcpServer) (c : Nat) : Decidable (s.Sheltered c) := by unfold Sheltered; infer_instance

def Spared (s : TcpServer) (c : Nat) : Prop := 0 < s.held c ∨ s.Sheltered c

instance (s : TcpServer) (c : Nat) : Decidable (s.Spared c) := by unfold Spared; infer_instance

def Covered (s : TcpServer) (c : Nat) : Prop := s.connections (s.conn c).name = some c ∨ s.Spared c

structure Guarded (s : TcpServer) : Prop where
  next : s.numThreads = 0 ∨ s.next < s.numThreads
  loop_le : ∀ c, (s.conn c).loop ≤ s.numThreads
  idle : ∀ l, s.numThreads < l → s.loop l = .new
  batch : ∀ l, (s.loop l).phase ≠ .calling → (s.loop l).functors = []
  bare : ∀ l, ∀ j ∈ (s.loop l).jobs, j.owns = false →
    j.conn < s.accepted ∧ l = (s.conn j.conn).loop
  removals : s.alive = false → ∀ l, ∀ j ∈ (s.loop l).jobs, j.removal = false
  held : ∀ c, 0 < s.held c → c < s.accepted
  mapped : ∀ n c, s.connections n = some c → c < s.accepted

def Sound (s : TcpServer) : Prop := s.Guarded ∧ ∀ c, s.Covered c

theorem Guarded.le (h : s.Guarded) (hne : s.loop l ≠ .new) : l ≤ s.numThreads := by
  by_contra hl
  exact hne (h.idle l (by omega))

theorem Guarded.le_of_stack (h : s.Guarded) (hst : (s.loop l).stack = j :: rest) :
    l ≤ s.numThreads := h.le fun heq => by
  rw [heq] at hst
  cases hst

theorem Guarded.setLoop {q : ServerLoop} (h : s.Guarded) (hl : l ≤ s.numThreads)
    (hjobs : ∀ j ∈ q.jobs, j ∈ (s.loop l).jobs) (hbatch : q.phase ≠ .calling → q.functors = []) :
    (s.setLoop l q).Guarded := by
  have sub (l' : Nat) (j : Job) (hj : j ∈ ((s.setLoop l q).loop l').jobs) : j ∈ (s.loop l').jobs := by
    rw [loop_setLoop] at hj
    split at hj
    · rename_i hl'
      rw [hl']; exact hjobs j hj
    · exact hj
  refine ⟨h.next, h.loop_le, fun l' hl' => ?_, fun l' hp => ?_, fun l' j hj => h.bare l' j (sub l' j hj),
    fun ha l' j hj => h.removals ha l' j (sub l' j hj), h.held, h.mapped⟩
  · rw [loop_setLoop, if_neg (by have : s.numThreads < l' := hl'; omega)]
    exact h.idle l' hl'
  · rw [loop_setLoop] at hp ⊢
    split at hp
    · rw [if_pos ‹_›]; exact hbatch hp
    · rw [if_neg ‹_›]; exact h.batch l' hp

theorem Guarded.grown (h : s.Guarded) (g : Grown s x t)
    (hmap : ∀ n c, t.connections n = some c → s.connections n = some c) : t.Guarded where
  next := by rw [g.numThreads, g.next]; exact h.next
  loop_le c := by rw [g.loop, g.numThreads]; exact h.loop_le c
  idle l hl := by
    rw [g.numThreads] at hl
    rw [g.idle l hl]
    exact h.idle l hl
  batch l hp := by
    rw [(g.loops l).phase] at hp
    rw [(g.loops l).functors]
    exact h.batch l hp
  bare l j hj hb := by
    rw [g.accepted, g.loop]
    rcases (g.loops l).mem hj with hold | hnew
    · exact h.bare l j hold hb
    · rw [hnew.1] at hb; cases hb
  removals ha l j hj := by
    rw [g.alive] at ha
    rcases (g.loops l).mem hj with hold | hnew
    · exact h.removals ha l j hold
    · cases hr : j.removal with
      | false => rfl
      | true =>
        rw [hnew.2.2 hr] at ha
        cases ha
  held c hc := by
    rw [g.held] at hc
    rw [g.accepted]
    exact h.held c hc
  mapped n c hn := by
    rw [g.accepted]
    exact h.mapped n c (hmap n c hn)

theorem Sheltered.setLoop {q : ServerLoop} (h : s.Sheltered c)
    (hq : (s.loop l).Shelters c → q.Shelters c)
    (hjobs : ∀ j ∈ (s.loop l).jobs, j.closing = true → j.conn = c → j ∈ q.jobs) :
    (s.setLoop l q).Sheltered c := by
  rcases h with ⟨l', hl', j, hj, hcl, hc⟩ | hall
  · refine .inl ⟨l', hl', j, ?_, hcl, hc⟩
    rw [loop_setLoop]
    split
    · rename_i heq
      exact hjobs j (heq ▸ hj) hcl hc
    · exact hj
  · refine .inr fun l' hl' => ?_
    rw [loop_setLoop]
    split
    · rename_i heq
      exact hq (heq ▸ hall l' hl')
    · exact hall l' hl'

theorem Sheltered.grown (h : s.Sheltered c) (g : Grown s x t) : t.Sheltered c := by
  rcases h with ⟨l, hl, j, hj, hcl, hc⟩ | hall
  · exact .inl ⟨l, by rw [g.numThreads]; exact hl, j, (g.loops l).keeps hj, hcl, hc⟩
  · refine .inr fun l hl => (g.loops l).shelters (fun j hj => hj.1) (hall l ?_)
    rw [← g.numThreads]; exact hl

theorem Spared.grown (h : s.Spared c) (g : Grown s x t) : t.Spared c := by
  rcases h with hh | hs
  · exact .inl (by rw [g.held]; exact hh)
  · exact .inr (hs.grown g)

theorem Covered.grown (h : s.Covered c) (g : Grown s x t)
    (hmap : s.connections (s.conn c).name = some c → t.connections (s.conn c).name = some c ∨ s.Spared c) :
    t.Covered c := by
  rcases h with hm | hs
  · rcases hmap hm with hm | hs
    · exact .inl (by rw [g.name]; exact hm)
    · exact .inr (hs.grown g)
  · exact .inr (hs.grown g)

/-- Whatever a loop is in the middle of finds its connection alive. -/
theorem Sound.owned_of_stack (h : s.Sound) (hj : j ∈ (s.loop l).stack) : s.owned j.conn = true := by
  have hl : l ≤ s.numThreads := h.1.le fun heq => by
    rw [heq] at hj; cases hj
  rw [owned_iff]
  cases hown : j.owns with
  | true => exact .inr (.inr ⟨l, hl, j, List.mem_append_left _ (mem_jobs_stack hj), hown, rfl⟩)
  | false =>
    rcases h.2 j.conn with hm | hh | ⟨l', hl', i, hi, hcl, hc⟩ | hall
    · exact .inl hm
    · exact .inr (.inl hh)
    · exact .inr (.inr ⟨l', hl', i, List.mem_append_left _ hi, Job.owns_of_closing hcl, hc⟩)
    · refine .inr (.inr ⟨l, hl, Job.Points.mono ((hall l hl).2 ?_) fun i hi => ?_⟩)
      · exact ⟨j, List.mem_append_left _ hj, hown, rfl⟩
      · simp only [ServerLoop.jobs, List.mem_append] at hi ⊢
        tauto

/-- The server stays sound, the users hold what they held, and no connection that was destroyed is
owned again. -/
structure Follows (s t : TcpServer) : Prop where
  sound : t.Sound
  held : t.held = s.held
  accepted : s.accepted ≤ t.accepted
  owned : ∀ c < s.accepted, t.owned c = true → s.owned c = true

theorem owned_setLoop {q : ServerLoop}
    (hq : ∀ j ∈ q.jobs ++ q.called, j ∈ (s.loop l).jobs ++ (s.loop l).called)
    (ho : (s.setLoop l q).owned c = true) : s.owned c = true := by
  rw [owned_iff] at ho ⊢
  refine ho.imp_right fun ho => ho.imp_right fun ⟨l', hl', hp⟩ =>
    ⟨l', hl', Job.Points.mono hp fun j hj => ?_⟩
  rw [loop_setLoop] at hj
  split at hj
  · rename_i heq
    rw [heq]; exact hq j hj
  · exact hj

theorem Grown.owned (g : Grown s x t)
    (hmap : t.connections (s.conn c).name = some c → s.connections (s.conn c).name = some c)
    (ho : t.owned c = true) : s.owned c = true ∨ c = x := by
  rw [owned_iff, g.name, g.held, g.numThreads] at ho
  rw [owned_iff]
  rcases ho with hm | hh | ⟨l, hl, j, hj, hown, hc⟩
  · exact .inl (.inl (hmap hm))
  · exact .inl (.inr (.inl hh))
  · rcases List.mem_append.1 hj with hj | hj
    · rcases (g.loops l).mem hj with hold | hnew
      · exact .inl (.inr (.inr ⟨l, hl, j, List.mem_append_left _ hold, hown, hc⟩))
      · exact .inr (hc.symm.trans hnew.2.1)
    · rw [(g.loops l).called] at hj
      exact .inl (.inr (.inr ⟨l, hl, j, List.mem_append_right _ hj, hown, hc⟩))

theorem Sound.of_grown (h : s.Sound) (g : Grown s x t) (hmap : t.connections = s.connections) :
    t.Sound :=
  ⟨h.1.grown g fun _ _ hn => hmap ▸ hn, fun c => (h.2 c).grown g fun hm => .inl (hmap ▸ hm)⟩

theorem Sound.grown (h : s.Sound) (g : Grown s x t) (hmap : t.connections = s.connections)
    (hx : s.owned x = true) : Follows s t where
  sound := h.of_grown g hmap
  held := g.held
  accepted := Nat.le_of_eq g.accepted.symm
  owned c _ ho := by
    rcases g.owned (fun hm => hmap ▸ hm) ho with ho | hc
    · exact ho
    · rw [hc]; exact hx

/-- The loop goes on with the jobs it has. -/
theorem Sound.setLoop {q : ServerLoop} (h : s.Sound) (hl : l ≤ s.numThreads)
    (hjobs : q.jobs = (s.loop l).jobs) (hbatch : q.phase ≠ .calling → q.functors = [])
    (hq : ∀ c, (s.loop l).Shelters c → q.Shelters c)
    (hcalled : ∀ j ∈ q.called, j ∈ (s.loop l).jobs ++ (s.loop l).called) :
    Follows s (s.setLoop l q) := by
  refine ⟨⟨h.1.setLoop hl (fun j hj => hjobs ▸ hj) hbatch, fun c => ?_⟩, rfl, Nat.le_refl _,
    fun c _ ho => owned_setLoop (fun j hj => ?_) ho⟩
  · refine (h.2 c).imp_right fun hs => hs.imp_right fun hs => ?_
    exact hs.setLoop (hq c) fun j hj _ _ => hjobs ▸ hj
  · rcases List.mem_append.1 hj with hj | hj
    · exact List.mem_append_left _ (hjobs ▸ hj)
    · exact hcalled j hj

/-- The job in hand leaves jobs about its connection behind, and if its connection is being closed it
leaves it sheltered. -/
theorem Sound.goOn (h : s.Sound) (hst : (s.loop l).stack = j :: rest)
    (g : Grown (s.setLoop l ((s.loop l).pop rest)) j.conn t)
    (hsub : ∀ n c, t.connections n = some c → s.connections n = some c)
    (hmap : ∀ c, s.connections (s.conn c).name = some c →
      t.connections (s.conn c).name = some c ∨ s.Spared c)
    (hkeep : j.closing = true → t.Guarded → t.Sheltered j.conn) : Follows s t := by
  have hjobs (i : Job) : i ∈ (s.loop l).jobs ↔ i = j ∨ i ∈ ((s.loop l).pop rest).jobs := by
    simp [ServerLoop.jobs, ServerLoop.pop, hst]
  have hg : (s.setLoop l ((s.loop l).pop rest)).Guarded :=
    h.1.setLoop (h.1.le_of_stack hst) (fun i hi => (hjobs i).2 (.inr hi)) (h.1.batch l)
  have hgt := hg.grown g hsub
  refine ⟨⟨hgt, fun c => ?_⟩, g.held, Nat.le_of_eq g.accepted.symm, fun c _ ho => ?_⟩
  rotate_left
  · rcases g.owned (fun hm => hsub _ _ hm) ho with ho | hc
    · refine owned_setLoop (fun i hi => ?_) ho
      rcases List.mem_append.1 hi with hi | hi
      · exact List.mem_append_left _ ((hjobs i).2 (.inr hi))
      · exact List.mem_append_right _ hi
    · rw [hc]
      exact h.owned_of_stack (by rw [hst]; exact List.mem_cons_self)
  by_cases hc : j.closing = true ∧ j.conn = c
  · rw [← hc.2]
    exact .inr (.inr (hkeep hc.1 hgt))
  · have spared (hs : s.Spared c) : (s.setLoop l ((s.loop l).pop rest)).Spared c := by
      refine hs.imp_right fun hs => hs.setLoop (fun hq => hq.pop hst) fun i hi hcl hic => ?_
      refine ((hjobs i).1 hi).resolve_left fun hij => hc ⟨?_, ?_⟩
      · rw [← hij]; exact hcl
      · rw [← hij]; exact hic
    have hcov : (s.setLoop l ((s.loop l).pop rest)).Covered c := (h.2 c).imp_right spared
    exact hcov.grown g fun hm => (hmap c hm).imp_right spared

/-! ### Jobs -/

/-- A job that is none of the server's. -/
theorem fits (hj : j.owns = true) (hr : j.removal = false) : s.Fits j.conn j :=
  ⟨hj, rfl, fun h => by rw [hr] at h; cases h⟩

theorem Grown.erase : Grown s x (s.erase c) :=
  ⟨rfl, rfl, rfl, rfl, rfl, fun _ => rfl, fun _ => rfl, fun _ => .refl,
    fun _ _ => rfl⟩

theorem Grown.handleClose (hl : (s.conn x).loop ≤ s.numThreads) (ha : s.alive = true)
    (ho : s.handleClose x w = some t) : Grown s x t ∧ t.connections = s.connections := by
  obtain ⟨v, -, rfl⟩ := Option.map_eq_some_iff.1 ho
  refine ⟨Grown.mark.trans (.absorb ?_ fun _ => ha), rfl⟩
  rw [conn_mark_self]
  exact hl

theorem Grown.makeCallback {cb : Callback} {r : ReadResult} {r' : WriteResult}
    (hl : (s.conn x).loop ≤ s.numThreads) (ha : cb = .close ∨ cb = .read ∧ r = .delivered [] →
      s.alive = true) (ho : s.makeCallback x cb r r' = some t) :
    Grown s x t ∧ t.connections = s.connections := by
  have hq := uncalled_world s x
  cases makeCallback_some ho with
  | close ho => exact Grown.handleClose hl (ha (.inl rfl)) ho
  | error => exact ⟨.absorb_uncalled hl hq, rfl⟩
  | read hv => exact ⟨.absorb_uncalled hl (hq.readInput hv), rfl⟩
  | readEnd hv ho => exact Grown.handleClose hl (ha (.inr ⟨rfl, World.readInput_end hv⟩)) ho
  | write hv => exact ⟨.absorb_uncalled hl (hq.handleWrite hv), rfl⟩

/-- A job that closes nothing and leaves the map alone. -/
theorem Sound.ordinary (h : s.Sound) (hst : (s.loop l).stack = j :: rest)
    (g : Grown (s.setLoop l ((s.loop l).pop rest)) j.conn t) (hmap : t.connections = s.connections)
    (hj : j.closing = false) : Follows s t :=
  h.goOn hst g (fun _ _ hn => hmap ▸ hn) (fun _ hm => .inl (hmap ▸ hm)) fun hcl => by
    rw [hj] at hcl; cases hcl

theorem sheltered_of_job (hl : l ≤ s.numThreads) (hj : j ∈ (s.loop l).jobs) (hcl : j.closing = true) :
    s.Sheltered j.conn := .inl ⟨l, hl, j, hj, hcl, rfl⟩

theorem mem_enter : j ∈ ((s.enter l j).loop l).jobs := by
  rw [TcpServer.enter, loop_setLoop, if_pos rfl]
  exact mem_jobs_stack List.mem_cons_self

theorem mem_queueInLoop : j ∈ ((s.queueInLoop l j).loop l).pendingFunctors := by
  rw [TcpServer.queueInLoop, loop_setLoop, if_pos rfl]
  exact List.mem_append_right _ (List.mem_singleton.2 rfl)

theorem mem_runInLoop {target : Nat} : j ∈ ((s.runInLoop l target j).loop target).jobs := by
  unfold TcpServer.runInLoop
  split
  · rename_i hl
    rw [← hl]; exact mem_enter
  · exact mem_jobs_pending mem_queueInLoop

/-- All functors with a plain `this` are in the connection's own loop, ahead of `connectDestroyed`. -/
theorem Guarded.sheltered (h : s.Guarded)
    (hq : .connectDestroyed c ∈ (s.loop (s.conn c).loop).pendingFunctors) : s.Sheltered c := by
  have own : Job.Points true c (s.loop (s.conn c).loop).pendingFunctors := ⟨_, hq, rfl, rfl⟩
  have home (l : Nat) (js : List Job) (hjs : ∀ j ∈ js, j ∈ (s.loop l).jobs)
      (hp : Job.Points false c js) : l = (s.conn c).loop := by
    obtain ⟨j, hj, hown, hc⟩ := hp
    rw [← hc]
    exact (h.bare l j (hjs j hj) hown).2
  refine .inr fun l _ => ⟨fun hp => ?_, fun hp => ?_⟩
  · rw [home l _ (fun _ hj => mem_jobs_pending hj) hp]
    exact own
  · rw [home l _ (fun _ hj => List.mem_append_left _ hj) hp]
    simp [own]

theorem Sound.removeConnection (h : s.Sound) (hst : (s.loop l).stack = .removeConnection c :: rest) :
    Follows s ((s.setLoop l ((s.loop l).pop rest)).runInLoop l 0 (.removeConnectionInLoop c)) := by
  have hmap := connections_runInLoop (s.setLoop l ((s.loop l).pop rest)) l 0 (.removeConnectionInLoop c)
  have halive : s.alive = true := by
    by_contra hdead
    have := h.1.removals (Bool.eq_false_iff.2 hdead) l (.removeConnection c)
      (mem_jobs_stack (by rw [hst]; exact List.mem_cons_self))
    cases this
  have g : Grown (s.setLoop l ((s.loop l).pop rest)) c
      ((s.setLoop l ((s.loop l).pop rest)).runInLoop l 0 (.removeConnectionInLoop c)) :=
    .runInLoop (Nat.zero_le _) ⟨rfl, rfl, fun _ => halive⟩
  refine h.goOn hst g (fun _ _ hn => hmap ▸ hn) (fun _ hm => .inl (hmap ▸ hm)) fun _ _ => ?_
  exact sheltered_of_job (j := .removeConnectionInLoop c) (Nat.zero_le _) mem_runInLoop rfl

theorem Sound.removeConnectionInLoop (h : s.Sound)
    (hst : (s.loop l).stack = .removeConnectionInLoop c :: rest)
    (ha : ∀ c', (s.conn c').name = (s.conn c).name → s.connections (s.conn c').name = some c' →
      s.Spared c') :
    Follows s ((((s.setLoop l ((s.loop l).pop rest)).mark c .erased).erase c).enter l
      (.queueDestroyed c)) := by
  have hl := h.1.le_of_stack hst
  have g : Grown (s.setLoop l ((s.loop l).pop rest)) c
      ((((s.setLoop l ((s.loop l).pop rest)).mark c .erased).erase c).enter l (.queueDestroyed c)) :=
    (Grown.mark.trans .erase).trans (.enter hl (fits (j := .queueDestroyed c) rfl rfl))
  have hmap : ((((s.setLoop l ((s.loop l).pop rest)).mark c .erased).erase c).enter l
      (.queueDestroyed c)).connections = Function.update s.connections (s.conn c).name none :=
    connections_erased _ c l
  refine h.goOn hst g (fun n c' hn => ?_) (fun c' hm => ?_) fun _ _ => ?_
  · rw [hmap, Function.update_apply] at hn
    split at hn
    · cases hn
    · exact hn
  · by_cases hn : (s.conn c').name = (s.conn c).name
    · exact .inr (ha c' hn hm)
    · rw [hmap, Function.update_of_ne hn]
      exact .inl hm
  · exact sheltered_of_job (j := .queueDestroyed c) (l := l) hl mem_enter rfl

theorem Sound.handleEvent {cb : Callback} {cbs : List Callback} {r : ReadResult} {r' : WriteResult}
    (h : s.Sound) (hst : (s.loop l).stack = .handleEvent c (cb :: cbs) :: rest)
    (hclose : s.closingNext l r = true → s.alive = true)
    (ho : (((s.setLoop l ((s.loop l).pop rest)).enter l (.handleEvent c cbs)).mark c
      (.handler cb)).makeCallback c cb r r' = some t) : Follows s t := by
  have hclose' (hcb : cb = .close ∨ cb = .read ∧ r = .delivered []) : s.alive = true := by
    apply hclose
    rcases hcb with rfl | ⟨rfl, rfl⟩
    · simp [closingNext, hst]
    · simp [closingNext, hst]
  have henter : Grown (s.setLoop l ((s.loop l).pop rest)) c
      ((s.setLoop l ((s.loop l).pop rest)).enter l (.handleEvent c cbs)) :=
    .enter (h.1.le_of_stack hst) (fits (j := .handleEvent c cbs) rfl rfl)
  have hin := henter.trans (.mark (m := .handler cb))
  have hconn : (((s.setLoop l ((s.loop l).pop rest)).enter l (.handleEvent c cbs)).mark c
      (.handler cb)).connections = s.connections := rfl
  generalize ((s.setLoop l ((s.loop l).pop rest)).enter l (.handleEvent c cbs)).mark c
    (.handler cb) = v at hin hconn ho
  obtain ⟨g, hm⟩ := Grown.makeCallback (by rw [hin.loop, hin.numThreads]; exact h.1.loop_le c)
    (fun hcb => hin.alive.trans (hclose' hcb)) ho
  exact h.ordinary hst (hin.trans g) (hm.trans hconn) rfl

theorem Sound.perform {logErrno : Errno → Errno} {r : ReadResult} {r' : WriteResult} (h : s.Sound)
    (hst : (s.loop l).stack = j :: rest) (hclose : s.closingNext l r = true → s.alive = true)
    (hmap : ∀ c, s.erasing l = some (s.conn c).name → s.connections (s.conn c).name = some c →
      s.Spared c)
    (ho : (s.setLoop l ((s.loop l).pop rest)).perform logErrno l r r' j = some t) :
    Follows s t := by
  have hl := h.1.le_of_stack hst
  have hloop (c : Nat) : ((s.setLoop l ((s.loop l).pop rest)).conn c).loop ≤ s.numThreads :=
    h.1.loop_le c
  have hq (c : Nat) := uncalled_world (s.setLoop l ((s.loop l).pop rest)) c
  cases j with
  | establish c =>
    cases ho
    exact h.ordinary hst (.runInLoop (hloop c) (fits (j := .connectEstablished c) rfl rfl))
      (connections_runInLoop ..) rfl
  | connectEstablished c =>
    obtain ⟨w, hw, rfl⟩ := Option.map_eq_some_iff.1 ho
    refine h.ordinary hst (Grown.mark.trans (.absorb_uncalled ?_ ?_)) rfl rfl
    · rw [conn_mark_self]; exact hloop c
    · exact (hq c).connectEstablished (toOption_eq_some.1 hw)
  | handleEvent c cbs =>
    cases cbs with
    | nil =>
      cases ho
      exact h.ordinary hst .refl rfl rfl
    | cons cb cbs => exact h.handleEvent hst hclose ho
  | removeConnection c =>
    cases ho
    exact h.removeConnection hst
  | removeConnectionInLoop c =>
    cases ho
    refine h.removeConnectionInLoop hst fun c' hn hm => hmap c' ?_ hm
    rw [hn, erasing, hst]
  | queueDestroyed c =>
    cases ho
    refine h.goOn hst (.queueInLoop (hloop c) (fits (j := .connectDestroyed c) rfl rfl))
      (fun _ _ hn => hn) (fun _ hm => .inl hm) fun _ hg => hg.sheltered ?_
    exact mem_queueInLoop
  | connectDestroyed c =>
    obtain ⟨w, hw, rfl⟩ := Option.map_eq_some_iff.1 ho
    refine h.ordinary hst (Grown.mark.trans (.absorb_uncalled ?_ ?_)) rfl rfl
    · rw [conn_mark_self]; exact hloop c
    · exact (hq c).connectDestroyed (toOption_eq_some.1 hw)
  | userCallback c =>
    cases ho
    exact h.ordinary hst .refl rfl rfl
  | sendInLoop c msg =>
    rw [TcpServer.perform] at ho
    split at ho
    · obtain ⟨w, hw, rfl⟩ := Option.map_eq_some_iff.1 ho
      exact h.ordinary hst (.absorb_uncalled (hloop c) ((hq c).sendInLoop (toOption_eq_some.1 hw)))
        rfl rfl
    · cases ho
  | shutdownInLoop c =>
    cases ho
    exact h.ordinary hst (.absorb_uncalled (hloop c) (hq c).shutdownInLoop) rfl rfl

/-! ### The other steps -/

theorem Sound.accept {inSockfd : Int} (h : s.Sound)
    (ha : ∀ c < s.accepted, s.connections s.connName = some c → s.Spared c) :
    Follows s (s.newConnection inSockfd) := by
  have enter (v : TcpServer) (hv : v.Sound) : (v.enter 0 (.establish s.accepted)).Sound :=
    hv.of_grown (.enter (Nat.zero_le _) (fits (j := .establish s.accepted) rfl rfl)) rfl
  refine ⟨enter _ ⟨⟨(getNextLoop_le h.1.next).2, fun c => ?_, h.1.idle, h.1.batch, fun l j hj hb => ?_,
    h.1.removals, fun c hc => Nat.lt_succ_of_lt (h.1.held c hc), fun n c hn => ?_⟩, fun c => ?_⟩, rfl,
    Nat.le_succ _, fun c hc ho => ?_⟩
  · show (Function.update s.conn s.accepted _ c).loop ≤ s.numThreads
    rw [Function.update_apply]
    split
    · exact (getNextLoop_le h.1.next).1
    · exact h.1.loop_le c
  · obtain ⟨hc, hl⟩ := h.1.bare l j hj hb
    refine ⟨Nat.lt_succ_of_lt hc, ?_⟩
    show l = (Function.update s.conn s.accepted _ j.conn).loop
    rw [Function.update_of_ne (Nat.ne_of_lt hc)]
    exact hl
  · change (s.newConnection inSockfd).connections n = some c at hn
    rw [connections_newConnection, Function.update_apply] at hn
    split at hn
    · cases hn; exact Nat.lt_succ_self _
    · exact Nat.lt_succ_of_lt (h.1.mapped n c hn)
  · by_cases hc : c = s.accepted
    · refine .inl ?_
      show (s.newConnection inSockfd).connections ((s.newConnection inSockfd).conn c).name = some c
      rw [hc, newConnection_self, connections_newConnection, Function.update_self]
    · rcases h.2 c with hm | hs
      · by_cases hn : (s.conn c).name = s.connName
        · exact .inr (ha c (h.1.mapped _ c hm) (hn ▸ hm))
        · refine .inl ?_
          show (s.newConnection inSockfd).connections ((s.newConnection inSockfd).conn c).name = some c
          rw [newConnection_of_ne hc, connections_newConnection, Function.update_of_ne hn]
          exact hm
      · exact .inr hs
  · have hne : c ≠ s.accepted := Nat.ne_of_lt hc
    rw [owned_iff] at ho ⊢
    rcases ho with hm | hh | ⟨l, hl, j, hj, hown, hjc⟩
    · refine .inl ?_
      rw [newConnection_of_ne hne, connections_newConnection, Function.update_apply] at hm
      split at hm
      · exact absurd (Option.some.inj hm).symm hne
      · exact hm
    · exact .inr (.inl hh)
    · refine .inr (.inr ⟨l, hl, j, ?_, hown, hjc⟩)
      have g : Grown s s.accepted (s.enter 0 (.establish s.accepted)) :=
        .enter (Nat.zero_le _) (fits (j := .establish s.accepted) rfl rfl)
      change j ∈ ((s.enter 0 (.establish s.accepted)).loop l).jobs ++
        ((s.enter 0 (.establish s.accepted)).loop l).called at hj
      rcases List.mem_append.1 hj with hj | hj
      · rcases (g.loops l).mem hj with hold | hnew
        · exact List.mem_append_left _ hold
        · exact absurd (hjc.symm.trans hnew.2.1) hne
      · rw [(g.loops l).called] at hj
        exact List.mem_append_right _ hj

theorem Grown.dispatch {revents : EventMask} {active : List (Nat × EventMask)}
    (hl : l ≤ s.numThreads) (hstack : (s.loop l).stack = []) :
    Grown s c (s.dispatch l c revents active) := by
  obtain ⟨cbs, -, hdispatch⟩ := s.dispatch_eq l c revents active
  have gained : (s.loop l).Gained (s.Fits c) ((s.loop l).dispatched c cbs active) := by
    refine ⟨rfl, rfl, rfl, ⟨[.handleEvent c cbs], ?_, fun j hj => ?_⟩,
      ⟨[], (List.append_nil _).symm, nofun⟩⟩
    · rw [hstack]; rfl
    · rw [List.mem_singleton.1 hj]
      exact fits (j := .handleEvent c cbs) rfl rfl
  have htcp : Grown s c (s.setTcp c { (s.conn c).tcp with channel.revents := revents }) :=
    .setConn rfl rfl
  rw [hdispatch]
  exact htcp.trans (.setLoop hl gained)

/-- The users' pointers change. -/
theorem Sound.setHeld {f : Nat → Nat} (h : s.Sound) (hlt : ∀ c, 0 < f c → c < s.accepted)
    (hcov : ∀ c, 0 < s.held c → 0 < f c ∨ s.connections (s.conn c).name = some c ∨ s.Sheltered c) :
    Sound { s with held := f } := by
  refine ⟨⟨h.1.next, h.1.loop_le, h.1.idle, h.1.batch, h.1.bare, h.1.removals, hlt, h.1.mapped⟩,
    fun c => ?_⟩
  rcases h.2 c with hm | hh | hs
  · exact .inl hm
  · rcases hcov c hh with hh | hm | hs
    · exact .inr (.inl hh)
    · exact .inl hm
    · exact .inr (.inr hs)
  · exact .inr (.inr hs)

theorem owned_setHeld {f : Nat → Nat} (hle : 0 < f c → 0 < s.held c)
    (ho : TcpServer.owned { s with held := f } c = true) : s.owned c = true := by
  rw [owned_iff] at ho ⊢
  exact ho.imp_right fun ho => ho.imp_left hle

theorem Sound.hold (h : s.Sound) (hc : c < s.accepted) :
    Sound { s with held := Function.update s.held c (s.held c + 1) } := by
  refine h.setHeld (fun c' hc' => ?_) fun c' hh => .inl ?_
  · rw [Function.update_apply] at hc'
    split at hc'
    · rename_i heq; rw [heq]; exact hc
    · exact h.1.held c' hc'
  · rw [Function.update_apply]
    split
    · exact Nat.succ_pos _
    · exact hh

theorem Sound.release (h : s.Sound)
    (ha : s.held c = 1 → s.connections (s.conn c).name = some c ∨ s.Sheltered c) :
    Sound { s with held := Function.update s.held c (s.held c - 1) } := by
  refine h.setHeld (fun c' hc' => ?_) fun c' hh => ?_
  · rw [Function.update_apply] at hc'
    split at hc'
    · rename_i heq
      rw [heq]; exact h.1.held c (by omega)
    · exact h.1.held c' hc'
  · rw [Function.update_apply]
    split
    · rename_i heq
      subst heq
      by_cases hone : s.held c' = 1
      · exact .inr (ha hone)
      · exact .inl (by omega)
    · exact .inl hh

theorem Sound.destroyServer (h : s.Sound)
    (hr : ∀ l ≤ s.numThreads, ∀ j ∈ (s.loop l).jobs, j.removal = false)
    (ha : ∀ c < s.accepted, s.connections (s.conn c).name = some c → s.Spared c) :
    Follows s { s with alive := false, connections := fun _ => none } := by
  refine ⟨⟨⟨h.1.next, h.1.loop_le, h.1.idle, h.1.batch, h.1.bare, fun _ l j hj => hr l ?_ j hj, h.1.held,
    nofun⟩, fun c => ?_⟩, rfl, Nat.le_refl _, fun c _ ho => ?_⟩
  · refine h.1.le fun heq => ?_
    change j ∈ (s.loop l).jobs at hj
    rw [heq] at hj
    cases hj
  · rcases h.2 c with hm | hs
    · exact .inr (ha c (h.1.mapped _ c hm) hm)
    · exact .inr hs
  · rw [owned_iff] at ho ⊢
    rcases ho with hm | ho
    · cases hm
    · exact .inr ho

/-- A loop ends that has nothing to do with the closing of any connection. -/
theorem Sound.leave (h : s.Sound) (hl : l ≤ s.numThreads)
    (hclosing : ∀ j ∈ (s.loop l).jobs, j.closing = false) : Follows s (s.setLoop l .exited) := by
  have hnone (j : Job) : ¬ j ∈ ServerLoop.exited.jobs ++ ServerLoop.exited.called := List.not_mem_nil
  refine ⟨⟨h.1.setLoop hl (fun j hj => absurd (List.mem_append_left _ hj) (hnone j)) fun _ => rfl,
    fun c => ?_⟩, rfl, Nat.le_refl _, fun c _ ho => owned_setLoop (fun j hj => absurd hj (hnone j)) ho⟩
  refine (h.2 c).imp_right fun hs => hs.imp_right fun hs => hs.setLoop (fun _ => ?_) fun j hj hcl _ => ?_
  · exact ⟨fun hp => absurd hp Job.points_nil, fun hp => absurd hp Job.points_nil⟩
  · rw [hclosing j hj] at hcl
    cases hcl

/-- The pollers do not count. -/
theorem Sound.closeFds (h : s.Sound) : s.closeFds.Sound := by
  refine ⟨⟨h.1.next, h.1.loop_le, fun l hl => ?_, h.1.batch, h.1.bare, h.1.removals, h.1.held, h.1.mapped⟩, h.2⟩
  show (s.loop l).forget s.owned = .new
  rw [h.1.idle l hl]
  rfl

theorem gained_queueInLoop (s : TcpServer) (target : Nat) (j : Job) (l : Nat) :
    (s.loop l).Gained (fun i => l = target ∧ i = j) ((s.queueInLoop target j).loop l) := by
  rw [TcpServer.queueInLoop, loop_setLoop]
  split
  · rename_i hl
    subst hl
    exact ⟨rfl, rfl, rfl, ⟨[], rfl, by simp⟩, ⟨[j], rfl, by simp⟩⟩
  · exact .refl

/-- Another thread pushes a functor through a pointer it holds. -/
theorem Sound.push (h : s.Sound) (hown : j.owns = false) (hheld : 0 < s.held j.conn) :
    Follows s (s.queueInLoop (s.conn j.conn).loop j) := by
  have g := s.gained_queueInLoop (s.conn j.conn).loop j
  have hrem : j.removal = false := by
    cases j <;> first | rfl | cases hown
  refine ⟨⟨⟨h.1.next, h.1.loop_le, fun l hl => ?_, fun l hp => ?_, fun l i hi hb => ?_,
    fun hd l i hi => ?_, h.1.held, h.1.mapped⟩, fun c => ?_⟩, rfl, Nat.le_refl _, fun c _ ho => ?_⟩
  · have hle := h.1.loop_le j.conn
    have hlt : s.numThreads < l := hl
    rw [TcpServer.queueInLoop, loop_setLoop, if_neg (by omega)]
    exact h.1.idle l hl
  · rw [(g l).phase] at hp
    rw [(g l).functors]
    exact h.1.batch l hp
  · rcases (g l).mem hi with hold | ⟨hl, rfl⟩
    · exact h.1.bare l i hold hb
    · exact ⟨h.1.held _ hheld, hl⟩
  · rcases (g l).mem hi with hold | ⟨-, rfl⟩
    · exact h.1.removals hd l i hold
    · exact hrem
  · by_cases hc : j.conn = c
    · exact .inr (.inl (hc ▸ hheld))
    · refine (h.2 c).imp_right fun hs => hs.imp_right fun hs => ?_
      exact hs.setLoop (fun hq => hq.queue hc) fun i hi _ _ => by
        simp only [ServerLoop.jobs, List.mem_append] at hi ⊢
        tauto
  · rw [owned_iff] at ho ⊢
    refine ho.imp_right fun ho => ho.imp_right fun hp => ?_
    obtain ⟨l, hl, i, hi, hio, hic⟩ := hp
    refine ⟨l, hl, i, ?_, hio, hic⟩
    rcases List.mem_append.1 hi with hi | hi
    · rcases (g l).mem hi with hold | ⟨-, rfl⟩
      · exact List.mem_append_left _ hold
      · rw [hown] at hio; cases hio
    · rw [(g l).called] at hi
      exact List.mem_append_right _ hi

end TcpServer
end Muduo
