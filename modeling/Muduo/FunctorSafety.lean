import Muduo.FunctorOwners
import Muduo.Threads

/-!
# Queued functors and the objects they point to

Over every interleaving of the loops, the users' threads and the end of the server, as long as each step is
careful: no functor of `send`, `shutdown` or `removeConnection` runs after the object it points to has
been destroyed, and what has been destroyed stays so.
-/

namespace Muduo
open EPollPoller ServerLoop Lts

namespace Users
open TcpServer
variable {s t : Users} {u : TcpServer} {c : Nat} {a : UserStep} {as : List UserStep}
  {logErrno : Errno → Errno}

/-- A connection's last pointer in the map or with a user is not dropped unless its queued functors are
outlived by an owner; a connection closes only while the server is there, and the server is destroyed
only with no removal on its way. -/
def Careful (s : Users) : UserStep → Prop
  | .server (.accept _) => ∀ c < s.server.accepted,
      s.server.connections s.server.connName = some c → s.server.Spared c
  | .server (.proceed l r _) =>
      (s.server.closingNext l r = true → s.server.alive = true) ∧
      ∀ c < s.server.accepted, s.server.erasing l = some (s.server.conn c).name →
        s.server.connections (s.server.conn c).name = some c → s.server.Spared c
  | .server (.release c) => s.server.held c = 1 →
      s.server.connections (s.server.conn c).name = some c ∨ s.server.Sheltered c
  | .server .destroyServer =>
      (∀ l ≤ s.server.numThreads, ∀ j ∈ (s.server.loop l).jobs, j.removal = false) ∧
      ∀ c < s.server.accepted, s.server.connections (s.server.conn c).name = some c →
        s.server.Spared c
  | _ => True

instance (s : Users) (a : UserStep) : Decidable (s.Careful a) := by
  unfold Careful
  split <;> infer_instance

/-- The server is sound, and every call goes through a pointer that is held. -/
structure Sound (s : Users) : Prop where
  server : s.server.Sound
  busy : ∀ call ∈ s.calls, 0 < s.server.held call.conn

/-- A sound state comes next, in which no connection that was destroyed is owned again. -/
structure Onward (s t : Users) : Prop where
  sound : t.Sound
  accepted : s.server.accepted ≤ t.server.accepted
  owned : ∀ c < s.server.accepted, t.server.owned c = true → s.server.owned c = true

theorem Sound.onward (h : s.Sound) (hu : Follows s.server u) : Onward s { s with server := u } :=
  ⟨⟨hu.sound, fun call hc => by rw [hu.held]; exact h.busy call hc⟩, hu.accepted, hu.owned⟩

theorem Sound.hold (h : s.Sound) (hc : c < s.server.accepted) (ho : s.server.owned c = true) :
    Onward s { s with server :=
      { s.server with held := Function.update s.server.held c (s.server.held c + 1) } } := by
  refine ⟨⟨h.server.hold hc, fun call hcall => ?_⟩, Nat.le_refl _, fun c' _ ho' => ?_⟩
  · have hpos := h.busy call hcall
    show 0 < Function.update s.server.held c (s.server.held c + 1) call.conn
    rw [Function.update_apply]
    split
    · exact Nat.succ_pos _
    · exact hpos
  · by_cases hc' : c' = c
    · rw [hc']; exact ho
    · refine owned_setHeld (fun hh => ?_) ho'
      rwa [Function.update_of_ne hc'] at hh

theorem Sound.release (h : s.Sound) (ha : s.Careful (.server (.release c)))
    (hb : ¬ (s.server.held c = 1 ∧ s.busy c = true)) : Onward s { s with server :=
      { s.server with held := Function.update s.server.held c (s.server.held c - 1) } } := by
  refine ⟨⟨h.server.release ha, fun call hc => ?_⟩, Nat.le_refl _, fun c' _ ho => ?_⟩
  · have hpos := h.busy call hc
    show 0 < Function.update s.server.held c (s.server.held c - 1) call.conn
    rw [Function.update_apply]
    split
    · rename_i heq
      have hbusy : s.busy c = true := List.any_eq_true.2 ⟨call, hc, by simp [heq]⟩
      have hne : s.server.held c ≠ 1 := fun hone => hb ⟨hone, hbusy⟩
      rw [heq] at hpos
      omega
    · exact hpos
  · refine owned_setHeld (fun hh => ?_) ho
    rw [Function.update_apply] at hh
    split at hh
    · rename_i heq
      rw [heq]; omega
    · exact hh

/-- What the step of a loop or an owner is, beside the calls. -/
theorem serverStep_some {b : ServerStep} (hs : s.serverStep logErrno b = some u) :
    s.server.step logErrno b = some u ∧
      (∀ c, b = .release c → ¬ (s.server.held c = 1 ∧ s.busy c = true)) ∧
      (∀ c inMsg, b ≠ .foreignSend c inMsg) ∧ ∀ c, b ≠ .foreignShutdown c := by
  unfold serverStep at hs
  split at hs
  · cases hs
  · cases hs
  · split at hs
    · cases hs
    · rename_i hb
      refine ⟨hs, fun c' hc => ?_, by simp, by simp⟩
      cases hc
      exact hb
  · rename_i hsend hshut hrel
    exact ⟨hs, fun c hc => absurd hc (hrel c), hsend, hshut⟩

/-- In a loop of the pool there is no `queueDestroyed`, and when it is told to quit no removal. -/
theorem Sound.no_closing {l : Nat} (h : s.Sound) (hsane : s.server.Sane)
    (hq : (s.server.loop l).quit = true) {j : Job} (hj : j ∈ (s.server.loop l).jobs) :
    j.closing = false := by
  obtain ⟨hdead, hl, -⟩ := hsane.ending.quit l hq
  have hhome := (hsane.confined.jobs l j hj).2
  have hrem := h.server.1.removals hdead l j hj
  cases j with
  | queueDestroyed c =>
    rw [← hhome] at hl
    exact absurd hl (Nat.lt_irrefl 0)
  | removeConnection c => cases hrem
  | removeConnectionInLoop c => cases hrem
  | _ => rfl

theorem stepped_onward {b : ServerStep} (ha : s.Careful (.server b)) (hsane : s.server.Sane)
    (hrel : ∀ c, b = .release c → ¬ (s.server.held c = 1 ∧ s.busy c = true))
    (hsend : ∀ c inMsg, b ≠ .foreignSend c inMsg) (hshut : ∀ c, b ≠ .foreignShutdown c)
    (hs : Stepped logErrno s.server b u) (h : s.Sound) : Onward s { s with server := u } := by
  have le {l : Nat} {p : Phase} (hp : (s.server.loop l).phase = p) (hne : p ≠ .polling) :
      l ≤ s.server.numThreads :=
    h.server.1.le fun heq => hne (by rw [← hp, heq]; rfl)
  have hg := h.server.1
  cases hs with
  | poll hl hp hnd hreg =>
    exact h.onward (h.server.setLoop hl rfl (fun _ => hg.batch _ (by simp [hp])) (fun _ hc => hc)
      fun j hj => List.mem_append_right _ hj)
  | accept halive hp hstack hfd hfresh => exact h.onward (h.server.accept ha)
  | dispatch hp hstack hactive ho =>
    exact h.onward (h.server.grown (.dispatch (le hp (by simp)) hstack) rfl ho)
  | proceed hst ho =>
    exact h.onward (h.server.perform hst ha.1 (fun c he hm => ha.2 c (hg.mapped _ c hm) he hm) ho)
  | swap hp hstack hactive =>
    exact h.onward (h.server.setLoop (le hp (by simp)) (jobs_swapped (hg.batch _ (by simp [hp])))
      (fun hne => absurd rfl hne) (fun _ hc => hc.swapped hstack)
      fun j hj => List.mem_append_right _ hj)
  | call hp hstack hfun =>
    refine h.onward (h.server.setLoop (le hp (by simp)) (jobs_taking hstack hfun)
      (fun hne => absurd hp hne) (fun _ hc => hc.taking hstack hfun) fun i hi => ?_)
    rcases List.mem_append.1 hi with hi | hi
    · exact List.mem_append_right _ hi
    · rw [List.mem_singleton.1 hi]
      exact List.mem_append_left _ (mem_jobs_functors (by rw [hfun]; exact List.mem_cons_self))
  | destroyFunctors hp hstack hfun =>
    exact h.onward (h.server.setLoop (le hp (by simp)) rfl (fun _ => hfun)
      (fun _ hc => hc.batchDone hstack hfun) fun j hj => by cases hj)
  | leave hp hstack hfun hq =>
    exact h.onward (h.server.leave (le hp (by simp)) fun j hj => h.no_closing hsane hq hj)
  | send hc ho hr hw =>
    have hq := (uncalled_world s.server _).send hw
    exact h.onward (h.server.grown (.absorb_uncalled (hg.loop_le _) hq) rfl ho)
  | @shutdown c hc ho =>
    have hq := (uncalled_world s.server c).shutdown
    exact h.onward (h.server.grown (.absorb_uncalled (hg.loop_le _) hq) rfl ho)
  | hold hc ho => exact h.hold hc ho
  | release hheld => exact h.release ha (hrel _ rfl)
  | foreignSend hheld => exact absurd rfl (hsend _ _)
  | foreignShutdown hheld => exact absurd rfl (hshut _)
  | destroyServer halive => exact h.onward (h.server.destroyServer ha.1 ha.2)
  | quitLoop hdead hl =>
    exact h.onward (h.server.setLoop hl.2 rfl (hg.batch _) (fun _ hc => hc)
      fun j hj => List.mem_append_right _ hj)

theorem serverStep_onward {b : ServerStep} (ha : s.Careful (.server b)) (hsane : s.server.Sane)
    (hs : s.serverStep logErrno b = some u) (h : s.Sound) : Onward s { s with server := u } := by
  obtain ⟨hs, hrel, hsend, hshut⟩ := serverStep_some hs
  obtain ⟨v, hv, rfl⟩ := step_some hs
  have hon := stepped_onward ha hsane hrel hsend hshut hv h
  exact ⟨⟨hon.sound.server.closeFds, hon.sound.busy⟩, hon.accepted, hon.owned⟩

theorem proceed_onward {i : Nat} {call : UserCall} (hi : s.calls[i]? = some call) (h : s.Sound) :
    Onward s (s.proceed i call) := by
  have hpos := h.busy call (List.mem_of_getElem? hi)
  have erased (b : UserCall) (hb : b ∈ s.calls.eraseIdx i) : 0 < s.server.held b.conn :=
    h.busy b (List.mem_of_mem_eraseIdx hb)
  cases call with
  | send c inMsg =>
    have hf := h.server.push (j := .sendInLoop c inMsg) rfl hpos
    exact ⟨⟨hf.sound, erased⟩, hf.accepted, hf.owned⟩
  | shutdown c =>
    have hq : ((s.server.world c).setState .disconnecting).Uncalled := uncalled_world s.server c
    have hf := h.server.grown (.absorb_uncalled (h.server.1.loop_le c) hq) rfl
      (owned_iff.2 (.inr (.inl hpos)))
    refine ⟨⟨hf.sound, fun b hb => ?_⟩, hf.accepted, hf.owned⟩
    rcases List.mem_or_eq_of_mem_set hb with hb | rfl
    · exact h.busy b hb
    · exact hpos
  | queueShutdown c =>
    have hf := h.server.push (j := .shutdownInLoop c) rfl hpos
    exact ⟨⟨hf.sound, erased⟩, hf.accepted, hf.owned⟩

theorem load_onward {call : UserCall} (hs : s.load call = some t) (h : s.Sound) : Onward s t := by
  unfold load at hs
  split at hs
  · rename_i hpos
    cases hs
    split
    · refine ⟨⟨h.server, fun b hb => ?_⟩, Nat.le_refl _, fun _ _ ho => ho⟩
      rcases List.mem_append.1 hb with hb | hb
      · exact h.busy b hb
      · rw [List.mem_singleton.1 hb]
        exact hpos
    · exact ⟨h, Nat.le_refl _, fun _ _ ho => ho⟩
  · cases hs

theorem step_proceed_some {i : Nat} (hs : step logErrno s (.proceed i) = some t) :
    ∃ call, s.calls[i]? = some call ∧ s.reaches call = true ∧ t = s.proceed i call := by
  obtain ⟨call, hi, hs⟩ := Option.bind_eq_some_iff.1 hs
  split at hs
  · rename_i hreach
    cases hs
    exact ⟨call, hi, hreach, rfl⟩
  · cases hs

theorem step_onward (ha : s.Careful a) (hsane : s.server.Sane) (hs : step logErrno s a = some t)
    (h : s.Sound) : Onward s t := by
  cases a with
  | server b =>
    obtain ⟨u, hu, rfl⟩ := Option.map_eq_some_iff.1 hs
    exact serverStep_onward ha hsane hu h
  | send c inMsg => exact load_onward hs h
  | shutdown c => exact load_onward hs h
  | proceed i =>
    obtain ⟨call, hi, -, rfl⟩ := step_proceed_some hs
    exact proceed_onward hi h

/-! ### The server itself -/

theorem proceed_sane {i : Nat} {call : UserCall} (hpos : 0 < s.server.held call.conn)
    (hreach : s.reaches call = true) (h : s.server.Sane) : (s.proceed i call).server.Sane := by
  have hc : call.conn < s.server.accepted := h.confined.held _ hpos
  have push (j : Job) (hj : j.conn = call.conn) (hhome : s.server.home j = (s.server.conn call.conn).loop)
      (he : (!(s.server.loop (s.server.conn call.conn).loop).ended) = true) :
      (s.server.queueInLoop (s.server.conn call.conn).loop j).Sane := by
    have hmoved : Moved s.server 0 (s.server.queueInLoop (s.server.conn call.conn).loop j) :=
      moved_queueInLoop 0 (by simpa using he) j
    exact ⟨h.confined.queueInLoop (hj ▸ hc) hhome, h.assigned.settled hmoved.settled,
      h.ending.flags (parts_flags.queueInLoop _ _ _)⟩
  cases call with
  | send c inMsg => exact push (.sendInLoop c inMsg) rfl rfl hreach
  | shutdown c =>
    have hmoved := moved_absorb s.server c ((s.server.world c).setState .disconnecting)
    exact ⟨h.confined.absorb hc (World.parts_within.setState _ _), h.assigned.settled hmoved.settled,
      h.ending.flags (parts_flags.absorb _ _ _)⟩
  | queueShutdown c => exact push (.shutdownInLoop c) rfl rfl hreach

theorem step_sane (hs : step logErrno s a = some t) (hbusy : ∀ call ∈ s.calls, 0 < s.server.held call.conn)
    (h : s.server.Sane) : t.server.Sane := by
  have load (call : UserCall) (hs : s.load call = some t) : t.server.Sane := by
    unfold Users.load at hs
    split at hs
    · cases hs
      split
      · exact h
      · exact h
    · cases hs
  cases a with
  | server b =>
    obtain ⟨u, hu, rfl⟩ := Option.map_eq_some_iff.1 hs
    exact TcpServer.step_sane (serverStep_some hu).1 h
  | send c inMsg => exact load _ hs
  | shutdown c => exact load _ hs
  | proceed i =>
    obtain ⟨call, hi, hreach, rfl⟩ := step_proceed_some hs
    exact proceed_sane (hbusy call (List.mem_of_getElem? hi)) hreach h

/-! ### Runs -/

/-- A connection that has been destroyed stays so. -/
theorem run_destroyed (hcare : Along (step logErrno) Careful s as)
    (hr : run (step logErrno) s as = some t) (h : s.Sound) (hsane : s.server.Sane)
    (hc : c < s.server.accepted) (hd : s.server.owned c = false) : t.server.owned c = false := by
  refine (run_inv_along (I := fun s : Users => s.Sound ∧ s.server.Sane ∧ c < s.server.accepted ∧
    s.server.owned c = false) (fun s b t ha hs hi => ?_) hcare hr ⟨h, hsane, hc, hd⟩).2.2.2
  obtain ⟨hsound, hsane, hc, hd⟩ := hi
  have hon := step_onward ha hsane hs hsound
  refine ⟨hon.sound, step_sane hs hsound.busy hsane, Nat.lt_of_lt_of_le hc hon.accepted, ?_⟩
  cases ho : t.server.owned c with
  | false => rfl
  | true => exact (hon.owned c hc ho).symm.trans hd

theorem started_sound (name ipPort : String) (numThreads : Nat) (cb cb' cb'' : Bool) :
    Sound ⟨started name ipPort numThreads cb cb' cb'', []⟩ where
  server := by
    refine ⟨⟨Nat.eq_zero_or_pos numThreads, fun _ => Nat.zero_le _, fun _ _ => rfl, fun _ _ => rfl, nofun,
      nofun, nofun, nofun⟩, fun c => .inr (.inr (.inr fun l _ => ⟨?_, ?_⟩))⟩
    · exact fun hp => absurd hp Job.points_nil
    · exact fun hp => absurd hp Job.points_nil
  busy := nofun

theorem intact (h : u.Sound) : Intact u := by
  intro l j hj
  refine ⟨fun _ => h.owned_of_stack hj, fun c hc => ?_⟩
  by_contra hdead
  have hr := h.1.removals (Bool.eq_false_iff.2 hdead) l j (mem_jobs_stack hj)
  rw [hc] at hr
  cases hr

/-- In every run whose steps are all careful, what a functor of `send`, `shutdown` or `removeConnection`
points to is there when the functor runs. -/
theorem functors_outlived (logErrno : Errno → Errno) (name ipPort : String) (numThreads : Nat)
    (cb cb' cb'' : Bool) (as : List UserStep)
    (hcare : Along (step logErrno) Careful ⟨started name ipPort numThreads cb cb' cb'', []⟩ as)
    (hr : run (step logErrno) ⟨started name ipPort numThreads cb cb' cb'', []⟩ as = some t) :
    Intact t.server := by
  have h : t.Sound ∧ t.server.Sane := run_inv_along (I := fun s : Users => s.Sound ∧ s.server.Sane)
    (fun _ _ _ ha hs hi => ⟨(step_onward ha hi.2 hs hi.1).sound, step_sane hs hi.1.busy hi.2⟩) hcare hr
    ⟨started_sound .., started_sane ..⟩
  exact intact h.1.server

/-- A connection of the server's own loop; a user takes a pointer to it, and another thread calls `send`
through the pointer. -/
def calling : List UserStep :=
  opening.map .server ++ [.server (.hold 0), .send 0 [1]]

/-- The connection stays open until the functor has come to its turn. -/
def pushedInTime : List UserStep :=
  calling ++ [.proceed 0, .server (.release 0), .server (.poll 0 []), .server (.swap 0), .server (.call 0)]

set_option maxRecDepth 20000 in
theorem functor_outlived_in_time : ∃ t,
    run (step id) ⟨started "s" "ip" 0 true true true, []⟩ pushedInTime = some t ∧
      (t.server.loop 0).stack = [.sendInLoop 0 [1]] ∧ t.server.held 0 = 0 ∧
      t.server.owned 0 = true := by
  have hrun : (run (step id) ⟨started "s" "ip" 0 true true true, []⟩ pushedInTime).map (fun t =>
      ((t.server.loop 0).stack, t.server.held 0)) = some ([.sendInLoop 0 [1]], 0) := by
    decide +kernel
  obtain ⟨t, hr, ht⟩ := Option.map_eq_some_iff.1 hrun
  obtain ⟨hstack, hheld⟩ := Prod.mk.inj ht
  have hint := functors_outlived id "s" "ip" 0 true true true pushedInTime (by decide +kernel) hr
  exact ⟨t, hr, hstack, hheld, (hint 0 (.sendInLoop 0 [1]) (by rw [hstack]; exact List.mem_cons_self)).1 rfl⟩

/-- The thread has loaded `Connected`; the peer closes and the connection is destroyed, but for the
thread's pointer; then the thread pushes its functor and drops the pointer. -/
def pushedTooLate : List UserStep :=
  calling ++ ([.poll 0 [(0, EPOLLIN)], .dispatch 0, .proceed 0 (.delivered []) (.accepted 0),
    .proceed 0 (.delivered []) (.accepted 0), .proceed 0 (.delivered []) (.accepted 0),
    .proceed 0 (.delivered []) (.accepted 0), .proceed 0 (.delivered []) (.accepted 0), .swap 0,
    .call 0, .proceed 0 (.delivered []) (.accepted 0), .destroyFunctors 0].map .server) ++
  [.proceed 0, .server (.release 0), .server (.poll 0 []), .server (.swap 0), .server (.call 0)]

set_option maxRecDepth 20000 in
/-- The functor of `send` runs with nothing left of its connection. -/
theorem functor_outlives : ∃ t,
    run (step id) ⟨started "s" "ip" 0 true true true, []⟩ pushedTooLate = some t ∧
      (t.server.loop 0).stack = [.sendInLoop 0 [1]] ∧ t.server.owned 0 = false ∧
      ¬ Intact t.server := by
  have hrun : (run (step id) ⟨started "s" "ip" 0 true true true, []⟩ pushedTooLate).map (fun t =>
      ((t.server.loop 0).stack, t.server.owned 0)) = some ([.sendInLoop 0 [1]], false) := by
    decide +kernel
  obtain ⟨t, hr, ht⟩ := Option.map_eq_some_iff.1 hrun
  obtain ⟨hstack, howned⟩ := Prod.mk.inj ht
  refine ⟨t, hr, hstack, howned, fun hint => ?_⟩
  have h := (hint 0 (.sendInLoop 0 [1]) (by rw [hstack]; exact List.mem_cons_self)).1 rfl
  exact absurd (h.symm.trans howned) (by decide)

end Users
end Muduo
