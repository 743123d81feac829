import Muduo.Lib.Lts

/-!
# `Thread` (`Thread.h`, `Thread.cpp`)

The thread that owns the object against the thread that `start` creates, each access to what they share a
step of its own: the object itself, which the new thread reaches through `this`, and the semaphore in the
frame of `start`. A step that touches what is gone, or joins what cannot be joined, is a fault. `start`
does not look at the result of `sem_wait`; it is taken to return only when the semaphore has been posted,
and not to be interrupted by a signal handler.
-/

namespace Muduo
open Lts

/-- What `m_threadPtr` points to. -/
inductive ThreadPtr
  | null
  | joinable
  /-- Joined or detached. -/
  | finished
deriving DecidableEq, Repr

/-- Where the owner is. -/
inductive OwnerAt
  | idle
  /-- In `start`: before the new thread is created, before it is stored, in `sem_wait`, after it. -/
  | creating
  | storing
  | waiting
  | woken
  /-- In `join` of the thread, in the destructor if the flag says so. -/
  | joining (destructor : Bool)
  | destroyed
deriving DecidableEq, Repr

/-- Where the new thread is. -/
inductive ChildAt
  | absent
  | began
  /-- `m_tid` stored. -/
  | tidStored
  | posted
  /-- In `m_func()`. -/
  | running
  | ended
deriving DecidableEq, Repr

inductive ThreadFault
  /-- `m_threadPtr` is null. -/
  | nullPointer
  /-- `std::thread::join` throws. -/
  | notJoinable
  | useAfterFree
deriving DecidableEq, Repr

namespace ChildAt

/-- How often the new thread has posted the semaphore. -/
def posts : ChildAt → Nat
  | .posted | .running | .ended => 1
  | .absent | .began | .tidStored => 0

/-- How often it has called the function, if there is one. -/
def calls (func : Bool) : ChildAt → Nat
  | .running => 1
  | .ended => func.toNat
  | .absent | .began | .tidStored | .posted => 0

theorem calls_le (func : Bool) (c : ChildAt) : c.calls func ≤ 1 := by
  cases c with
  | ended => exact Bool.toNat_le _
  | running => exact Nat.le_refl 1
  | absent | began | tidStored | posted => exact Nat.zero_le 1

end ChildAt

structure Thread where
  /-- `m_func` is not empty. -/
  func : Bool
  joinOnDestroy : Bool
  started : Bool
  joined : Bool
  tid : Nat
  threadPtr : ThreadPtr
  /-- The semaphore's value, while it exists. -/
  sem : Option Nat
  owner : OwnerAt
  child : ChildAt
  /-- The calls of `m_func`; the code keeps no such record. -/
  calls : Nat
  fault : Option ThreadFault
deriving DecidableEq, Repr

inductive OwnStep
  /-- The calls of `start`, `join` and the destructor. -/
  | start
  | join
  | destroy
  /-- `std::thread` is constructed, or throws. -/
  | create (created : Bool)
  | store
  | semWait
  | semDestroy
  | joined
  /-- The new thread. -/
  | setTid (tid : Nat)
  | semPost
  | testFunc
  | funcReturned
deriving DecidableEq, Repr

namespace Thread
variable {s t : Thread} {a : OwnStep} {as : List OwnStep} {created : Bool}

def new (inFunc inJoinOnDestroy : Bool) : Thread where
  func := inFunc
  joinOnDestroy := inJoinOnDestroy
  started := false
  joined := false
  tid := 0
  threadPtr := .null
  sem := none
  owner := .idle
  child := .absent
  calls := 0
  fault := none

def Enabled (s : Thread) : OwnStep → Prop
  | .start => s.owner = .idle
  | .join => s.owner = .idle
  | .destroy => s.owner = .idle
  | .create _ => s.owner = .creating
  | .store => s.owner = .storing
  | .semWait => s.owner = .waiting ∧ ∃ n, s.sem = some (n + 1)
  | .semDestroy => s.owner = .woken
  | .joined => (∃ d, s.owner = .joining d) ∧ s.child = .ended
  | .setTid tid => s.child = .began ∧ tid ≠ 0
  | .semPost => s.child = .tidStored
  | .testFunc => s.child = .posted
  | .funcReturned => s.child = .running

def failed (s : Thread) (f : ThreadFault) : Thread := { s with fault := some f }

/-- `m_threadPtr->join()` begins. -/
def beginJoin (s : Thread) (destructor : Bool) : Thread :=
  match s.threadPtr with
  | .null => s.failed .nullPointer
  | .finished => s.failed .notJoinable
  | .joinable => { s with owner := .joining destructor }

/-- `m_threadPtr->detach()`, as the last thing the destructor does. -/
def detach (s : Thread) : Thread :=
  match s.threadPtr with
  | .null => s.failed .nullPointer
  | .finished => s.failed .notJoinable
  | .joinable => { s with threadPtr := .finished, owner := .destroyed }

/-- The new thread goes on if the object still exists. -/
def touch (s t : Thread) : Thread := if s.owner = .destroyed then s.failed .useAfterFree else t

def next (s : Thread) : OwnStep → Thread
  | .start => if s.started then s else { s with started := true, sem := some 0, owner := .creating }
  | .join => if s.started then s.beginJoin false else s
  | .destroy =>
    if s.started && !s.joined then if s.joinOnDestroy then s.beginJoin true else s.detach
    else { s with owner := .destroyed }
  | .create created =>
    -- the exception leaves `start`, and its frame with the semaphore
    if created then { s with child := .began, owner := .storing } else { s with sem := none, owner := .idle }
  | .store => { s with threadPtr := .joinable, owner := .waiting }
  | .semWait => { s with sem := s.sem.map (· - 1), owner := .woken }
  | .semDestroy => { s with sem := none, owner := .idle }
  | .joined =>
    if s.owner = .joining true then { s with threadPtr := .finished, owner := .destroyed }
    else { s with threadPtr := .finished, joined := true, owner := .idle }
  | .setTid tid => s.touch { s with tid := tid, child := .tidStored }
  | .semPost =>
    match s.sem with
    | none => s.failed .useAfterFree
    | some n => { s with sem := some (n + 1), child := .posted }
  | .testFunc =>
    s.touch (if s.func then { s with child := .running, calls := s.calls + 1 } else { s with child := .ended })
  | .funcReturned => s.touch { s with child := .ended }

instance (s : Thread) (a : OwnStep) : Decidable (s.Enabled a) :=
  match a with
  | .start | .join | .destroy => inferInstanceAs (Decidable (s.owner = .idle))
  | .create _ => inferInstanceAs (Decidable (s.owner = .creating))
  | .store => inferInstanceAs (Decidable (s.owner = .storing))
  | .semWait =>
    match h : s.sem with
    | some (n + 1) => decidable_of_iff (s.owner = .waiting) (by simp [Enabled, h])
    | some 0 => .isFalse (by simp [Enabled, h])
    | none => .isFalse (by simp [Enabled, h])
  | .semDestroy => inferInstanceAs (Decidable (s.owner = .woken))
  | .joined =>
    match h : s.owner with
    | .joining d => decidable_of_iff (s.child = .ended) (by simp [Enabled, h])
    | .idle | .creating | .storing | .waiting | .woken | .destroyed => .isFalse (by simp [Enabled, h])
  | .setTid tid => inferInstanceAs (Decidable (s.child = .began ∧ tid ≠ 0))
  | .semPost => inferInstanceAs (Decidable (s.child = .tidStored))
  | .testFunc => inferInstanceAs (Decidable (s.child = .posted))
  | .funcReturned => inferInstanceAs (Decidable (s.child = .running))

def step (s : Thread) (a : OwnStep) : Option Thread :=
  if s.fault = none ∧ s.Enabled a then some (s.next a) else none

/-! ### The invariant -/

/-- Where the two threads can be, with `m_started`, `m_threadPtr`, the semaphore and `m_joined`. -/
inductive Place : Bool → OwnerAt → ChildAt → ThreadPtr → Option Nat → Bool → Prop
  | unstarted : Place false .idle .absent .null none false
  | creating : Place true .creating .absent .null (some 0) false
  /-- The new thread could not be created. -/
  | uncreated : Place true .idle .absent .null none false
  | storing {c} (hc : c ≠ .absent) : Place true .storing c .null (some c.posts) false
  | waiting {c} (hc : c ≠ .absent) : Place true .waiting c .joinable (some c.posts) false
  | woken {c} (hc : c.posts = 1) : Place true .woken c .joinable (some 0) false
  | started {c} (hc : c.posts = 1) : Place true .idle c .joinable none false
  | joining {c d} (hc : c.posts = 1) : Place true (.joining d) c .joinable none false
  | joined : Place true .idle .ended .finished none true
  | destroyed : Place false .destroyed .absent .null none false
  | ended {j} : Place true .destroyed .ended .finished none j
  | detached {c} (hc : c.posts = 1) : Place true .destroyed c .finished none false

structure Inv (s : Thread) : Prop where
  place : Place s.started s.owner s.child s.threadPtr s.sem s.joined
  tid : s.child ≠ .absent → s.child ≠ .began → s.tid ≠ 0
  calls : s.calls = s.child.calls s.func
  running : s.child = .running → s.func = true
  kept : s.owner = .destroyed → s.joinOnDestroy = true → s.child = .absent ∨ s.child = .ended

theorem new_inv (func joinOnDestroy : Bool) : (new func joinOnDestroy).Inv where
  place := .unstarted
  tid h := absurd rfl h
  calls := rfl
  running h := by cases h
  kept h := by cases h

theorem step_eq_some : s.step a = some t ↔ (s.fault = none ∧ s.Enabled a) ∧ s.next a = t := by
  simp [step]

theorem Inv.failed (h : s.Inv) (f : ThreadFault) : (s.failed f).Inv :=
  ⟨h.place, h.tid, h.calls, h.running, h.kept⟩

/-- What of the object exists while the new thread has not ended. -/
theorem Place.move {st j : Bool} {o : OwnerAt} {c c' : ChildAt} {p : ThreadPtr} {m : Option Nat}
    (h : Place st o c p m j) (hc : c.posts = 1) (hne : c ≠ .ended) (hc' : c'.posts = 1) :
    Place st o c' p m j := by
  have habs : c' ≠ .absent := by
    rintro rfl
    cases hc'
  cases h with
  | storing _ => rw [hc, ← hc']; exact .storing habs
  | waiting _ => rw [hc, ← hc']; exact .waiting habs
  | woken _ => exact .woken hc'
  | started _ => exact .started hc'
  | joining _ => exact .joining hc'
  | detached _ => exact .detached hc'
  | joined => exact absurd rfl hne
  | ended => exact absurd rfl hne
  | unstarted | creating | uncreated | destroyed => cases hc

/-- Until it has posted, the owner is in `start`. -/
theorem Place.early {st j : Bool} {o : OwnerAt} {c : ChildAt} {p : ThreadPtr} {m : Option Nat}
    (h : Place st o c p m j) (hne : c ≠ .absent) (hc : c.posts = 0) : o ≠ .destroyed ∧ m = some 0 ∧
      ∀ c' : ChildAt, c' ≠ .absent → Place st o c' p (some c'.posts) j := by
  cases h with
  | storing _ => exact ⟨by simp, by rw [hc], fun c' hc' => .storing hc'⟩
  | waiting _ => exact ⟨by simp, by rw [hc], fun c' hc' => .waiting hc'⟩
  | woken h | started h | joining h | detached h => rw [hc] at h; cases h
  | joined | ended => cases hc
  | unstarted | creating | uncreated | destroyed => exact absurd rfl hne

theorem Inv.call (h : s.Inv) (ho : s.owner = .idle) :
    (s.next .start).Inv ∧ (s.next .join).Inv ∧ (s.next .destroy).Inv := by
  obtain ⟨func, joinOnDestroy, started, joined, tid, threadPtr, sem, owner, child, calls, fault⟩ := s
  cases ho
  obtain ⟨hp, htid, hcalls, hrun, hk⟩ := h
  dsimp only at hp htid hcalls hrun hk
  have hidle : OwnerAt.idle = .destroyed → joinOnDestroy = true → child = .absent ∨ child = .ended := hk
  cases hp with
  | unstarted =>
    exact ⟨⟨.creating, htid, hcalls, hrun, fun h => by cases h⟩, ⟨.unstarted, htid, hcalls, hrun, hidle⟩,
      .destroyed, htid, hcalls, hrun, fun _ _ => .inl rfl⟩
  | uncreated =>
    refine ⟨⟨.uncreated, htid, hcalls, hrun, hidle⟩, ⟨.uncreated, htid, hcalls, hrun, hidle⟩, ?_⟩
    cases joinOnDestroy with
    | true => exact ⟨.uncreated, htid, hcalls, hrun, hidle⟩
    | false => exact ⟨.uncreated, htid, hcalls, hrun, hidle⟩
  | started hc =>
    refine ⟨⟨.started hc, htid, hcalls, hrun, hidle⟩, ⟨.joining hc, htid, hcalls, hrun, fun h => by cases h⟩, ?_⟩
    cases joinOnDestroy with
    | true => exact ⟨.joining hc, htid, hcalls, hrun, fun h => by cases h⟩
    | false => exact ⟨.detached hc, htid, hcalls, hrun, fun _ h => by cases h⟩
  | joined =>
    exact ⟨⟨.joined, htid, hcalls, hrun, hidle⟩, ⟨.joined, htid, hcalls, hrun, hidle⟩,
      .ended, htid, hcalls, hrun, fun _ _ => .inr rfl⟩

/-- A step of the owner inside a call. -/
theorem Inv.proceed (h : s.Inv) (created : Bool) :
    (s.Enabled (.create created) → (s.next (.create created)).Inv) ∧ (s.Enabled .store → (s.next .store).Inv) ∧
      (s.Enabled .semWait → (s.next .semWait).Inv) ∧ (s.Enabled .semDestroy → (s.next .semDestroy).Inv) ∧
      (s.Enabled .joined → (s.next .joined).Inv) := by
  obtain ⟨func, joinOnDestroy, started, joined, tid, threadPtr, sem, owner, child, calls, fault⟩ := s
  obtain ⟨hp, htid, hcalls, hrun, hk⟩ := h
  dsimp only at hp htid hcalls hrun hk
  refine ⟨fun ho => ?_, fun ho => ?_, fun ho => ?_, fun ho => ?_, fun ho => ?_⟩
  · cases ho
    cases hp with
    | creating =>
      cases created with
      | true =>
        exact ⟨.storing (c := .began) (by simp), fun _ h => absurd rfl h, hcalls, (fun h => by cases h),
          fun h => by cases h⟩
      | false => exact ⟨.uncreated, htid, hcalls, hrun, fun h => by cases h⟩
  · cases ho
    cases hp with
    | storing hc => exact ⟨.waiting hc, htid, hcalls, hrun, fun h => by cases h⟩
  · obtain ⟨ho, n, hn⟩ := ho
    cases ho
    dsimp only at hn
    cases hp with
    | waiting hc =>
      have hpost : child.posts = 1 := by
        rw [Option.some.injEq] at hn
        cases child <;> simp_all [ChildAt.posts]
      have hsem : (some child.posts).map (· - 1) = some 0 := by rw [hpost]; rfl
      refine ⟨?_, htid, hcalls, hrun, fun h => by cases h⟩
      show Place true .woken child .joinable ((some child.posts).map (· - 1)) false
      rw [hsem]
      exact .woken hpost
  · cases ho
    cases hp with
    | woken hc => exact ⟨.started hc, htid, hcalls, hrun, fun h => by cases h⟩
  · obtain ⟨⟨d, ho⟩, hc⟩ := ho
    cases ho
    cases hc
    cases hp with
    | joining _ =>
      cases d with
      | true => exact ⟨.ended, htid, hcalls, hrun, fun _ _ => .inr rfl⟩
      | false => exact ⟨.joined, htid, hcalls, hrun, fun h => by cases h⟩

theorem touch_of_ne (h : s.owner ≠ .destroyed) : s.touch t = t := if_neg h

theorem touch_of_eq (h : s.owner = .destroyed) : s.touch t = s.failed .useAfterFree := if_pos h

/-- A step of the new thread before it has posted. -/
theorem Inv.begin (h : s.Inv) {n : Nat} :
    (s.Enabled (.setTid n) → (s.next (.setTid n)).Inv ∧ (s.next (.setTid n)).fault = s.fault) ∧
      (s.Enabled .semPost → (s.next .semPost).Inv ∧ (s.next .semPost).fault = s.fault) := by
  refine ⟨fun ⟨hc, hn⟩ => ?_, fun hc => ?_⟩
  · obtain ⟨hne, -, hmove⟩ := h.place.early (by rw [hc]; simp) (by rw [hc]; rfl)
    have hsem : s.sem = some 0 := (h.place.early (by rw [hc]; simp) (by rw [hc]; rfl)).2.1
    have hcalls := h.calls
    rw [hc] at hcalls
    rw [next, touch_of_ne hne]
    refine ⟨⟨?_, fun _ _ => hn, hcalls, (fun h => by cases h), fun ho => absurd ho hne⟩, rfl⟩
    show Place s.started s.owner .tidStored s.threadPtr s.sem s.joined
    rw [hsem]
    exact hmove .tidStored (by simp)
  · obtain ⟨hne, hsem, hmove⟩ := h.place.early (by rw [show s.child = _ from hc]; simp)
      (by rw [show s.child = _ from hc]; rfl)
    have hcalls := h.calls
    have htid := h.tid
    rw [show s.child = _ from hc] at hcalls htid
    have hnext : s.next .semPost = { s with sem := some 1, child := .posted } := by
      rw [next, hsem]
    rw [hnext]
    exact ⟨⟨hmove .posted (by simp), fun _ _ => htid (by simp) (by simp), hcalls, (fun h => by cases h),
      fun ho => absurd ho hne⟩, rfl⟩

/-- A step of the new thread after it has posted: it goes on as long as the object exists. -/
theorem Inv.goOn (h : s.Inv) :
    (s.Enabled .testFunc → (s.next .testFunc).Inv ∧
      (s.owner ≠ .destroyed → (s.next .testFunc).fault = s.fault)) ∧
      (s.Enabled .funcReturned → (s.next .funcReturned).Inv ∧
        (s.owner ≠ .destroyed → (s.next .funcReturned).fault = s.fault)) := by
  refine ⟨fun hc => ?_, fun hc => ?_⟩
  · change s.child = .posted at hc
    by_cases hd : s.owner = .destroyed
    · rw [next, touch_of_eq hd]
      exact ⟨h.failed _, fun hne => absurd hd hne⟩
    · have htid := h.tid (by rw [hc]; simp) (by rw [hc]; simp)
      have hcalls := h.calls
      rw [hc] at hcalls
      have hmove := fun c' (hc' : ChildAt.posts c' = 1) =>
        h.place.move (by rw [hc]; rfl) (by rw [hc]; simp) hc'
      rw [next, touch_of_ne hd]
      by_cases hf : s.func = true
      · rw [if_pos hf]
        refine ⟨⟨hmove .running rfl, fun _ _ => htid, ?_, fun _ => hf, fun ho => absurd ho hd⟩, fun _ => rfl⟩
        exact congrArg (· + 1) hcalls
      · rw [if_neg hf]
        refine ⟨⟨hmove .ended rfl, fun _ _ => htid, ?_, (fun h => by cases h), fun ho => absurd ho hd⟩,
          fun _ => rfl⟩
        show s.calls = s.func.toNat
        rw [hcalls, eq_false_of_ne_true hf]
        rfl
  · change s.child = .running at hc
    by_cases hd : s.owner = .destroyed
    · rw [next, touch_of_eq hd]
      exact ⟨h.failed _, fun hne => absurd hd hne⟩
    · have htid := h.tid (by rw [hc]; simp) (by rw [hc]; simp)
      have hcalls := h.calls
      rw [hc] at hcalls
      rw [next, touch_of_ne hd]
      refine ⟨⟨h.place.move (by rw [hc]; rfl) (by rw [hc]; simp) rfl, fun _ _ => htid, ?_, (fun h => by cases h),
        fun ho => absurd ho hd⟩, fun _ => rfl⟩
      show s.calls = s.func.toNat
      rw [hcalls, h.running hc]
      rfl

theorem Inv.step (h : s.Inv) (ht : s.step a = some t) : t.Inv := by
  obtain ⟨⟨-, he⟩, rfl⟩ := step_eq_some.1 ht
  cases a with
  | start => exact (h.call he).1
  | join => exact (h.call he).2.1
  | destroy => exact (h.call he).2.2
  | create created => exact (h.proceed created).1 he
  | store => exact (h.proceed true).2.1 he
  | semWait => exact (h.proceed true).2.2.1 he
  | semDestroy => exact (h.proceed true).2.2.2.1 he
  | joined => exact (h.proceed true).2.2.2.2 he
  | setTid n => exact (h.begin.1 he).1
  | semPost => exact ((h.begin (n := 0)).2 he).1
  | testFunc => exact (h.goOn.1 he).1
  | funcReturned => exact (h.goOn.2 he).1

theorem run_inv_new {func joinOnDestroy : Bool} (hr : run step (new func joinOnDestroy) as = some s) : s.Inv :=
  run_inv (fun _ _ _ ht hi => Inv.step hi ht) hr (new_inv func joinOnDestroy)

/-! ### Over all runs -/

/-- No fault so far, and no thread is left that the object has been taken away from. -/
def Safe (s : Thread) : Prop :=
  s.fault = none ∧ (s.owner = .destroyed → s.child = .absent ∨ s.child = .ended)

/-- `join` is called of a thread that was created and not joined before, and the destructor where none was
left uncreated, and none that has not ended is to be detached. -/
def Careful (s : Thread) : OwnStep → Prop
  | .join => s.owner = .idle → s.started = true → s.child ≠ .absent ∧ s.joined = false
  | .destroy => s.owner = .idle → s.started = true → s.child ≠ .absent ∧ (s.joinOnDestroy = true ∨ s.child = .ended)
  | _ => True

instance (s : Thread) (a : OwnStep) : Decidable (s.Careful a) :=
  match a with
  | .join => inferInstanceAs (Decidable (s.owner = .idle → s.started = true → s.child ≠ .absent ∧ s.joined = false))
  | .destroy => inferInstanceAs (Decidable (s.owner = .idle → s.started = true →
      s.child ≠ .absent ∧ (s.joinOnDestroy = true ∨ s.child = .ended)))
  | .start | .create _ | .store | .semWait | .semDestroy | .joined | .setTid _ | .semPost | .testFunc
  | .funcReturned => .isTrue trivial

theorem not_safe_failed {f : ThreadFault} : ¬ (s.failed f).Safe := fun h => by cases h.1

theorem Inv.join_iff (h : s.Inv) (hs : s.Safe) (ho : s.owner = .idle) :
    (s.next .join).Safe ↔ s.Careful .join := by
  obtain ⟨func, joinOnDestroy, started, joined, tid, threadPtr, sem, owner, child, calls, fault⟩ := s
  cases ho
  obtain ⟨hf, -⟩ := hs
  dsimp only at hf
  subst hf
  have hp := h.place
  dsimp only at hp
  cases hp with
  | unstarted => simp [Safe, Careful, next]
  | uncreated => exact iff_of_false not_safe_failed (by simp [Careful])
  | started hc =>
    have hne : child ≠ .absent := by
      rintro rfl
      cases hc
    simp [Safe, Careful, next, beginJoin, hne]
  | joined => exact iff_of_false not_safe_failed (by simp [Careful])

theorem Inv.destroy_iff (h : s.Inv) (hs : s.Safe) (ho : s.owner = .idle) :
    (s.next .destroy).Safe ↔ s.Careful .destroy := by
  obtain ⟨func, joinOnDestroy, started, joined, tid, threadPtr, sem, owner, child, calls, fault⟩ := s
  cases ho
  obtain ⟨hf, -⟩ := hs
  dsimp only at hf
  subst hf
  have hp := h.place
  dsimp only at hp
  cases hp with
  | unstarted => simp [Safe, Careful, next]
  | uncreated =>
    have hno : ¬ Careful ⟨func, joinOnDestroy, true, false, tid, .null, none, .idle, .absent, calls, none⟩
        .destroy := by
      simp [Careful]
    cases joinOnDestroy with
    | true => exact iff_of_false not_safe_failed hno
    | false => exact iff_of_false not_safe_failed hno
  | started hc =>
    have hne : child ≠ .absent := by
      rintro rfl
      cases hc
    cases joinOnDestroy <;> simp [Safe, Careful, next, beginJoin, detach, hne]
  | joined => simp [Safe, Careful, next]

theorem owner_touch (h : t.owner = s.owner) : (s.touch t).owner = s.owner := by
  unfold touch
  split
  · rfl
  · exact h

/-- A safe object exists as long as the new thread has not ended. -/
theorem Safe.exists (hs : s.Safe) (h₁ : s.child ≠ .absent) (h₂ : s.child ≠ .ended) : s.owner ≠ .destroyed :=
  fun ho => (hs.2 ho).elim h₁ h₂

theorem Inv.safe_iff (h : s.Inv) (hs : s.Safe) (he : s.Enabled a) : (s.next a).Safe ↔ s.Careful a := by
  cases a with
  | join => exact h.join_iff hs he
  | destroy => exact h.destroy_iff hs he
  | start =>
    refine iff_of_true ?_ trivial
    rw [next]
    split
    · exact hs
    · exact ⟨hs.1, fun ho => by cases ho⟩
  | create created =>
    refine iff_of_true ?_ trivial
    cases created with
    | true => exact ⟨hs.1, fun ho => by cases ho⟩
    | false => exact ⟨hs.1, fun ho => by cases ho⟩
  | store => exact iff_of_true ⟨hs.1, fun ho => by cases ho⟩ trivial
  | semWait => exact iff_of_true ⟨hs.1, fun ho => by cases ho⟩ trivial
  | semDestroy => exact iff_of_true ⟨hs.1, fun ho => by cases ho⟩ trivial
  | joined =>
    refine iff_of_true ?_ trivial
    rw [next]
    split
    · exact ⟨hs.1, fun _ => .inr he.2⟩
    · exact ⟨hs.1, fun ho => by cases ho⟩
  | setTid n =>
    have hne := hs.exists (by rw [he.1]; simp) (by rw [he.1]; simp)
    have ho : (s.next (.setTid n)).owner = s.owner := owner_touch rfl
    exact iff_of_true ⟨(h.begin.1 he).2.trans hs.1, fun hd => absurd (ho ▸ hd) hne⟩ trivial
  | semPost =>
    have hc : s.child = .tidStored := he
    have hne := hs.exists (by rw [hc]; simp) (by rw [hc]; simp)
    have ho : (s.next .semPost).owner = s.owner := by
      rw [next]
      split <;> rfl
    exact iff_of_true ⟨((h.begin (n := 0)).2 he).2.trans hs.1, fun hd => absurd (ho ▸ hd) hne⟩ trivial
  | testFunc =>
    have hc : s.child = .posted := he
    have hne := hs.exists (by rw [hc]; simp) (by rw [hc]; simp)
    have ho : (s.next .testFunc).owner = s.owner := owner_touch (by split <;> rfl)
    exact iff_of_true ⟨((h.goOn.1 he).2 hne).trans hs.1, fun hd => absurd (ho ▸ hd) hne⟩ trivial
  | funcReturned =>
    have hc : s.child = .running := he
    have hne := hs.exists (by rw [hc]; simp) (by rw [hc]; simp)
    have ho : (s.next .funcReturned).owner = s.owner := owner_touch rfl
    exact iff_of_true ⟨((h.goOn.2 he).2 hne).trans hs.1, fun hd => absurd (ho ▸ hd) hne⟩ trivial

/-- Over every interleaving of the owner and the new thread: nothing that is gone is ever touched, no thread
left that would touch it, and `join` never throws, exactly when `join` is called of a created thread and once
only, and the destructor neither where the thread could not be created nor, without `inJoinOnDestroy`, before
the thread has ended. -/
theorem thread_safe_iff (func joinOnDestroy : Bool) (as : List OwnStep) :
    Always step Safe (new func joinOnDestroy) as ↔ Along step Careful (new func joinOnDestroy) as := by
  refine always_iff_along_of (I := Inv) (fun s a t ht hi hs => ⟨hi.step ht, ?_⟩) (fun s a hn hi hs => ?_)
    (new_inv func joinOnDestroy) ⟨rfl, fun h => by cases h⟩
  · obtain ⟨⟨-, he⟩, rfl⟩ := step_eq_some.1 ht
    exact hi.safe_iff hs he
  · have hno : ¬ s.Enabled a := fun he => by
      rw [step, if_pos ⟨hs.1, he⟩] at hn
      cases hn
    cases a with
    | join => exact fun ho => absurd ho hno
    | destroy => exact fun ho => absurd ho hno
    | _ => trivial

/-- The owner's waits end: where it waits, in `start` or for a thread to end, it can go on, or the new thread
can go on without a fault, or is in the function. -/
def Waits (s : Thread) : Prop :=
  (s.owner = .waiting → (∃ t, s.step .semWait = some t) ∨
    ∃ a t, (a = .setTid 1 ∨ a = .semPost) ∧ s.step a = some t ∧ t.fault = none) ∧
  ∀ d, s.owner = .joining d → (∃ t, s.step .joined = some t) ∨ s.child = .running ∨
    ∃ t, s.step .testFunc = some t ∧ t.fault = none

theorem Place.of_waiting {st j : Bool} {c : ChildAt} {p : ThreadPtr} {m : Option Nat}
    (h : Place st .waiting c p m j) : c ≠ .absent ∧ m = some c.posts := by
  cases h with
  | waiting hc => exact ⟨hc, rfl⟩

theorem Place.of_joining {st j d : Bool} {c : ChildAt} {p : ThreadPtr} {m : Option Nat}
    (h : Place st (.joining d) c p m j) : c.posts = 1 := by
  cases h with
  | joining hc => exact hc

theorem Place.of_idle {st j : Bool} {c : ChildAt} {p : ThreadPtr} {m : Option Nat}
    (h : Place st .idle c p m j) : c ≠ .began := by
  cases h with
  | started hc =>
    rintro rfl
    cases hc
  | unstarted | uncreated | joined => simp

theorem Place.of_joined {st : Bool} {o : OwnerAt} {c : ChildAt} {p : ThreadPtr} {m : Option Nat}
    (h : Place st o c p m true) : c = .ended := by
  cases h with
  | joined | ended => rfl

theorem step_of_enabled (hf : s.fault = none) (he : s.Enabled a) : s.step a = some (s.next a) :=
  step_eq_some.2 ⟨⟨hf, he⟩, rfl⟩

theorem Inv.waits (h : s.Inv) (hs : s.fault = none) : s.Waits := by
  refine ⟨fun ho => ?_, fun d ho => ?_⟩
  · obtain ⟨hne, hsem⟩ := (ho ▸ h.place).of_waiting
    have posted : s.child.posts = 1 → ∃ t, s.step .semWait = some t := fun h1 =>
      ⟨_, step_of_enabled hs ⟨ho, 0, by rw [hsem, h1]⟩⟩
    cases hc : s.child with
    | absent => exact absurd hc hne
    | began =>
      have he : s.Enabled (.setTid 1) := ⟨hc, by decide⟩
      exact .inr ⟨_, _, .inl rfl, step_of_enabled hs he, (h.begin.1 he).2.trans hs⟩
    | tidStored =>
      have he : s.Enabled .semPost := hc
      exact .inr ⟨_, _, .inr rfl, step_of_enabled hs he, ((h.begin (n := 0)).2 he).2.trans hs⟩
    | posted | running | ended => exact .inl (posted (by rw [hc]; rfl))
  · have hpost := (ho ▸ h.place).of_joining
    cases hc : s.child with
    | absent | began | tidStored => rw [hc] at hpost; cases hpost
    | posted =>
      have he : s.Enabled .testFunc := hc
      refine .inr (.inr ⟨_, step_of_enabled hs he, ((h.goOn.1 he).2 ?_).trans hs⟩)
      rw [ho]
      simp
    | running => exact .inr (.inl rfl)
    | ended => exact .inl ⟨_, step_of_enabled hs ⟨⟨d, ho⟩, hc⟩⟩

/-- In every state of every run: the function has been called at most once; `start` returns only once the
thread's id is known; `join`, and a destructor that joins, return only when the function, if there is one, has
been called and has returned; and the owner never waits for something that does not come, unless it is the
function that does not return. -/
theorem runs_function_once (func joinOnDestroy : Bool) (as : List OwnStep) (s : Thread)
    (hr : run step (new func joinOnDestroy) as = some s) :
    s.calls ≤ 1 ∧ (s.owner = .idle → s.child ≠ .absent → s.tid ≠ 0) ∧
      (s.joined = true → s.child = .ended ∧ s.calls = s.func.toNat) ∧
      (s.owner = .destroyed → s.joinOnDestroy = true → s.child ≠ .absent →
        s.child = .ended ∧ s.calls = s.func.toNat) ∧
      (s.fault = none → s.Waits) := by
  have h := run_inv_new hr
  have ended : s.child = .ended → s.child = .ended ∧ s.calls = s.func.toNat := fun hc =>
    ⟨hc, by rw [h.calls, hc]; rfl⟩
  refine ⟨?_, fun ho hne => ?_, fun hj => ?_, fun ho hj hne => ?_, h.waits⟩
  · rw [h.calls]
    exact ChildAt.calls_le _ _
  · exact h.tid hne (ho ▸ h.place).of_idle
  · exact ended (hj ▸ h.place).of_joined
  · exact ended ((h.kept ho hj).resolve_left hne)

/-- The thread runs ahead of its creator, and is joined. -/
def startAndJoin : List OwnStep :=
  [.start, .create true, .setTid 7, .semPost, .testFunc, .store, .semWait, .semDestroy, .join, .funcReturned,
    .joined, .destroy]

theorem joined_safely : Always step Safe (new true false) startAndJoin :=
  (thread_safe_iff true false startAndJoin).2 (by decide)

theorem joined_once : ∃ s, run step (new true false) startAndJoin = some s ∧ s.child = .ended ∧ s.calls = 1 := by
  obtain ⟨s, hs⟩ : ∃ s, run step (new true false) startAndJoin = some s := ⟨_, rfl⟩
  have hjoined : s.joined = true ∧ s.func = true := by
    cases hs
    decide
  obtain ⟨-, -, h, -⟩ := runs_function_once true false startAndJoin s hs
  obtain ⟨hended, hcalls⟩ := h hjoined.1
  exact ⟨s, hs, hended, by rw [hcalls, hjoined.2]; rfl⟩

end Thread
end Muduo
