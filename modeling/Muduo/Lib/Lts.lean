import Mathlib.Data.List.Basic

/-!
# Labelled transition systems with partial steps

`step s a` is the state after the label `a`, or `none` when `a` is not enabled in `s`. `run` folds
it over a list of labels, so a statement about every `run` is a statement about every finite
interleaving the labels can describe. The rules below reduce such statements to one step.
-/

namespace Lts
variable {σ τ α β : Type*}

/-- The state after the labels `as`, when each of them is enabled in its turn. -/
def run (step : σ → α → Option σ) : σ → List α → Option σ
  | s, [] => some s
  | s, a :: as => (step s a).bind fun t => run step t as

/-- Each label of `as` meets `C` in the state it is taken in. -/
def Along (step : σ → α → Option σ) (C : σ → α → Prop) : σ → List α → Prop
  | _, [] => True
  | s, a :: as => C s a ∧ ∀ t, step s a = some t → Along step C t as

/-- `P` holds in the state before the first label of `as` and after each of them. -/
def Always (step : σ → α → Option σ) (P : σ → Prop) (s : σ) (as : List α) : Prop :=
  ∀ bs, bs <+: as → ∀ t, run step s bs = some t → P t

variable {step : σ → α → Option σ} {C : σ → α → Prop} {I : σ → Prop} {s t u : σ} {a : α}
  {as bs : List α}

@[simp] theorem run_nil : run step s [] = some s := rfl

theorem run_cons : run step s (a :: as) = (step s a).bind fun t => run step t as := rfl

theorem run_cons_some :
    run step s (a :: as) = some u ↔ ∃ t, step s a = some t ∧ run step t as = some u := by
  rw [run_cons, Option.bind_eq_some_iff]

theorem run_append : run step s (as ++ bs) = (run step s as).bind fun t => run step t bs := by
  induction as generalizing s with
  | nil => rfl
  | cons a as ih =>
    rw [List.cons_append, run_cons, run_cons, Option.bind_assoc]
    exact congrArg _ (funext fun t => ih)

theorem run_append_some :
    run step s (as ++ bs) = some u ↔ ∃ t, run step s as = some t ∧ run step t bs = some u := by
  rw [run_append, Option.bind_eq_some_iff]

theorem run_concat_some :
    run step s (as ++ [a]) = some u ↔ ∃ t, run step s as = some t ∧ step t a = some u := by
  simp only [run_append_some, run_cons_some, run_nil, Option.some.injEq, exists_eq_right]

@[simp] theorem along_nil : Along step C s [] := trivial

theorem along_cons :
    Along step C s (a :: as) ↔ C s a ∧ ∀ t, step s a = some t → Along step C t as := Iff.rfl

instance Along.decidable [∀ s a, Decidable (C s a)] : ∀ s as, Decidable (Along step C s as)
  | _, [] => isTrue trivial
  | s, a :: as =>
    match h : step s a with
    | none => decidable_of_iff (C s a) ⟨fun hC => ⟨hC, by simp [h]⟩, And.left⟩
    | some t =>
      have := Along.decidable t as
      decidable_of_iff (C s a ∧ Along step C t as)
        (and_congr_right fun _ => ⟨fun hA u hu => by cases h ▸ hu; exact hA, fun hA => hA t h⟩)

theorem Along.mono {C' : σ → α → Prop} (hC : ∀ s a, C s a → C' s a) (h : Along step C s as) :
    Along step C' s as := by
  induction as generalizing s with
  | nil => trivial
  | cons a as ih => exact ⟨hC _ _ h.1, fun t ht => ih (h.2 t ht)⟩

theorem Along.of_forall (h : ∀ s a, a ∈ as → C s a) : Along step C s as := by
  induction as generalizing s with
  | nil => trivial
  | cons a as ih =>
    exact ⟨h s a (by simp), fun t _ => ih fun s b hb => h s b (by simp [hb])⟩

theorem Along.and {C' : σ → α → Prop} (h : Along step C s as) (h' : Along step C' s as) :
    Along step (fun s a => C s a ∧ C' s a) s as := by
  induction as generalizing s with
  | nil => trivial
  | cons a as ih => exact ⟨⟨h.1, h'.1⟩, fun t ht => ih (h.2 t ht) (h'.2 t ht)⟩

theorem Along.append (h : Along step C s (as ++ bs)) :
    Along step C s as ∧ ∀ t, run step s as = some t → Along step C t bs := by
  induction as generalizing s with
  | nil => exact ⟨trivial, fun t ht => by cases ht; exact h⟩
  | cons a as ih =>
    refine ⟨⟨h.1, fun t ht => (ih (h.2 t ht)).1⟩, fun u hu => ?_⟩
    obtain ⟨t, ht, hu⟩ := run_cons_some.1 hu
    exact (ih (h.2 t ht)).2 u hu

theorem Along.join (h : Along step C s as) (h' : ∀ t, run step s as = some t → Along step C t bs) :
    Along step C s (as ++ bs) := by
  induction as generalizing s with
  | nil => exact h' s rfl
  | cons a as ih =>
    refine ⟨h.1, fun t ht => ih (h.2 t ht) fun u hu => h' u ?_⟩
    exact run_cons_some.2 ⟨t, ht, hu⟩

/-- A run meets `C` when each of its steps does in the state the steps before it lead to. -/
theorem along_iff_split : Along step C s as ↔
    ∀ bs a cs, as = bs ++ a :: cs → ∀ t, run step s bs = some t → C t a := by
  induction as generalizing s with
  | nil =>
    refine ⟨fun _ bs a cs heq => ?_, fun _ => trivial⟩
    cases bs <;> cases heq
  | cons b as ih =>
    constructor
    · rintro ⟨hb, h⟩ bs a cs heq t ht
      cases bs with
      | nil =>
        cases heq; cases ht
        exact hb
      | cons b' bs =>
        obtain ⟨rfl, rfl⟩ := List.cons.inj heq
        obtain ⟨u, hu, ht⟩ := run_cons_some.1 ht
        exact ih.1 (h u hu) bs a cs rfl t ht
    · intro h
      refine ⟨h [] b as rfl s rfl, fun t ht => ih.2 fun bs a cs heq u hu => ?_⟩
      exact h (b :: bs) a cs (by rw [heq]; rfl) u (run_cons_some.2 ⟨t, ht, hu⟩)

theorem always_nil {P : σ → Prop} : Always step P s [] ↔ P s := by
  constructor
  · exact fun h => h [] List.nil_prefix s rfl
  · rintro h bs hbs t ht
    rw [List.prefix_nil.1 hbs] at ht
    cases ht; exact h

theorem always_cons {P : σ → Prop} :
    Always step P s (a :: as) ↔ P s ∧ ∀ t, step s a = some t → Always step P t as := by
  constructor
  · intro h
    refine ⟨h [] List.nil_prefix s rfl, fun t ht bs hbs u hu => ?_⟩
    exact h (a :: bs) (List.cons_prefix_cons.2 ⟨rfl, hbs⟩) u (run_cons_some.2 ⟨t, ht, hu⟩)
  · rintro ⟨hs, h⟩ bs hbs u hu
    cases bs with
    | nil => cases hu; exact hs
    | cons b bs =>
      obtain ⟨rfl, hpre⟩ := List.cons_prefix_cons.1 hbs
      obtain ⟨t, ht, hrun⟩ := run_cons_some.1 hu
      exact h t ht bs hpre u hrun

/-! ### Induction rules -/

/-- The invariant rule: what every step keeps, every run keeps. -/
theorem run_inv (hI : ∀ s a t, step s a = some t → I s → I t) (hr : run step s as = some t)
    (hs : I s) : I t := by
  induction as generalizing s with
  | nil => cases hr; exact hs
  | cons a as ih =>
    obtain ⟨u, hu, hr⟩ := run_cons_some.1 hr
    exact ih hr (hI s a u hu hs)

/-- The invariant rule for runs whose steps all meet `C`. -/
theorem run_inv_along (hI : ∀ s a t, C s a → step s a = some t → I s → I t)
    (hC : Along step C s as) (hr : run step s as = some t) (hs : I s) : I t := by
  induction as generalizing s with
  | nil => cases hr; exact hs
  | cons a as ih =>
    obtain ⟨u, hu, hr⟩ := run_cons_some.1 hr
    exact ih (hC.2 u hu) hr (hI s a u hC.1 hu hs)

/-- A run whose steps all meet `C` goes through when `C` and the invariant enable every step. -/
theorem run_total (hI : ∀ s a, C s a → I s → ∃ t, step s a = some t ∧ I t)
    (hC : Along step C s as) (hs : I s) : ∃ t, run step s as = some t ∧ I t := by
  induction as generalizing s with
  | nil => exact ⟨s, rfl, hs⟩
  | cons a as ih =>
    obtain ⟨u, hu, hiu⟩ := hI s a hC.1 hs
    obtain ⟨t, ht, hit⟩ := ih (hC.2 u hu) hiu
    exact ⟨t, run_cons_some.2 ⟨u, hu, ht⟩, hit⟩

/-- Where a step keeps `P` exactly when it meets `C`, and a label that is not enabled meets `C`, the runs
that keep `P` throughout are those whose steps all meet `C`. -/
theorem always_iff_along_of {P : σ → Prop}
    (hI : ∀ s a t, step s a = some t → I s → P s → I t ∧ (P t ↔ C s a))
    (hN : ∀ s a, step s a = none → I s → P s → C s a) (hs : I s) (hP : P s) :
    Always step P s as ↔ Along step C s as := by
  induction as generalizing s with
  | nil => exact ⟨fun _ => trivial, fun _ => always_nil.2 hP⟩
  | cons a as ih =>
    rw [always_cons, along_cons]
    constructor
    · rintro ⟨-, h⟩
      have kept : ∀ t, step s a = some t → P t := fun t ht => h t ht [] List.nil_prefix t rfl
      refine ⟨?_, fun t ht => (ih (hI s a t ht hs hP).1 (kept t ht)).1 (h t ht)⟩
      cases ht : step s a with
      | none => exact hN s a ht hs hP
      | some t => exact (hI s a t ht hs hP).2.1 (kept t ht)
    · rintro ⟨hC, h⟩
      refine ⟨hP, fun t ht => ?_⟩
      obtain ⟨hit, hiff⟩ := hI s a t ht hs hP
      exact (ih hit (hiff.2 hC)).2 (h t ht)

/-- Where besides every label is enabled. -/
theorem always_iff_along {P : σ → Prop}
    (hI : ∀ s a, I s → P s → ∃ t, step s a = some t ∧ I t ∧ (P t ↔ C s a)) (hs : I s) (hP : P s) :
    Always step P s as ↔ Along step C s as := by
  refine always_iff_along_of (fun s a t ht hs hP => ?_) (fun s a hn hs hP => ?_) hs hP
  · obtain ⟨u, hu, hi⟩ := hI s a hs hP
    cases ht.symm.trans hu
    exact hi
  · obtain ⟨u, hu, -⟩ := hI s a hs hP
    rw [hn] at hu
    cases hu

/-- Forward simulation: if every step meeting `C` is matched by the abstract step under the same
label, every run is matched by the abstract run under the same labels. -/
theorem run_sim {step' : τ → α → Option τ} {R : σ → τ → Prop} {x : τ}
    (hsim : ∀ s x a, C s a → R s x → ∃ t y, step s a = some t ∧ step' x a = some y ∧ R t y)
    (hC : Along step C s as) (hs : R s x) :
    ∃ t y, run step s as = some t ∧ run step' x as = some y ∧ R t y := by
  induction as generalizing s x with
  | nil => exact ⟨s, x, rfl, rfl, hs⟩
  | cons a as ih =>
    obtain ⟨u, z, hu, hz, hR⟩ := hsim s x a hC.1 hs
    obtain ⟨t, y, ht, hy, hR⟩ := ih (hC.2 u hu) hR
    exact ⟨t, y, run_cons_some.2 ⟨u, hu, ht⟩, run_cons_some.2 ⟨z, hz, hy⟩, hR⟩

/-! ### Termination -/

/-- The measure rule: where every step meeting `C` makes `μ` smaller, a run of such steps is no longer
than `μ` was. -/
theorem run_bounded {μ : σ → Nat} (hI : ∀ s a t, C s a → step s a = some t → I s → I t ∧ μ t < μ s)
    (hC : Along step C s as) (hr : run step s as = some t) (hs : I s) : as.length + μ t ≤ μ s := by
  induction as generalizing s with
  | nil =>
    cases hr
    simp
  | cons a as ih =>
    obtain ⟨u, hu, hr⟩ := run_cons_some.1 hr
    obtain ⟨hiu, hlt⟩ := hI s a u hC.1 hu hs
    have := ih (hC.2 u hu) hr hiu
    rw [List.length_cons]
    omega

/-- Where besides every state but those of `Q` has such a step, such a run leads to `Q`. -/
theorem exists_run_to {μ : σ → Nat} {Q : σ → Prop}
    (hI : ∀ s a t, C s a → step s a = some t → I s → I t ∧ μ t < μ s)
    (hQ : ∀ s, I s → Q s ∨ ∃ a t, C s a ∧ step s a = some t) (hs : I s) :
    ∃ as t, Along step C s as ∧ run step s as = some t ∧ Q t := by
  induction h : μ s using Nat.strongRecOn generalizing s with
  | ind n ih =>
    rcases hQ s hs with hq | ⟨a, t, hC, ht⟩
    · exact ⟨[], s, trivial, rfl, hq⟩
    · obtain ⟨hit, hlt⟩ := hI s a t hC ht hs
      obtain ⟨as, u, hA, hu, hq⟩ := ih (μ t) (h ▸ hlt) hit rfl
      refine ⟨a :: as, u, ⟨hC, fun v hv => ?_⟩, run_cons_some.2 ⟨t, ht, hu⟩, hq⟩
      rw [ht] at hv
      cases hv
      exact hA

/-! ### Histories

A quantity that each step adds to, collected over a run. -/

/-- The concatenation of what the steps of a run contribute. -/
def collect (step : σ → α → Option σ) (f : σ → α → List β) : σ → List α → List β
  | _, [] => []
  | s, a :: as => f s a ++ ((step s a).map fun t => collect step f t as).getD []

variable {f : σ → α → List β}

@[simp] theorem collect_nil : collect step f s [] = [] := rfl

theorem collect_cons (h : step s a = some t) :
    collect step f s (a :: as) = f s a ++ collect step f t as := by
  simp [collect, h]

theorem collect_append (h : run step s as = some t) :
    collect step f s (as ++ bs) = collect step f s as ++ collect step f t bs := by
  induction as generalizing s with
  | nil => cases h; rfl
  | cons a as ih =>
    obtain ⟨u, hu, h⟩ := run_cons_some.1 h
    rw [List.cons_append, collect_cons hu, collect_cons hu, ih h, List.append_assoc]

theorem collect_concat (h : run step s as = some t) (ha : step t a = some u) :
    collect step f s (as ++ [a]) = collect step f s as ++ f t a := by
  rw [collect_append h, collect_cons ha, collect_nil, List.append_nil]

/-- Some run of steps meeting `C` leads from `s` to `t` with the history `h`. -/
def Reaches (step : σ → α → Option σ) (C : σ → α → Prop) (f : σ → α → List β) (s : σ) (h : List β) (t : σ) :
    Prop :=
  ∃ as, run step s as = some t ∧ Along step C s as ∧ collect step f s as = h

namespace Reaches
variable {h h' : List β}

theorem refl : Reaches step C f s [] s := ⟨[], rfl, trivial, rfl⟩

theorem single (hC : C s a) (ha : step s a = some t) : Reaches step C f s (f s a) t :=
  ⟨[a], run_cons_some.2 ⟨t, ha, rfl⟩, ⟨hC, fun _ _ => trivial⟩, by
    rw [collect_cons ha, collect_nil, List.append_nil]⟩

theorem trans (hs : Reaches step C f s h t) (ht : Reaches step C f t h' u) :
    Reaches step C f s (h ++ h') u := by
  obtain ⟨as, hr, hA, rfl⟩ := hs
  obtain ⟨bs, hr', hA', rfl⟩ := ht
  refine ⟨as ++ bs, run_append_some.2 ⟨t, hr, hr'⟩, hA.join fun v hv => ?_, collect_append hr⟩
  rw [hr] at hv
  cases hv
  exact hA'

end Reaches

theorem collect_const_nil : collect step (fun _ _ => ([] : List β)) s as = [] := by
  induction as generalizing s with
  | nil => rfl
  | cons a as ih => cases hst : step s a <;> simp [collect, hst, ih]

/-- A contribution that depends on the states before and after the step. -/
def change (step : σ → α → Option σ) (f : σ → σ → List β) (s : σ) (a : α) : List β :=
  ((step s a).map (f s)).getD []

theorem change_eq {f : σ → σ → List β} (h : step s a = some t) : change step f s a = f s t := by
  rw [change, h, Option.map_some, Option.getD_some]

/-- If in every step meeting `C` two contributions are as long as a third, so they are over a run. -/
theorem run_length_add {β' β'' : Type*} {f' : σ → α → List β'} {f'' : σ → α → List β''}
    (hI : ∀ s a t, C s a → step s a = some t → I s → I t)
    (hf : ∀ s a t, C s a → step s a = some t → I s →
      (f s a).length = (f' s a).length + (f'' s a).length)
    (hC : Along step C s as) (hr : run step s as = some t) (hs : I s) :
    (collect step f s as).length =
      (collect step f' s as).length + (collect step f'' s as).length := by
  induction as generalizing s with
  | nil => rfl
  | cons a as ih =>
    obtain ⟨u, hu, hr⟩ := run_cons_some.1 hr
    have hrest := ih (hC.2 u hu) hr (hI s a u hC.1 hu hs)
    have hstep := hf s a u hC.1 hu hs
    simp only [collect_cons hu, List.length_append]
    omega

/-- The queue rule: if every step meeting `C` takes `out` off the front of `g` and puts `f` behind it,
so does a run of such steps, in order. -/
theorem run_flow {g : σ → List β} (out : σ → α → List β)
    (hI : ∀ s a t, C s a → step s a = some t → I s → I t)
    (hg : ∀ s a t, C s a → step s a = some t → I s → out s a ++ g t = g s ++ f s a)
    (hC : Along step C s as) (hr : run step s as = some t) (hs : I s) :
    collect step out s as ++ g t = g s ++ collect step f s as := by
  induction as generalizing s with
  | nil => cases hr; simp
  | cons a as ih =>
    obtain ⟨u, hu, hr⟩ := run_cons_some.1 hr
    rw [collect_cons hu, collect_cons hu, List.append_assoc, ih (hC.2 u hu) hr (hI s a u hC.1 hu hs),
      ← List.append_assoc, hg s a u hC.1 hu hs, List.append_assoc]

/-- The history rule: if every step meeting `C` appends its contribution to `g`, a run of such steps
appends the collected history. -/
theorem run_collect {g : σ → List β}
    (hI : ∀ s a t, C s a → step s a = some t → I s → I t)
    (hg : ∀ s a t, C s a → step s a = some t → I s → g t = g s ++ f s a)
    (hC : Along step C s as) (hr : run step s as = some t) (hs : I s) :
    g t = g s ++ collect step f s as := by
  have h := run_flow (fun _ _ => []) hI hg hC hr hs
  rwa [collect_const_nil] at h

end Lts
