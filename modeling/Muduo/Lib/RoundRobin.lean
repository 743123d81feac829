import Mathlib.Data.List.Rotate

/-!
# Round robin

`turns xs s k` is what `k` turns of a round robin over `xs` select when the first of them is turn `s`.
A full round is a rotation of `xs`, so every element has its share in it wherever it starts; over any
number of turns the members of a list without repetition are selected equally often, but for one.
-/

namespace RoundRobin
variable {α : Type*} {xs : List α} {s k i j : Nat} {a b : α}

/-- The elements selected by the turns `s`, …, `s + k - 1`. -/
def turns (xs : List α) : Nat → Nat → List α
  | _, 0 => []
  | s, k + 1 => xs[s % xs.length]?.toList ++ turns xs (s + 1) k

/-- The index after `i`, going back to the start at the end. -/
def advance (n i : Nat) : Nat := if n ≤ i + 1 then 0 else i + 1

theorem advance_eq {n : Nat} (h : i < n) : advance n i = (i + 1) % n := by
  unfold advance
  split
  · rw [show i + 1 = n by omega, Nat.mod_self]
  · rw [Nat.mod_eq_of_lt (by omega)]

theorem advance_lt {n : Nat} (h : i < n) : advance n i < n := by
  rw [advance_eq h]
  exact Nat.mod_lt _ (by omega)

/-- Turns are counted from any number with the same remainder. -/
theorem turns_mod (xs : List α) (s k : Nat) : turns xs (s % xs.length) k = turns xs s k := by
  induction k generalizing s with
  | zero => rfl
  | succ k ih =>
    rw [turns, turns, Nat.mod_mod, ← ih (s % xs.length + 1), ← ih (s + 1), Nat.mod_add_mod]

theorem turns_add : turns xs s (j + k) = turns xs s j ++ turns xs (s + j) k := by
  induction j generalizing s with
  | zero => rw [Nat.zero_add]; rfl
  | succ j ih =>
    rw [Nat.succ_add_eq_add_succ, Nat.add_succ, turns, turns, ih, List.append_assoc,
      show s + 1 + j = s + (j + 1) by omega]

theorem turns_succ (h : xs ≠ []) : ∃ a ∈ xs, xs[s % xs.length]? = some a ∧
    turns xs s (k + 1) = a :: turns xs (s + 1) k := by
  have hlt : s % xs.length < xs.length := Nat.mod_lt _ (List.length_pos_of_ne_nil h)
  have ha := List.getElem?_eq_getElem hlt
  refine ⟨xs[s % xs.length], List.getElem_mem hlt, ha, ?_⟩
  rw [turns, ha]
  rfl

theorem length_turns (h : xs ≠ []) : (turns xs s k).length = k := by
  induction k generalizing s with
  | zero => rfl
  | succ k ih =>
    obtain ⟨a, -, -, hk⟩ := turns_succ (s := s) (k := k) h
    rw [hk, List.length_cons, ih]

/-- Turn `s + i` selects the element with that number modulo the length. -/
theorem getElem?_turns (h : xs ≠ []) (hi : i < k) :
    (turns xs s k)[i]? = xs[(s + i) % xs.length]? := by
  induction k generalizing s i with
  | zero => omega
  | succ k ih =>
    obtain ⟨a, -, ha, hk⟩ := turns_succ (s := s) (k := k) h
    rw [hk]
    cases i with
    | zero => exact ha.symm
    | succ i =>
      rw [List.getElem?_cons_succ, ih (by omega), show s + 1 + i = s + (i + 1) by omega]

theorem mem_of_mem_turns (ha : a ∈ turns xs s k) : a ∈ xs := by
  by_cases h : xs = []
  · subst h
    induction k generalizing s with
    | zero => cases ha
    | succ k ih => exact ih ha
  · obtain ⟨i, hi⟩ := List.mem_iff_getElem?.1 ha
    have hik : i < k := by
      have := (List.getElem?_eq_some_iff.1 hi).1
      rwa [length_turns h] at this
    rw [getElem?_turns h hik] at hi
    exact List.mem_of_getElem? hi

/-! ### Shares -/

/-- A full round is a rotation. -/
theorem turns_length (xs : List α) (s : Nat) : turns xs s xs.length = xs.rotate s := by
  by_cases h : xs = []
  · subst h; rfl
  · refine List.ext_getElem? fun i => ?_
    by_cases hi : i < xs.length
    · rw [getElem?_turns h hi, List.getElem?_rotate hi, Nat.add_comm]
    · rw [List.getElem?_eq_none (by rw [length_turns h]; omega),
        List.getElem?_eq_none (by rw [List.length_rotate]; omega)]

variable [DecidableEq α]

theorem count_round (xs : List α) (s : Nat) (a : α) :
    (turns xs s xs.length).count a = xs.count a := by
  rw [turns_length]
  exact (List.rotate_perm xs s).count_eq a

theorem count_rounds (q : Nat) : (turns xs s (q * xs.length)).count a = q * xs.count a := by
  induction q generalizing s with
  | zero => rw [Nat.zero_mul, Nat.zero_mul]; rfl
  | succ q ih =>
    rw [Nat.succ_mul, turns_add, List.count_append, ih, count_round, Nat.succ_mul]

/-- Every full round inside the turns taken selects each element as often as it occurs. -/
theorem count_window (h : xs ≠ []) (hj : j + xs.length ≤ k) :
    (((turns xs s k).drop j).take xs.length).count a = xs.count a := by
  obtain ⟨m, rfl⟩ := Nat.exists_eq_add_of_le hj
  rw [turns_add, turns_add, List.append_assoc, List.drop_left' (length_turns h),
    List.take_left' (length_turns h), count_round]

/-- A part of a round selects nothing twice. -/
theorem count_part (hn : xs.Nodup) (hk : k ≤ xs.length) : (turns xs s k).count a ≤ 1 := by
  obtain ⟨m, hm⟩ := Nat.exists_eq_add_of_le hk
  have hround := count_round xs s a
  rw [hm, turns_add, List.count_append] at hround
  have hone := List.nodup_iff_count_le_one.1 hn a
  omega

/-- After any number of turns no element is ahead of another by more than one. -/
theorem count_le_succ (hn : xs.Nodup) (ha : a ∈ xs) (hb : b ∈ xs) :
    (turns xs s k).count a ≤ (turns xs s k).count b + 1 := by
  have hk : k / xs.length * xs.length + k % xs.length = k := Nat.div_add_mod' k xs.length
  have hpos : 0 < xs.length := List.length_pos_of_mem ha
  have hpart : (turns xs (s + k / xs.length * xs.length) (k % xs.length)).count a ≤ 1 :=
    count_part hn (Nat.mod_lt _ hpos).le
  rw [← hk, turns_add, List.count_append, List.count_append, count_rounds, count_rounds,
    List.count_eq_one_of_mem hn ha, List.count_eq_one_of_mem hn hb]
  omega

end RoundRobin
