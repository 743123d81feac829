import Mathlib.Data.List.Basic

/-!
# Windows of a list, and writing into one

A contiguous array with a window `[i, j)` of live cells: `window` reads it, `overwrite` writes a
block at a position, and `copyWithin` is the element-by-element forward copy inside one array. The
forward copy is a block write of the old source (`copyWithin_eq`) when the destination does not lie
inside the source range, overlap or not.
-/

namespace Window
variable {α : Type*}

/-- The cells `i ≤ k < j` of `l`. -/
def window (l : List α) (i j : Nat) : List α := (l.take j).drop i

/-- `l` with the block `xs` written at position `i`. -/
def overwrite (l : List α) (i : Nat) (xs : List α) : List α :=
  l.take i ++ xs ++ l.drop (i + xs.length)

/-- `n` cells copied from `src` to `dst` inside `l`, one at a time and in increasing order. -/
def copyWithin (l : List α) (src dst : Nat) : Nat → List α
  | 0 => l
  | n + 1 =>
    match l[src]? with
    | some x => copyWithin (l.set dst x) (src + 1) (dst + 1) n
    | none => l

variable {l m xs ys : List α} {i j k n src dst : Nat} {x : α}

/-! ### Reading -/

theorem getElem?_window : (window l i j)[k]? = if i + k < j then l[i + k]? else none := by
  rw [window, List.getElem?_drop, List.getElem?_take]

theorem length_window (hj : j ≤ l.length) : (window l i j).length = j - i := by
  simp [window, hj]

@[simp] theorem window_self : window l i i = [] := by simp [window]

theorem window_eq_take_drop : window l i j = (l.drop i).take (j - i) := by
  rw [window, List.drop_take]

theorem drop_window : (window l i j).drop k = window l (i + k) j := by
  rw [window, window, List.drop_drop]

theorem take_window (h : i + k ≤ j) : (window l i j).take k = window l i (i + k) := by
  rw [window_eq_take_drop, window_eq_take_drop, List.take_take]
  congr 1; omega

theorem window_append_left (h : j ≤ l.length) : window (l ++ m) i j = window l i j := by
  rw [window, window, List.take_append_of_le_length h]

theorem window_split (hik : i ≤ k) (hkj : k ≤ j) :
    window l i j = window l i k ++ window l k j := by
  have ht : (window l i j).take (k - i) = window l i k := by
    rw [take_window (by omega)]; congr 1; omega
  have hd : (window l i j).drop (k - i) = window l k j := by
    rw [drop_window]; congr 1; omega
  rw [← ht, ← hd, List.take_append_drop]

/-! ### Writing -/

theorem length_overwrite (h : i + xs.length ≤ l.length) : (overwrite l i xs).length = l.length := by
  simp only [overwrite, List.length_append, List.length_take, List.length_drop]; omega

@[simp] theorem overwrite_nil : overwrite l i [] = l := by simp [overwrite]

theorem getElem?_overwrite (hi : i ≤ l.length) :
    (overwrite l i xs)[k]? =
      if k < i then l[k]? else if k < i + xs.length then xs[k - i]? else l[k]? := by
  have ht : (l.take i).length = i := by simp [hi]
  rw [overwrite, List.append_assoc]
  by_cases h1 : k < i
  · rw [List.getElem?_append_left (by omega), List.getElem?_take, if_pos h1, if_pos h1]
  rw [List.getElem?_append_right (by omega), ht, if_neg h1]
  by_cases h2 : k < i + xs.length
  · rw [List.getElem?_append_left (by omega), if_pos h2]
  · rw [List.getElem?_append_right (by omega), List.getElem?_drop, if_neg h2]
    congr 1; omega

/-- The cells before a block write. -/
theorem window_overwrite_of_le (hi : i ≤ l.length) (hj : j ≤ i) :
    window (overwrite l i xs) k j = window l k j := by
  refine List.ext_getElem? fun q => ?_
  rw [getElem?_window, getElem?_window, getElem?_overwrite hi]
  split
  · rw [if_pos (by omega)]
  · rfl

/-- The block itself. -/
theorem window_overwrite_self (h : i + xs.length ≤ l.length) :
    window (overwrite l i xs) i (i + xs.length) = xs := by
  refine List.ext_getElem? fun q => ?_
  rw [getElem?_window, getElem?_overwrite (by omega)]
  by_cases hq : q < xs.length
  · rw [if_pos (by omega), if_neg (by omega), if_pos (by omega), Nat.add_sub_cancel_left]
  · rw [if_neg (by omega), List.getElem?_eq_none (by omega)]

/-- Writing a block right behind a window extends the window by it. -/
theorem window_overwrite_append (hij : i ≤ j) (h : j + xs.length ≤ l.length) :
    window (overwrite l j xs) i (j + xs.length) = window l i j ++ xs := by
  rw [window_split hij (Nat.le_add_right ..), window_overwrite_of_le (by omega) (Nat.le_refl j),
    window_overwrite_self h]

/-! ### The forward copy -/

theorem length_copyWithin : (copyWithin l src dst n).length = l.length := by
  induction n generalizing l src dst with
  | zero => rfl
  | succ n ih =>
    rw [copyWithin]; split
    · rw [ih, List.length_set]
    · rfl

theorem window_set_of_lt (h : k < i) : window (l.set k x) i j = window l i j := by
  refine List.ext_getElem? fun q => ?_
  rw [getElem?_window, getElem?_window, List.getElem?_set_ne (by omega)]

theorem overwrite_set_succ (h : i < l.length) :
    overwrite (l.set i x) (i + 1) xs = overwrite l i (x :: xs) := by
  refine List.ext_getElem? fun q => ?_
  rw [getElem?_overwrite (by simp; omega), getElem?_overwrite (Nat.le_of_lt h), List.length_cons]
  rcases Nat.lt_trichotomy q i with hq | rfl | hq
  · rw [if_pos (by omega), if_pos hq, List.getElem?_set_ne (by omega)]
  · rw [if_pos (by omega), if_neg (by omega), if_pos (by omega), List.getElem?_set_self h]
    simp
  · have e : q - i = q - (i + 1) + 1 := by omega
    rw [List.getElem?_set_ne (by omega), e, List.getElem?_cons_succ, if_neg (by omega),
      if_neg (by omega : ¬ q < i)]
    exact if_congr (by omega) rfl rfl

/-- The forward copy moves the old source block to `dst`: each cell is read before it is
overwritten, because the destination runs behind the source. -/
theorem copyWithin_eq (hle : dst ≤ src) (h : src + n ≤ l.length) :
    copyWithin l src dst n = overwrite l dst (window l src (src + n)) := by
  induction n generalizing l src dst with
  | zero => simp [copyWithin]
  | succ n ih =>
    have hs : src < l.length := by omega
    have hw : window l src (src + (n + 1)) = l[src] :: window l (src + 1) (src + 1 + n) := by
      rw [window_split (Nat.le_succ src) (by omega), window_eq_take_drop (j := src.succ),
        List.drop_eq_getElem_cons hs, Nat.succ_sub (Nat.le_refl src), Nat.sub_self,
        Nat.add_right_comm, Nat.add_assoc]
      rfl
    rw [copyWithin, List.getElem?_eq_getElem hs]
    dsimp only
    rw [ih (Nat.succ_le_succ hle) (by simp; omega), window_set_of_lt (Nat.lt_succ_of_le hle),
      overwrite_set_succ (by omega), hw]

end Window
