-- Tables of entries. A range of a table is read, and a range is overwritten. A
-- range that sticks out is cut at the end of the table.
import Mathlib.Tactic.Common

namespace tables

universe u v

variable {α : Type u} {β : Type v}

/-- The `n` entries from `i` on. -/
def slice (tab : List α) (i n : Nat) : List α := (tab.drop i).take n

/-- The entries from `i` on are overwritten. -/
def patch (tab : List α) (i : Nat) : List α → List α
  | [] => tab
  | x :: xs => patch (tab.set i x) (i + 1) xs

@[simp] theorem patch_nil (tab : List α) (i : Nat) : patch tab i [] = tab := rfl

theorem patch_cons (tab : List α) (i : Nat) (x : α) (xs : List α) :
    patch tab i (x :: xs) = patch (tab.set i x) (i + 1) xs := rfl

@[simp] theorem length_patch (tab : List α) (i : Nat) (xs : List α) :
    (patch tab i xs).length = tab.length := by
  induction xs generalizing tab i with
  | nil => rfl
  | cons x xs ih => rw [patch_cons, ih, List.length_set]

theorem length_slice {tab : List α} {i n : Nat} (h : i + n ≤ tab.length) :
    (slice tab i n).length = n := by
  rw [slice, List.length_take, List.length_drop]
  omega

theorem getElem?_slice (tab : List α) (i n k : Nat) :
    (slice tab i n)[k]? = if k < n then tab[i + k]? else none := by
  rw [slice, List.getElem?_take, List.getElem?_drop]

/-- Inside the range stand the new entries, and outside it the old ones. -/
theorem getElem?_patch (tab : List α) (i : Nat) (xs : List α) {k : Nat} (hk : k < tab.length) :
    (patch tab i xs)[k]? = if i ≤ k ∧ k < i + xs.length then xs[k - i]? else tab[k]? := by
  induction xs generalizing tab i with
  | nil => rw [if_neg (by simp only [List.length_nil]; omega), patch_nil]
  | cons x xs ih =>
    rw [patch_cons, ih _ _ (by rwa [List.length_set]), List.length_cons]
    by_cases hik : i = k
    · subst hik
      rw [if_neg (by omega), if_pos (by omega), List.getElem?_set_self hk, Nat.sub_self]
      rfl
    · rw [List.getElem?_set_ne hik]
      by_cases hin : i + 1 ≤ k ∧ k < i + 1 + xs.length
      · rw [if_pos hin, if_pos (by omega), show k - i = k - (i + 1) + 1 by omega,
          List.getElem?_cons_succ]
      · rw [if_neg hin, if_neg (by omega)]

/-- A range that is read as it was written. -/
theorem slice_patch {tab : List α} {i : Nat} {xs : List α} (h : i + xs.length ≤ tab.length) :
    slice (patch tab i xs) i xs.length = xs := by
  apply List.ext_getElem?
  intro k
  rw [getElem?_slice]
  by_cases hk : k < xs.length
  · rw [if_pos hk, getElem?_patch _ _ _ (by omega), if_pos (by omega), Nat.add_sub_cancel_left]
  · rw [if_neg hk, List.getElem?_eq_none (by omega)]

theorem patch_inj {tab : List α} {i : Nat} {xs ys : List α} (hlen : xs.length = ys.length)
    (h : i + xs.length ≤ tab.length) (he : patch tab i xs = patch tab i ys) : xs = ys := by
  rw [← slice_patch h, he, hlen, slice_patch (by rwa [← hlen])]

theorem map_slice (f : α → β) (tab : List α) (i n : Nat) :
    (slice tab i n).map f = slice (tab.map f) i n := by
  rw [slice, List.map_take, List.map_drop, slice]

theorem map_patch (f : α → β) (tab : List α) (i : Nat) (xs : List α) :
    (patch tab i xs).map f = patch (tab.map f) i (xs.map f) := by
  induction xs generalizing tab i with
  | nil => rfl
  | cons x xs ih => rw [patch_cons, ih, List.map_set, List.map_cons, patch_cons]

end tables
