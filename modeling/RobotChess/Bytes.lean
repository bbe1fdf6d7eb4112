-- Bytes of a message: words of two bytes, the high one first, and rows of bits,
-- eight in a byte, the low one first.
import Mathlib.Tactic.Common

namespace bytes

abbrev Byte := BitVec 8
abbrev Word := BitVec 16

/-! ## Words -/

def hi (w : Word) : Byte := w.extractLsb' 8 8
def lo (w : Word) : Byte := w.extractLsb' 0 8
def word (h l : Byte) : Word := h ++ l

@[simp] theorem word_hi_lo (w : Word) : word (hi w) (lo w) = w :=
  BitVec.extractLsb'_append_extractLsb'

@[simp] theorem hi_word (h l : Byte) : hi (word h l) = h :=
  BitVec.extractLsb'_append_eq_left

@[simp] theorem lo_word (h l : Byte) : lo (word h l) = l :=
  BitVec.extractLsb'_append_eq_right

theorem getLsbD_word (h l : Byte) (i : Nat) :
    (word h l).getLsbD i = if i < 8 then l.getLsbD i else h.getLsbD (i - 8) := by
  rw [word, BitVec.getLsbD_append]

theorem setWidth_word (h l : Byte) : (word h l).setWidth 8 = l := by
  apply BitVec.eq_of_getLsbD_eq
  intro i hi
  rw [BitVec.getLsbD_setWidth, getLsbD_word, if_pos hi]
  simp [hi]

theorem word_shiftRight (h l : Byte) : word h l >>> 8 = word 0 h := by
  apply BitVec.eq_of_getLsbD_eq
  intro i hi
  rw [BitVec.getLsbD_ushiftRight, getLsbD_word, getLsbD_word, if_neg (by omega),
    Nat.add_sub_cancel_left]
  split
  · rfl
  · rw [BitVec.getLsbD_of_ge h i (by omega)]
    simp

theorem word_xor (a b c d : Byte) : word a b ^^^ word c d = word (a ^^^ c) (b ^^^ d) := by
  apply BitVec.eq_of_getLsbD_eq
  intro i hi
  rw [BitVec.getLsbD_xor, getLsbD_word, getLsbD_word, getLsbD_word]
  split <;> rw [BitVec.getLsbD_xor]

/-- The bytes of some words. -/
def ofWords : List Word → List Byte
  | [] => []
  | w :: ws => hi w :: lo w :: ofWords ws

@[simp] theorem length_ofWords (ws : List Word) : (ofWords ws).length = 2 * ws.length := by
  induction ws with
  | nil => rfl
  | cons w ws ih =>
    simp only [ofWords, List.length_cons, ih]
    omega

/-- The word that stands at byte `i`. -/
def wordIn (bs : List Byte) (i : Nat) : Word := word (bs.getD i 0) (bs.getD (i + 1) 0)

theorem wordIn_ofWords {ws : List Word} {i : Nat} (hi : i < ws.length) (bs : List Byte) :
    wordIn (ofWords ws ++ bs) (2 * i) = ws[i] := by
  induction ws generalizing i with
  | nil => simp at hi
  | cons w ws ih =>
    cases i with
    | zero => simp [wordIn, ofWords]
    | succ i =>
      have := ih (by simpa using hi)
      simpa [wordIn, ofWords, Nat.mul_add] using this

theorem getD_behind (xs ys : List Byte) (k : Nat) :
    (xs ++ ys).getD (xs.length + k) 0 = ys.getD k 0 := by
  simp [List.getElem?_append_right]

theorem getD_before {xs : List Byte} {k : Nat} (h : k < xs.length) (ys : List Byte) :
    (xs ++ ys).getD k 0 = xs.getD k 0 := by
  simp [List.getElem?_append_left h]

theorem getD_take {xs : List Byte} {k n : Nat} (h : k < n) :
    (xs.take n).getD k 0 = xs.getD k 0 := by
  simp [h]

/-! ## Bits -/

/-- How many bytes `n` bits take. -/
def byteCount (n : Nat) : Nat := n / 8 + if n % 8 = 0 then 0 else 1

theorem byteCount_le {n m : Nat} (h : n ≤ 8 * m) : byteCount n ≤ m := by
  unfold byteCount
  split <;> omega

theorem byteCount_eq_zero {n : Nat} : byteCount n = 0 ↔ n = 0 := by
  unfold byteCount
  split <;> omega

/-- The bytes hold bits 0 to `n - 1` of `f`. -/
structure Packed (n : Nat) (f : Nat → Bool) (bs : List Byte) : Prop where
  length : bs.length = byteCount n
  bit : ∀ k < n, (bs.getD (k / 8) 0).getLsbD (k % 8) = f k

theorem Packed.nil (f : Nat → Bool) : Packed 0 f [] :=
  ⟨rfl, fun _ h => absurd h (Nat.not_lt_zero _)⟩

theorem Packed.congr {n : Nat} {f g : Nat → Bool} {bs : List Byte} (h : Packed n f bs)
    (hfg : ∀ k < n, f k = g k) : Packed n g bs :=
  ⟨h.length, fun k hk => (h.bit k hk).trans (hfg k hk)⟩

/-- A byte of the first bits, before the bytes of the others. -/
theorem Packed.cons {n : Nat} {f : Nat → Bool} {b : Byte} {bs : List Byte} (hn : 0 < n)
    (hb : ∀ k < 8, k < n → b.getLsbD k = f k) (h : Packed (n - 8) (fun k => f (k + 8)) bs) :
    Packed n f (b :: bs) := by
  refine ⟨?_, fun k hk => ?_⟩
  · rw [List.length_cons, h.length]
    unfold byteCount
    split <;> split <;> omega
  · by_cases h8 : k < 8
    · rw [Nat.div_eq_of_lt h8, Nat.mod_eq_of_lt h8]
      exact hb k h8 hk
    · have hbit := h.bit (k - 8) (by omega)
      have hdiv : k / 8 = (k - 8) / 8 + 1 := by omega
      have hmod : k % 8 = (k - 8) % 8 := by omega
      have hk8 : k - 8 + 8 = k := by omega
      rw [hdiv, hmod, List.getD_cons_succ, hbit, hk8]

/-- The first `n` bits of some bytes. -/
def bitsOf (bs : List Byte) (n : Nat) : List Bool :=
  (List.range n).map fun k => (bs.getD (k / 8) 0).getLsbD (k % 8)

@[simp] theorem length_bitsOf (bs : List Byte) (n : Nat) : (bitsOf bs n).length = n := by
  simp [bitsOf]

theorem bitsOf_cons (b : Byte) (bs : List Byte) (n : Nat) : bitsOf (b :: bs) n =
    ((List.range (min 8 n)).map fun k => b.getLsbD k) ++ bitsOf bs (n - 8) := by
  apply List.ext_getElem?
  intro k
  rw [List.getElem?_append, List.length_map, List.length_range]
  by_cases h8 : k < min 8 n
  · rw [if_pos h8]
    simp [bitsOf, h8, show k < n by omega, show k < 8 by omega,
      Nat.div_eq_of_lt (show k < 8 by omega), Nat.mod_eq_of_lt (show k < 8 by omega)]
  · rw [if_neg h8]
    by_cases hk : k < n
    · have hmin : min 8 n = 8 := by omega
      have hdiv : k / 8 = (k - 8) / 8 + 1 := by omega
      have hmod : k % 8 = (k - 8) % 8 := by omega
      simp [bitsOf, hk, hmin, show k - 8 < n - 8 by omega, hdiv, hmod]
    · rw [List.getElem?_eq_none (by rw [length_bitsOf]; omega),
        List.getElem?_eq_none (by rw [length_bitsOf]; omega)]

theorem Packed.bitsOf {n : Nat} {f : Nat → Bool} {bs : List Byte} (h : Packed n f bs) :
    bitsOf bs n = (List.range n).map f := by
  apply List.map_congr_left
  intro k hk
  exact h.bit k (List.mem_range.mp hk)

/-- A byte under a mask of one bit. -/
theorem and_bit_ne_zero (b : Byte) {i : Nat} (hi : i < 8) :
    b &&& 1#8 <<< i ≠ 0 ↔ b.getLsbD i = true := by
  rw [← BitVec.twoPow_eq, BitVec.and_twoPow]
  have hne : BitVec.twoPow 8 i ≠ 0 := by
    intro h
    have := congrArg BitVec.toNat h
    rw [BitVec.toNat_twoPow_of_lt hi] at this
    exact absurd this (Nat.ne_of_gt (Nat.two_pow_pos i))
  cases b.getLsbD i with
  | false => simp
  | true => exact ⟨fun _ => rfl, fun _ => hne⟩

end bytes
