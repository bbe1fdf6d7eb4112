-- Cyclic redundancy checks of any width and polynomial. The register shifts right,
-- and the polynomial comes in when a one falls out. The register is linear in what
-- it is fed, so what an error does to it depends on the error alone.
import Mathlib.Tactic.Common

namespace crc

variable {n : Nat} (p : BitVec n)

/-! ## The register -/

def shift (x : BitVec n) : BitVec n := if x.getLsbD 0 then x >>> 1 ^^^ p else x >>> 1

def shifts : Nat → BitVec n → BitVec n
  | 0, x => x
  | k + 1, x => shifts k (shift p x)

/-- A bit comes in at the low end. -/
def bit (b : Bool) : BitVec n := if b then 1 else 0

def feedBit (x : BitVec n) (b : Bool) : BitVec n := shift p (x ^^^ bit b)

def feed (x : BitVec n) (w : List Bool) : BitVec n := w.foldl (feedBit p) x

/-- Eight bits at once. -/
def feedByte (x : BitVec n) (b : BitVec 8) : BitVec n := shifts p 8 (x ^^^ b.setWidth n)

@[simp] theorem feed_nil (x : BitVec n) : feed p x [] = x := rfl

@[simp] theorem feed_cons (x : BitVec n) (b : Bool) (w : List Bool) :
    feed p x (b :: w) = feed p (feedBit p x b) w := rfl

theorem feed_append (x : BitVec n) (v w : List Bool) :
    feed p x (v ++ w) = feed p (feed p x v) w := by
  simp [feed]

theorem zero_xor (x : BitVec n) : 0 ^^^ x = x := BitVec.zero_xor

@[simp] theorem shift_zero : shift p 0 = 0 := by
  simp [shift]

theorem shift_xor (x y : BitVec n) : shift p (x ^^^ y) = shift p x ^^^ shift p y := by
  have h : ∀ a b : BitVec n, a ^^^ p ^^^ (b ^^^ p) = a ^^^ b := by
    intro a b
    rw [BitVec.xor_assoc, ← BitVec.xor_assoc p, BitVec.xor_comm p b, BitVec.xor_assoc b,
      BitVec.xor_self, BitVec.xor_zero]
  unfold shift
  rw [BitVec.getLsbD_xor, BitVec.ushiftRight_xor_distrib]
  cases x.getLsbD 0 <;> cases y.getLsbD 0
  · rfl
  · simp [BitVec.xor_assoc]
  · simp only [Bool.xor_false, if_true, Bool.false_eq_true, if_false]
    rw [BitVec.xor_assoc, BitVec.xor_assoc, BitVec.xor_comm p]
  · exact (h _ _).symm

@[simp] theorem shifts_zero (k : Nat) : shifts p k 0 = 0 := by
  induction k with
  | zero => rfl
  | succ k ih => rw [shifts, shift_zero, ih]

theorem shifts_xor (k : Nat) (x y : BitVec n) :
    shifts p k (x ^^^ y) = shifts p k x ^^^ shifts p k y := by
  induction k generalizing x y with
  | zero => rfl
  | succ k ih => rw [shifts, shift_xor, ih, shifts, shifts]

theorem shifts_add (j k : Nat) (x : BitVec n) : shifts p (j + k) x = shifts p k (shifts p j x) := by
  induction j generalizing x with
  | zero => rw [Nat.zero_add, shifts]
  | succ j ih => rw [Nat.succ_add, shifts, ih, shifts]

/-- What falls out of the low end while it is zero is only moved. -/
theorem shifts_high (k : Nat) (x : BitVec n) (h : ∀ i < k, x.getLsbD i = false) :
    shifts p k x = x >>> k := by
  induction k generalizing x with
  | zero => simp [shifts]
  | succ k ih =>
    have h0 : shift p x = x >>> 1 := by
      rw [shift, h 0 (Nat.succ_pos k)]
      rfl
    rw [shifts, h0, ih, Nat.add_comm, BitVec.shiftRight_add]
    intro i hi
    rw [BitVec.getLsbD_ushiftRight]
    exact h _ (by omega)

/-! ## Linearity -/

theorem bit_xor (b c : Bool) : (bit (b ^^ c) : BitVec n) = bit b ^^^ bit c := by
  cases b <;> cases c <;> simp [bit]

/-- Two inputs of one length differ in the register by what their difference leaves there. -/
theorem feed_xor (x y : BitVec n) (v w : List Bool) (h : v.length = w.length) :
    feed p x v ^^^ feed p y w = feed p (x ^^^ y) (List.zipWith (· ^^ ·) v w) := by
  induction v generalizing x y w with
  | nil =>
    obtain rfl := List.length_eq_zero_iff.mp h.symm
    rfl
  | cons b v ih =>
    cases w with
    | nil => cases h
    | cons c w =>
      have hstep : feedBit p (x ^^^ y) (b ^^ c) = feedBit p x b ^^^ feedBit p y c := by
        rw [feedBit, feedBit, feedBit, ← shift_xor, bit_xor]
        congr 1
        rw [BitVec.xor_assoc, BitVec.xor_assoc, ← BitVec.xor_assoc y, BitVec.xor_comm y,
          BitVec.xor_assoc (bit b)]
      rw [feed_cons, feed_cons, ih _ _ _ (by simpa using h), List.zipWith_cons_cons, feed_cons,
        hstep]

theorem feed_zeros (x : BitVec n) (k : Nat) : feed p x (List.replicate k false) = shifts p k x := by
  induction k generalizing x with
  | zero => rfl
  | succ k ih =>
    have hx : x ^^^ bit false = x := by simp [bit]
    rw [List.replicate_succ, feed_cons, ih, shifts, feedBit, hx]

/-! ## Bits as a word -/

/-- The bits of a row, the first one lowest. -/
def ofBits : List Bool → BitVec n
  | [] => 0
  | b :: w => bit b ^^^ ofBits w <<< 1

theorem getLsbD_bit (b : Bool) (i : Nat) (hn : 0 < n) :
    (bit b : BitVec n).getLsbD i = (decide (i = 0) && b) := by
  cases b
  · simp [bit]
  · simp [bit, BitVec.getLsbD_one, hn]

theorem getLsbD_ofBits (w : List Bool) (i : Nat) :
    (ofBits w : BitVec n).getLsbD i = (decide (i < n) && w.getD i false) := by
  induction w generalizing i with
  | nil => simp [ofBits]
  | cons b w ih =>
    by_cases hi : i < n
    · rw [ofBits, BitVec.getLsbD_xor, getLsbD_bit b i (by omega), BitVec.getLsbD_shiftLeft, ih]
      cases i with
      | zero => simp [hi]
      | succ i => simp [hi, show i < n by omega]
    · simp [BitVec.getLsbD_of_ge _ i (Nat.le_of_not_lt hi), hi]

/-- Bits fed one by one, or all at once when they fit. -/
theorem feed_eq_shifts (x : BitVec n) (w : List Bool) (h : w.length ≤ n) :
    feed p x w = shifts p w.length (x ^^^ ofBits w) := by
  induction w generalizing x with
  | nil => simp [shifts, ofBits]
  | cons b w ih =>
    rw [List.length_cons] at h
    have htop : shift p ((ofBits w : BitVec n) <<< 1) = ofBits w := by
      apply BitVec.eq_of_getLsbD_eq
      intro i hi
      have h0 : ((ofBits w : BitVec n) <<< 1).getLsbD 0 = false := by simp
      rw [shift, h0]
      simp only [Bool.false_eq_true, if_false, BitVec.getLsbD_ushiftRight,
        BitVec.getLsbD_shiftLeft, getLsbD_ofBits]
      by_cases hin : i + 1 < n
      · simp [hin, hi, Nat.add_comm 1 i]
      · have hlen : w.length ≤ i := by omega
        simp [hi, List.getElem?_eq_none hlen]
    rw [feed_cons, ih _ (by omega), List.length_cons, shifts, ofBits, feedBit, ← BitVec.xor_assoc,
      shift_xor p (x ^^^ bit b), htop]

/-- The bits of a byte, the lowest one first. -/
def byteBits (b : BitVec 8) : List Bool := (List.range 8).map b.getLsbD

theorem feedByte_eq_feed (h8 : 8 ≤ n) (x : BitVec n) (b : BitVec 8) :
    feedByte p x b = feed p x (byteBits b) := by
  have hlen : (byteBits b).length = 8 := by simp [byteBits]
  have hb : b.setWidth n = ofBits (byteBits b) := by
    apply BitVec.eq_of_getLsbD_eq
    intro i hi
    rw [BitVec.getLsbD_setWidth, getLsbD_ofBits]
    by_cases hi8 : i < 8
    · simp [byteBits, hi, hi8]
    · have hb8 : b.getLsbD i = false := BitVec.getLsbD_of_ge _ _ (by omega)
      simp [byteBits, hb8, hi8]
  rw [feed_eq_shifts p x _ (by omega), hlen, feedByte, hb]

/-- The bits of some bytes. -/
def bits : List (BitVec 8) → List Bool
  | [] => []
  | b :: bs => byteBits b ++ bits bs

theorem length_bits (bs : List (BitVec 8)) : (bits bs).length = 8 * bs.length := by
  induction bs with
  | nil => rfl
  | cons b bs ih =>
    have hlen : (byteBits b).length = 8 := by simp [byteBits]
    rw [bits, List.length_append, ih, hlen, List.length_cons]
    omega

theorem bits_append (bs cs : List (BitVec 8)) : bits (bs ++ cs) = bits bs ++ bits cs := by
  induction bs with
  | nil => rfl
  | cons b bs ih => rw [List.cons_append, bits, ih, bits, List.append_assoc]

theorem foldl_feedByte (h8 : 8 ≤ n) (x : BitVec n) (bs : List (BitVec 8)) :
    bs.foldl (feedByte p) x = feed p x (bits bs) := by
  induction bs generalizing x with
  | nil => rfl
  | cons b bs ih =>
    rw [List.foldl_cons, ih, feedByte_eq_feed p h8, bits, feed_append]

/-- Whether the register comes back to `x` within `k` more places. -/
def comesBack (x : BitVec n) : BitVec n → Nat → Bool
  | _, 0 => false
  | y, k + 1 => y == x || comesBack x (shift p y) k

theorem comesBack_false {x y : BitVec n} {m k : Nat} (h : comesBack p x y m = false) (hk : k < m) :
    shifts p k y ≠ x := by
  induction k generalizing y m with
  | zero =>
    obtain ⟨m, rfl⟩ : ∃ j, m = j + 1 := ⟨m - 1, by omega⟩
    simp only [comesBack, Bool.or_eq_false_iff, beq_eq_false_iff_ne] at h
    exact h.1
  | succ k ih =>
    obtain ⟨m, rfl⟩ : ∃ j, m = j + 1 := ⟨m - 1, by omega⟩
    simp only [comesBack, Bool.or_eq_false_iff] at h
    exact ih h.2 (by omega)

/-! ## A table for eight places -/

/-- Eight places at once, with a table of the registers of the single bytes. -/
theorem feedByte_table (x : BitVec n) (b : BitVec 8) :
    feedByte p x b = x >>> 8 ^^^ feedByte p 0 (x.setWidth 8 ^^^ b) := by
  have hsplit : x ^^^ b.setWidth n =
      (x >>> 8) <<< 8 ^^^ (0 ^^^ (x.setWidth 8 ^^^ b).setWidth n) := by
    apply BitVec.eq_of_getLsbD_eq
    intro i hi
    by_cases hi8 : i < 8
    · simp [hi, hi8]
    · have hb : b.getLsbD i = false := BitVec.getLsbD_of_ge _ _ (by omega)
      simp [hi, hi8, hb, show 8 + (i - 8) = i by omega]
  have hhigh : shifts p 8 ((x >>> 8) <<< 8) = x >>> 8 := by
    rw [shifts_high]
    · apply BitVec.eq_of_getLsbD_eq
      intro i hi
      by_cases hin : 8 + i < n
      · simp [hin]
      · have hx : x.getLsbD (8 + i) = false := BitVec.getLsbD_of_ge _ _ (by omega)
        simp [hx]
    · intro i hi
      simp [hi]
  rw [feedByte, hsplit, shifts_xor, hhigh]
  rfl

/-! ## Errors

An error is the row of the bits that are flipped. It is missed when it leaves the register at
zero. -/

variable {p}

/-- When the highest bit of the polynomial is set, the register loses nothing. -/
theorem shift_eq_zero (hp : p.getLsbD (n - 1) = true) {x : BitVec n} (h : shift p x = 0) :
    x = 0 := by
  have hn : 0 < n := by
    rcases Nat.eq_zero_or_pos n with rfl | hn
    · simp at hp
    · exact hn
  have hlow : x.getLsbD 0 = false := by
    by_contra hx
    rw [shift, if_pos (by simpa using hx)] at h
    have := congrArg (fun y : BitVec n => y.getLsbD (n - 1)) h
    simp [hp, show 1 + (n - 1) = n by omega] at this
  rw [shift, hlow] at h
  apply BitVec.eq_of_getLsbD_eq
  intro i hi
  cases i with
  | zero => simpa using hlow
  | succ i =>
    have := congrArg (fun y : BitVec n => y.getLsbD i) h
    simpa [Nat.add_comm 1 i] using this

theorem shifts_eq_zero (hp : p.getLsbD (n - 1) = true) {k : Nat} {x : BitVec n}
    (h : shifts p k x = 0) : x = 0 := by
  induction k generalizing x with
  | zero => exact h
  | succ k ih => exact shift_eq_zero hp (ih h)

/-- The register is brought to zero by its own bits, and by no others. -/
theorem feed_eq_zero (hp : p.getLsbD (n - 1) = true) {x : BitVec n} {w : List Bool}
    (hw : w.length ≤ n) : feed p x w = 0 ↔ x = ofBits w := by
  rw [feed_eq_shifts p x w hw]
  constructor
  · intro h
    exact BitVec.xor_eq_zero_iff.mp (shifts_eq_zero hp h)
  · rintro rfl
    rw [BitVec.xor_self]
    exact shifts_zero p _

/-- A burst no longer than the register is never missed. -/
theorem burst_detected (hp : p.getLsbD (n - 1) = true) {w : List Bool} (hw : w.length ≤ n)
    (ht : true ∈ w) (i j : Nat) :
    feed p 0 (List.replicate i false ++ w ++ List.replicate j false) ≠ 0 := by
  intro h
  rw [feed_append, feed_append, feed_zeros, feed_zeros, shifts_zero] at h
  have hw0 := (feed_eq_zero hp hw).mp (shifts_eq_zero hp h)
  obtain ⟨k, hk, hkt⟩ := List.getElem_of_mem ht
  have hbit : (ofBits w : BitVec n).getLsbD k = true := by
    rw [getLsbD_ofBits]
    simp [show k < n by omega, List.getElem?_eq_getElem hk, hkt]
  rw [← hw0] at hbit
  simp at hbit

/-- Whether the number of bits that are set in these places is odd. -/
def parityAt (l : List Nat) (x : BitVec n) : Bool := l.foldr (fun i b => x.getLsbD i ^^ b) false

def parity (x : BitVec n) : Bool := parityAt (List.range n) x

@[simp] theorem parityAt_cons (i : Nat) (l : List Nat) (x : BitVec n) :
    parityAt (i :: l) x = (x.getLsbD i ^^ parityAt l x) := rfl

theorem parityAt_xor (l : List Nat) (x y : BitVec n) :
    parityAt l (x ^^^ y) = (parityAt l x ^^ parityAt l y) := by
  induction l with
  | nil => rfl
  | cons i l ih =>
    rw [parityAt_cons, ih, BitVec.getLsbD_xor, parityAt_cons, parityAt_cons]
    generalize parityAt l x = a
    generalize parityAt l y = b
    cases x.getLsbD i <;> cases y.getLsbD i <;> cases a <;> cases b <;> rfl

theorem parity_xor (x y : BitVec n) : parity (x ^^^ y) = (parity x ^^ parity y) :=
  parityAt_xor _ x y

theorem parity_bit (b : Bool) (hn : 0 < n) : parity (bit b : BitVec n) = b := by
  obtain ⟨m, rfl⟩ : ∃ m, n = m + 1 := ⟨n - 1, by omega⟩
  have hrest : ∀ l : List Nat, (∀ i ∈ l, i ≠ 0) →
      parityAt l (bit b : BitVec (m + 1)) = false := by
    intro l hl
    induction l with
    | nil => rfl
    | cons i l ih =>
      rw [parityAt_cons, ih fun j hj => hl j (List.mem_cons_of_mem _ hj), getLsbD_bit b i hn]
      simp [hl i (List.mem_cons_self ..)]
  unfold parity
  rw [List.range_succ_eq_map, parityAt_cons, hrest _ (by simp), getLsbD_bit b 0 hn]
  simp

theorem parityAt_shift (x : BitVec n) (l : List Nat) :
    parityAt l (x >>> 1) = parityAt (l.map (· + 1)) x := by
  induction l with
  | nil => rfl
  | cons i l ih =>
    rw [parityAt_cons, ih, BitVec.getLsbD_ushiftRight, Nat.add_comm, List.map_cons, parityAt_cons]

theorem parityAt_append (l l' : List Nat) (x : BitVec n) :
    parityAt (l ++ l') x = (parityAt l x ^^ parityAt l' x) := by
  induction l with
  | nil => simp [parityAt]
  | cons i l ih => rw [List.cons_append, parityAt_cons, ih, parityAt_cons, Bool.xor_assoc]

/-- A polynomial with an odd number of bits keeps the parity of the register. -/
theorem parity_shift (hp : parity p = true) (x : BitVec n) : parity (shift p x) = parity x := by
  have hlow : parity (x >>> 1) = (parity x ^^ x.getLsbD 0) := by
    have htop : parityAt [n] x = false := by simp [parityAt]
    have hall : parityAt (0 :: (List.range n).map (· + 1)) x = parity x := by
      rw [← List.range_succ_eq_map, List.range_succ, parityAt_append, htop, Bool.xor_false, parity]
    rw [parity, parityAt_shift, ← hall, parityAt_cons, Bool.xor_comm (x.getLsbD 0), Bool.xor_assoc,
      Bool.xor_self, Bool.xor_false]
  unfold shift
  split
  · rename_i h
    rw [parity_xor, hlow, hp, h]
    simp
  · rename_i h
    rw [hlow]
    simp [h]

theorem parity_feed (hp : parity p = true) (hn : 0 < n) (x : BitVec n) (w : List Bool) :
    parity (feed p x w) = (parity x ^^ decide (w.count true % 2 = 1)) := by
  induction w generalizing x with
  | nil => simp
  | cons b w ih =>
    rw [feed_cons, ih, feedBit, parity_shift hp, parity_xor, parity_bit b hn]
    cases b
    · simp
    · have hflip : decide ((w.count true + 1) % 2 = 1) = !decide (w.count true % 2 = 1) := by
        rw [← decide_not, decide_eq_decide]
        omega
      rw [List.count_cons_self, hflip]
      cases parity x <;> simp

/-- An odd number of flipped bits is never missed. -/
theorem odd_detected (hp : parity p = true) (hn : 0 < n) {w : List Bool}
    (hw : w.count true % 2 = 1) : feed p 0 w ≠ 0 := by
  intro h
  have := parity_feed hp hn 0 w
  have h0 : parity (0 : BitVec n) = false := by
    have := parity_xor (0 : BitVec n) 0
    simpa using this
  rw [h, h0] at this
  simp [hw] at this

/-- The first bit that is set. -/
theorem first_true {w : List Bool} (h : 0 < w.count true) :
    ∃ i v, w = List.replicate i false ++ true :: v ∧ w.count true = v.count true + 1 := by
  induction w with
  | nil => simp at h
  | cons b w ih =>
    cases b with
    | true => exact ⟨0, w, rfl, by simp⟩
    | false =>
      obtain ⟨i, v, rfl, hc⟩ := ih (by simpa using h)
      exact ⟨i + 1, v, by rw [List.replicate_succ, List.cons_append], by simpa using hc⟩

theorem all_false {w : List Bool} (h : w.count true = 0) : w = List.replicate w.length false := by
  apply List.eq_replicate_iff.mpr ⟨rfl, fun b hb => ?_⟩
  cases b with
  | false => rfl
  | true => exact absurd hb (List.count_eq_zero.mp h)

/-- Two flipped bits are missed only when their distance brings the register back to 1. -/
theorem two_detected (hp : p.getLsbD (n - 1) = true) {w : List Bool} (hw : w.count true = 2)
    (hback : ∀ k, 0 < k → k < w.length → shifts p k 1 ≠ 1) : feed p 0 w ≠ 0 := by
  obtain ⟨i, v, rfl, hv⟩ := first_true (w := w) (by omega)
  obtain ⟨k, u, rfl, hu⟩ := first_true (w := v) (by omega)
  have hzero := all_false (w := u) (by omega)
  intro h
  have hone : ∀ x : BitVec n, feedBit p x true = shifts p 1 (x ^^^ 1) := fun _ => rfl
  rw [hzero, feed_append, feed_zeros, shifts_zero, feed_cons, feed_append, feed_zeros, feed_cons,
    feed_zeros, hone, hone, zero_xor, ← shifts_add, ← shifts_add] at h
  have hx := shifts_eq_zero hp h
  refine hback (1 + k) (by omega) ?_ (BitVec.xor_eq_zero_iff.mp hx)
  simp only [List.length_append, List.length_replicate, List.length_cons]
  omega

/-- With such a polynomial one, two or three flipped bits are never missed. -/
theorem three_detected (hp : p.getLsbD (n - 1) = true) (hpar : parity p = true) {w : List Bool}
    (h0 : 0 < w.count true) (h3 : w.count true ≤ 3)
    (hback : ∀ k, 0 < k → k < w.length → shifts p k 1 ≠ 1) : feed p 0 w ≠ 0 := by
  have hn : 0 < n := by
    rcases Nat.eq_zero_or_pos n with rfl | hn
    · simp at hp
    · exact hn
  by_cases h2 : w.count true = 2
  · exact two_detected hp h2 hback
  · exact odd_detected hpar hn (by omega)

end crc
