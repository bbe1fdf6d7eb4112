-- Messages in a stream. A format says, stage by stage, how many more items a
-- message has, from the items so far. A reader takes what has arrived, in pieces
-- of any size, and ends each message at the same place.
import Mathlib.Tactic.Common

namespace framing

universe u v w

variable {β : Type u} {σ : Type v} {ε : Type w}

/-! ## Formats and readers -/

/-- What follows a stage: a stage of `n + 1` items, the end of the message, or a refusal. -/
inductive Next (σ : Type v) (ε : Type w)
  | more (s : σ) (n : Nat)
  | done
  | refuse (e : ε)

/-- The first stage has `need + 1` items. -/
structure Format (β : Type u) (σ : Type v) (ε : Type w) where
  first : σ
  need : Nat
  next : σ → List β → Next σ ε

/-- A reader in a stage waits for `left + 1` items. -/
inductive Reader (β : Type u) (σ : Type v) (ε : Type w)
  | reading (got : List β) (left : Nat) (s : σ)
  | done (msg : List β)
  | refused (e : ε)

def Reader.Over : Reader β σ ε → Prop
  | .reading _ _ _ => False
  | _ => True

namespace Format

variable (F : Format β σ ε)

def start : Reader β σ ε := .reading [] F.need F.first

/-- All the items of a stage are there. -/
def after (s : σ) (got : List β) : Reader β σ ε :=
  match F.next s got with
  | .more s' n => .reading got n s'
  | .done => .done got
  | .refuse e => .refused e

/-- One item. -/
def step : Reader β σ ε → β → Reader β σ ε
  | .reading got 0 s, b => F.after s (got ++ [b])
  | .reading got (n + 1) s, b => .reading (got ++ [b]) n s
  | r, _ => r

/-- The items of a stream one by one, up to the end of the message, and what is left. -/
def feed : Reader β σ ε → List β → Reader β σ ε × List β
  | r, [] => (r, [])
  | .reading got left s, b :: bs => feed (F.step (.reading got left s) b) bs
  | r, b :: bs => (r, b :: bs)

@[simp] theorem feed_nil (r : Reader β σ ε) : F.feed r [] = (r, []) := by
  cases r <;> rfl

@[simp] theorem feed_done (msg bs : List β) : F.feed (.done msg) bs = (.done msg, bs) := by
  cases bs <;> rfl

@[simp] theorem feed_refused (e : ε) (bs : List β) :
    F.feed (.refused e) bs = (.refused e, bs) := by
  cases bs <;> rfl

theorem feed_over {r : Reader β σ ε} (h : r.Over) (bs : List β) : F.feed r bs = (r, bs) := by
  cases r with
  | reading => exact h.elim
  | done => exact F.feed_done _ _
  | refused => exact F.feed_refused _ _

theorem feed_cons (got : List β) (left : Nat) (s : σ) (b : β) (bs : List β) :
    F.feed (.reading got left s) (b :: bs) = F.feed (F.step (.reading got left s) b) bs := rfl

/-- More of the stream is read from where the reader stands. -/
theorem feed_append (r : Reader β σ ε) (as bs : List β) :
    F.feed r (as ++ bs) = F.feed (F.feed r as).1 ((F.feed r as).2 ++ bs) := by
  induction as generalizing r with
  | nil => simp
  | cons a as ih =>
    cases r with
    | reading got left s =>
      rw [List.cons_append, feed_cons, feed_cons]
      exact ih _
    | done => simp
    | refused => simp

/-! ## Pieces -/

/-- A piece of at most `left + 1` items. -/
def piece : Reader β σ ε → List β → Reader β σ ε
  | .reading got left s, c =>
    if left < c.length then F.after s (got ++ c) else .reading (got ++ c) (left - c.length) s
  | r, _ => r

/-- A piece is read as its items are. -/
theorem feed_piece (got : List β) (left : Nat) (s : σ) (c bs : List β)
    (hc : c.length ≤ left + 1) : F.feed (.reading got left s) (c ++ bs) =
      F.feed (F.piece (.reading got left s) c) bs := by
  induction c generalizing got left with
  | nil => simp [piece]
  | cons b c ih =>
    rw [List.length_cons] at hc
    cases left with
    | zero =>
      obtain rfl : c = [] := List.eq_nil_of_length_eq_zero (by omega)
      rfl
    | succ left =>
      rw [List.cons_append, feed_cons]
      simp only [step]
      rw [ih _ _ (by omega)]
      simp only [piece]
      rw [List.append_assoc, List.singleton_append, List.length_cons]
      by_cases h : left < c.length
      · rw [if_pos h, if_pos (by omega)]
      · rw [if_neg h, if_neg (by omega), Nat.add_sub_add_right]

theorem feed_stage (got : List β) (left : Nat) (s : σ) (c bs : List β)
    (hc : c.length = left + 1) :
    F.feed (.reading got left s) (c ++ bs) = F.feed (F.after s (got ++ c)) bs := by
  rw [feed_piece F _ _ _ _ _ (by omega), piece, if_pos (by omega)]

/-- Reads of at most `n + 1` items each, for `n` in a list. -/
def pull : List Nat → Reader β σ ε → List β → Reader β σ ε × List β
  | n :: ns, .reading got left s, bs =>
    pull ns (F.piece (.reading got left s) (bs.take (min n left + 1))) (bs.drop (min n left + 1))
  | _, r, bs => (r, bs)

theorem pull_cons (n : Nat) (ns : List Nat) (r : Reader β σ ε) (bs : List β) :
    F.pull (n :: ns) r bs = F.pull ns (F.pull [n] r bs).1 (F.pull [n] r bs).2 := by
  cases r with
  | reading => rfl
  | done => cases ns <;> rfl
  | refused => cases ns <;> rfl

theorem pull_over {r : Reader β σ ε} (h : r.Over) (ns : List Nat) (bs : List β) :
    F.pull ns r bs = (r, bs) := by
  cases r with
  | reading => exact h.elim
  | done => cases ns <;> rfl
  | refused => cases ns <;> rfl

/-- Wherever the pieces are cut, the message ends at the same place. -/
theorem feed_pull (ns : List Nat) (r : Reader β σ ε) (bs : List β) :
    F.feed (F.pull ns r bs).1 (F.pull ns r bs).2 = F.feed r bs := by
  induction ns generalizing r bs with
  | nil => rfl
  | cons n ns ih =>
    cases r with
    | reading got left s =>
      have hc : (bs.take (min n left + 1)).length ≤ left + 1 := by
        rw [List.length_take]
        omega
      simp only [pull]
      rw [ih, ← feed_piece F got left s _ _ hc, List.take_append_drop]
    | done => rfl
    | refused => rfl

/-! ## Where a message ends -/

/-- A reader that is not over has read all of the stream, and a message that ends is what was
read, with the rest of the stream untouched. -/
theorem feed_reading (got : List β) (left : Nat) (s : σ) (bs : List β) :
    match F.feed (.reading got left s) bs with
    | (.reading got' _ _, rest) => got' = got ++ bs ∧ rest = []
    | (.done msg, rest) => msg ++ rest = got ++ bs ∧ rest.length < bs.length
    | (.refused _, rest) => rest.length < bs.length := by
  induction bs generalizing got left s with
  | nil => simp
  | cons b bs ih =>
    rw [feed_cons]
    cases left with
    | succ left =>
      have := ih (got ++ [b]) left s
      simp only [step] at this ⊢
      split <;> simp_all <;> omega
    | zero =>
      simp only [step, after]
      cases F.next s (got ++ [b]) with
      | more s' n =>
        have := ih (got ++ [b]) n s'
        simp only at this ⊢
        split <;> simp_all <;> omega
      | done => simp
      | refuse e => simp

theorem feed_open {got got' : List β} {left left' : Nat} {s s' : σ} {bs rest : List β}
    (h : F.feed (.reading got left s) bs = (.reading got' left' s', rest)) :
    got' = got ++ bs ∧ rest = [] := by
  have := F.feed_reading got left s bs
  rw [h] at this
  exact this

theorem feed_end {got : List β} {left : Nat} {s : σ} {bs rest msg : List β}
    (h : F.feed (.reading got left s) bs = (.done msg, rest)) : msg ++ rest = got ++ bs := by
  have := F.feed_reading got left s bs
  rw [h] at this
  exact this.1

theorem feed_lt {got : List β} {left : Nat} {s : σ} {bs : List β}
    (h : (F.feed (.reading got left s) bs).1.Over) :
    (F.feed (.reading got left s) bs).2.length < bs.length := by
  have := F.feed_reading got left s bs
  generalize F.feed (.reading got left s) bs = p at h this
  obtain ⟨r, rest⟩ := p
  cases r with
  | reading => exact h.elim
  | done => exact this.2
  | refused => exact this

/-- As many reads as items are enough to come to the end of the message. -/
theorem pull_eq_feed (ns : List Nat) (r : Reader β σ ε) (bs : List β) (h : (F.feed r bs).1.Over)
    (hn : bs.length ≤ ns.length + (F.feed r bs).2.length) : F.pull ns r bs = F.feed r bs := by
  induction ns generalizing r bs with
  | nil =>
    cases r with
    | reading got left s =>
      have := F.feed_lt h
      simp only [List.length_nil] at hn
      omega
    | done => simp [pull]
    | refused => simp [pull]
  | cons n ns ih =>
    cases r with
    | reading got left s =>
      have hlt := F.feed_lt h
      have hone := F.feed_pull [n] (.reading got left s) bs
      simp only [pull] at hone ⊢
      rw [← hone] at h hn ⊢
      refine ih _ _ h ?_
      rw [hone] at hn ⊢
      rw [List.length_drop]
      simp only [List.length_cons] at hn
      omega
    | done => simp [pull]
    | refused => simp [pull]

/-! ## Messages one after another -/

/-- A whole message, no more and no less. -/
def Accepts (msg : List β) : Prop := F.feed F.start msg = (.done msg, [])

variable {F}

theorem Accepts.feed {msg : List β} (h : F.Accepts msg) (bs : List β) :
    F.feed F.start (msg ++ bs) = (.done msg, bs) := by
  rw [feed_append, h]
  simp

/-- What a reader takes from a stream is a whole message. -/
theorem accepts_of_feed {bs rest msg : List β} (h : F.feed F.start bs = (.done msg, rest)) :
    F.Accepts msg ∧ bs = msg ++ rest := by
  have hbs : bs = msg ++ rest := by simpa using (F.feed_end h).symm
  refine ⟨?_, hbs⟩
  rw [hbs, feed_append] at h
  unfold Accepts
  cases hp : F.feed F.start msg with
  | mk r left =>
    rw [hp] at h
    cases r with
    | reading got n s =>
      obtain ⟨-, rfl⟩ := F.feed_open hp
      have hlt := F.feed_lt (by rw [h]; trivial)
      rw [h] at hlt
      exact absurd hlt (Nat.lt_irrefl _)
    | done m =>
      simp only [feed_done, Prod.mk.injEq, Reader.done.injEq] at h
      obtain ⟨rfl, hl⟩ := h
      obtain rfl : left = [] := by simpa using hl
      rfl
    | refused e => simp at h

/-! ## A line that holds messages -/

variable (F)

/-- The reader, somewhere in the first message, and the stream hold these messages. -/
def Holds (r : Reader β σ ε) (bs : List β) : List (List β) → Prop
  | [] => r = F.start ∧ bs = []
  | m :: ms => F.feed r bs = (.done m, ms.flatten)

variable {F}
variable {r : Reader β σ ε} {bs : List β} {ms : List (List β)}

theorem holds_flatten (h : ∀ m ∈ ms, F.Accepts m) : F.Holds F.start ms.flatten ms := by
  cases ms with
  | nil => exact ⟨rfl, rfl⟩
  | cons m ms => exact (h m (List.mem_cons_self ..)).feed _

/-- A message is put behind the others. -/
theorem Holds.snoc (h : F.Holds r bs ms) {m : List β} (hm : F.Accepts m) :
    F.Holds r (bs ++ m) (ms ++ [m]) := by
  cases ms with
  | nil =>
    obtain ⟨rfl, rfl⟩ := h
    exact hm
  | cons m' ms =>
    change F.feed r (bs ++ m) = (.done m', (ms ++ [m]).flatten)
    rw [feed_append, h, feed_done, List.flatten_append, List.flatten_singleton]

/-- Reads do not change what the line holds. -/
theorem Holds.pull (h : F.Holds r bs ms) (ns : List Nat) :
    F.Holds (F.pull ns r bs).1 (F.pull ns r bs).2 ms := by
  cases ms with
  | nil =>
    obtain ⟨rfl, rfl⟩ := h
    have hstay : F.pull ns F.start [] = (F.start, []) := by
      induction ns with
      | nil => rfl
      | cons n ns ih =>
        rw [pull_cons]
        exact ih
    rw [hstay]
    exact ⟨rfl, rfl⟩
  | cons m ms => exact (F.feed_pull ns r bs).trans h

theorem Holds.refused {e : ε} (h : F.Holds (.refused e) bs ms) : False := by
  cases ms with
  | nil => cases h.1
  | cons m ms =>
    change F.feed (.refused e) bs = (.done m, ms.flatten) at h
    rw [feed_refused] at h
    cases h

/-- A reader at its end holds the first message, and the stream holds the others. -/
theorem Holds.done {msg : List β} (h : F.Holds (.done msg) bs ms) :
    ∃ ms', ms = msg :: ms' ∧ bs = ms'.flatten := by
  cases ms with
  | nil => cases h.1
  | cons m ms =>
    change F.feed (.done msg) bs = (.done m, ms.flatten) at h
    rw [feed_done] at h
    cases h
    exact ⟨ms, rfl, rfl⟩

theorem Holds.kept {got : List β} {left : Nat} {s : σ} (h : F.Holds (.reading got left s) bs ms) :
    got ++ bs = ms.flatten := by
  cases ms with
  | nil =>
    obtain ⟨hr, rfl⟩ := h
    cases hr
    rfl
  | cons m ms => exact (F.feed_end h).symm

theorem Holds.length_le (h : F.Holds r bs ms) : bs.length ≤ ms.flatten.length := by
  cases r with
  | reading => rw [← h.kept, List.length_append]; omega
  | done =>
    obtain ⟨ms', rfl, rfl⟩ := h.done
    rw [List.flatten_cons, List.length_append]
    omega
  | refused => exact h.refused.elim

/-- There is more to read while a message is not whole. -/
theorem Holds.left {got : List β} {left : Nat} {s : σ} {m : List β}
    (h : F.Holds (.reading got left s) bs (m :: ms)) : bs ≠ [] := by
  rintro rfl
  change F.feed (.reading got left s) [] = (.done m, ms.flatten) at h
  rw [feed_nil] at h
  cases h

end Format

/-! ## Bounds -/

/-- When a reader has all the items of its stage, it holds at most `size s` of them. -/
def Reader.Within (size : σ → Nat) (N : Nat) : Reader β σ ε → Prop
  | .reading got left s => got.length + left + 1 ≤ size s
  | .done msg => msg.length ≤ N
  | .refused _ => True

namespace Format

/-- A stage `s` ends within `size s` items, and none past `N`. -/
structure Bounded (F : Format β σ ε) (size : σ → Nat) (N : Nat) : Prop where
  need : F.need + 1 ≤ size F.first
  next : ∀ s got s' n, got.length ≤ size s → F.next s got = .more s' n →
    got.length + n + 1 ≤ size s'
  size_le : ∀ s, size s ≤ N

variable {F : Format β σ ε} {size : σ → Nat} {N : Nat}

theorem Bounded.after (h : F.Bounded size N) {s : σ} {got : List β} (hg : got.length ≤ size s) :
    (F.after s got).Within size N := by
  unfold Format.after
  cases hn : F.next s got with
  | more s' n => exact h.next _ _ _ _ hg hn
  | done => exact Nat.le_trans hg (h.size_le s)
  | refuse e => trivial

theorem Bounded.feed (h : F.Bounded size N) {r : Reader β σ ε} (hr : r.Within size N)
    (bs : List β) : (F.feed r bs).1.Within size N := by
  induction bs generalizing r with
  | nil => simpa using hr
  | cons b bs ih =>
    cases r with
    | reading got left s =>
      rw [feed_cons]
      apply ih
      simp only [Reader.Within] at hr
      cases left with
      | zero => exact h.after (by rw [List.length_append, List.length_singleton]; omega)
      | succ left =>
        simp only [step, Reader.Within, List.length_append, List.length_singleton]
        omega
    | done => simpa using hr
    | refused => simpa using hr

theorem Bounded.pull (h : F.Bounded size N) (ns : List Nat) {r : Reader β σ ε}
    (hr : r.Within size N) (bs : List β) : (F.pull ns r bs).1.Within size N := by
  induction ns generalizing r bs with
  | nil => exact hr
  | cons n ns ih =>
    cases r with
    | reading got left s =>
      simp only [Format.pull]
      apply ih
      have hc : (bs.take (min n left + 1)).length ≤ left + 1 := by
        rw [List.length_take]
        omega
      simp only [Reader.Within] at hr
      simp only [piece]
      split
      · exact h.after (by rw [List.length_append]; omega)
      · simp only [Reader.Within, List.length_append]
        omega
    | done => exact hr
    | refused => exact hr

theorem Bounded.start (h : F.Bounded size N) : F.start.Within size N := by
  have := h.need
  simp only [Format.start, Reader.Within, List.length_nil]
  omega

theorem Accepts.length_le (h : F.Bounded size N) {msg : List β} (hm : F.Accepts msg) :
    msg.length ≤ N := by
  have := h.feed h.start msg
  rw [hm] at this
  exact this

end Format

end framing
