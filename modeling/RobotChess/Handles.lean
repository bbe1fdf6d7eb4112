-- Handles to allocated objects. A pool knows which handles are live and gives out
-- fresh ones, so that a handle is never given twice.
import Mathlib.Data.Finset.Card
import Mathlib.Tactic.Common

namespace handles

/-- The live handles, all below the next one to be given out. -/
structure Pool where
  live : Finset Nat
  next : Nat
  below : ∀ h ∈ live, h < next

namespace Pool

variable (p : Pool) {h : Nat}

def empty : Pool := ⟨∅, 0, by simp⟩

/-- A new object, with its handle. -/
def alloc : Nat × Pool :=
  (p.next, ⟨insert p.next p.live, p.next + 1, by
    intro h hh
    rcases Finset.mem_insert.mp hh with rfl | hh
    · exact Nat.lt_succ_self _
    · exact Nat.lt_succ_of_lt (p.below h hh)⟩)

/-- The object of a handle is given back. -/
def free (h : Nat) : Pool :=
  ⟨p.live.erase h, p.next, fun x hx => p.below x (Finset.mem_of_mem_erase hx)⟩

/-- A handle that may be used: it is there, and its object is live. -/
def Usable (h : Option Nat) : Prop := ∃ x ∈ h, x ∈ p.live

instance : (h : Option Nat) → Decidable (p.Usable h)
  | none => .isFalse fun ⟨_, hx, _⟩ => by cases hx
  | some x => decidable_of_iff (x ∈ p.live) (by simp [Usable])

theorem next_not_live : p.next ∉ p.live := by
  intro hn
  exact Nat.lt_irrefl _ (p.below _ hn)

theorem alloc_usable : p.alloc.2.Usable (some p.alloc.1) :=
  ⟨_, rfl, Finset.mem_insert_self _ _⟩

theorem alloc_card : p.alloc.2.live.card = p.live.card + 1 :=
  Finset.card_insert_of_notMem p.next_not_live

/-- A new object that is given back at once leaves the live ones as they were. -/
theorem alloc_free : (p.alloc.2.free p.alloc.1).live = p.live :=
  Finset.erase_insert p.next_not_live

theorem free_card (h : p.Usable (some x)) : (p.free x).live.card + 1 = p.live.card := by
  obtain ⟨y, hy, hl⟩ := h
  cases hy
  exact Finset.card_erase_add_one hl

/-- The only live object, when one handle is usable and one object is live. -/
theorem live_of_usable {h : Option Nat} (hu : p.Usable h) (h1 : p.live.card = 1) :
    ∃ x, h = some x ∧ p.live = {x} := by
  obtain ⟨x, hx, hl⟩ := hu
  obtain ⟨y, hy⟩ := Finset.card_eq_one.mp h1
  rw [hy] at hl
  obtain rfl := Finset.mem_singleton.mp hl
  exact ⟨x, hx, hy⟩

end Pool

end handles
