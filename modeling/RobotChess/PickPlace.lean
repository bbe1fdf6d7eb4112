-- Pick and place over a board. An arm goes from place to place, and its gripper
-- takes what is there or lets go of what it holds. The squares and the pieces are
-- any types. The rules say what the arm does when it carries a piece, against the
-- update of the board that this stands for.
import Mathlib.Algebra.BigOperators.Group.Finset.Piecewise
import Mathlib.Data.Multiset.Basic
import Mathlib.Tactic.Abel
import Mathlib.Tactic.Common

namespace bench

universe u v

variable {σ : Type u} {α : Type v} [DecidableEq σ]

/-! ## The board -/

/-- The pieces on the squares, and the pile of the pieces that are off the board. -/
structure Position (σ : Type u) (α : Type v) where
  board : σ → Option α
  pile : List α

/-- The piece of `s` goes to the empty square `d`. -/
def Position.shift (p : Position σ α) (s d : σ) : Option (Position σ α) :=
  match p.board s, p.board d with
  | some x, none =>
    some { p with board := Function.update (Function.update p.board s none) d (some x) }
  | _, _ => none

/-- The piece of `s` goes to `d`, and the piece of `d` goes on the pile. -/
def Position.capture (p : Position σ α) (s d : σ) : Option (Position σ α) :=
  match p.board s, p.board d with
  | some x, some y =>
    if s = d then none
    else some ⟨Function.update (Function.update p.board s none) d (some x), y :: p.pile⟩
  | _, _ => none

/-- All the pieces, each as often as it is there. -/
def Position.pieces [Fintype σ] (p : Position σ α) : Multiset α :=
  (∑ s, ((p.board s).toList : Multiset α)) + (p.pile : Multiset α)

section
variable [Fintype σ]

/-- A square that takes another content changes the pieces by just that. -/
theorem sum_update (b : σ → Option α) (d : σ) (o : Option α) :
    (∑ s, ((Function.update b d o s).toList : Multiset α)) + ((b d).toList : Multiset α) =
      (∑ s, ((b s).toList : Multiset α)) + (o.toList : Multiset α) := by
  have hcomp : (fun s => ((Function.update b d o s).toList : Multiset α)) =
      Function.update (fun s => ((b s).toList : Multiset α)) d (o.toList : Multiset α) := by
    funext s
    by_cases hs : s = d
    · subst hs
      simp
    · simp [Function.update_of_ne hs]
  have hold : (∑ s, ((b s).toList : Multiset α)) = ((b d).toList : Multiset α) +
      ∑ s ∈ Finset.univ \ {d}, ((b s).toList : Multiset α) := by
    conv_lhs => rw [← Function.update_eq_self d (fun s => ((b s).toList : Multiset α))]
    rw [Finset.sum_update_of_mem (Finset.mem_univ d)]
  rw [hcomp, Finset.sum_update_of_mem (Finset.mem_univ d), hold]
  abel

/-- No piece is lost or made when a piece moves. -/
theorem shift_pieces {p q : Position σ α} {s d : σ} (h : p.shift s d = some q) :
    q.pieces = p.pieces := by
  unfold Position.shift at h
  split at h
  · rename_i x hs hd
    cases h
    have hsd : d ≠ s := by
      rintro rfl
      rw [hs] at hd
      cases hd
    have h1 := sum_update p.board s none
    have h2 := sum_update (Function.update p.board s none) d (some x)
    rw [Function.update_of_ne hsd, hd] at h2
    rw [hs] at h1
    simp only [Option.toList_none, Option.toList_some, Multiset.coe_nil, add_zero] at h1 h2
    unfold Position.pieces
    rw [h2, h1]
  · cases h

/-- A captured piece goes to the pile, so none is lost or made. -/
theorem capture_pieces {p q : Position σ α} {s d : σ} (h : p.capture s d = some q) :
    q.pieces = p.pieces := by
  unfold Position.capture at h
  split at h
  · rename_i x y hs hd
    split at h
    · cases h
    · rename_i hne
      cases h
      have h1 := sum_update p.board s none
      have h2 := sum_update (Function.update p.board s none) d (some x)
      rw [Function.update_of_ne (Ne.symm hne), hd] at h2
      rw [hs] at h1
      simp only [Option.toList_none, Option.toList_some, Multiset.coe_nil, add_zero] at h1 h2
      unfold Position.pieces
      have hpile : ((y :: p.pile : List α) : Multiset α) =
          ([y] : Multiset α) + (p.pile : Multiset α) := rfl
      rw [hpile, ← add_assoc, h2, h1]
  · cases h

end

/-! ## The arm -/

/-- Where the arm is. -/
inductive Place (σ : Type u)
  | rest
  | above (s : σ)
  | on (s : σ)
  | bin
  -- a goal that is no square of the board
  | astray

/-- An open gripper holds nothing. -/
inductive Gripper (α : Type v)
  | opened
  | closed (held : Option α)

def Gripper.held : Gripper α → Option α
  | .opened => none
  | .closed o => o

/-- The board, the pile, the pieces that were let go elsewhere, and the arm. -/
structure Bench (σ : Type u) (α : Type v) where
  board : σ → Option α
  pile : List α
  spilled : List α
  gripper : Gripper α
  place : Place σ

inductive Cmd (σ : Type u)
  | go (p : Place σ)
  | release
  | grip

/-- A piece comes to where the arm is. It is spilled when there is no room for it. -/
def Bench.put (b : Bench σ α) (x : α) : Bench σ α :=
  match b.place with
  | .on s =>
    match b.board s with
    | none => { b with board := Function.update b.board s (some x) }
    | some _ => { b with spilled := x :: b.spilled }
  | .bin => { b with pile := x :: b.pile }
  | _ => { b with spilled := x :: b.spilled }

/-- One command. A closed gripper stays as it is when it closes. -/
def Cmd.run (b : Bench σ α) : Cmd σ → Bench σ α
  | .go p => { b with place := p }
  | .release =>
    match b.gripper with
    | .closed (some x) => { b.put x with gripper := .opened }
    | _ => { b with gripper := .opened }
  | .grip =>
    match b.gripper, b.place with
    | .opened, .on s =>
      { b with board := Function.update b.board s none, gripper := .closed (b.board s) }
    | .opened, _ => { b with gripper := .closed none }
    | .closed _, _ => b

def run (cs : List (Cmd σ)) (b : Bench σ α) : Bench σ α := cs.foldl Cmd.run b

@[simp] theorem run_nil (b : Bench σ α) : run [] b = b := rfl

@[simp] theorem run_cons (c : Cmd σ) (cs : List (Cmd σ)) (b : Bench σ α) :
    run (c :: cs) b = run cs (c.run b) := rfl

theorem run_append (cs ds : List (Cmd σ)) (b : Bench σ α) :
    run (cs ++ ds) b = run ds (run cs b) := by
  simp [run]

/-! ## Carrying a piece -/

def pickUp (s : σ) : List (Cmd σ) := [.go (.above s), .release, .go (.on s), .grip, .go (.above s)]

def putDown (d : σ) : List (Cmd σ) := [.go (.above d), .go (.on d), .release, .go (.above d)]

def throwAway : List (Cmd σ) := [.go .bin, .release]

/-- The bench in this position, with an open gripper above `d`. -/
def Bench.after (b : Bench σ α) (q : Position σ α) (d : σ) : Bench σ α :=
  ⟨q.board, q.pile, b.spilled, .opened, .above d⟩

def Bench.position (b : Bench σ α) : Position σ α := ⟨b.board, b.pile⟩

theorem run_pickUp {b : Bench σ α} {s : σ} {x : α} (hg : b.gripper.held = none)
    (hs : b.board s = some x) : run (pickUp s) b =
      { b with board := Function.update b.board s none, gripper := .closed (some x),
               place := .above s } := by
  obtain ⟨board, pile, spilled, gripper, place⟩ := b
  simp only at hs
  cases gripper with
  | opened => simp [pickUp, Cmd.run, hs]
  | closed o =>
    obtain rfl : o = none := hg
    simp [pickUp, Cmd.run, hs]

theorem run_putDown {b : Bench σ α} {d : σ} {x : α} (hg : b.gripper = .closed (some x))
    (hd : b.board d = none) : run (putDown d) b =
      { b with board := Function.update b.board d (some x), gripper := .opened,
               place := .above d } := by
  simp [putDown, Cmd.run, Bench.put, hg, hd]

theorem run_throwAway {b : Bench σ α} {x : α} (hg : b.gripper = .closed (some x)) :
    run throwAway b = { b with pile := x :: b.pile, gripper := .opened, place := .bin } := by
  simp [throwAway, Cmd.run, Bench.put, hg]

/-- The arm carries a piece to an empty square. -/
theorem run_shift {b : Bench σ α} {q : Position σ α} {s d : σ} (hg : b.gripper.held = none)
    (h : b.position.shift s d = some q) : run (pickUp s ++ putDown d) b = b.after q d := by
  unfold Position.shift Bench.position at h
  split at h
  · rename_i x hs hd
    simp only at hs hd
    cases h
    have hsd : d ≠ s := by
      rintro rfl
      rw [hs] at hd
      cases hd
    rw [run_append, run_pickUp hg hs, run_putDown rfl]
    · rfl
    · simp [Function.update_of_ne hsd, hd]
  · cases h

/-- The arm takes the piece of `d` to the pile, and then carries the piece of `s` to `d`. -/
theorem run_capture {b : Bench σ α} {q : Position σ α} {s d : σ} (hg : b.gripper.held = none)
    (h : b.position.capture s d = some q) :
    run (pickUp d ++ throwAway ++ (pickUp s ++ putDown d)) b = b.after q d := by
  unfold Position.capture Bench.position at h
  split at h
  · rename_i x y hs hd
    simp only at hs hd
    split at h
    · cases h
    · rename_i hne
      cases h
      rw [run_append, run_append (pickUp d), run_pickUp hg hd, run_throwAway rfl, run_append,
        run_pickUp (x := x) rfl, run_putDown (x := x) rfl]
      · rw [Function.update_comm (Ne.symm hne), Function.update_idem]
        rfl
      · simp [Function.update_of_ne (Ne.symm hne)]
      · simp [Function.update_of_ne hne, hs]
  · cases h

/-! ## Pieces that are kept -/

theorem put_spilled (b : Bench σ α) (x : α) : b.spilled <:+ (b.put x).spilled := by
  unfold Bench.put
  split
  · split
    · exact List.suffix_rfl
    · exact List.suffix_cons _ _
  · exact List.suffix_rfl
  · exact List.suffix_cons _ _

/-- A piece that was let go elsewhere stays there. -/
theorem run_spilled (cs : List (Cmd σ)) (b : Bench σ α) : b.spilled <:+ (run cs b).spilled := by
  induction cs generalizing b with
  | nil => exact List.suffix_rfl
  | cons c cs ih =>
    rw [run_cons]
    apply List.IsSuffix.trans _ (ih (c.run b))
    cases c with
    | go p => exact List.suffix_rfl
    | release =>
      simp only [Cmd.run]
      split
      · exact put_spilled b _
      · exact List.suffix_rfl
    | grip =>
      simp only [Cmd.run]
      split <;> exact List.suffix_rfl

section
variable [Fintype σ]

/-- All the pieces: on the squares, on the pile, in the gripper and elsewhere. -/
def Bench.pieces (b : Bench σ α) : Multiset α :=
  b.position.pieces + ((b.gripper.held.toList : Multiset α) + (b.spilled : Multiset α))

theorem put_pieces (b : Bench σ α) (x : α) :
    (b.put x).position.pieces + ((b.put x).spilled : Multiset α) =
      b.position.pieces + ((b.spilled : Multiset α) + {x}) := by
  have hcons : ∀ l : List α, ((x :: l : List α) : Multiset α) = (l : Multiset α) + {x} := by
    intro l
    rw [← Multiset.cons_coe, ← Multiset.singleton_add, add_comm]
  unfold Bench.put
  split
  · rename_i s hplace
    split
    · rename_i hs
      have h := sum_update b.board s (some x)
      rw [hs] at h
      simp only [Option.toList_none, Option.toList_some, Multiset.coe_nil, add_zero,
        Multiset.coe_singleton] at h
      unfold Bench.position Position.pieces
      simp only [h]
      abel
    · unfold Bench.position
      simp only [hcons]
  · unfold Bench.position Position.pieces
    simp only [hcons]
    abel
  · unfold Bench.position
    simp only [hcons]

/-- No command loses a piece or makes one. -/
theorem run_pieces (cs : List (Cmd σ)) (b : Bench σ α) : (run cs b).pieces = b.pieces := by
  induction cs generalizing b with
  | nil => rfl
  | cons c cs ih =>
    rw [run_cons, ih]
    cases c with
    | go p => rfl
    | release =>
      simp only [Cmd.run]
      split
      · rename_i x hg
        have h := put_pieces b x
        unfold Bench.pieces
        rw [hg]
        simp only [Gripper.held, Option.toList_none, Option.toList_some, Multiset.coe_nil,
          zero_add, Multiset.coe_singleton]
        rw [add_comm ({x} : Multiset α)]
        exact h
      · rename_i hg
        unfold Bench.pieces
        cases hb : b.gripper with
        | opened => rfl
        | closed o =>
          cases o with
          | none => rfl
          | some x => exact absurd hb (hg x)
    | grip =>
      simp only [Cmd.run]
      split
      · rename_i s hg hp
        have h := sum_update b.board s none
        simp only [Option.toList_none, Multiset.coe_nil, add_zero] at h
        unfold Bench.pieces Bench.position Position.pieces
        rw [hg]
        simp only [Gripper.held, Option.toList_none, Multiset.coe_nil, ← h]
        abel
      · rename_i hg _
        unfold Bench.pieces
        rw [hg]
        rfl
      · rfl

end

/-- After a last release the gripper is open, wherever the pieces are. -/
theorem run_release_gripper (cs : List (Cmd σ)) (p : Place σ) (b : Bench σ α) :
    (run (cs ++ [.release, .go p]) b).gripper = .opened := by
  rw [run_append]
  simp only [run_cons, run_nil, Cmd.run]
  split <;> rfl

end bench
