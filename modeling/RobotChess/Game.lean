-- The game on the board. A session that keeps to the condition plays each move that
-- `robot_sendMove` was called with: when a call returns true, the board is the one of all
-- the moves so far.
import RobotChess.Script
import RobotChess.Sequence

open runs bench

namespace robotchess

universe u

variable {α : Type u}

/-! ## The board of the cell -/

theorem starts_onPlant (tr : List Event) : starts (tr.filter Event.onPlant) = starts tr := by
  unfold starts
  rw [List.filterMap_filter]
  apply List.filterMap_congr
  intro e _
  cases e <;> rfl

theorem benchAfter_onPlant (b : Bench Square α) (tr : List Event) :
    benchAfter b (tr.filter Event.onPlant) = benchAfter b tr := by
  unfold benchAfter
  rw [List.filterMap_filter]
  congr 2
  apply List.filterMap_congr
  intro e _
  cases e <;> rfl

/-- The law of the script in the cell. -/
theorem plays_cell {ok : Guard Cell CellInput Event} {b₀ : Bench Square α} {s t : Cell}
    {tr : List Event} (hmotion : ¬ s.robot.InMotion) (hg : b₀.gripper.held = none)
    (h : Run cell ok s tr t) (hlegal : (playAll b₀.position (starts tr)).isSome) :
    Plays b₀ tr t.robot := by
  have hplays := plays_run hmotion hg (cell_run_is_plant_run h)
    (by rwa [starts_onPlant])
  cases hplays with
  | rest hno hq hrest =>
    rw [starts_onPlant] at hq
    rw [benchAfter_onPlant] at hrest
    exact .rest hno hq hrest
  | motion hl hq hlast hd hrun =>
    rw [starts_onPlant] at hq hlast
    rw [benchAfter_onPlant] at hrun
    exact .motion hl hq hlast hd hrun

/-- No piece is let go beside the board. -/
theorem Plays.spilled {b₀ : Bench Square α} {tr : List Event} {r : Robot} (h : Plays b₀ tr r) :
    (benchAfter b₀ tr).spilled = b₀.spilled := by
  cases h with
  | rest _ _ hrest => exact hrest.spilled
  | @motion q d todo _ _ _ _ hrun =>
    -- What is spilled now is still spilled when the motion is over, and nothing is then.
    have hbefore : b₀.spilled <:+ (benchAfter b₀ tr).spilled := run_spilled _ b₀
    have hafter := run_spilled (r.left todo) (benchAfter b₀ tr)
    rw [hrun] at hafter
    exact hafter.eq_of_length_le hbefore.length_le

/-- The pieces on the board, on the pile and in the gripper. -/
def inPlay (b : Bench Square α) : Multiset α :=
  b.position.pieces + (b.gripper.held.toList : Multiset α)

theorem Plays.keeps {b₀ : Bench Square α} {tr : List Event} {r : Robot} (h : Plays b₀ tr r)
    (hg : b₀.gripper.held = none) : inPlay (benchAfter b₀ tr) = b₀.position.pieces := by
  have hpieces : (benchAfter b₀ tr).pieces = b₀.pieces := run_pieces _ b₀
  unfold Bench.pieces at hpieces
  rw [h.spilled, hg, ← add_assoc, ← add_assoc] at hpieces
  refine (add_right_cancel hpieces).trans ?_
  simp

/-! ## The motions of a session -/

/-- The robot starts only what `robot_sendMove` was called with, in this order. -/
theorem Sequence.starts_before {tr : List Event} {d : Driver} {m : Mem} {p : Phase}
    (h : Sequence tr d m p) : starts tr <+: (moves tr).map MOVE.words := by
  cases h with
  | early hm hs _ _ _ _ =>
    rw [hs]
    exact List.nil_prefix
  | move tr₀ tr₁ mv heq hcs _ _ hmat hcall _ =>
    have hmoves : moves tr = moves tr₀ ++ [mv] := by
      rw [heq, List.append_cons, moves_append, moves_append]
      unfold moves
      rw [hcs]
      simp [calls, Event.call?, Call.move?]
    have hstarts : starts tr = (moves tr₀).map MOVE.words ++ starts tr₁ := by
      rw [heq, List.append_cons, starts_append, starts_append, hmat.1]
      simp
    rw [hmoves, hstarts, List.map_append]
    apply List.prefix_append_right_inj _ |>.mpr
    cases hcall.common.progress with
    | before hs _ _ _ =>
      rw [hs]
      exact List.nil_prefix
    | moving hs _ _ => exact hs ▸ List.prefix_rfl
    | waiting hs _ _ => exact hs ▸ List.prefix_rfl
    | past hs _ _ _ => exact hs ▸ List.prefix_rfl

/-- When a move returns true, the motions match the moves and the robot is in none. -/
theorem Sequence.returned {tr : List Event} {d : Driver} {m : Mem} {r : Robot} {mv : MOVE}
    {k : Nat} (h : Sequence tr d m r.phase) (hd : d = .busy (.move mv) k)
    (hk : (Call.move mv).body.length ≤ k) : Matched tr ∧ ¬ r.InMotion := by
  subst hd
  have h9 : 9 ≤ k := by simpa [Call.body, robot_sendMove_eq] using hk
  cases h with
  | early _ _ _ _ _ hd => exact absurd rfl (hd mv k)
  | move tr₀ tr₁ _ heq hcs _ _ hmat hcall _ =>
    obtain ⟨hmv, hduring⟩ := hcall
    cases hmv
    obtain ⟨hs, hf⟩ := hduring.seen (by omega)
    refine ⟨LastMatched.matched ⟨_, _, heq, hcs, hmat, hs, hf⟩, ?_⟩
    rintro ⟨todo, hl⟩
    have hp : r.phase = .moving := by simp only [Robot.phase, hl]
    rcases hduring.progress.past_phase hs hf with hw | hw
    · rw [hp] at hw
      cases hw
    · rw [hp] at hw
      exact hw

theorem playAll_before {p : Position Square α} {qs rs : List Params} (h : qs <+: rs)
    (hlegal : (playAll p rs).isSome) : (playAll p qs).isSome := by
  obtain ⟨ts, rfl⟩ := h
  exact playAll_prefix hlegal

/-! ## The law of the board -/

section
variable {b₀ : Bench Square α} {s : Cell} {tr : List Event}

/-- The robot carries out the moves of a session. -/
theorem session_plays (hg : b₀.gripper.held = none) (h : Run cell orderlySession Cell.start tr s)
    (hlegal : (playAll b₀.position ((moves tr).map MOVE.words)).isSome) :
    Plays b₀ tr s.robot := by
  have hstart : ¬ Cell.start.robot.InMotion := by
    rintro ⟨todo, hl⟩
    cases hl
  apply plays_cell hstart hg h
  exact playAll_before (sequence_run h).2.starts_before hlegal

/-- Each time that a move returns true, the bench is at rest in the position of the moves. -/
theorem session_returns (hg : b₀.gripper.held = none)
    (h : Run cell orderlySession Cell.start tr s)
    (hlegal : (playAll b₀.position ((moves tr).map MOVE.words)).isSome) :
    ∀ pre mv post, tr = pre ++ .ret (.move mv) true :: post →
      ∃ q, playAll b₀.position ((moves pre).map MOVE.words) = some q ∧
        AtRest b₀ (benchAfter b₀ pre) q := by
  rintro pre mv post rfl
  obtain ⟨u, v, i, hu, -, hM, -⟩ := h.at_event
  obtain ⟨k, hk, hl, -⟩ := cell_ret_true hM
  obtain ⟨hmatched, hrest⟩ := (sequence_run hu).2.returned hk hl
  have hprefix : (moves pre).map MOVE.words <+:
      (moves (pre ++ .ret (.move mv) true :: post)).map MOVE.words := by
    rw [moves_append, List.map_append]
    exact List.prefix_append _ _
  have hplays := session_plays hg hu (playAll_before hprefix hlegal)
  rw [← hmatched.1]
  cases hplays with
  | rest _ hq hat => exact ⟨_, hq, hat⟩
  | motion ht _ _ _ _ => exact absurd ⟨_, ht⟩ hrest

end

/-- In a session whose steps meet the condition, with moves that are legal one after another,
every piece is on the board, on the pile or in the gripper at every moment. And each time that
`robot_sendMove` returns true, the board and the pile are the ones of all the moves so far, and
the gripper holds nothing. -/
theorem a_session_plays_its_moves (b₀ : Bench Square α) (hg : b₀.gripper.held = none) (s : Cell)
    (tr : List Event) (h : Run cell orderlySession Cell.start tr s)
    (hlegal : (playAll b₀.position ((moves tr).map MOVE.words)).isSome) :
    inPlay (benchAfter b₀ tr) = b₀.position.pieces ∧
      ∀ pre mv post, tr = pre ++ .ret (.move mv) true :: post →
        ∃ q, playAll b₀.position ((moves pre).map MOVE.words) = some q ∧
          AtRest b₀ (benchAfter b₀ pre) q :=
  ⟨(session_plays hg h hlegal).keeps hg, session_returns hg h hlegal⟩

/-- A piece on square 13 and another one on square 37, and an open gripper at `pObs`. -/
def beforeGame : Bench Square Nat where
  board s := if s.val = 13 then some 1 else if s.val = 37 then some 2 else none
  pile := []
  spilled := []
  gripper := .opened
  place := .rest

/-- The law at a move and a hit by the piece that moved. -/
theorem a_move_and_a_hit_are_played : ∃ pre s q,
    Run cell orderlySession Cell.start (pre ++ [.ret (.move ⟨29, 37, HIT_MOVE⟩) true]) s ∧
      AtRest beforeGame (benchAfter beforeGame pre) q ∧
      (plt1 37).map q.board = some (some 1) ∧ q.pile = [2] := by
  have hrun : ∃ tr s, Run cell orderlySession Cell.start tr s ∧
      decide (tr.getLast? = some (.ret (.move ⟨29, 37, HIT_MOVE⟩) true) ∧
        moves tr = [⟨13, 29, NORMAL_MOVE⟩, ⟨29, 37, HIT_MOVE⟩]) = true :=
    exists_run_of_execWith (fun tr _ => _)
      (firstMove ++ robotSteps 3 ++ .call (.move ⟨29, 37, HIT_MOVE⟩) :: pcSteps 5 ++
        robotSteps 48 ++ pcSteps 5)
      (by decide +kernel)
  obtain ⟨tr, s, h, hP⟩ := hrun
  obtain ⟨hlast, hmoves⟩ := of_decide_eq_true hP
  obtain ⟨pre, rfl⟩ := List.getLast?_eq_some_iff.mp hlast
  have hlegal : ((playAll beforeGame.position ((moves (pre ++
      [.ret (.move ⟨29, 37, HIT_MOVE⟩) true])).map MOVE.words)).any fun q =>
        decide ((plt1 37).map q.board = some (some 1) ∧ q.pile = [2])) = true := by
    rw [hmoves]
    decide +kernel
  have hsome := Option.isSome_of_any hlegal
  obtain ⟨-, hall⟩ := a_session_plays_its_moves beforeGame rfl s _ h hsome
  obtain ⟨q, hq, hat⟩ := hall pre _ [] rfl
  have hsame : moves (pre ++ [.ret (.move ⟨29, 37, HIT_MOVE⟩) true]) = moves pre := by
    simp [moves, calls, Event.call?]
  rw [hsame, hq] at hlegal
  obtain ⟨hboard, hpile⟩ := of_decide_eq_true hlegal
  exact ⟨pre, s, q, h, hat, hboard, hpile⟩

end robotchess
