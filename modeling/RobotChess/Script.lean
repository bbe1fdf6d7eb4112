-- The motion script on the chess board. Each motion of the robot is some twenty-five
-- commands to the arm, and together they play one move: the piece goes from its
-- source to its destination, and a piece that stands there goes to the pile.
import Mathlib.Order.Interval.Finset.Nat
import RobotChess.Cell
import RobotChess.PickPlace

open runs bench

namespace robotchess

universe u

variable {α : Type u}

/-! ## The arm and the board -/

/-- The squares of palette 1, `Def Plt 1, pBL, pBR, pTL, ,8 , 8, 2`. -/
abbrev Square := {n : Nat // n ∈ Finset.Icc 1 64}

/-- `Plt 1, n`. A number that is no square gives a goal off the board. -/
def plt1 (n : REG16) : Option Square :=
  if h : n.toNat ∈ Finset.Icc 1 64 then some ⟨n.toNat, h⟩ else none

/-- What a command does to the arm. -/
def ArmCmd.cmd : ArmCmd → Cmd Square
  | .movObs => .go .rest
  | .mvsOver n => .go (match plt1 n with | some s => .above s | none => .astray)
  | .mvs n => .go (match plt1 n with | some s => .on s | none => .astray)
  | .mvsDrop => .go .bin
  | .hOpen => .release
  | .hClose => .grip

/-- The bench after the commands of a trace. -/
def benchAfter (b : Bench Square α) (tr : List Event) : Bench Square α :=
  bench.run ((tr.filterMap Event.arm?).map ArmCmd.cmd) b

theorem benchAfter_quiet (b : Bench Square α) (tr : List Event) {e : Event} (he : e.arm? = none) :
    benchAfter b (tr ++ [e]) = benchAfter b tr := by
  simp [benchAfter, he]

theorem benchAfter_arm (b : Bench Square α) (tr : List Event) (c : ArmCmd) :
    benchAfter b (tr ++ [.arm c]) = c.cmd.run (benchAfter b tr) := by
  simp [benchAfter, Event.arm?, run_append]

/-! ## The moves -/

/-- What a motion with these words stands for, when it is legal in this position. -/
def Params.play (q : Params) (p : Position Square α) : Option (Position Square α) :=
  match plt1 q.source, plt1 q.dest with
  | some s, some d =>
    if q.type = normalMove then p.shift s d
    else if q.type = hitMove then p.capture s d
    else none
  | _, _ => none

/-- The moves one after another. -/
def playAll (p : Position Square α) (qs : List Params) : Option (Position Square α) :=
  qs.foldlM (fun p q => q.play p) p

theorem playAll_snoc (p : Position Square α) (qs : List Params) (q : Params) :
    playAll p (qs ++ [q]) = (playAll p qs).bind q.play := by
  simp [playAll, List.foldlM_append]

theorem play_pieces {p p' : Position Square α} {q : Params} (h : q.play p = some p') :
    p'.pieces = p.pieces := by
  unfold Params.play at h
  split at h
  · split at h
    · exact shift_pieces h
    · split at h
      · exact capture_pieces h
      · cases h
  · cases h

theorem playAll_pieces {p p' : Position Square α} {qs : List Params}
    (h : playAll p qs = some p') : p'.pieces = p.pieces := by
  induction qs using List.reverseRecOn generalizing p' with
  | nil =>
    cases h
    rfl
  | append_singleton qs q ih =>
    rw [playAll_snoc] at h
    obtain ⟨p₁, h1, h2⟩ := Option.bind_eq_some_iff.mp h
    exact (play_pieces h2).trans (ih h1)

/-! ## The script -/

/-- The commands of the statements that are left, from the goal that is set now. -/
def script (source dest : REG16) : REG16 → List Stmt → List ArmCmd
  | _, [] => []
  | _, .goalDest :: todo => script source dest dest todo
  | _, .goalSource :: todo => script source dest source todo
  | goal, .mvsOver :: todo => .mvsOver goal :: script source dest goal todo
  | goal, .mvs :: todo => .mvs goal :: script source dest goal todo
  | goal, .mvsDrop :: todo => .mvsDrop :: script source dest goal todo
  | goal, .hOpen :: todo => .hOpen :: script source dest goal todo
  | goal, .hClose :: todo => .hClose :: script source dest goal todo
  | goal, .dly _ :: todo => script source dest goal todo

/-- The commands that the robot has left at this point of a motion. -/
def Robot.left (r : Robot) (todo : List Stmt) : List (Cmd Square) :=
  (script r.nWmovSource r.nWmovDest r.pGoal todo).map ArmCmd.cmd

/-- One statement runs its own command, and leaves the others. -/
theorem left_stmt (b : Bench Square α) (tr : List Event) (r : Robot) (st : Stmt)
    (todo : List Stmt) :
    bench.run (Robot.left { (st.run r).2 with line := .motion todo } todo)
        (benchAfter b (tr ++ [(st.run r).1])) =
      bench.run (r.left (st :: todo)) (benchAfter b tr) := by
  cases st
  case goalDest => rw [benchAfter_quiet b tr rfl]; rfl
  case goalSource => rw [benchAfter_quiet b tr rfl]; rfl
  case dly => rw [benchAfter_quiet b tr rfl]; rfl
  all_goals
    simp only [Stmt.run, benchAfter_arm]
    rfl

theorem left_normal {r : Robot} {s d : Square} (hs : plt1 r.nWmovSource = some s)
    (hd : plt1 r.nWmovDest = some d) : r.left startNormalMove = pickUp s ++ putDown d := by
  simp [Robot.left, startNormalMove, script, ArmCmd.cmd, hs, hd, pickUp, putDown]

theorem left_hit {r : Robot} {s d : Square} (hs : plt1 r.nWmovSource = some s)
    (hd : plt1 r.nWmovDest = some d) :
    r.left startHitMove = pickUp d ++ throwAway ++ (pickUp s ++ putDown d) := by
  simp [Robot.left, startHitMove, startNormalMove, script, ArmCmd.cmd, hs, hd, pickUp, putDown,
    throwAway]

/-! ## The law of the script -/

/-- The bench is in this position, with nothing in the gripper and nothing spilled. -/
structure AtRest (b₀ b : Bench Square α) (q : Position Square α) : Prop where
  position : b.position = q
  held : b.gripper.held = none
  spilled : b.spilled = b₀.spilled

/-- The bench is in the position of the moves so far. In a motion it will be, when the commands
that are left have run. -/
inductive Plays (b₀ : Bench Square α) (tr : List Event) (r : Robot) : Prop
  | rest {q : Position Square α} : ¬ r.InMotion → playAll b₀.position (starts tr) = some q →
      AtRest b₀ (benchAfter b₀ tr) q → Plays b₀ tr r
  | motion {q : Position Square α} {d : Square} {todo : List Stmt} : r.line = .motion todo →
      playAll b₀.position (starts tr) = some q → (starts tr).getLast? = some r.params →
      plt1 r.nWmovDest = some d → bench.run (r.left todo) (benchAfter b₀ tr) = b₀.after q d →
      Plays b₀ tr r

theorem playAll_prefix {p : Position Square α} {qs rs : List Params}
    (h : (playAll p (qs ++ rs)).isSome) : (playAll p qs).isSome := by
  unfold playAll at h ⊢
  rw [List.foldlM_append] at h
  cases hq : qs.foldlM (fun p q => Params.play q p) p with
  | none => simp [hq] at h
  | some q => rfl

/-- A motion that is legal brings the bench to the next position. -/
theorem plays_start {b₀ : Bench Square α} {tr : List Event} {r : Robot} {todo : List Stmt}
    (hI : Plays b₀ tr r) (hl : r.line = .testType)
    (hlegal : (playAll b₀.position (starts (tr ++ [.start r.params]))).isSome)
    (hrun : ∀ {b : Bench Square α} {q : Position Square α} {s d : Square},
      plt1 r.nWmovSource = some s → plt1 r.nWmovDest = some d → b.gripper.held = none →
      r.params.play b.position = some q → bench.run (r.left todo) b = b.after q d) :
    Plays b₀ (tr ++ [.start r.params]) { r with line := .motion todo } := by
  cases hI with
  | motion ht _ _ _ _ =>
    rw [hl] at ht
    cases ht
  | @rest q _ hq hrest =>
    rw [starts_append, starts_start, playAll_snoc, hq] at hlegal
    obtain ⟨q', hq'⟩ := Option.isSome_iff_exists.mp hlegal
    have hplay : r.params.play q = some q' := hq'
    obtain ⟨s, d, hs, hd⟩ : ∃ s d, plt1 r.nWmovSource = some s ∧ plt1 r.nWmovDest = some d := by
      unfold Params.play at hplay
      split at hplay
      · exact ⟨_, _, ‹_›, ‹_›⟩
      · cases hplay
    have hend := hrun hs hd hrest.held (hrest.position ▸ hplay)
    refine .motion (q := q') rfl ?_ (by simp [Robot.params]) hd ?_
    · rw [starts_append, starts_start, playAll_snoc, hq]
      exact hplay
    · rw [benchAfter_quiet b₀ tr rfl]
      refine hend.trans ?_
      unfold Bench.after
      rw [hrest.spilled]

theorem plays_robot {b₀ : Bench Square α} {tr : List Event} {r r' : Robot} {e : Event}
    (hI : Plays b₀ tr r) (hlegal : (playAll b₀.position (starts (tr ++ [e]))).isSome)
    (h : r.Acts e r') : Plays b₀ (tr ++ [e]) r' := by
  cases h
  case stmt st todo hl =>
    have hp := (stmt_quiet r st).plain
    cases hI with
    | rest hno _ _ => exact absurd ⟨_, hl⟩ hno
    | @motion q d todo' ht hq hlast hd hrun =>
      rw [hl] at ht
      cases ht
      have hsame : (st.run r).2.params = r.params := by cases st <;> rfl
      have hdest : (st.run r).2.nWmovDest = r.nWmovDest := by cases st <;> rfl
      refine .motion rfl (by rwa [(hp.snoc tr).1]) ?_ (hdest ▸ hd) ?_
      · rw [(hp.snoc tr).1, hlast, ← hsame]
        rfl
      · rw [left_stmt]
        exact hrun
  case done hl =>
    cases hI with
    | rest hno _ _ => exact absurd ⟨_, hl⟩ hno
    | @motion q d todo ht hq _ _ hrun =>
      rw [hl] at ht
      cases ht
      have hbench : benchAfter b₀ tr = b₀.after q d := hrun
      refine .rest (by rintro ⟨todo, ht⟩; cases ht) (by simpa using hq) ?_
      rw [benchAfter_quiet b₀ tr rfl, hbench]
      exact ⟨rfl, rfl, rfl⟩
  case normal hl hn =>
    apply plays_start hI hl hlegal
    intro b q s d hs hd hg hplay
    have hshift : b.position.shift s d = some q := by
      simpa [Params.play, Robot.params, hs, hd, hn] using hplay
    rw [left_normal hs hd]
    exact run_shift hg hshift
  case hit hl hh hn =>
    apply plays_start hI hl hlegal
    intro b q s d hs hd hg hplay
    have hcapture : b.position.capture s d = some q := by
      have hne : hitMove ≠ normalMove := by decide
      simpa [Params.play, Robot.params, hs, hd, hh, hne] using hplay
    rw [left_hit hs hd]
    exact run_capture hg hcapture
  case home hl =>
    cases hI with
    | motion ht _ _ _ _ =>
      rw [hl] at ht
      cases ht
    | rest _ hq hrest =>
      have hp : Event.Plain (.arm .movObs) := ⟨rfl, rfl, by simp⟩
      refine .rest (by rintro ⟨todo, ht⟩; cases ht) (by rwa [(hp.snoc tr).1]) ?_
      rw [benchAfter_arm]
      exact ⟨hrest.position, hrest.held, hrest.spilled⟩
  case other hno ha hp hno' _ =>
    cases hI with
    | motion ht _ _ _ _ => exact absurd ⟨_, ht⟩ hno
    | rest _ hq hrest =>
      refine .rest hno' (by rwa [(hp.snoc tr).1]) ?_
      rw [benchAfter_quiet b₀ tr ha]
      exact hrest

theorem plays_run {b₀ : Bench Square α} {s t : Plant} {tr : List Event}
    (hmotion : ¬ s.robot.InMotion) (hg : b₀.gripper.held = none) (h : Run plant anyPc s tr t)
    (hlegal : (playAll b₀.position (starts tr)).isSome) : Plays b₀ tr t.robot := by
  revert hlegal
  apply acts_invariant (fun tr r => (playAll b₀.position (starts tr)).isSome → Plays b₀ tr r) h
  · exact fun _ => .rest hmotion rfl ⟨rfl, hg, rfl⟩
  · intro tr r a w hI hlegal
    have hp : Event.Plain (.write a w) := ⟨rfl, rfl, by simp⟩
    rw [(hp.snoc tr).1] at hlegal
    cases hI hlegal with
    | rest hno hq hrest =>
      exact .rest hno (by rwa [(hp.snoc tr).1]) (by rwa [benchAfter_quiet b₀ tr rfl])
    | motion hl hq hlast hd hrun =>
      exact .motion hl (by rwa [(hp.snoc tr).1]) (by rwa [(hp.snoc tr).1]) hd
        (by rwa [benchAfter_quiet b₀ tr rfl])
  · intro tr r e r' hI hacts hlegal
    refine plays_robot (hI ?_) hlegal hacts
    rw [starts_append] at hlegal
    exact playAll_prefix hlegal

/-- When line 102 says that a motion is done, the bench is in the position of the moves so far:
the board and the pile are those of the moves, nothing is spilled, the gripper is open and empty,
and the arm is above the destination. The pieces are the ones of the start. -/
theorem the_motion_script_plays_the_moves (b₀ : Bench Square α) (s t : Plant) (tr : List Event)
    (hmotion : ¬ s.robot.InMotion) (hg : b₀.gripper.held = none) (h : Run plant anyPc s tr t)
    (hlegal : (playAll b₀.position (starts tr)).isSome) :
    ∀ pre post, tr = pre ++ .ready :: post → ∃ q w d, (starts pre).getLast? = some w ∧
      plt1 w.dest = some d ∧ playAll b₀.position (starts pre) = some q ∧
      benchAfter b₀ pre = ⟨q.board, q.pile, b₀.spilled, .opened, .above d⟩ ∧
      q.pieces = b₀.position.pieces := by
  rintro pre post rfl
  obtain ⟨u, v, i, hu, -, hM, -⟩ := h.at_event
  have hlegal' : (playAll b₀.position (starts pre)).isSome := by
    rw [starts_append] at hlegal
    exact playAll_prefix hlegal
  have hI := plays_run hmotion hg hu hlegal'
  generalize he : Event.ready = e at hM
  rcases plant_step hM with ⟨a, w, -, rfl, -⟩ | ⟨-, hr⟩ | ⟨-, rfl, -⟩
  · cases he
  · have hdone : u.robot.line = .motion [] := by
      have hacts := robot_acts hr
      generalize v.robot = r' at hacts
      cases hacts
      case stmt st _ _ =>
        have hq := stmt_quiet u.robot st
        rw [← he] at hq
        exact hq.elim
      case done hl => exact hl
      case other hp _ _ => exact absurd he.symm hp.2.2
      all_goals cases he
    cases hI with
    | rest hno _ _ => exact absurd ⟨_, hdone⟩ hno
    | @motion q d todo ht hq hlast hd hrun =>
      rw [hdone] at ht
      cases ht
      exact ⟨q, u.robot.params, d, hlast, hd, hq, hrun, playAll_pieces hq⟩
  · cases he

/-- A piece on square 13 and another one on square 29, and an open gripper at `pObs`. -/
def twoPieces : Bench Square Nat where
  board s := if s.val = 13 then some 1 else if s.val = 29 then some 2 else none
  pile := []
  spilled := []
  gripper := .opened
  place := .rest

/-- The law at one hit. -/
theorem the_motion_script_plays_a_hit :
    ∃ pre t q d, Run plant anyPc ⟨.zero, .atMain⟩ (pre ++ [.ready]) t ∧
      starts pre = [MOVE.words ⟨13, 29, HIT_MOVE⟩] ∧
      playAll twoPieces.position (starts pre) = some q ∧
      benchAfter twoPieces pre = ⟨q.board, q.pile, [], .opened, .above d⟩ := by
  have hrun : ∃ tr t, Run plant anyPc ⟨.zero, .atMain⟩ tr t ∧
      decide (tr.getLast? = some .ready ∧ starts tr = [MOVE.words ⟨13, 29, HIT_MOVE⟩]) = true :=
    exists_run_of_execWith (fun tr _ => _)
      (armMove ⟨13, 29, HIT_MOVE⟩ ++ List.replicate 48 PlantInput.robot) (by decide +kernel)
  obtain ⟨tr, t, h, hP⟩ := hrun
  obtain ⟨hlast, hs⟩ := of_decide_eq_true hP
  obtain ⟨pre, rfl⟩ := List.getLast?_eq_some_iff.mp hlast
  have hlegal : (playAll twoPieces.position (starts (pre ++ [.ready]))).isSome := by
    rw [hs]
    decide +kernel
  obtain ⟨q, w, d, -, -, hq, hbench, -⟩ := the_motion_script_plays_the_moves twoPieces
    ⟨.zero, .atMain⟩ t _ (by rintro ⟨todo, ht⟩; cases ht) rfl h hlegal pre [] rfl
  rw [starts_append, starts_ready, List.append_nil] at hs
  exact ⟨pre, t, q, d, h, hs, hq, hbench⟩

end robotchess
