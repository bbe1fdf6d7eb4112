-- The handshake of a session never stops for good. While the PC polls, both
-- ALLOW words are set. Each line of the robot then brings it nearer to line 102,
-- by a rank that falls.
import RobotChess.Session

open runs

namespace robotchess

/-! ## The motion that is left -/

/-- What is left of a motion is the end of the script. -/
def Robot.OnScript (r : Robot) : Prop := ∀ todo, r.line = .motion todo → todo <:+ startHitMove

theorem onScript_step {r r' : Robot} {m m' : Mem} {e : Event} (hI : r.OnScript)
    (h : r.step m = some (e, r', m')) : r'.OnScript := by
  intro todo' ht
  cases robot_acts h
  case stmt st todo hl =>
    cases ht
    exact (List.suffix_cons st _).trans (hI _ hl)
  case done => cases ht
  case normal =>
    cases ht
    exact List.suffix_append _ _
  case hit =>
    cases ht
    exact List.suffix_refl _
  case home => cases ht
  case other hno _ => exact absurd ⟨_, ht⟩ hno

/-! ## The rank -/

/-- The number of lines to line 102 at most, when both ALLOW words stay set. -/
def Robot.rank (r : Robot) : Nat :=
  match r.line with
  | .motion todo => todo.length + 1
  | .testType => 37
  | .readDest => 38
  | .readSource => 39
  | .readMoveParams => 40
  | .testCmd2 => if r.nWcmd2 = allowMoveCmd2 then 41 else 49
  | .readsecond => 42
  | .testCmd1 => if r.nWcmd1 = allowMoveCmd1 then 43 else 49
  | .readCmd1 => 44
  | .testExit => 45
  | .readExit => 46
  | .mainDly => 47
  | .main => 48
  | _ => 0

theorem rank_le {r : Robot} (h : r.OnScript) : r.rank ≤ 49 := by
  unfold Robot.rank
  cases hl : r.line
  case motion todo =>
    have hle := (h todo hl).length_le
    have hlen : startHitMove.length = 35 := rfl
    simp only
    omega
  all_goals simp only
  case testCmd1 => split <;> omega
  case testCmd2 => split <;> omega
  all_goals omega

/-- Both ALLOW words are set, the type is known, and 545 holds no exit. -/
structure Mem.Armed (m : Mem) : Prop where
  cmd1 : m.cmd1 = allowMoveCmd1
  cmd2 : m.cmd2 = allowMoveCmd2
  type : Known m.type
  exit : m.exit ≠ exitCmd

/-- Only `End` has no step. -/
theorem step_of_not_ended {r : Robot} (m : Mem) (h : r.line ≠ .ended) :
    ∃ e r' m', r.step m = some (e, r', m') := by
  have hs : (r.step m).isSome := by
    unfold Robot.step
    cases hl : r.line
    case ended => exact absurd hl h
    case init todo => cases todo <;> rfl
    case motion todo => cases todo <;> rfl
    case testType =>
      simp only
      split
      · rfl
      · split <;> rfl
    all_goals rfl
  obtain ⟨⟨e, r', m'⟩, hx⟩ := Option.isSome_iff_exists.mp hs
  exact ⟨e, r', m', hx⟩

/-- On armed words each line brings the robot nearer to line 102, or is line 102. -/
theorem rank_falls {r r' : Robot} {m m' : Mem} {e : Event} (hm : m.Armed) (hp : r.phase.Sound)
    (hw : r.phase ≠ .waiting ∧ r.phase ≠ .acked) (h : r.step m = some (e, r', m')) :
    r'.rank < r.rank := by
  obtain ⟨h1, h2, -, hx⟩ := hm
  cases hl : r.line
  all_goals simp only [Robot.phase, hl] at hp hw
  case init todo => exact hp.elim
  case exit => exact hp.elim
  case ended => exact hp.elim
  case waitforpc => exact absurd rfl hw.1
  case unready => exact absurd rfl hw.2
  case testAck =>
    split at hw
    · exact absurd rfl hw.2
    · exact absurd rfl hw.1
  case testType =>
    have hle : startHitMove.length = 35 ∧ startNormalMove.length = 20 := ⟨rfl, rfl⟩
    simp only [Robot.step, hl] at h
    by_cases hn : r.nWmoveType = normalMove
    · simp only [if_pos hn, Option.some.injEq, Prod.mk.injEq] at h
      obtain ⟨-, rfl, -⟩ := h
      simp only [Robot.rank, hl]
      omega
    · have hh : r.nWmoveType = hitMove := hp.resolve_left hn
      simp only [if_neg hn, if_pos hh, Option.some.injEq, Prod.mk.injEq] at h
      obtain ⟨-, rfl, -⟩ := h
      simp only [Robot.rank, hl]
      omega
  case motion todo =>
    cases todo <;> simp only [Robot.step, hl, Option.some.injEq, Prod.mk.injEq] at h <;>
      obtain ⟨-, rfl, -⟩ := h <;> simp [Robot.rank, hl]
  all_goals
    simp only [Robot.step, hl, Option.some.injEq, Prod.mk.injEq] at h
    obtain ⟨-, rfl, -⟩ := h
    simp only [Robot.rank, hl]
  case testExit =>
    have hne : r.nWcmdExit ≠ exitCmd := by
      intro he
      rw [if_pos he] at hp
      exact hp
    simp [if_neg hne]
  case testCmd1 => by_cases hc : r.nWcmd1 = allowMoveCmd1 <;> simp [hc]
  case testCmd2 => by_cases hc : r.nWcmd2 = allowMoveCmd2 <;> simp [hc]
  case readCmd1 => simp [h1]
  case readsecond => simp [h2]
  all_goals omega

/-! ## The law of a session -/

/-- The robot takes steps, and the PC takes none. -/
def robotOnly : Guard Cell CellInput Event := fun _ _ i => i = .robot

theorem onScript_run {ok : Guard Cell CellInput Event} {s t : Cell} {tr : List Event}
    (h : Run cell ok s tr t) (h0 : s.robot.OnScript) : t.robot.OnScript := by
  apply h.invariant (fun _ t => t.robot.OnScript) h0
  intro tr t i e u hI _ hM
  cases cell_step hM with
  | call c _ => exact hI
  | pc _ => exact hI
  | robot hr => exact onScript_step hI hr

/-- The only poll is operation 5 of a move. -/
theorem act_poll {d : Driver} (h : d.act = some .poll) : ∃ mv, d = .busy (.move mv) 5 := by
  match d with
  | .idle => cases h
  | .failing _ => cases h
  | .busy .connect k => rcases k with _ | _ | _ | _ | _ | _ | _ | k <;> cases h
  | .busy .clear k => rcases k with _ | _ | _ | k <;> cases h
  | .busy (.cmd c) k =>
    simp only [Driver.act, Call.body, sendCmdOr] at h
    split at h <;> rcases k with _ | k <;> cases h
  | .busy (.move mv) k =>
    rcases k with _ | _ | _ | _ | _ | _ | _ | _ | _ | k
    case succ.succ.succ.succ.succ.zero => exact ⟨mv, rfl⟩
    all_goals cases h

theorem Live.armed {tr : List Event} {m : Mem} {p : Phase} {mv : MOVE}
    (hI : Live tr (.busy (.move mv) 5) m p) : m.Armed := by
  obtain ⟨-, hr⟩ := hI.regs
  have h2 := hr.allow2 (by omega) (by omega)
  refine ⟨hr.allow1 (by omega) (by omega), h2, hI.known (Or.inr h2), ?_⟩
  rw [hI.exit]
  decide

/-- While the PC polls, the robot alone gives the ready signal in no more than 49 steps. The
robot is never at `*exit`, and it waits only with a ready word that the PC accepts. -/
theorem the_handshake_cannot_deadlock (s : Cell) (tr : List Event)
    (h : Run cell session Cell.start tr s) :
    (s.driver.act = some .poll → ∃ tr' t, Run cell robotOnly s tr' t ∧ tr'.length ≤ 49 ∧
      t.mem.ready = CMD.word .CMD_READY) ∧
    (s.robot.line ≠ .exit ∧ s.robot.line ≠ .ended) ∧
    (s.robot.line = .waitforpc ∨ s.robot.line = .testAck →
      s.mem.ready = CMD.word .CMD_READY) := by
  have hlive := live_run h
  refine ⟨?_, ?_, ?_⟩
  · intro hpoll
    have hscript : s.robot.OnScript := onScript_run h (by intro todo ht; cases ht)
    have hreach : ∃ tr' t, Run cell robotOnly s tr' t ∧ tr'.length ≤ s.robot.rank ∧
        t.mem.ready = CMD.word .CMD_READY ∧
        (∃ tr, Run cell session Cell.start tr t) ∧ t.driver.act = some .poll := by
      refine reaches_of_rank cell robotOnly
        (fun t => (∃ tr, Run cell session Cell.start tr t) ∧ t.driver.act = some .poll)
        (fun t => t.mem.ready = CMD.word .CMD_READY) (fun t => t.robot.rank) .robot
        (fun _ _ => rfl) ?_ s ⟨⟨tr, h⟩, hpoll⟩
      rintro t ⟨⟨tr₁, ht⟩, hact⟩ hnot
      have hI := live_run ht
      obtain ⟨mv, hd⟩ := act_poll hact
      have hw : t.robot.phase ≠ .waiting ∧ t.robot.phase ≠ .acked := by
        constructor <;> intro hp <;> apply hnot <;> apply hI.ready.mpr <;> simp [hp]
      have hne : t.robot.line ≠ .ended := by
        intro hl
        have := hI.sound
        simp only [Robot.phase, hl] at this
        exact this
      obtain ⟨e, r, m, hr⟩ := step_of_not_ended t.mem hne
      have hM : cell t .robot = some (e, ⟨t.driver, m, r⟩) := by simp [cell, hr]
      have hok : session tr₁ t .robot := trivial
      rw [hd] at hI
      exact ⟨e, _, hM, ⟨⟨_, ht.snoc hok hM⟩, hact⟩, rank_falls hI.armed hI.sound hw hr⟩
    obtain ⟨tr', t, ht, hl, hr, -⟩ := hreach
    exact ⟨tr', t, ht, hl.trans (rank_le hscript), hr⟩
  · have hs := hlive.sound
    constructor <;> intro hl <;> simp only [Robot.phase, hl] at hs <;> exact hs
  · intro hl
    apply hlive.ready.mpr
    rcases hl with hl | hl
    · simp [Robot.phase, hl]
    · simp only [Robot.phase, hl]
      split <;> simp

/-- A session up to the poll of its first move, with the robot still at its first line. -/
def toFirstPoll (mv : MOVE) : List CellInput :=
  connectAndClear ++ .call (.move mv) :: pcSteps 5

/-- The law at the first poll: the ready word is not there yet, and the robot alone brings it. -/
theorem the_first_poll_is_answered :
    ∃ tr s, Run cell session Cell.start tr s ∧ s.driver.act = some .poll ∧
      s.mem.ready ≠ CMD.word .CMD_READY ∧ ∃ tr' t, Run cell robotOnly s tr' t ∧
        tr'.length ≤ 49 ∧ t.mem.ready = CMD.word .CMD_READY := by
  have hrun : ∃ tr s, Run cell session Cell.start tr s ∧
      decide (s.driver.act = some .poll ∧ s.mem.ready ≠ CMD.word .CMD_READY) = true :=
    exists_run_of_execWith (fun _ s => _) (toFirstPoll ⟨13, 29, NORMAL_MOVE⟩) (by decide +kernel)
  obtain ⟨tr, s, h, hP⟩ := hrun
  obtain ⟨hpoll, hready⟩ := of_decide_eq_true hP
  exact ⟨tr, s, h, hpoll, hready, (the_handshake_cannot_deadlock s tr h).1 hpoll⟩

end robotchess
