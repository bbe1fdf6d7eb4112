-- The robot program, robotchess_modbus.prg, line by line. One step runs one
-- line: a label and a `goto` take no step of their own. The numbers in the
-- comments are line numbers of the program.
import RobotChess.Events

namespace robotchess

/-! ## The motion script -/

/-- The statements of lines 61 to 100. -/
inductive Stmt
  -- `pGoal = Plt 1, nWmovDest`
  | goalDest
  -- `pGoal = Plt 1, nWmovSource`
  | goalSource
  -- `mvs pGoal, over`
  | mvsOver
  -- `mvs pGoal`
  | mvs
  -- `mvs pDrop`
  | mvsDrop
  | hOpen
  | hClose
  -- `dly`, in tenths of a second
  | dly (tenths : Nat)
  deriving DecidableEq, Repr

def delay : Nat := 5
def toolDelay : Nat := 20

/-- Lines 80 to 100. -/
def startNormalMove : List Stmt :=
  [.goalSource, .mvsOver, .dly toolDelay, .hOpen, .dly delay,
    .mvs, .dly toolDelay, .hClose, .dly delay, .mvsOver, .dly delay,
    .goalDest, .mvsOver, .dly delay,
    .mvs, .dly toolDelay, .hOpen, .dly delay, .mvsOver, .dly delay]

/-- Lines 62 to 76, which fall through to line 80. -/
def startHitMove : List Stmt :=
  [Stmt.goalDest, .mvsOver, .dly toolDelay, .hOpen, .dly delay,
    .mvs, .dly toolDelay, .hClose, .dly delay, .mvsOver, .dly delay,
    .mvsDrop, .dly toolDelay, .hOpen, .dly delay] ++ startNormalMove

/-! ## The state of the program -/

/-- The statements of lines 45 to 54. -/
inductive InitStmt
  | nWmovSource
  | nWmovDest
  | nWcmd1
  | nWcmd2
  | nWmoveType
  | nWcmdExit
  | nWcmdClrReady
  | servoOn
  | ovrd (percent : Nat)
  deriving DecidableEq, Repr

def speedlimit : Nat := 20

/-- Lines 45 to 54. -/
def initialisation : List InitStmt :=
  [.nWmovSource, .nWmovDest, .nWcmd1, .nWcmd2, .nWmoveType, .nWcmdExit, .nWcmdClrReady,
    .servoOn, .ovrd speedlimit]

/-- The line that the robot runs next. -/
inductive Line
  -- 45 to 56: the statements of the initialisation that are left.
  | init (todo : List InitStmt)
  -- 113: `mov pObs`
  | main
  -- 114
  | mainDly
  -- 116
  | readExit
  -- 117
  | testExit
  -- 119
  | readCmd1
  -- 120 and 121
  | testCmd1
  -- 123
  | readsecond
  -- 124 and 125
  | testCmd2
  -- 130
  | readMoveParams
  -- 131
  | readSource
  -- 132
  | readDest
  -- 134 and 135
  | testType
  -- 62 to 102: the statements of the motion that are left, and then line 102.
  | motion (todo : List Stmt)
  -- 105
  | waitforpc
  -- 106
  | testAck
  -- 107
  | unready
  -- 140: `Servo Off`
  | exit
  -- 141: `End`
  | ended
  deriving DecidableEq, Repr

/-- The next line and the variables of the program. -/
structure Robot where
  line : Line
  nWcmd1 : REG16
  nWcmd2 : REG16
  nWmovSource : REG16
  nWmovDest : REG16
  nWmoveType : REG16
  nWcmdExit : REG16
  nWcmdClrReady : REG16
  pGoal : REG16
  servo : Bool
  deriving DecidableEq, Repr

/-- The robot at `*main`, after its initialisation. -/
def Robot.atMain : Robot := ⟨.main, 0, 0, 0, 0, 0, 0, 0, 0, true⟩

/-- The words that the robot has latched. -/
def Robot.params (r : Robot) : Params := ⟨r.nWmoveType, r.nWmovSource, r.nWmovDest⟩

/-! ## One line -/

def InitStmt.run (r : Robot) : InitStmt → Robot
  | .nWmovSource => { r with nWmovSource := 0 }
  | .nWmovDest => { r with nWmovDest := 0 }
  | .nWcmd1 => { r with nWcmd1 := 0 }
  | .nWcmd2 => { r with nWcmd2 := 0 }
  | .nWmoveType => { r with nWmoveType := 0 }
  | .nWcmdExit => { r with nWcmdExit := 0 }
  | .nWcmdClrReady => { r with nWcmdClrReady := 0 }
  | .servoOn => { r with servo := true }
  | .ovrd _ => r

/-- One statement of the motion: the robot after it, and what it shows. -/
def Stmt.run (r : Robot) : Stmt → Event × Robot
  | .goalDest => (.silent, { r with pGoal := r.nWmovDest })
  | .goalSource => (.silent, { r with pGoal := r.nWmovSource })
  | .mvsOver => (.arm (.mvsOver r.pGoal), r)
  | .mvs => (.arm (.mvs r.pGoal), r)
  | .mvsDrop => (.arm .mvsDrop, r)
  | .hOpen => (.arm .hOpen, r)
  | .hClose => (.arm .hClose, r)
  | .dly _ => (.silent, r)

/-- The step of the robot program. It is none only after `End`. -/
def Robot.step (r : Robot) (m : Mem) : Option (Event × Robot × Mem) :=
  match r.line with
  | .init [] => some (.silent, { r with line := .main }, m)
  | .init (st :: todo) => some (.silent, { st.run r with line := .init todo }, m)
  | .main => some (.arm .movObs, { r with line := .mainDly }, m)
  | .mainDly => some (.silent, { r with line := .readExit }, m)
  | .readExit =>
    let w := M_In16 m nWcmdExitAddr
    some (.read nWcmdExitAddr w, { r with nWcmdExit := w, line := .testExit }, m)
  | .testExit =>
    some (.silent, { r with line := if r.nWcmdExit = exitCmd then .exit else .readCmd1 }, m)
  | .readCmd1 =>
    let w := M_In16 m nWcmd1Addr
    some (.read nWcmd1Addr w, { r with nWcmd1 := w, line := .testCmd1 }, m)
  | .testCmd1 =>
    some (.silent, { r with line := if r.nWcmd1 = allowMoveCmd1 then .readsecond else .main }, m)
  | .readsecond =>
    let w := M_In16 m nWcmd2Addr
    some (.read nWcmd2Addr w, { r with nWcmd2 := w, line := .testCmd2 }, m)
  | .testCmd2 =>
    some (.silent,
      { r with line := if r.nWcmd2 = allowMoveCmd2 then .readMoveParams else .main }, m)
  | .readMoveParams =>
    let w := M_In16 m nWmovTypeAddr
    some (.read nWmovTypeAddr w, { r with nWmoveType := w, line := .readSource }, m)
  | .readSource =>
    let w := M_In16 m nWmovSourceAddr
    some (.read nWmovSourceAddr w, { r with nWmovSource := w, line := .readDest }, m)
  | .readDest =>
    let w := M_In16 m nWmovDestAddr
    some (.read nWmovDestAddr w, { r with nWmovDest := w, line := .testType }, m)
  | .testType =>
    if r.nWmoveType = normalMove then
      some (.start r.params, { r with line := .motion startNormalMove }, m)
    else if r.nWmoveType = hitMove then
      some (.start r.params, { r with line := .motion startHitMove }, m)
    else some (.silent, { r with line := .exit }, m)
  | .motion (st :: todo) =>
    some ((st.run r).1, { (st.run r).2 with line := .motion todo }, m)
  | .motion [] => some (.ready, { r with line := .waitforpc }, M_Out16 m moveReady)
  | .waitforpc =>
    let w := M_In16 m nWcmd1Addr
    some (.read nWcmd1Addr w, { r with nWcmdClrReady := w, line := .testAck }, m)
  | .testAck =>
    some (.silent,
      { r with line := if r.nWcmdClrReady = readyClearCmd then .unready else .waitforpc }, m)
  | .unready => some (.unready, { r with line := .main }, M_Out m false)
  | .exit => some (.silent, { r with servo := false, line := .ended }, m)
  | .ended => none

/-- The robot program started again from its first line. Its variables keep their values until
the initialisation sets them. -/
def Robot.restart (r : Robot) : Robot := { r with line := .init initialisation }

/-! ## The lines and the arm -/

/-- The robot has gone to `pObs` and to nowhere else since. -/
def Robot.Home (r : Robot) : Prop :=
  match r.line with
  | .mainDly | .readExit | .testExit | .readCmd1 | .testCmd1 | .readsecond | .testCmd2
  | .readMoveParams | .readSource | .readDest | .testType | .exit | .ended => True
  | _ => False

/-- The robot is at line 62 to 102. -/
def Robot.InMotion (r : Robot) : Prop := ∃ todo, r.line = .motion todo

/-- What a line does to the arm and to the count of the motions. -/
inductive Robot.Acts (r : Robot) : Event → Robot → Prop
  | stmt {st : Stmt} {todo : List Stmt} : r.line = .motion (st :: todo) →
      r.Acts (st.run r).1 { (st.run r).2 with line := .motion todo }
  | done : r.line = .motion [] → r.Acts .ready { r with line := .waitforpc }
  | normal : r.line = .testType → r.nWmoveType = normalMove →
      r.Acts (.start r.params) { r with line := .motion startNormalMove }
  | hit : r.line = .testType → r.nWmoveType = hitMove → r.nWmoveType ≠ normalMove →
      r.Acts (.start r.params) { r with line := .motion startHitMove }
  | home : r.line = .main → r.Acts (.arm .movObs) { r with line := .mainDly }
  | other {e : Event} {r' : Robot} : e.arm? = none → e.Plain → ¬ r.InMotion → ¬ r'.InMotion →
      (r'.Home → r.Home) → r.Acts e r'

theorem robot_acts {r r' : Robot} {m m' : Mem} {e : Event} (h : r.step m = some (e, r', m')) :
    r.Acts e r' := by
  have hno : ∀ {r : Robot} {l : Line}, r.line = l → (∀ todo, l ≠ .motion todo) →
      ¬ r.InMotion := by
    rintro r l rfl hl ⟨todo, ht⟩
    exact hl todo ht
  cases hl : r.line
  case motion todo =>
    cases todo with
    | nil =>
      simp only [Robot.step, hl, Option.some.injEq, Prod.mk.injEq] at h
      obtain ⟨rfl, rfl, -⟩ := h
      exact .done hl
    | cons st todo =>
      simp only [Robot.step, hl, Option.some.injEq, Prod.mk.injEq] at h
      obtain ⟨rfl, rfl, -⟩ := h
      exact .stmt hl
  case testType =>
    simp only [Robot.step, hl] at h
    by_cases hn : r.nWmoveType = normalMove
    · simp only [if_pos hn, Option.some.injEq, Prod.mk.injEq] at h
      obtain ⟨rfl, rfl, -⟩ := h
      exact .normal hl hn
    · by_cases hh : r.nWmoveType = hitMove
      · simp only [if_neg hn, if_pos hh, Option.some.injEq, Prod.mk.injEq] at h
        obtain ⟨rfl, rfl, -⟩ := h
        exact .hit hl hh hn
      · simp only [if_neg hn, if_neg hh, Option.some.injEq, Prod.mk.injEq] at h
        obtain ⟨rfl, rfl, -⟩ := h
        exact .other rfl ⟨rfl, rfl, by simp⟩ (hno hl (by simp)) (hno rfl (by simp))
          (fun _ => by simp [Robot.Home, hl])
  case main =>
    simp only [Robot.step, hl, Option.some.injEq, Prod.mk.injEq] at h
    obtain ⟨rfl, rfl, -⟩ := h
    exact .home hl
  case testAck =>
    simp only [Robot.step, hl, Option.some.injEq, Prod.mk.injEq] at h
    obtain ⟨rfl, rfl, -⟩ := h
    by_cases hc : r.nWcmdClrReady = readyClearCmd
    · exact .other rfl ⟨rfl, rfl, by simp⟩ (hno hl (by simp)) (hno rfl (by simp [hc]))
        (fun hx => by simp [Robot.Home, hc] at hx)
    · exact .other rfl ⟨rfl, rfl, by simp⟩ (hno hl (by simp)) (hno rfl (by simp [hc]))
        (fun hx => by simp [Robot.Home, hc] at hx)
  case init todo =>
    cases todo <;> simp only [Robot.step, hl, Option.some.injEq, Prod.mk.injEq] at h <;>
      obtain ⟨rfl, rfl, -⟩ := h <;>
      exact .other rfl ⟨rfl, rfl, by simp⟩ (hno hl (by simp)) (hno rfl (by simp))
        (fun hx => hx.elim)
  all_goals
    simp only [Robot.step, hl, Option.some.injEq, Prod.mk.injEq, reduceCtorEq] at h
  all_goals
    obtain ⟨rfl, rfl, -⟩ := h
    refine .other rfl ⟨rfl, rfl, by simp⟩ (hno hl (by simp)) (hno rfl ?_) ?_
  all_goals
    simp only [Robot.Home, hl]
  all_goals
    try split
  all_goals simp

end robotchess
