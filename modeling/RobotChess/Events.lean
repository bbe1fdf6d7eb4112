-- What an observer of the cell can see: the steps of the PC driver and of the
-- robot program, as events. A trace is a list of events, oldest first.
import RobotChess.Words

namespace robotchess

/-- A call of the driver: `robot_connect`, `modbusClearCommand`, `robot_sendMove` or
`robot_sendCmd`. -/
inductive Call
  | connect
  | clear
  | move (m : MOVE)
  | cmd (c : CMD)
  deriving DecidableEq, Repr

/-- A command to the arm or to the gripper. A goal is a number of palette 1. -/
inductive ArmCmd
  | movObs
  | mvsOver (goal : REG16)
  | mvs (goal : REG16)
  | mvsDrop
  | hOpen
  | hClose
  deriving DecidableEq, Repr

inductive Event
  -- The PC enters a driver function.
  | call (c : Call)
  -- `modbus_connect` answers.
  | connected (ok : Bool)
  -- A write to a register takes effect.
  | write (a : MEMADDR) (w : REG16)
  -- A write to a register fails and has no effect.
  | lost (a : MEMADDR) (w : REG16)
  -- A read of register 1040 gives its word, or fails.
  | answer (w : Option REG16)
  -- The driver function returns.
  | ret (c : Call) (b : Bool)
  -- The robot program starts again from its first line.
  | restart
  -- The robot reads an input word.
  | read (bit : Nat) (w : REG16)
  | arm (c : ArmCmd)
  -- The robot jumps to a motion with these words latched.
  | start (p : Params)
  -- Line 102: the robot has carried out the motion, and says so.
  | ready
  -- Line 107: the robot takes the ready signal back.
  | unready
  -- A step inside the robot program.
  | silent
  deriving DecidableEq, Repr

/-! ## What a trace holds -/

def Event.start? : Event → Option Params
  | .start p => some p
  | _ => none

def Event.call? : Event → Option Call
  | .call c => some c
  | _ => none

def Event.arm? : Event → Option ArmCmd
  | .arm c => some c
  | _ => none

def Call.move? : Call → Option MOVE
  | .move m => some m
  | _ => none

/-- The words latched for the motions that started, oldest first. -/
def starts (tr : List Event) : List Params := tr.filterMap Event.start?

/-- The number of motions that the robot carried out. -/
def finished (tr : List Event) : Nat := tr.count .ready

/-- The driver calls, oldest first. -/
def calls (tr : List Event) : List Call := tr.filterMap Event.call?

/-- The moves that `robot_sendMove` was called with, oldest first. -/
def moves (tr : List Event) : List MOVE := (calls tr).filterMap Call.move?

@[simp] theorem starts_nil : starts [] = [] := rfl
@[simp] theorem finished_nil : finished [] = 0 := rfl
@[simp] theorem calls_nil : calls [] = [] := rfl
@[simp] theorem moves_nil : moves [] = [] := rfl

@[simp] theorem starts_append (tr₁ tr₂ : List Event) :
    starts (tr₁ ++ tr₂) = starts tr₁ ++ starts tr₂ := by
  simp [starts]

@[simp] theorem finished_append (tr₁ tr₂ : List Event) :
    finished (tr₁ ++ tr₂) = finished tr₁ + finished tr₂ := by
  simp [finished]

@[simp] theorem calls_append (tr₁ tr₂ : List Event) :
    calls (tr₁ ++ tr₂) = calls tr₁ ++ calls tr₂ := by
  simp [calls]

@[simp] theorem moves_append (tr₁ tr₂ : List Event) :
    moves (tr₁ ++ tr₂) = moves tr₁ ++ moves tr₂ := by
  simp [moves]

/-- An event that is no start, no call and no `ready`. -/
def Event.Plain (e : Event) : Prop := e.start? = none ∧ e.call? = none ∧ e ≠ .ready

/-- A plain event adds nothing to what a trace holds. -/
theorem Event.Plain.snoc {e : Event} (h : e.Plain) (tr : List Event) :
    starts (tr ++ [e]) = starts tr ∧ finished (tr ++ [e]) = finished tr ∧
      calls (tr ++ [e]) = calls tr ∧ moves (tr ++ [e]) = moves tr := by
  obtain ⟨hs, hc, hr⟩ := h
  have hcount : List.count .ready [e] = 0 := List.count_eq_zero.mpr (by simpa using Ne.symm hr)
  simp [starts, finished, calls, moves, hs, hc, hcount]

@[simp] theorem starts_start (p : Params) : starts [.start p] = [p] := rfl
@[simp] theorem starts_ready : starts [.ready] = [] := rfl
@[simp] theorem finished_start (p : Params) : finished [.start p] = 0 := rfl
@[simp] theorem starts_call (c : Call) : starts [.call c] = [] := rfl
@[simp] theorem finished_call (c : Call) : finished [.call c] = 0 := rfl
@[simp] theorem finished_ready : finished [.ready] = 1 := rfl

end robotchess
