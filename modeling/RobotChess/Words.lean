-- The words that the PC and the robot share: registers 540 to 545 that the PC
-- writes and the robot reads, and register 1040, the output word of the robot.
-- The names are the ones of types.h, consts.h and robotchess_modbus.prg.
import Mathlib.Tactic.Common

namespace robotchess

/-- A word of the PLC, `uint16_t` in consts.h. -/
abbrev REG16 := BitVec 16

/-! ## The constants of the PC -/

/-- `CMD` in types.h. -/
inductive CMD
  | CMD_ALLOW_MOVE_1
  | CMD_ALLOW_MOVE_2
  | CMD_EXIT
  | CMD_CLR_READY
  | CMD_READY
  deriving DecidableEq, Repr

/-- The cast `(REG16) cmd`. -/
def CMD.word : CMD → REG16
  | .CMD_ALLOW_MOVE_1 => 0x5353
  | .CMD_ALLOW_MOVE_2 => 0x1919
  | .CMD_EXIT => 0x3333
  | .CMD_CLR_READY => 0x2
  | .CMD_READY => 0x457

/-- `MOVE_TYPE` in types.h. A C enum holds any int, so a type is an `Int`. -/
def NORMAL_MOVE : Int := 0x21

def HIT_MOVE : Int := 0xAD

/-- `MOVE` in types.h. -/
structure MOVE where
  source : Int
  dest : Int
  type : Int
  deriving DecidableEq, Repr

/-- `MEMADDR` in consts.h: registers 540 to 545. -/
inductive MEMADDR
  | ADDR_CMD_1
  | ADDR_CMD_2
  | ADDR_MOVESOURCE
  | ADDR_MOVEDEST
  | ADDR_MOVETYPE
  | ADDR_CMD_EXIT
  deriving DecidableEq, Repr

/-! ## The constants of the robot -/

def allowMoveCmd1 : REG16 := 21331
def allowMoveCmd2 : REG16 := 6425
def exitCmd : REG16 := 13107
def normalMove : REG16 := 33
def hitMove : REG16 := 173
def readyClearCmd : REG16 := 2
def moveReady : REG16 := 1111

/-- The bit addresses of the words of the robot. -/
def nWcmd1Addr : Nat := 10800
def nWcmd2Addr : Nat := 10816
def nWmovSourceAddr : Nat := 10832
def nWmovDestAddr : Nat := 10848
def nWmovTypeAddr : Nat := 10864
def nWcmdExitAddr : Nat := 10880

/-! ## The shared words -/

/-- The words that the PLC relays. The PC writes the first six, and the robot writes `ready`. -/
structure Mem where
  cmd1 : REG16
  cmd2 : REG16
  source : REG16
  dest : REG16
  type : REG16
  exit : REG16
  ready : REG16
  deriving DecidableEq, Repr

/-- Every word is 0. -/
def Mem.zero : Mem := ⟨0, 0, 0, 0, 0, 0, 0⟩

/-- A write of the PC to one register. -/
def Mem.write (m : Mem) : MEMADDR → REG16 → Mem
  | .ADDR_CMD_1, w => { m with cmd1 := w }
  | .ADDR_CMD_2, w => { m with cmd2 := w }
  | .ADDR_MOVESOURCE, w => { m with source := w }
  | .ADDR_MOVEDEST, w => { m with dest := w }
  | .ADDR_MOVETYPE, w => { m with type := w }
  | .ADDR_CMD_EXIT, w => { m with exit := w }

/-- The word that a register holds. -/
def Mem.reg (m : Mem) : MEMADDR → REG16
  | .ADDR_CMD_1 => m.cmd1
  | .ADDR_CMD_2 => m.cmd2
  | .ADDR_MOVESOURCE => m.source
  | .ADDR_MOVEDEST => m.dest
  | .ADDR_MOVETYPE => m.type
  | .ADDR_CMD_EXIT => m.exit

/-- The input word of the robot at a bit address. The PLC relays register `540 + k` to the
16 bits from `10800 + 16 * k`, and an address that nothing is relayed to reads 0. -/
def M_In16 (m : Mem) (bit : Nat) : REG16 :=
  if bit = nWcmd1Addr then m.cmd1
  else if bit = nWcmd2Addr then m.cmd2
  else if bit = nWmovSourceAddr then m.source
  else if bit = nWmovDestAddr then m.dest
  else if bit = nWmovTypeAddr then m.type
  else if bit = nWcmdExitAddr then m.exit
  else 0

/-- `M_Out16(nWcmd1Addr) = w` sets the output word that register 1040 shows. -/
def M_Out16 (m : Mem) (w : REG16) : Mem := { m with ready := w }

/-- `M_Out(nWcmd1Addr) = b` sets only the lowest bit of that word. -/
def M_Out (m : Mem) (b : Bool) : Mem :=
  { m with ready := if b then m.ready ||| 1 else m.ready &&& ~~~1 }

@[simp] theorem M_In16_cmd1 (m : Mem) : M_In16 m nWcmd1Addr = m.cmd1 := rfl
@[simp] theorem M_In16_cmd2 (m : Mem) : M_In16 m nWcmd2Addr = m.cmd2 := rfl
@[simp] theorem M_In16_source (m : Mem) : M_In16 m nWmovSourceAddr = m.source := rfl
@[simp] theorem M_In16_dest (m : Mem) : M_In16 m nWmovDestAddr = m.dest := rfl
@[simp] theorem M_In16_type (m : Mem) : M_In16 m nWmovTypeAddr = m.type := rfl
@[simp] theorem M_In16_exit (m : Mem) : M_In16 m nWcmdExitAddr = m.exit := rfl

@[simp] theorem write_ready (m : Mem) (a : MEMADDR) (w : REG16) :
    (m.write a w).ready = m.ready := by
  cases a <;> rfl

@[simp] theorem reg_write_self (m : Mem) (a : MEMADDR) (w : REG16) : (m.write a w).reg a = w := by
  cases a <;> rfl

theorem reg_write_other (m : Mem) {a b : MEMADDR} (w : REG16) (h : b ≠ a) :
    (m.write a w).reg b = m.reg b := by
  cases a <;> cases b <;> first | rfl | exact absurd rfl h

/-- A zero leaves each word that is 0 as it is. -/
theorem write_zero (m : Mem) (a : MEMADDR) :
    (m.cmd1 = 0 → (m.write a 0).cmd1 = 0) ∧ (m.cmd2 = 0 → (m.write a 0).cmd2 = 0) ∧
      (m.exit = 0 → (m.write a 0).exit = 0) := by
  cases a <;> simp [Mem.write]

/-! ## The two programs agree on the words -/

theorem words_agree :
    CMD.word .CMD_ALLOW_MOVE_1 = allowMoveCmd1 ∧ CMD.word .CMD_ALLOW_MOVE_2 = allowMoveCmd2 ∧
      CMD.word .CMD_EXIT = exitCmd ∧ CMD.word .CMD_CLR_READY = readyClearCmd ∧
      CMD.word .CMD_READY = moveReady := by
  decide

@[simp] theorem zero_ne_allow1 : 0#16 ≠ allowMoveCmd1 := by decide
@[simp] theorem zero_ne_allow2 : 0#16 ≠ allowMoveCmd2 := by decide
@[simp] theorem zero_ne_exit : 0#16 ≠ exitCmd := by decide
@[simp] theorem clrReady_ne_allow1 : readyClearCmd ≠ allowMoveCmd1 := by decide
@[simp] theorem allow1_ne_clrReady : allowMoveCmd1 ≠ readyClearCmd := by decide

/-- Each command that stands in `m'` stood in `m`. -/
structure SetsNothing (m m' : Mem) : Prop where
  allow1 : m'.cmd1 = allowMoveCmd1 → m.cmd1 = allowMoveCmd1
  allow2 : m'.cmd2 = allowMoveCmd2 → m.cmd2 = allowMoveCmd2
  exit : m'.exit = exitCmd → m.exit = exitCmd

/-- A word that is no command sets none. -/
theorem write_sets_nothing (m : Mem) (a : MEMADDR) {w : REG16} (h1 : w ≠ allowMoveCmd1)
    (h2 : w ≠ allowMoveCmd2) (h3 : w ≠ exitCmd) : SetsNothing m (m.write a w) := by
  cases a
  case ADDR_CMD_1 => exact ⟨fun h => absurd h h1, id, id⟩
  case ADDR_CMD_2 => exact ⟨id, fun h => absurd h h2, id⟩
  case ADDR_CMD_EXIT => exact ⟨id, id, fun h => absurd h h3⟩
  all_goals exact ⟨id, id, id⟩

theorem zero_sets_nothing (m : Mem) (a : MEMADDR) : SetsNothing m (m.write a 0) := by
  apply write_sets_nothing <;> decide

theorem clrReady_sets_nothing (m : Mem) (a : MEMADDR) :
    SetsNothing m (m.write a readyClearCmd) := by
  apply write_sets_nothing <;> decide

/-! ## The parameters of a move -/

/-- The three words of a move, as the robot latches them. -/
structure Params where
  type : REG16
  source : REG16
  dest : REG16
  deriving DecidableEq, Repr

/-- The words that a move asks the robot to latch: its type and its two squares, modulo 2^16. -/
def MOVE.words (m : MOVE) : Params :=
  ⟨BitVec.ofInt 16 m.type, BitVec.ofInt 16 m.source, BitVec.ofInt 16 m.dest⟩

/-- The three parameter registers. -/
def Mem.params (m : Mem) : Params := ⟨m.type, m.source, m.dest⟩

/-- A move with one of the two types, and with squares of the board. -/
def MOVE.Valid (m : MOVE) : Prop :=
  (m.type = NORMAL_MOVE ∨ m.type = HIT_MOVE) ∧
    (1 ≤ m.source ∧ m.source ≤ 64) ∧ (1 ≤ m.dest ∧ m.dest ≤ 64)

instance (m : MOVE) : Decidable m.Valid := inferInstanceAs (Decidable (_ ∧ _))

/-- A type word that the robot knows. -/
def Known (w : REG16) : Prop := w = normalMove ∨ w = hitMove

instance (w : REG16) : Decidable (Known w) := inferInstanceAs (Decidable (_ ∨ _))

theorem MOVE.Valid.known {m : MOVE} (h : m.Valid) : Known m.words.type := by
  rcases h.1 with h | h
  · exact Or.inl (by rw [MOVE.words, h]; rfl)
  · exact Or.inr (by rw [MOVE.words, h]; rfl)

end robotchess
