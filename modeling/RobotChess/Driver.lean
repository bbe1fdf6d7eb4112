-- The PC driver, modbus_driver.c. Each function is the list of the Modbus
-- operations that it issues, and the driver runs them one by one. The delay loops
-- and the prints of the source take no step.
import RobotChess.Events

namespace robotchess

/-! ## The driver functions -/

/-- One Modbus operation of a driver function, and what the function does with its result. -/
inductive Act
  -- `modbus_connect`, where -1 makes the function return false
  | connect
  -- a register write with its result dropped
  | write (a : MEMADDR) (w : REG16)
  -- a register write where -1 makes the function return false
  | writeOr (a : MEMADDR) (w : REG16)
  -- `while (ans != CMD_READY)` around a read of register 1040, where -1 returns false
  | poll
  -- `return false` with no operation
  | fail
  deriving DecidableEq, Repr

/-- `robot_connect`, lines 13 to 33. -/
def robot_connect : List Act :=
  [.connect, .write .ADDR_CMD_1 0, .write .ADDR_CMD_2 0, .write .ADDR_MOVESOURCE 0,
    .write .ADDR_MOVEDEST 0, .write .ADDR_MOVETYPE 0, .write .ADDR_CMD_EXIT 0]

/-- `robot_sendCmd`, lines 51 to 84: the register that a command goes to, or none for an
invalid command. -/
def robot_sendCmd (cmd : CMD) : Option MEMADDR :=
  if cmd = .CMD_CLR_READY then some .ADDR_CMD_1
  else if cmd = .CMD_EXIT then some .ADDR_CMD_EXIT
  else if cmd = .CMD_ALLOW_MOVE_1 then some .ADDR_CMD_1
  else if cmd = .CMD_ALLOW_MOVE_2 then some .ADDR_CMD_2
  else none

/-- `robot_sendCmd(cmd);` with its result dropped. -/
def sendCmd (cmd : CMD) : List Act :=
  match robot_sendCmd cmd with
  | some a => [.write a cmd.word]
  | none => []

/-- `return robot_sendCmd(cmd);` -/
def sendCmdOr (cmd : CMD) : List Act :=
  match robot_sendCmd cmd with
  | some a => [.writeOr a cmd.word]
  | none => [.fail]

/-- `regTemp` of `robot_sendMove`, lines 94 to 98, with the casts `(REG16)`. -/
def regTemp (move : MOVE) : List REG16 :=
  [BitVec.ofInt 16 move.source, BitVec.ofInt 16 move.dest, BitVec.ofInt 16 move.type]

/-- The three words of `regTemp` are the words that the move asks the robot to latch. -/
theorem regTemp_eq (move : MOVE) :
    regTemp move = [move.words.source, move.words.dest, move.words.type] := rfl

/-- `robot_sendMove`, lines 96 to 142. The server writes the three words of
`modbus_write_registers` in the order of their addresses (`modbus_reply` in modbus.c), so the
robot may come in between. With no step of the robot in between, the write is atomic. -/
def robot_sendMove (move : MOVE) : List Act :=
  sendCmd .CMD_ALLOW_MOVE_1 ++
    List.zipWith Act.writeOr [.ADDR_MOVESOURCE, .ADDR_MOVEDEST, .ADDR_MOVETYPE] (regTemp move) ++
    sendCmd .CMD_ALLOW_MOVE_2 ++
    [Act.poll, .write .ADDR_CMD_1 0, .write .ADDR_CMD_2 0] ++
    sendCmd .CMD_CLR_READY

/-- `modbusClearCommand`, lines 149 to 155. -/
def modbusClearCommand : List Act :=
  [Act.write .ADDR_CMD_1 0, .write .ADDR_CMD_2 0] ++ sendCmd .CMD_CLR_READY

def Call.body : Call → List Act
  | .connect => robot_connect
  | .clear => modbusClearCommand
  | .move m => robot_sendMove m
  | .cmd c => sendCmdOr c

/-! ## One step of the driver -/

/-- The result of a Modbus operation. A write that returns -1 may still have taken effect. -/
inductive Outcome
  | ok
  | failed (applied : Bool)
  deriving DecidableEq, Repr

def Outcome.applied : Outcome → Bool
  | .ok => true
  | .failed b => b

/-- Where the PC is: outside the driver, before operation `k` of a call, or about to return
false. -/
inductive Driver
  | idle
  | busy (c : Call) (k : Nat)
  | failing (c : Call)
  deriving DecidableEq, Repr

/-- The operation that the driver issues next. -/
def Driver.act : Driver → Option Act
  | .busy c k => c.body[k]?
  | _ => none

/-- A write shows whether it took effect. -/
def writeEvent (o : Outcome) (a : MEMADDR) (w : REG16) : Event :=
  if o.applied then .write a w else .lost a w

/-- The next step of the driver, when its operation has outcome `o` and a read gives `ans`. -/
def Driver.step (d : Driver) (o : Outcome) (ans : REG16) : Option (Event × Driver) :=
  match d with
  | .idle => none
  | .failing c => some (.ret c false, .idle)
  | .busy c k =>
    match c.body[k]? with
    | none => some (.ret c true, .idle)
    | some .connect =>
      if o = .ok then some (.connected true, .busy c (k + 1))
      else some (.connected false, .failing c)
    | some (.write a w) => some (writeEvent o a w, .busy c (k + 1))
    | some (.writeOr a w) =>
      some (writeEvent o a w, if o = .ok then .busy c (k + 1) else .failing c)
    | some .poll =>
      if o = .ok then
        some (.answer (some ans), if ans = CMD.word .CMD_READY then .busy c (k + 1) else .busy c k)
      else some (.answer none, .failing c)
    | some .fail => some (.ret c false, .idle)

/-- The shared words after an event of the PC. -/
def Mem.after (m : Mem) : Event → Mem
  | .write a w => m.write a w
  | _ => m

theorem after_writeEvent (m : Mem) (o : Outcome) (a : MEMADDR) (w : REG16) :
    m.after (writeEvent o a w) = if o.applied then m.write a w else m := by
  unfold writeEvent
  split <;> rfl

/-- What holds after a write that may fail: it holds with the write and without it. -/
theorem after_write (P : Mem → Prop) {m : Mem} {a : MEMADDR} {w : REG16} (o : Outcome)
    (h1 : P (m.write a w)) (h2 : P m) : P (m.after (writeEvent o a w)) := by
  rw [after_writeEvent]
  split
  · exact h1
  · exact h2

theorem writeEvent_plain (o : Outcome) (a : MEMADDR) (w : REG16) : (writeEvent o a w).Plain := by
  unfold writeEvent Event.Plain
  split <;> simp [Event.start?, Event.call?]

/-! ## The steps of each driver function -/

/-- The register that the zero write number `k` of `robot_connect` goes to. -/
def zeroAddr : Nat → Option MEMADDR
  | 1 => some .ADDR_CMD_1
  | 2 => some .ADDR_CMD_2
  | 3 => some .ADDR_MOVESOURCE
  | 4 => some .ADDR_MOVEDEST
  | 5 => some .ADDR_MOVETYPE
  | 6 => some .ADDR_CMD_EXIT
  | _ => none

/-- The parameter word that operation `k` of `robot_sendMove` writes. -/
def wordAt (p : Params) : Nat → Option (MEMADDR × REG16)
  | 1 => some (.ADDR_MOVESOURCE, p.source)
  | 2 => some (.ADDR_MOVEDEST, p.dest)
  | 3 => some (.ADDR_MOVETYPE, p.type)
  | _ => none

/-- The tail that `robot_sendMove` and `modbusClearCommand` share starts at operation `k`. -/
def TailAt (c : Call) (k : Nat) : Prop := (c = .clear ∧ k = 0) ∨ ∃ m, c = .move m ∧ k = 6

@[simp] theorem tailAt_move {m : MOVE} {k : Nat} : TailAt (.move m) k ↔ k = 6 := by
  simp [TailAt]

theorem zero_type {k : Nat} {a : MEMADDR} (h : zeroAddr k = some a) (hk : k ≠ 5) (m : Mem) :
    (m.write a 0).type = m.type := by
  unfold zeroAddr at h
  split at h <;> cases h
  case h_5 => exact absurd rfl hk
  all_goals rfl

/-- A parameter word changes no command word. -/
theorem word_write {q : Params} {k : Nat} {a : MEMADDR} {w : REG16}
    (h : wordAt q k = some (a, w)) (m : Mem) :
    (m.write a w).cmd1 = m.cmd1 ∧ (m.write a w).cmd2 = m.cmd2 ∧ (m.write a w).exit = m.exit := by
  unfold wordAt at h
  split at h <;> cases h <;> exact ⟨rfl, rfl, rfl⟩

theorem word_sets_nothing {q : Params} {k : Nat} {a : MEMADDR} {w : REG16}
    (h : wordAt q k = some (a, w)) (m : Mem) : SetsNothing m (m.write a w) := by
  obtain ⟨h1, h2, h3⟩ := word_write h m
  exact ⟨h1.symm.trans, h2.symm.trans, h3.symm.trans⟩

theorem word_type {q : Params} {k : Nat} {a : MEMADDR} {w : REG16}
    (h : wordAt q k = some (a, w)) (m : Mem) :
    (m.write a w).type = m.type ∨ (m.write a w).type = q.type := by
  unfold wordAt at h
  split at h <;> cases h
  · exact Or.inl rfl
  · exact Or.inl rfl
  · exact Or.inr rfl

theorem word_bounds {q : Params} {k : Nat} {a : MEMADDR} {w : REG16}
    (h : wordAt q k = some (a, w)) : 1 ≤ k ∧ k ≤ 3 := by
  unfold wordAt at h
  split at h <;> cases h <;> omega

/-- The steps of the driver, one constructor for each operation of the source. -/
inductive Driver.Step (o : Outcome) (ans : REG16) : Driver → Event → Driver → Prop
  | connected : o = .ok →
      Step o ans (.busy .connect 0) (.connected true) (.busy .connect 1)
  | refused : o ≠ .ok →
      Step o ans (.busy .connect 0) (.connected false) (.failing .connect)
  | zero {k : Nat} {a : MEMADDR} : zeroAddr k = some a →
      Step o ans (.busy .connect k) (writeEvent o a 0) (.busy .connect (k + 1))
  | allow1 {m : MOVE} :
      Step o ans (.busy (.move m) 0) (writeEvent o .ADDR_CMD_1 allowMoveCmd1) (.busy (.move m) 1)
  | word {m : MOVE} {k : Nat} {a : MEMADDR} {w : REG16} :
      wordAt m.words k = some (a, w) → o = .ok →
      Step o ans (.busy (.move m) k) (.write a w) (.busy (.move m) (k + 1))
  | wordFailed {m : MOVE} {k : Nat} {a : MEMADDR} {w : REG16} :
      wordAt m.words k = some (a, w) → o ≠ .ok →
      Step o ans (.busy (.move m) k) (writeEvent o a w) (.failing (.move m))
  | allow2 {m : MOVE} :
      Step o ans (.busy (.move m) 4) (writeEvent o .ADDR_CMD_2 allowMoveCmd2) (.busy (.move m) 5)
  | answered {m : MOVE} : o = .ok → ans = moveReady →
      Step o ans (.busy (.move m) 5) (.answer (some ans)) (.busy (.move m) 6)
  | notYet {m : MOVE} : o = .ok → ans ≠ moveReady →
      Step o ans (.busy (.move m) 5) (.answer (some ans)) (.busy (.move m) 5)
  | noAnswer {m : MOVE} : o ≠ .ok →
      Step o ans (.busy (.move m) 5) (.answer none) (.failing (.move m))
  | clear1 {c : Call} {k : Nat} : TailAt c k →
      Step o ans (.busy c k) (writeEvent o .ADDR_CMD_1 0) (.busy c (k + 1))
  | clear2 {c : Call} {k : Nat} : TailAt c k →
      Step o ans (.busy c (k + 1)) (writeEvent o .ADDR_CMD_2 0) (.busy c (k + 2))
  | clrReady {c : Call} {k : Nat} : TailAt c k →
      Step o ans (.busy c (k + 2)) (writeEvent o .ADDR_CMD_1 readyClearCmd) (.busy c (k + 3))
  | cmd {c : CMD} {a : MEMADDR} : robot_sendCmd c = some a → o = .ok →
      Step o ans (.busy (.cmd c) 0) (.write a c.word) (.busy (.cmd c) 1)
  | cmdFailed {c : CMD} {a : MEMADDR} : robot_sendCmd c = some a → o ≠ .ok →
      Step o ans (.busy (.cmd c) 0) (writeEvent o a c.word) (.failing (.cmd c))
  | invalid {c : CMD} : robot_sendCmd c = none →
      Step o ans (.busy (.cmd c) 0) (.ret (.cmd c) false) .idle
  | failed {c : Call} : Step o ans (.failing c) (.ret c false) .idle
  | returned {c : Call} {k : Nat} : c.body.length ≤ k →
      Step o ans (.busy c k) (.ret c true) .idle

/-- The write that the driver issues next, in the order of the source. -/
inductive Driver.Writes : Driver → MEMADDR → REG16 → Prop
  | zero {k : Nat} {a : MEMADDR} : zeroAddr k = some a → Writes (.busy .connect k) a 0
  | cmd {c : CMD} {a : MEMADDR} : robot_sendCmd c = some a → Writes (.busy (.cmd c) 0) a c.word
  | allow1 {m : MOVE} : Writes (.busy (.move m) 0) .ADDR_CMD_1 allowMoveCmd1
  | word {m : MOVE} {k : Nat} {a : MEMADDR} {w : REG16} : wordAt m.words k = some (a, w) →
      Writes (.busy (.move m) k) a w
  | allow2 {m : MOVE} : Writes (.busy (.move m) 4) .ADDR_CMD_2 allowMoveCmd2
  | clear1 {c : Call} {k : Nat} : TailAt c k → Writes (.busy c k) .ADDR_CMD_1 0
  | clear2 {c : Call} {k : Nat} : TailAt c k → Writes (.busy c (k + 1)) .ADDR_CMD_2 0
  | clrReady {c : Call} {k : Nat} : TailAt c k →
      Writes (.busy c (k + 2)) .ADDR_CMD_1 readyClearCmd

theorem robot_sendMove_eq (m : MOVE) : robot_sendMove m =
    [.write .ADDR_CMD_1 allowMoveCmd1, .writeOr .ADDR_MOVESOURCE m.words.source,
      .writeOr .ADDR_MOVEDEST m.words.dest, .writeOr .ADDR_MOVETYPE m.words.type,
      .write .ADDR_CMD_2 allowMoveCmd2, .poll, .write .ADDR_CMD_1 0, .write .ADDR_CMD_2 0,
      .write .ADDR_CMD_1 readyClearCmd] := by
  rw [robot_sendMove, regTemp_eq]
  rfl

theorem modbusClearCommand_eq : modbusClearCommand =
    [.write .ADDR_CMD_1 0, .write .ADDR_CMD_2 0, .write .ADDR_CMD_1 readyClearCmd] := rfl

theorem step_connect {k : Nat} {o : Outcome} {ans : REG16} {e : Event} {d : Driver}
    (h : Driver.step (.busy .connect k) o ans = some (e, d)) :
    Driver.Step o ans (.busy .connect k) e d := by
  rcases k with _ | _ | _ | _ | _ | _ | _ | k
  all_goals simp [Driver.step, Call.body, robot_connect] at h
  · split at h
    all_goals obtain ⟨rfl, rfl⟩ := h
    · exact .connected ‹_›
    · exact .refused ‹_›
  all_goals obtain ⟨rfl, rfl⟩ := h
  all_goals first
    | exact .zero rfl
    | exact .returned (by simp [Call.body, robot_connect])

theorem step_clear {k : Nat} {o : Outcome} {ans : REG16} {e : Event} {d : Driver}
    (h : Driver.step (.busy .clear k) o ans = some (e, d)) :
    Driver.Step o ans (.busy .clear k) e d := by
  have ht : TailAt .clear 0 := Or.inl ⟨rfl, rfl⟩
  rcases k with _ | _ | _ | k
  all_goals
    simp [Driver.step, Call.body, modbusClearCommand_eq] at h
    obtain ⟨rfl, rfl⟩ := h
  · exact .clear1 ht
  · exact .clear2 ht
  · exact .clrReady ht
  · exact .returned (by simp [Call.body, modbusClearCommand_eq])

theorem step_word {m : MOVE} {k : Nat} {a : MEMADDR} {w : REG16} {o : Outcome} {ans : REG16}
    {e : Event} {d : Driver} (hw : wordAt m.words k = some (a, w))
    (h : writeEvent o a w = e ∧
      (if o = .ok then .busy (.move m) (k + 1) else .failing (.move m)) = d) :
    Driver.Step o ans (.busy (.move m) k) e d := by
  obtain ⟨rfl, rfl⟩ := h
  split
  · rename_i ho
    subst ho
    exact .word hw rfl
  · exact .wordFailed hw ‹_›

theorem step_move {m : MOVE} {k : Nat} {o : Outcome} {ans : REG16} {e : Event} {d : Driver}
    (h : Driver.step (.busy (.move m) k) o ans = some (e, d)) :
    Driver.Step o ans (.busy (.move m) k) e d := by
  have ht : TailAt (.move m) 6 := Or.inr ⟨m, rfl, rfl⟩
  rcases k with _ | _ | _ | _ | _ | _ | _ | _ | _ | k
  all_goals simp [Driver.step, Call.body, robot_sendMove_eq] at h
  · obtain ⟨rfl, rfl⟩ := h
    exact .allow1
  · exact step_word rfl h
  · exact step_word rfl h
  · exact step_word rfl h
  · obtain ⟨rfl, rfl⟩ := h
    exact .allow2
  · split at h
    · simp only [Option.some.injEq, Prod.mk.injEq] at h
      obtain ⟨rfl, rfl⟩ := h
      split
      · exact .answered ‹_› ‹_›
      · exact .notYet ‹_› ‹_›
    · simp only [Option.some.injEq, Prod.mk.injEq] at h
      obtain ⟨rfl, rfl⟩ := h
      exact .noAnswer ‹_›
  all_goals obtain ⟨rfl, rfl⟩ := h
  · exact .clear1 ht
  · exact .clear2 ht
  · exact .clrReady ht
  · exact .returned (by simp [Call.body, robot_sendMove_eq])

theorem step_cmd {c : CMD} {k : Nat} {o : Outcome} {ans : REG16} {e : Event} {d : Driver}
    (h : Driver.step (.busy (.cmd c) k) o ans = some (e, d)) :
    Driver.Step o ans (.busy (.cmd c) k) e d := by
  cases hc : robot_sendCmd c with
  | none =>
    rcases k with _ | k
    all_goals
      simp [Driver.step, Call.body, sendCmdOr, hc] at h
      obtain ⟨rfl, rfl⟩ := h
    · exact .invalid hc
    · exact .returned (by simp [Call.body, sendCmdOr, hc])
  | some a =>
    rcases k with _ | k
    all_goals
      simp [Driver.step, Call.body, sendCmdOr, hc] at h
      obtain ⟨rfl, rfl⟩ := h
    · split
      · rename_i ho
        subst ho
        exact .cmd hc rfl
      · exact .cmdFailed hc ‹_›
    · exact .returned (by simp [Call.body, sendCmdOr, hc])

/-- Each step of the driver is one of the steps listed above. -/
theorem driver_step {d d' : Driver} {o : Outcome} {ans : REG16} {e : Event}
    (h : d.step o ans = some (e, d')) : Driver.Step o ans d e d' := by
  match d with
  | .idle => cases h
  | .failing c =>
    simp only [Driver.step, Option.some.injEq, Prod.mk.injEq] at h
    obtain ⟨rfl, rfl⟩ := h
    exact .failed
  | .busy .connect k => exact step_connect h
  | .busy .clear k => exact step_clear h
  | .busy (.move m) k => exact step_move h
  | .busy (.cmd c) k => exact step_cmd h

/-- The PC starts no motion and carries out none. -/
theorem Driver.Step.plain {d d' : Driver} {o : Outcome} {ans : REG16} {e : Event}
    (h : Driver.Step o ans d e d') : e.Plain := by
  cases h
  all_goals first
    | exact writeEvent_plain _ _ _
    | exact ⟨rfl, rfl, by simp⟩

theorem writeEvent_ne_ret {o : Outcome} {a : MEMADDR} {w : REG16} {c : Call} {b : Bool} :
    writeEvent o a w ≠ .ret c b := by
  unfold writeEvent
  split <;> simp

/-- A call returns true after its last operation. It returns false after a failure, or at once for
an invalid command. -/
theorem ret_cases {d d' : Driver} {o : Outcome} {ans : REG16} {c : Call} {b : Bool}
    (h : Driver.Step o ans d (.ret c b) d') :
    d' = .idle ∧ ((b = true ∧ ∃ k, d = .busy c k ∧ c.body.length ≤ k) ∨
      (b = false ∧ (d = .failing c ∨ ∃ w, c = .cmd w))) := by
  generalize he : Event.ret c b = e at h
  cases h
  case returned hk =>
    cases he
    exact ⟨rfl, Or.inl ⟨rfl, _, rfl, hk⟩⟩
  case failed =>
    cases he
    exact ⟨rfl, Or.inr ⟨rfl, Or.inl rfl⟩⟩
  case invalid =>
    cases he
    exact ⟨rfl, Or.inr ⟨rfl, Or.inr ⟨_, rfl⟩⟩⟩
  all_goals first
    | cases he
    | exact absurd he.symm writeEvent_ne_ret

theorem ret_true {d d' : Driver} {o : Outcome} {ans : REG16} {c : Call}
    (h : Driver.Step o ans d (.ret c true) d') : ∃ k, d = .busy c k ∧ c.body.length ≤ k := by
  obtain ⟨-, ⟨-, hk⟩ | ⟨hb, -⟩⟩ := ret_cases h
  · exact hk
  · cases hb

theorem ret_false {d d' : Driver} {o : Outcome} {ans : REG16} {c : Call}
    (h : Driver.Step o ans d (.ret c false) d') : d = .failing c ∨ ∃ w, c = .cmd w := by
  obtain ⟨-, ⟨hb, -⟩ | ⟨-, hd⟩⟩ := ret_cases h
  · cases hb
  · exact hd

/-- A step inside a driver function stays in the same call. -/
theorem Driver.Step.same_call {o : Outcome} {ans : REG16} {d d' : Driver} {e : Event}
    (h : Driver.Step o ans d e d') {c : Call} {k : Nat} (hd : d' = .busy c k) :
    ∃ j, d = .busy c j := by
  cases h <;> cases hd <;> exact ⟨_, rfl⟩

/-! ## The parameter words of a call -/

/-- What a call of `robot_sendMove` has written before its operation `k`. -/
structure Written (w : Params) (k : Nat) (m : Mem) : Prop where
  source : 2 ≤ k → m.source = w.source
  dest : 3 ≤ k → m.dest = w.dest
  type : 4 ≤ k → m.type = w.type

theorem written_word {w : Params} {m : Mem} {a : MEMADDR} {v : REG16} {k : Nat}
    (hI : Written w k m) (hk : wordAt w k = some (a, v)) : Written w (k + 1) (m.write a v) := by
  obtain ⟨h1, h2, h3⟩ := hI
  unfold wordAt at hk
  split at hk <;> cases hk
  · exact ⟨fun _ => rfl, by omega, by omega⟩
  · exact ⟨fun _ => h1 (by omega), fun _ => rfl, by omega⟩
  · exact ⟨fun _ => h1 (by omega), fun _ => h2 (by omega), fun _ => rfl⟩

/-- The parameter words stay as they are. -/
theorem Written.of_params {w : Params} {m m' : Mem} {k : Nat} (hI : Written w k m)
    (hp : m'.params = m.params) : Written w k m' := by
  obtain ⟨h1, h2, h3⟩ := hI
  simp only [Mem.params, Params.mk.injEq] at hp
  exact ⟨fun hk => hp.2.1.trans (h1 hk), fun hk => hp.2.2.trans (h2 hk),
    fun hk => hp.1.trans (h3 hk)⟩

/-- From operation 4 on all three words are there. -/
theorem Written.later {w : Params} {m : Mem} {j k : Nat} (hI : Written w j m) (hj : 4 ≤ j) :
    Written w k m :=
  ⟨fun _ => hI.source (by omega), fun _ => hI.dest (by omega), fun _ => hI.type hj⟩

theorem Written.params {w : Params} {m : Mem} {k : Nat} (hI : Written w k m) (hk : 4 ≤ k) :
    m.params = w := by
  simp only [Mem.params, hI.source (by omega), hI.dest (by omega), hI.type hk]

theorem written_pc {mv : MOVE} {m : Mem} {d : Driver} {k : Nat} {o : Outcome} {ans : REG16}
    {e : Event} (hI : ∀ j, d = .busy (.move mv) j → Written mv.words j m)
    (hs : Driver.Step o ans d e (.busy (.move mv) k)) : Written mv.words k (m.after e) := by
  have hsame : ∀ a w j, d = .busy (.move mv) j → 4 ≤ j → (m.write a w).params = m.params →
      Written mv.words k (m.after (writeEvent o a w)) := by
    intro a w j hd hj hp
    apply Written.of_params ((hI j hd).later hj)
    exact after_write (fun m' => m'.params = m.params) o hp rfl
  cases hs
  case allow1 => exact ⟨by omega, by omega, by omega⟩
  case word k a w ho hk => exact written_word (hI _ rfl) hk
  case allow2 => exact hsame _ _ _ rfl (by omega) rfl
  case answered => exact (hI _ rfl).later (by omega)
  case notYet => exact hI _ rfl
  all_goals
    rename_i ht
    obtain rfl := tailAt_move.mp ht
    exact hsame _ _ _ rfl (by omega) rfl

/-! ## The tail of a call -/

/-- What the first `n` operations of the tail have written, when none of them failed. -/
def Cleared (m : Mem) (n : Nat) : Prop := (2 ≤ n → m.cmd2 = 0) ∧ (3 ≤ n → m.cmd1 = readyClearCmd)

/-- The tail of a call that starts at its operation `b`. -/
theorem cleared_pc {c : Call} {b k : Nat} {m : Mem} {d : Driver} {ans : REG16} {e : Event}
    (ht : TailAt c b) (hI : ∀ j, d = .busy c j → Cleared m (j - b))
    (h : Driver.Step .ok ans d e (.busy c k)) : Cleared (m.after e) (k - b) := by
  have hb : ∀ j, TailAt c j → j = b := by
    intro j hj
    rcases ht with ⟨rfl, rfl⟩ | ⟨mv, rfl, rfl⟩
    · rcases hj with ⟨-, rfl⟩ | ⟨mv, hc, -⟩
      · rfl
      · cases hc
    · exact tailAt_move.mp hj
  have hearly : k - b < 2 → Cleared (m.after e) (k - b) := fun _ => ⟨by omega, by omega⟩
  cases h
  case clear1 j hj =>
    obtain rfl := hb _ hj
    exact hearly (by omega)
  case clear2 j hj =>
    obtain rfl := hb _ hj
    exact ⟨fun _ => rfl, by omega⟩
  case clrReady j hj =>
    obtain rfl := hb _ hj
    exact ⟨fun _ => (hI _ rfl).1 (by omega), fun _ => rfl⟩
  case connected => simp [TailAt] at ht
  case zero => simp [TailAt] at ht
  case cmd => simp [TailAt] at ht
  case word hk _ =>
    obtain rfl := tailAt_move.mp ht
    have hk3 := word_bounds hk
    exact hearly (by omega)
  all_goals
    obtain rfl := tailAt_move.mp ht
    exact hearly (by omega)

end robotchess
