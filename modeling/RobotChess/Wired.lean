-- The cell over the wire. Each Modbus function that the driver calls is a request over
-- TCP, the shared words are registers of the server, and the robot program runs at its
-- end. When no call times out and the server gives up no request, this is the cell with
-- its driver.
import RobotChess.Cell
import RobotChess.Remote

open bytes framing runs tables

namespace robotchess

/-! ## The driver functions -/

/-- The values of consts.h. -/
def MEMADDR.register : MEMADDR → Nat
  | .ADDR_CMD_1 => 540
  | .ADDR_CMD_2 => 541
  | .ADDR_MOVESOURCE => 542
  | .ADDR_MOVEDEST => 543
  | .ADDR_MOVETYPE => 544
  | .ADDR_CMD_EXIT => 545

/-- One statement of a driver function. -/
inductive Statement
  | connect
  -- `modbus_write_register` with its result dropped
  | write (a : MEMADDR) (w : REG16)
  -- `modbus_write_register` where -1 makes the function return false
  | writeOr (a : MEMADDR) (w : REG16)
  -- `modbus_write_registers(plc, ADDR_MOVESOURCE, 3, regTemp)`
  | params (p : Params)
  -- the loop around `modbus_read_registers(plc, 1040, 1, &ans)`
  | poll
  | fail
  deriving DecidableEq, Repr

def Call.statements : Call → List Statement
  | .connect => [.connect, .write .ADDR_CMD_1 0, .write .ADDR_CMD_2 0, .write .ADDR_MOVESOURCE 0,
    .write .ADDR_MOVEDEST 0, .write .ADDR_MOVETYPE 0, .write .ADDR_CMD_EXIT 0]
  | .clear => [.write .ADDR_CMD_1 0, .write .ADDR_CMD_2 0,
    .write .ADDR_CMD_1 (CMD.word .CMD_CLR_READY)]
  | .move m => [.write .ADDR_CMD_1 (CMD.word .CMD_ALLOW_MOVE_1),
    .params {
      source := (regTemp m).getD 0 0
      dest := (regTemp m).getD 1 0
      type := (regTemp m).getD 2 0 },
    .write .ADDR_CMD_2 (CMD.word .CMD_ALLOW_MOVE_2), .poll, .write .ADDR_CMD_1 0,
    .write .ADDR_CMD_2 0, .write .ADDR_CMD_1 (CMD.word .CMD_CLR_READY)]
  | .cmd c => match robot_sendCmd c with
    | some a => [.writeOr a c.word]
    | none => [.fail]

/-- The request that a statement sends. -/
def Statement.request : Statement → Option Request
  | .write a w => some (.writeRegister a.register w.toNat)
  | .writeOr a w => some (.writeRegister a.register w.toNat)
  | .params p =>
    some (.writeRegisters (MEMADDR.register .ADDR_MOVESOURCE) [p.source, p.dest, p.type])
  | .poll => some (.readRegisters 1040 1)
  | .connect => none
  | .fail => none

/-- The statement that the driver is at. A driver in `busy c k` is at statement `k` here. -/
def Driver.statement : Driver → Option Statement
  | .busy c k => c.statements[k]?
  | _ => none

/-- Where the driver goes on when a function of the library returns: none for -1, or the word in
`ans`. -/
def Driver.goesOn (d : Driver) (ans : Option REG16) : Driver :=
  match d with
  | .busy c k =>
    match c.statements[k]?, ans with
    | some (.write _ _), _ => .busy c (k + 1)
    | some .poll, some w => if w = CMD.word .CMD_READY then .busy c (k + 1) else .busy c k
    | _, some _ => .busy c (k + 1)
    | _, none => .failing c
  | d => d

/-- What a result leaves in `ans`, which starts as 0. -/
def ansOf : Except Errno Result → Option REG16
  | .ok (.words _ dest) => some (dest.getD 0 0)
  | .ok _ => some 0
  | .error _ => none

/-! ## The wired cell -/

/-- The registers as the shared words. -/
def memOf (registers : List Word) : Mem where
  cmd1 := registers.getD 540 0
  cmd2 := registers.getD 541 0
  source := registers.getD 542 0
  dest := registers.getD 543 0
  type := registers.getD 544 0
  exit := registers.getD 545 0
  ready := registers.getD 1040 0

/-- What an observer of the words sees when the request of a statement is carried out. -/
def Statement.shows (m : Mem) : Statement → List Event
  | .write a w => [.write a w]
  | .writeOr a w => [.write a w]
  | .params p => [.write .ADDR_MOVESOURCE p.source, .write .ADDR_MOVEDEST p.dest,
    .write .ADDR_MOVETYPE p.type]
  | .poll => [.answer (some m.ready)]
  | .connect => []
  | .fail => []

structure Wired where
  driver : Driver
  connection : Connection
  robot : Robot

def Wired.mem (w : Wired) : Mem := memOf w.connection.tables.tab_registers

inductive WiredInput
  | call (c : Call)
  -- The driver calls a function of the library.
  | issues
  -- Something happens on the connection.
  | line (i : ConnectionInput)
  -- `modbus_connect` answers.
  | connects (ok : Bool)
  -- The driver function returns.
  | returns
  | robot

def plcLine : Machine Connection ConnectionInput Moment :=
  connection modbus_tcp_backend MODBUS_TCP_SLAVE MODBUS_TCP_SLAVE

/-- The word of the robot is register 1040. -/
def showReady (c : Connection) (w : REG16) : Connection :=
  { c with tables := { c.tables with tab_registers := c.tables.tab_registers.set 1040 w } }

/-- A step of the wired cell, with what is seen of it in the cell, or none when a call times out.
After a time-out the server answers an older request than the one of the driver's statement. -/
def wired : Machine Wired WiredInput (Option (List Event))
  | w, .call c =>
    if w.driver = .idle then some (some [.call c], { w with driver := .busy c 0 }) else none
  | w, .issues =>
    match w.driver.statement.bind Statement.request with
    | none => none
    | some r =>
      match plcLine w.connection (.calls r) with
      | none => none
      | some (.rejected _, _) => some (some [], { w with driver := w.driver.goesOn none })
      | some (_, c) => some (some [], { w with connection := c })
  | _, .line (.calls _) => none
  | _, .line (.sets _) => none
  | w, .line i =>
    match plcLine w.connection i with
    | none => none
    | some (.replied, c) =>
      some (some ((w.driver.statement.map (Statement.shows w.mem)).getD []),
        { w with connection := c })
    | some (.returned res, c) =>
      some (some [], { w with driver := w.driver.goesOn (ansOf res), connection := c })
    | some (.failed _, c) => some (none, { w with driver := w.driver.goesOn none, connection := c })
    | some (_, c) => some (some [], { w with connection := c })
  | w, .connects ok =>
    if w.driver.statement = some .connect then
      if ok then
        some (some [.connected true], { w with
          driver := w.driver.goesOn (some 0)
          connection := .start modbus_tcp_backend w.connection.t_id w.connection.tables })
      else some (some [.connected false], { w with driver := w.driver.goesOn none })
    else none
  | w, .returns =>
    match w.driver with
    | .idle => none
    | .failing c => some (some [.ret c false], { w with driver := .idle })
    | .busy c k =>
      match c.statements[k]? with
      | none => some (some [.ret c true], { w with driver := .idle })
      | some .fail => some (some [.ret c false], { w with driver := .idle })
      | some _ => none
  | w, .robot => (w.robot.step w.mem).map fun (e, r, m) =>
    (some [e], { w with robot := r, connection := showReady w.connection m.ready })

/-- What is seen in the cell. -/
def shown (o : Option (List Event)) : List Event := o.getD []

/-- No call times out, and the server gives up no request that it has begun to read. -/
def inTime : Guard Wired WiredInput (Option (List Event)) := fun _ w i =>
  ∀ j, i = .line j → patient [] w.connection j

instance (tr : List (Option (List Event))) (w : Wired) (i : WiredInput) :
    Decidable (inTime tr w i) :=
  match i with
  | .line i => decidable_of_iff (patient [] w.connection i) (by simp [inTime])
  | .call _ | .issues | .connects _ | .returns | .robot => isTrue (by simp [inTime])

/-! ## Statements and operations -/

/-- The operations of the cell that a statement stands for. -/
def Statement.acts : Statement → List Act
  | .connect => [.connect]
  | .write a w => [.write a w]
  | .writeOr a w => [.writeOr a w]
  | .params p => [.writeOr .ADDR_MOVESOURCE p.source, .writeOr .ADDR_MOVEDEST p.dest,
    .writeOr .ADDR_MOVETYPE p.type]
  | .poll => [.poll]
  | .fail => [.fail]

theorem acts_body (c : Call) : c.statements.flatMap Statement.acts = c.body := by
  cases c with
  | cmd c =>
    simp only [Call.statements, Call.body, sendCmdOr]
    cases robot_sendCmd c <;> rfl
  | _ => rfl

/-- The number of operations before statement `k`. -/
def Call.place (c : Call) (k : Nat) : Nat := ((c.statements.take k).flatMap Statement.acts).length

/-- The driver, with its operations counted. -/
def Driver.inCell : Driver → Driver
  | .busy c k => .busy c (c.place k)
  | d => d

section
variable {c : Call} {k : Nat} {st : Statement}

theorem body_split (h : c.statements[k]? = some st) : c.body =
    (c.statements.take k).flatMap Statement.acts ++
      (st.acts ++ (c.statements.drop (k + 1)).flatMap Statement.acts) := by
  obtain ⟨hk, rfl⟩ := List.getElem?_eq_some_iff.mp h
  rw [← acts_body, ← List.flatMap_cons, List.getElem_cons_drop, ← List.flatMap_append,
    List.take_append_drop]

theorem body_at (h : c.statements[k]? = some st) {j : Nat} (hj : j < st.acts.length) :
    c.body[c.place k + j]? = st.acts[j]? := by
  rw [body_split h, Call.place, List.getElem?_append_right (Nat.le_add_right _ _),
    Nat.add_sub_cancel_left, List.getElem?_append_left hj]

theorem place_succ (h : c.statements[k]? = some st) :
    c.place (k + 1) = c.place k + st.acts.length := by
  rw [Call.place, List.take_add_one, h, List.flatMap_append, List.length_append]
  simp [Call.place]

theorem body_end (h : c.statements[k]? = none) : c.body[c.place k]? = none := by
  rw [List.getElem?_eq_none_iff] at h ⊢
  rw [← acts_body, Call.place, List.take_of_length_le h]

end

/-! ## Requests and words -/

theorem getD_set {l : List Word} {i : Nat} (h : i < l.length) (w : Word) (j : Nat) :
    (l.set i w).getD j 0 = if i = j then w else l.getD j 0 := by
  rw [List.getD_eq_getElem?_getD, List.getD_eq_getElem?_getD]
  by_cases hij : i = j
  · subst hij
    rw [List.getElem?_set_self h, if_pos rfl]
    rfl
  · rw [List.getElem?_set_ne hij, if_neg hij]

theorem memOf_set {registers : List Word} (h : 1040 < registers.length) (a : MEMADDR)
    (w : REG16) : memOf (registers.set a.register w) = (memOf registers).write a w := by
  have hlt : a.register < registers.length := by
    cases a <;> simp only [MEMADDR.register] <;> omega
  simp only [memOf, getD_set hlt]
  cases a <;> rfl

theorem memOf_ready {registers : List Word} (h : 1040 < registers.length) (w : REG16) :
    memOf (registers.set 1040 w) = { memOf registers with ready := w } := by
  simp only [memOf, getD_set h]
  rfl

section
variable {s : Store} (hs : 1040 < s.registers.length)
include hs

theorem write_carried (a : MEMADDR) (w : REG16) :
    ansOf ((Request.writeRegister a.register w.toNat).outcome s) = some 0 ∧
      (Request.writeRegister a.register w.toNat).op.carry s =
        { s with registers := s.registers.set a.register w } := by
  have hop : (Request.writeRegister a.register w.toNat).op =
      .writeRegister (BitVec.ofNat 16 a.register) w := by
    simp [Request.op]
  have haddr : (BitVec.ofNat 16 a.register).toNat = a.register := by
    cases a <;> rfl
  have hserve : (Op.writeRegister (BitVec.ofNat 16 a.register) w).serve s =
      .ok (.written, { s with registers := s.registers.set a.register w }) := by
    have hlt : ¬ s.registers.length ≤ a.register := by
      cases a <;> simp only [MEMADDR.register] <;> omega
    simp only [Op.serve, writeOne, haddr, if_neg hlt]
    rfl
  refine ⟨?_, by rw [hop, Op.carry_of_ok hserve]⟩
  rw [Request.outcome, hop, hserve]
  rfl

theorem params_carried (p : Params) :
    ansOf ((Request.writeRegisters (MEMADDR.register .ADDR_MOVESOURCE)
      [p.source, p.dest, p.type]).outcome s) = some 0 ∧
      (Request.writeRegisters (MEMADDR.register .ADDR_MOVESOURCE)
        [p.source, p.dest, p.type]).op.carry s = { s with
          registers := ((s.registers.set 542 p.source).set 543 p.dest).set 544 p.type } := by
  have hlen : (542 : Word).toNat + [p.source, p.dest, p.type].length ≤ s.registers.length := by
    change 542 + 3 ≤ s.registers.length
    omega
  have hserve := Op.serve_writeRegisters (by simp) (by simp) hlen
  have hop : (Request.writeRegisters (MEMADDR.register .ADDR_MOVESOURCE)
      [p.source, p.dest, p.type]).op = .writeRegisters 542 [p.source, p.dest, p.type] := rfl
  refine ⟨?_, by rw [hop, Op.carry_of_ok hserve]; rfl⟩
  rw [Request.outcome, hop, hserve]
  rfl

theorem poll_carried : ansOf ((Request.readRegisters 1040 1).outcome s) =
    some (memOf s.registers).ready ∧ (Request.readRegisters 1040 1).op.carry s = s := by
  have hserve : (Op.readRegisters 1040 1).serve s =
      .ok (.words (slice s.registers 1040 1), s) := by
    have hlt : ¬ s.registers.length < 1040 + 1 := by omega
    have haddr : (1040 : Word).toNat = 1040 := rfl
    simp only [Op.serve, readRange, haddr, if_neg hlt]
    rfl
  have hop : (Request.readRegisters 1040 1).op = .readRegisters 1040 1 := rfl
  refine ⟨?_, by rw [hop, Op.carry_of_ok hserve]⟩
  rw [Request.outcome, hop, hserve]
  simp only [Request.result, ansOf, memOf, List.getD_eq_getElem?_getD, getElem?_slice]
  rfl

end

/-! ## The steps of the cell -/

/-- No Modbus operation fails, but the connection may be refused. -/
def noneLost : Cell → CellInput → Prop := fun s i =>
  ∀ b, i = .pc (.failed b) → s.driver = .busy .connect 0

section
variable {c : Call} {j : Nat} (m : Mem) (rob : Robot)

theorem cell_write {a : MEMADDR} {w : REG16}
    (h : c.body[j]? = some (.write a w) ∨ c.body[j]? = some (.writeOr a w)) :
    Run cell (fun _ => noneLost) ⟨.busy c j, m, rob⟩ [.write a w]
      ⟨.busy c (j + 1), m.write a w, rob⟩ := by
  apply Run.single (i := .pc .ok) (by simp [noneLost])
  rcases h with h | h <;>
    simp [cell, Driver.step, h, writeEvent, Outcome.applied, Mem.after]

theorem cell_poll (h : c.body[j]? = some .poll) :
    Run cell (fun _ => noneLost) ⟨.busy c j, m, rob⟩ [.answer (some m.ready)]
      ⟨if m.ready = CMD.word .CMD_READY then .busy c (j + 1) else .busy c j, m, rob⟩ := by
  apply Run.single (i := .pc .ok) (by simp [noneLost])
  simp [cell, Driver.step, h, Mem.after]

end

/-- What the server does for a statement is what the cell does for it. -/
theorem statement_carried {s : Store} (hs : 1040 < s.registers.length) (rob : Robot) {c : Call}
    {k : Nat} {st : Statement} (hst : c.statements[k]? = some st) {r : Request}
    (hr : st.request = some r) :
    1040 < (r.op.carry s).registers.length ∧
    Run cell (fun _ => noneLost) ⟨(Driver.busy c k).inCell, memOf s.registers, rob⟩
      (st.shows (memOf s.registers))
      ⟨((Driver.busy c k).goesOn (ansOf (r.outcome s))).inCell,
        memOf (r.op.carry s).registers, rob⟩ := by
  have hnext := place_succ hst
  cases st with
  | write a w =>
    cases hr
    obtain ⟨hans, hcarry⟩ := write_carried hs a w
    have hat := body_at hst (j := 0) Nat.zero_lt_one
    rw [hans, hcarry, memOf_set hs]
    simp only [Driver.goesOn, hst, Driver.inCell, hnext]
    exact ⟨by simpa using hs, cell_write _ _ (Or.inl hat)⟩
  | writeOr a w =>
    cases hr
    obtain ⟨hans, hcarry⟩ := write_carried hs a w
    have hat := body_at hst (j := 0) Nat.zero_lt_one
    rw [hans, hcarry, memOf_set hs]
    simp only [Driver.goesOn, hst, Driver.inCell, hnext]
    exact ⟨by simpa using hs, cell_write _ _ (Or.inr hat)⟩
  | params p =>
    cases hr
    obtain ⟨hans, hcarry⟩ := params_carried hs p
    have h0 := body_at hst (j := 0) (by simp [Statement.acts])
    have h1 := body_at hst (j := 1) (by simp [Statement.acts])
    have h2 := body_at hst (j := 2) (by simp [Statement.acts])
    have hmem : memOf (((s.registers.set 542 p.source).set 543 p.dest).set 544 p.type) =
        (((memOf s.registers).write .ADDR_MOVESOURCE p.source).write .ADDR_MOVEDEST p.dest).write
          .ADDR_MOVETYPE p.type := by
      rw [← memOf_set hs, ← memOf_set (by simpa using hs), ← memOf_set (by simpa using hs)]
      rfl
    rw [hans, hcarry]
    simp only [Driver.goesOn, hst, Driver.inCell, hnext, hmem]
    refine ⟨by simpa using hs, ?_⟩
    have hrun := ((cell_write (memOf s.registers) rob (Or.inr h0)).append
      (cell_write _ rob (Or.inr h1))).append (cell_write _ rob (Or.inr h2))
    exact hrun
  | poll =>
    cases hr
    obtain ⟨hans, hcarry⟩ := poll_carried hs
    have hat := body_at hst (j := 0) Nat.zero_lt_one
    have hrun := cell_poll (memOf s.registers) rob hat
    rw [hans, hcarry]
    simp only [Driver.goesOn, hst]
    refine ⟨hs, ?_⟩
    by_cases hready : (memOf s.registers).ready = CMD.word .CMD_READY
    · rw [if_pos hready] at hrun ⊢
      simp only [Driver.inCell, hnext]
      exact hrun
    · rw [if_neg hready] at hrun ⊢
      exact hrun
  | connect => cases hr
  | fail => cases hr

/-! ## The wired cell is a cell -/

/-- Where the driver of the cell is. It has taken its step when the request is carried out. -/
def AtStage (d d' : Driver) : Stage → Prop
  | .idle => d' = d.inCell
  | .called r => d' = d.inCell ∧ ∃ st, d.statement = some st ∧ st.request = some r
  | .carried res => d' = (d.goesOn (ansOf res)).inCell ∧
    ∃ st r, d.statement = some st ∧ st.request = some r

/-- A wired cell and the cell that it is. -/
structure Matches (w : Wired) (s : Cell) (y : Remote) : Prop where
  distant : Distant tcpFramed (BitVec.ofInt 8 MODBUS_TCP_SLAVE) w.connection y
  room : 1040 < y.store.registers.length
  mem : s.mem = memOf y.store.registers
  robot : s.robot = w.robot
  driver : AtStage w.driver s.driver y.stage

section
variable {w w' : Wired} {s : Cell} {y : Remote} {es : Option (List Event)}

theorem Matches.words (h : Matches w s y) : s.mem = w.mem := by
  rw [h.mem, Wired.mem, h.distant.tables]
  rfl

/-- A driver that sends no request waits for none. -/
theorem Matches.idle (h : Matches w s y) (hd : ∀ st, w.driver.statement = some st →
    st.request = none) : y.stage = .idle ∧ s.driver = w.driver.inCell := by
  have hdriver := h.driver
  cases hstage : y.stage with
  | idle =>
    rw [hstage] at hdriver
    exact ⟨rfl, hdriver⟩
  | called r =>
    rw [hstage] at hdriver
    obtain ⟨-, st, hst, hr⟩ := hdriver
    rw [hd st hst] at hr
    cases hr
  | carried res =>
    rw [hstage] at hdriver
    obtain ⟨-, st, r, hst, hr⟩ := hdriver
    rw [hd st hst] at hr
    cases hr

theorem issued_allowed {st : Statement} {r : Request} (h : st.request = some r) : r.Allowed := by
  cases st <;> cases h
  · trivial
  · trivial
  · exact (by decide : 3 ≤ 123)
  · exact (by decide : 1 ≤ 125)

/-- What the driver sends is not rejected. -/
theorem issued_called {st : Statement} {r : Request} (h : st.request = some r) {c c' : Connection}
    {e : Moment} (hM : plcLine c (.calls r) = some (e, c')) : e = .called r := by
  obtain ⟨call, hcall⟩ : ∃ call, r.call ⟨MODBUS_TCP_SLAVE, modbus_tcp_backend⟩
      (next_t_id c.t_id) = .ok call :=
    ⟨_, (r.call_iff tcpFramed _ _ _).mpr ⟨issued_allowed h, rfl⟩⟩
  simp only [plcLine, connection, hcall] at hM
  split at hM
  · cases hM
  · cases hM
    rfl

/-- Only a call sends a request, and only the server changes its tables. -/
theorem line_moment {c c' : Connection} {i : ConnectionInput} {e : Moment}
    (hM : plcLine c i = some (e, c')) :
    (∀ r, e = .called r → i = .calls r) ∧ ∀ s, e = .set s → i = .sets s := by
  cases i <;> simp only [plcLine, connection] at hM <;> (repeat' split at hM) <;> cases hM <;> simp

theorem matches_call (h : Matches w s y) {c : Call} (hM : wired w (.call c) = some (es, w')) :
    ∃ s', Run cell (fun _ => noneLost) s (shown es) s' ∧ Matches w' s' y := by
  simp only [wired] at hM
  split at hM
  · rename_i hidle
    cases hM
    obtain ⟨hstage, hdriver⟩ := h.idle (by simp [hidle, Driver.statement])
    rw [hidle] at hdriver
    refine ⟨{ s with driver := .busy c 0 }, .single (i := .call c) (by simp [noneLost]) ?_,
      h.distant, h.room, h.mem, h.robot, ?_⟩
    · simp only [cell]
      exact if_pos hdriver
    · rw [hstage]
      rfl
  · cases hM

theorem matches_issues (h : Matches w s y) (hM : wired w .issues = some (es, w')) :
    ∃ s', Run cell (fun _ => noneLost) s (shown es) s' ∧ ∃ y', Matches w' s' y' := by
  simp only [wired] at hM
  split at hM
  · cases hM
  · rename_i r hr
    obtain ⟨st, hst, hreq⟩ := Option.bind_eq_some_iff.mp hr
    split at hM
    · cases hM
    · rename_i hline
      exact absurd (issued_called hreq hline) (by simp)
    · rename_i e c hne hline
      cases hM
      obtain rfl := issued_called hreq hline
      have hin := patient_calls [] w.connection r
      rcases distant_step (Or.inl rfl) rfl h.distant hin hline with
        ⟨he, -⟩ | ⟨-, k, y', hk, hd⟩
      · cases he
      · have hdriver := h.driver
        have hroom := h.room
        have hmem := h.mem
        cases remote_cases hk with
        | calls hallowed => exact ⟨s, .nil, _, hd, hroom, hmem, h.robot, hdriver, st, hst, hreq⟩

theorem line_input {i : ConnectionInput} (hM : wired w (.line i) = some (es, w')) :
    (∀ r, i ≠ .calls r) ∧ ∀ s, i ≠ .sets s := by
  constructor
  · rintro r rfl
    cases hM
  · rintro s rfl
    cases hM

/-- What a step of the connection is for the driver. -/
theorem wired_line {i : ConnectionInput} (hM : wired w (.line i) = some (es, w')) :
    (match plcLine w.connection i with
    | none => none
    | some (.replied, c) => some (some ((w.driver.statement.map (Statement.shows w.mem)).getD []),
      { w with connection := c })
    | some (.returned res, c) =>
      some (some [], { w with driver := w.driver.goesOn (ansOf res), connection := c })
    | some (.failed _, c) => some (none, { w with driver := w.driver.goesOn none, connection := c })
    | some (_, c) => some (some [], { w with connection := c })) = some (es, w') := by
  obtain ⟨hcalls, hsets⟩ := line_input hM
  rw [← hM]
  cases i <;> first | rfl | exact absurd rfl (hcalls _) | exact absurd rfl (hsets _)

theorem matches_line (h : Matches w s y) {i : ConnectionInput} (hi : patient [] w.connection i)
    (hM : wired w (.line i) = some (es, w')) :
    ∃ s', Run cell (fun _ => noneLost) s (shown es) s' ∧ ∃ y', Matches w' s' y' := by
  obtain ⟨hcalls, hsets⟩ := line_input hM
  have hM' := wired_line hM
  cases hline : plcLine w.connection i with
  | none =>
    rw [hline] at hM'
    cases hM'
  | some p =>
    obtain ⟨e, c⟩ := p
    rw [hline] at hM'
    obtain ⟨hcalled, hset⟩ := line_moment hline
    rcases distant_step (Or.inl rfl) rfl h.distant hi hline with ⟨he, hd⟩ | ⟨-, k, y', hk, hd⟩
    · -- Some bytes are read.
      have hw : es = some [] ∧ w' = { w with connection := c } := by
        cases e <;> cases he <;> cases hM' <;> exact ⟨rfl, rfl⟩
      obtain ⟨rfl, rfl⟩ := hw
      exact ⟨s, .nil, y, hd, h.room, h.mem, h.robot, h.driver⟩
    · have hdriver := h.driver
      have hroom := h.room
      have hmem := h.mem
      have hwords := h.words
      have hrobot := h.robot
      cases remote_cases hk with
      | calls => exact absurd (hcalled _ rfl) (hcalls _)
      | sets => exact absurd (hset _ rfl) (hsets _)
      | @carries st r =>
        obtain ⟨hdriver, stm, hst, hr⟩ := hdriver
        cases hM'
        obtain ⟨d, m, rob⟩ := s
        cases hwd : w.driver with
        | idle =>
          rw [hwd] at hst
          cases hst
        | failing c =>
          rw [hwd] at hst
          cases hst
        | busy c k =>
          rw [hwd] at hst hdriver
          simp only at hdriver hmem hwords hrobot
          obtain ⟨hroom', hrun⟩ := statement_carried hroom rob hst hr
          rw [← hmem] at hrun
          rw [hst, ← hwords, hdriver]
          exact ⟨_, hrun, _, hd, hroom', rfl, hrobot, rfl, stm, r, hst, hr⟩
      | returns =>
        cases hM'
        exact ⟨s, .nil, _, hd, hroom, hmem, hrobot, hdriver.1⟩

/-- The driver connects at the first statement of `robot_connect` only. -/
theorem statement_connect {d : Driver} (h : d.statement = some .connect) :
    d = .busy .connect 0 := by
  cases d with
  | idle => cases h
  | failing c => cases h
  | busy c k =>
    have hmem := List.mem_of_getElem? h
    cases c with
    | connect =>
      rcases k with _ | _ | _ | _ | _ | _ | _ | k <;>
        simp [Driver.statement, Call.statements] at h ⊢
    | clear => simp [Call.statements] at hmem
    | move m => simp [Call.statements] at hmem
    | cmd c =>
      simp only [Call.statements] at hmem
      split at hmem <;> simp at hmem

theorem matches_connects (h : Matches w s y) {ok : Bool}
    (hM : wired w (.connects ok) = some (es, w')) :
    ∃ s', Run cell (fun _ => noneLost) s (shown es) s' ∧
      ∃ y', y'.stage = .idle ∧ Matches w' s' y' := by
  simp only [wired] at hM
  split at hM
  · rename_i hst
    have hd := statement_connect hst
    obtain ⟨hstage, hdriver⟩ := h.idle (by rw [hst]; rintro _ ⟨⟩; rfl)
    rw [hd] at hdriver
    obtain ⟨d, m, rob⟩ := s
    obtain rfl : d = .busy .connect 0 := hdriver
    have hrobot := h.robot
    have hmem := h.mem
    split at hM <;> cases hM
    · have hstart : w.connection.tables = y.store.mapping := h.distant.tables
      rw [hd, hstart]
      exact ⟨⟨.busy .connect 1, m, rob⟩, .single (i := .pc .ok) (by simp [noneLost]) rfl, _, rfl,
        distant_start w.connection.t_id y.store, h.room, hmem, hrobot, rfl⟩
    · rw [hd]
      refine ⟨⟨.failing .connect, m, rob⟩, .single (i := .pc (.failed false)) (by simp [noneLost])
        rfl, y, hstage, h.distant, h.room, hmem, hrobot, ?_⟩
      rw [hstage]
      rfl
  · cases hM

/-- A driver function that is over returns. -/
theorem matches_returns (h : Matches w s y) (hM : wired w .returns = some (es, w')) :
    ∃ s', Run cell (fun _ => noneLost) s (shown es) s' ∧ Matches w' s' y := by
  have hret : ∀ c b, (∀ st, w.driver.statement = some st → st.request = none) →
      Driver.step w.driver.inCell .ok s.mem.ready = some (.ret c b, .idle) →
      Run cell (fun _ => noneLost) s [.ret c b] { s with driver := .idle } ∧
        Matches { w with driver := .idle } { s with driver := .idle } y := by
    intro c b hreq hstep
    obtain ⟨hstage, hdriver⟩ := h.idle hreq
    refine ⟨.single (i := .pc .ok) (by simp [noneLost]) ?_, h.distant, h.room, h.mem, h.robot, ?_⟩
    · simp only [cell, hdriver, hstep]
      rfl
    · rw [hstage]
      rfl
  simp only [wired] at hM
  split at hM
  · cases hM
  · rename_i c hd
    cases hM
    exact ⟨_, hret c false (by simp [hd, Driver.statement]) (by rw [hd]; rfl)⟩
  · rename_i c k hd
    split at hM
    · rename_i hst
      cases hM
      refine ⟨_, hret c true (by simp [hd, Driver.statement, hst]) ?_⟩
      simp [hd, Driver.inCell, Driver.step, body_end hst]
    · rename_i hst
      cases hM
      refine ⟨_, hret c false (by simp [hd, Driver.statement, hst, Statement.request]) ?_⟩
      have hat : c.body[c.place k]? = some .fail := body_at hst (j := 0) Nat.zero_lt_one
      simp [hd, Driver.inCell, Driver.step, hat]
    · cases hM

theorem matches_robot (h : Matches w s y) (hM : wired w .robot = some (es, w')) :
    ∃ s', Run cell (fun _ => noneLost) s (shown es) s' ∧
      ∃ y', y'.stage = y.stage ∧ Matches w' s' y' := by
  simp only [wired] at hM
  obtain ⟨⟨e, r, m⟩, hr, he⟩ := Option.map_eq_some_iff.mp hM
  cases he
  rw [← h.words, ← h.robot] at hr
  obtain ⟨h1, h2, hparams, hexit⟩ := (step_phase hr).words
  simp only [Mem.params, Params.mk.injEq] at hparams
  have hm : m = { s.mem with ready := m.ready } := by
    obtain ⟨m1, m2, m3, m4, m5, m6, m7⟩ := m
    simp only at h1 h2 hparams hexit
    rw [h1, h2, hexit, hparams.1, hparams.2.1, hparams.2.2]
  let st : Store := { y.store with registers := y.store.registers.set 1040 m.ready }
  have hshow : showReady w.connection m.ready = { w.connection with tables := st.mapping } := by
    simp only [showReady, h.distant.tables]
    rfl
  refine ⟨⟨s.driver, m, r⟩, .single (i := .robot) (by simp [noneLost]) (by simp [cell, hr]),
    ⟨st, y.stage⟩, rfl, ?_, ?_, ?_, rfl, h.driver⟩
  · simp only [hshow]
    exact h.distant.sets st
  · simpa [st] using h.room
  · rw [memOf_ready h.room, ← h.mem]
    exact hm

theorem matches_step (h : Matches w s y) {seen : List (Option (List Event))} {i : WiredInput}
    (hi : inTime seen w i) (hM : wired w i = some (es, w')) :
    ∃ s', Run cell (fun _ => noneLost) s (shown es) s' ∧ ∃ y', Matches w' s' y' := by
  cases i with
  | call c =>
    obtain ⟨s', hrun, h'⟩ := matches_call h hM
    exact ⟨s', hrun, y, h'⟩
  | issues => exact matches_issues h hM
  | line i => exact matches_line h (hi i rfl) hM
  | connects ok =>
    obtain ⟨s', hrun, y', -, h'⟩ := matches_connects h hM
    exact ⟨s', hrun, y', h'⟩
  | returns =>
    obtain ⟨s', hrun, h'⟩ := matches_returns h hM
    exact ⟨s', hrun, y, h'⟩
  | robot =>
    obtain ⟨s', hrun, y', -, h'⟩ := matches_robot h hM
    exact ⟨s', hrun, y', h'⟩

end

end robotchess
