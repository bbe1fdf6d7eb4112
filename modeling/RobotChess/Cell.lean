-- The robot cell: the PC driver and the robot program, which take their steps in
-- any order on the shared words. The plant is the same cell with any PC at all:
-- it may write any word to any register at any time.
import RobotChess.Runs
import RobotChess.Phases
import RobotChess.Driver

open runs

namespace robotchess

/-! ## The robot with any PC -/

structure Plant where
  mem : Mem
  robot : Robot
  deriving DecidableEq, Repr

inductive PlantInput
  | write (a : MEMADDR) (w : REG16)
  | robot
  | restart
  deriving DecidableEq, Repr

def plant : Machine Plant PlantInput Event
  | s, .write a w => some (.write a w, { s with mem := s.mem.write a w })
  | s, .robot => (s.robot.step s.mem).map fun (e, r, m) => (e, ⟨m, r⟩)
  | s, .restart => some (.restart, { s with robot := s.robot.restart })

/-- Any PC, and no restart of the robot program. -/
def anyPc : Guard Plant PlantInput Event := fun _ _ i => i ≠ .restart

instance (tr : List Event) (s : Plant) (i : PlantInput) : Decidable (anyPc tr s i) :=
  inferInstanceAs (Decidable (i ≠ .restart))

/-- The writes of a PC that arms one move. -/
def armMove (mv : MOVE) : List PlantInput :=
  [.write .ADDR_CMD_1 allowMoveCmd1, .write .ADDR_MOVESOURCE mv.words.source,
    .write .ADDR_MOVEDEST mv.words.dest, .write .ADDR_MOVETYPE mv.words.type,
    .write .ADDR_CMD_2 allowMoveCmd2]

/-- What one step of the plant can be. -/
theorem plant_step {s t : Plant} {i : PlantInput} {e : Event} (h : plant s i = some (e, t)) :
    (∃ a w, i = .write a w ∧ e = .write a w ∧ t = ⟨s.mem.write a w, s.robot⟩) ∨
    (i = .robot ∧ s.robot.step s.mem = some (e, t.robot, t.mem)) ∨
    (i = .restart ∧ e = .restart ∧ t = ⟨s.mem, s.robot.restart⟩) := by
  cases i with
  | write a w =>
    simp only [plant, Option.some.injEq, Prod.mk.injEq] at h
    exact Or.inl ⟨a, w, rfl, h.1.symm, h.2.symm⟩
  | robot =>
    obtain ⟨⟨e', r, m⟩, hr, he⟩ := Option.map_eq_some_iff.mp h
    cases he
    exact Or.inr (Or.inl ⟨rfl, hr⟩)
  | restart =>
    simp only [plant, Option.some.injEq, Prod.mk.injEq] at h
    exact Or.inr (Or.inr ⟨rfl, h.1.symm, h.2.symm⟩)

/-! ## The robot with the driver -/

structure Cell where
  driver : Driver
  mem : Mem
  robot : Robot
  deriving DecidableEq, Repr

def Cell.plant (s : Cell) : Plant := ⟨s.mem, s.robot⟩

/-- Before everything else: every word is 0, and the robot is at `*main`. -/
def Cell.start : Cell := ⟨.idle, .zero, .atMain⟩

inductive CellInput
  -- the PC enters a driver function
  | call (c : Call)
  -- the PC takes its next step in the driver function
  | pc (o : Outcome)
  | robot
  deriving DecidableEq, Repr

def cell : Machine Cell CellInput Event
  | s, .call c =>
    if s.driver = .idle then some (.call c, { s with driver := .busy c 0 }) else none
  | s, .pc o => (s.driver.step o s.mem.ready).map fun (e, d) => (e, ⟨d, s.mem.after e, s.robot⟩)
  | s, .robot => (s.robot.step s.mem).map fun (e, r, m) => (e, ⟨s.driver, m, r⟩)

/-- The robot takes `n` steps. -/
def robotSteps (n : Nat) : List CellInput := List.replicate n .robot

/-- The PC takes `n` steps, and no Modbus operation fails. -/
def pcSteps (n : Nat) : List CellInput := List.replicate n (.pc .ok)

/-- What one step of the cell can be. -/
inductive Cell.Step (s : Cell) : CellInput → Event → Cell → Prop
  | call (c : Call) : s.driver = .idle → Step s (.call c) (.call c) ⟨.busy c 0, s.mem, s.robot⟩
  | pc {o : Outcome} {e : Event} {d : Driver} : Driver.Step o s.mem.ready s.driver e d →
      Step s (.pc o) e ⟨d, s.mem.after e, s.robot⟩
  | robot {e : Event} {r : Robot} {m : Mem} : s.robot.step s.mem = some (e, r, m) →
      Step s .robot e ⟨s.driver, m, r⟩

theorem cell_step {s t : Cell} {i : CellInput} {e : Event} (h : cell s i = some (e, t)) :
    Cell.Step s i e t := by
  cases i with
  | call c =>
    simp only [cell] at h
    split at h
    · cases h
      exact .call c ‹_›
    · cases h
  | pc o =>
    obtain ⟨⟨e', d⟩, hd, he⟩ := Option.map_eq_some_iff.mp h
    cases he
    exact .pc (driver_step hd)
  | robot =>
    obtain ⟨⟨e', r, m⟩, hr, he⟩ := Option.map_eq_some_iff.mp h
    cases he
    exact .robot hr

/-! ## Invariants

The laws of the handshake look at the driver, the words and the phase of the
robot, so a law that the three kinds of step keep holds after each run. -/

theorem cell_invariant (Inv : List Event → Driver → Mem → Phase → Prop)
    {ok : Guard Cell CellInput Event} {s t : Cell} {tr : List Event} (h : Run cell ok s tr t)
    (h0 : Inv [] s.driver s.mem s.robot.phase)
    (hcall : ∀ tr m r c, Inv tr .idle m r.phase → ok tr ⟨.idle, m, r⟩ (.call c) →
      Inv (tr ++ [.call c]) (.busy c 0) m r.phase)
    (hpc : ∀ tr d m r o e d', Inv tr d m r.phase → ok tr ⟨d, m, r⟩ (.pc o) →
      Driver.Step o m.ready d e d' → Inv (tr ++ [e]) d' (m.after e) r.phase)
    (hrobot : ∀ tr d m p e p' m', Inv tr d m p → Phase.Step m p e p' m' →
      Inv (tr ++ [e]) d m' p') : Inv tr t.driver t.mem t.robot.phase := by
  apply h.invariant (fun tr t => Inv tr t.driver t.mem t.robot.phase) h0
  intro tr t i e u hI hok hM
  obtain ⟨d, m, r⟩ := t
  cases cell_step hM with
  | call c hd =>
    cases hd
    exact hcall _ _ _ _ hI hok
  | pc hd => exact hpc _ _ _ _ _ _ _ hI hok hd
  | robot hr => exact hrobot _ _ _ _ _ _ _ hI (step_phase hr)

theorem plant_invariant (Inv : List Event → Mem → Phase → Prop)
    {ok : Guard Plant PlantInput Event} {s t : Plant} {tr : List Event} (h : Run plant ok s tr t)
    (h0 : Inv [] s.mem s.robot.phase)
    (hwrite : ∀ tr m r a w, Inv tr m r.phase → ok tr ⟨m, r⟩ (.write a w) →
      Inv (tr ++ [.write a w]) (m.write a w) r.phase)
    (hrestart : ∀ tr m r, Inv tr m r.phase → ok tr ⟨m, r⟩ .restart →
      Inv (tr ++ [.restart]) m .boot)
    (hrobot : ∀ tr m r e p' m', Inv tr m r.phase → ok tr ⟨m, r⟩ .robot →
      Phase.Step m r.phase e p' m' → Inv (tr ++ [e]) m' p') :
    Inv tr t.mem t.robot.phase := by
  apply h.invariant (fun tr t => Inv tr t.mem t.robot.phase) h0
  intro tr t i e u hI hok hM
  obtain ⟨m, r⟩ := t
  rcases plant_step hM with ⟨a, w, rfl, rfl, rfl⟩ | ⟨rfl, hr⟩ | ⟨rfl, rfl, rfl⟩
  · exact hwrite _ _ _ _ _ hI hok
  · exact hrobot _ _ _ _ _ _ hI hok (step_phase hr)
  · exact hrestart _ _ _ hI hok

/-- With no restart, a law of the robot alone that its lines keep holds after each run. -/
theorem acts_invariant (Inv : List Event → Robot → Prop) {s t : Plant} {tr : List Event}
    (h : Run plant anyPc s tr t) (h0 : Inv [] s.robot)
    (hwrite : ∀ tr r a w, Inv tr r → Inv (tr ++ [.write a w]) r)
    (hrobot : ∀ tr r e r', Inv tr r → r.Acts e r' → Inv (tr ++ [e]) r') : Inv tr t.robot := by
  apply h.invariant (fun tr t => Inv tr t.robot) h0
  intro tr t i e u hI hok hM
  rcases plant_step hM with ⟨a, w, rfl, rfl, rfl⟩ | ⟨rfl, hr⟩ | ⟨rfl, -, -⟩
  · exact hwrite _ _ _ _ hI
  · exact hrobot _ _ _ _ hI (robot_acts hr)
  · exact absurd rfl hok

/-! ## The cell is a plant -/

/-- The events that change the words or the robot. -/
def Event.onPlant : Event → Bool
  | .call _ | .connected _ | .lost _ _ | .answer _ | .ret _ _ => false
  | _ => true

/-- A driver event is a write of the source that takes effect, or leaves the words as they are. -/
theorem driver_event {o : Outcome} {ans : REG16} {d d' : Driver} {e : Event}
    (h : Driver.Step o ans d e d') :
    (∃ a w, e = .write a w ∧ o.applied ∧ d.Writes a w) ∨
      (e.onPlant = false ∧ ∀ m : Mem, m.after e = m) := by
  have hw : ∀ a w, d.Writes a w →
      (∃ a' w', writeEvent o a w = .write a' w' ∧ o.applied ∧ d.Writes a' w') ∨
      ((writeEvent o a w).onPlant = false ∧ ∀ m : Mem, m.after (writeEvent o a w) = m) := by
    intro a w hd
    unfold writeEvent
    split
    · exact Or.inl ⟨a, w, rfl, ‹_›, hd⟩
    · exact Or.inr ⟨rfl, fun _ => rfl⟩
  cases h
  case zero hk => exact hw _ _ (.zero hk)
  case allow1 => exact hw _ _ .allow1
  case word hv ho => exact Or.inl ⟨_, _, rfl, by rw [ho]; rfl, .word hv⟩
  case wordFailed hv _ => exact hw _ _ (.word hv)
  case allow2 => exact hw _ _ .allow2
  case clear1 ht => exact hw _ _ (.clear1 ht)
  case clear2 ht => exact hw _ _ (.clear2 ht)
  case clrReady ht => exact hw _ _ (.clrReady ht)
  case cmd ha ho => exact Or.inl ⟨_, _, rfl, by rw [ho]; rfl, .cmd ha⟩
  case cmdFailed ha _ => exact hw _ _ (.cmd ha)
  all_goals exact Or.inr ⟨rfl, fun _ => rfl⟩

theorem phase_event_onPlant {p p' : Phase} {m m' : Mem} {e : Event}
    (h : Phase.Step m p e p' m') : e.onPlant = true := by
  cases h
  case quiet hq => cases e <;> trivial
  all_goals rfl

/-- A driver function is entered from outside the driver. -/
theorem cell_call {s t : Cell} {i : CellInput} {c : Call} (h : cell s i = some (.call c, t)) :
    s.driver = .idle := by
  generalize he : Event.call c = e at h
  cases cell_step h with
  | call c hd => exact hd
  | pc hd =>
    subst he
    cases hd.plain.2.1
  | robot hr =>
    have := phase_event_onPlant (step_phase hr)
    rw [← he] at this
    cases this

/-- A return is a step of the driver, and changes neither the words nor the robot. -/
theorem cell_ret {s t : Cell} {i : CellInput} {c : Call} {b : Bool}
    (h : cell s i = some (.ret c b, t)) :
    ∃ o, Driver.Step o s.mem.ready s.driver (.ret c b) .idle ∧ t = ⟨.idle, s.mem, s.robot⟩ := by
  generalize he : Event.ret c b = e at h
  cases cell_step h with
  | call c _ => cases he
  | pc hd =>
    subst he
    obtain ⟨rfl, -⟩ := ret_cases hd
    exact ⟨_, hd, rfl⟩
  | robot hr =>
    have := phase_event_onPlant (step_phase hr)
    rw [← he] at this
    cases this

/-- When a call returns true, the driver is past its last operation. -/
theorem cell_ret_true {s t : Cell} {i : CellInput} {c : Call}
    (h : cell s i = some (.ret c true, t)) :
    ∃ k, s.driver = .busy c k ∧ c.body.length ≤ k ∧ t = ⟨.idle, s.mem, s.robot⟩ := by
  obtain ⟨o, hd, ht⟩ := cell_ret h
  obtain ⟨k, hk, hl⟩ := ret_true hd
  exact ⟨k, hk, hl, ht⟩

/-- The cell with its driver is a plant with some PC. So what holds of the robot with any PC
holds in the cell. -/
theorem cell_run_is_plant_run {ok : Guard Cell CellInput Event} {s t : Cell} {tr : List Event}
    (h : Run cell ok s tr t) : Run plant anyPc s.plant (tr.filter Event.onPlant) t.plant := by
  apply Run.simulate Cell.plant Event.onPlant _ h
  intro tr t i e u _ hM
  cases cell_step hM with
  | call c _ => rfl
  | pc hd =>
    rcases driver_event hd with ⟨a, w, rfl, -, -⟩ | ⟨he, hm⟩
    · exact ⟨.write a w, by simp [anyPc], rfl⟩
    · simp only [he, Bool.false_eq_true, if_false, Cell.plant, hm]
  | robot hr =>
    rw [if_pos (phase_event_onPlant (step_phase hr))]
    exact ⟨.robot, by simp [anyPc], by simp [plant, Cell.plant, hr]⟩

end robotchess
