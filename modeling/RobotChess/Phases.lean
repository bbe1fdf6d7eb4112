-- The robot program as a small automaton. Its phases keep only what the
-- handshake depends on: what the robot has read in this cycle, and whether it
-- moves or waits. Each line of the program is a step of the automaton, so the
-- laws of the handshake look at eighteen steps, not at sixty lines.
import RobotChess.Robot

namespace robotchess

/-! ## The automaton -/

inductive Phase
  -- the initialisation
  | boot
  -- in `*main`, before the read of register 545
  | idle
  -- past the read of 545, with no ALLOW_MOVE_1 in hand
  | checked
  -- ALLOW_MOVE_1 read, register 541 not yet
  | holding
  -- both read, and then each parameter word in its turn
  | armed
  | typed (type : REG16)
  | sourced (type source : REG16)
  | latched (p : Params)
  -- in a motion, up to line 102
  | moving
  -- in `*waitforpc`, with no acknowledgement read
  | waiting
  -- the acknowledgement read, line 107 to come
  | acked
  -- at `*exit`, or on the way to it
  | off
  deriving DecidableEq, Repr

def Robot.phase (r : Robot) : Phase :=
  match r.line with
  | .init _ => .boot
  | .main | .mainDly | .readExit => .idle
  | .testExit => if r.nWcmdExit = exitCmd then .off else .checked
  | .readCmd1 => .checked
  | .testCmd1 => if r.nWcmd1 = allowMoveCmd1 then .holding else .checked
  | .readsecond => .holding
  | .testCmd2 => if r.nWcmd2 = allowMoveCmd2 then .armed else .checked
  | .readMoveParams => .armed
  | .readSource => .typed r.nWmoveType
  | .readDest => .sourced r.nWmoveType r.nWmovSource
  | .testType => .latched r.params
  | .motion _ => .moving
  | .waitforpc => .waiting
  | .testAck => if r.nWcmdClrReady = readyClearCmd then .acked else .waiting
  | .unready => .acked
  | .exit | .ended => .off

/-- A step that no other program can see. -/
def Event.Quiet : Event → Prop
  | .silent | .arm _ => True
  | _ => False

/-- One step of the automaton, with the words it reads. -/
inductive Phase.Step (m : Mem) : Phase → Event → Phase → Mem → Prop
  | quiet {p : Phase} {e : Event} : e.Quiet → Step m p e p m
  | booted : Step m .boot .silent .idle m
  | exitAsked : m.exit = exitCmd → Step m .idle (.read nWcmdExitAddr m.exit) .off m
  | noExit : m.exit ≠ exitCmd → Step m .idle (.read nWcmdExitAddr m.exit) .checked m
  | notAllowed : m.cmd1 ≠ allowMoveCmd1 →
      Step m .checked (.read nWcmd1Addr m.cmd1) .checked m
  | allowed : m.cmd1 = allowMoveCmd1 → Step m .checked (.read nWcmd1Addr m.cmd1) .holding m
  | again : Step m .checked .silent .idle m
  | notSecond : m.cmd2 ≠ allowMoveCmd2 →
      Step m .holding (.read nWcmd2Addr m.cmd2) .checked m
  | second : m.cmd2 = allowMoveCmd2 → Step m .holding (.read nWcmd2Addr m.cmd2) .armed m
  | type : Step m .armed (.read nWmovTypeAddr m.type) (.typed m.type) m
  | source {t : REG16} :
      Step m (.typed t) (.read nWmovSourceAddr m.source) (.sourced t m.source) m
  | dest {t s : REG16} :
      Step m (.sourced t s) (.read nWmovDestAddr m.dest) (.latched ⟨t, s, m.dest⟩) m
  | start {p : Params} : Known p.type → Step m (.latched p) (.start p) .moving m
  | unknown {p : Params} : ¬ Known p.type → Step m (.latched p) .silent .off m
  | done : Step m .moving .ready .waiting (M_Out16 m moveReady)
  | notAcked : m.cmd1 ≠ readyClearCmd →
      Step m .waiting (.read nWcmd1Addr m.cmd1) .waiting m
  | acked : m.cmd1 = readyClearCmd → Step m .waiting (.read nWcmd1Addr m.cmd1) .acked m
  | unready : Step m .acked .unready .idle (M_Out m false)

theorem Event.Quiet.plain {e : Event} (h : e.Quiet) : e.Plain := by
  cases e
  case silent => exact ⟨rfl, rfl, by simp⟩
  case arm => exact ⟨rfl, rfl, by simp⟩
  all_goals exact h.elim

/-- Only the jump to a motion and line 102 are seen in the count of the motions. -/
theorem Phase.Step.plain {m m' : Mem} {p p' : Phase} {e : Event} (h : Phase.Step m p e p' m') :
    (∃ q, p = .latched q ∧ e = .start q ∧ p' = .moving ∧ Known q.type ∧ m' = m) ∨
      (p = .moving ∧ e = .ready ∧ p' = .waiting ∧ m' = M_Out16 m moveReady) ∨ e.Plain := by
  cases h
  case start q hq => exact Or.inl ⟨q, rfl, rfl, rfl, hq, rfl⟩
  case done => exact Or.inr (Or.inl ⟨rfl, rfl, rfl, rfl⟩)
  case quiet hq => exact Or.inr (Or.inr hq.plain)
  all_goals exact Or.inr (Or.inr ⟨rfl, rfl, by simp⟩)

/-- The robot calls no driver function. -/
theorem Phase.Step.no_call {m m' : Mem} {p p' : Phase} {e : Event} (h : Phase.Step m p e p' m') :
    calls [e] = [] := by
  rcases h.plain with ⟨q, -, rfl, -, -, -⟩ | ⟨-, rfl, -, -⟩ | he
  · rfl
  · rfl
  · simpa using (he.snoc []).2.2.1

/-- The robot never writes the words of the PC. -/
theorem Phase.Step.words {m m' : Mem} {p p' : Phase} {e : Event} (h : Phase.Step m p e p' m') :
    m'.cmd1 = m.cmd1 ∧ m'.cmd2 = m.cmd2 ∧ m'.params = m.params ∧ m'.exit = m.exit := by
  cases h <;> exact ⟨rfl, rfl, rfl, rfl⟩

/-! ## The program is the automaton -/

theorem stmt_quiet (r : Robot) (st : Stmt) : (st.run r).1.Quiet := by
  cases st <;> trivial

/-- Each line of the program is a step of the automaton. -/
theorem step_phase {r r' : Robot} {m m' : Mem} {e : Event}
    (h : r.step m = some (e, r', m')) : Phase.Step m r.phase e r'.phase m' := by
  have hq : Event.Quiet .silent := trivial
  cases hl : r.line
  case init todo =>
    cases todo <;> simp only [Robot.step, hl, Option.some.injEq, Prod.mk.injEq] at h <;>
      obtain ⟨rfl, rfl, rfl⟩ := h <;> simp only [Robot.phase, hl]
    · exact .booted
    · exact .quiet hq
  case motion todo =>
    cases todo with
    | nil =>
      simp only [Robot.step, hl, Option.some.injEq, Prod.mk.injEq] at h
      obtain ⟨rfl, rfl, rfl⟩ := h
      simp only [Robot.phase, hl]
      exact .done
    | cons st todo =>
      simp only [Robot.step, hl, Option.some.injEq, Prod.mk.injEq] at h
      obtain ⟨rfl, rfl, rfl⟩ := h
      simp only [Robot.phase, hl]
      exact .quiet (stmt_quiet r st)
  case testType =>
    simp only [Robot.step, hl] at h
    have hk : ∀ b, r.nWmoveType = b → (b = normalMove ∨ b = hitMove) → Known r.params.type :=
      fun b hb hb' => by rw [← hb] at hb'; exact hb'
    split at h
    · simp only [Option.some.injEq, Prod.mk.injEq] at h
      obtain ⟨rfl, rfl, rfl⟩ := h
      simp only [Robot.phase, hl]
      exact .start (hk _ ‹_› (Or.inl rfl))
    · split at h
      · simp only [Option.some.injEq, Prod.mk.injEq] at h
        obtain ⟨rfl, rfl, rfl⟩ := h
        simp only [Robot.phase, hl]
        exact .start (hk _ ‹_› (Or.inr rfl))
      · simp only [Option.some.injEq, Prod.mk.injEq] at h
        obtain ⟨rfl, rfl, rfl⟩ := h
        simp only [Robot.phase, hl]
        exact .unknown (by rintro (h | h) <;> contradiction)
  all_goals
    simp only [Robot.step, hl, Option.some.injEq, Prod.mk.injEq, reduceCtorEq] at h
  all_goals
    obtain ⟨rfl, rfl, rfl⟩ := h
    simp only [Robot.phase, hl]
  case main => exact .quiet trivial
  case mainDly => exact .quiet hq
  case readExit =>
    split
    · exact .exitAsked ‹_›
    · exact .noExit ‹_›
  case testExit => split <;> exact .quiet hq
  case readCmd1 =>
    split
    · exact .allowed ‹_›
    · exact .notAllowed ‹_›
  case testCmd1 =>
    split
    · exact .quiet hq
    · exact .again
  case readsecond =>
    split
    · exact .second ‹_›
    · exact .notSecond ‹_›
  case testCmd2 =>
    split
    · exact .quiet hq
    · exact .again
  case readMoveParams => exact .type
  case readSource => exact .source
  case readDest => exact .dest
  case waitforpc =>
    split
    · exact .acked ‹_›
    · exact .notAcked ‹_›
  case testAck => split <;> exact .quiet hq
  case unready => exact .unready
  case exit => exact .quiet hq

end robotchess
