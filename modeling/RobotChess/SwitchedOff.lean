-- When the robot switches itself off. `*exit` is also where the type test falls
-- through, so the robot gets there with no exit command when it reads a type that
-- is no type of a move. The law says which writes let that happen.
import RobotChess.Torn

open runs

namespace robotchess

/-! ## The calls -/

/-- Any driver calls, with valid moves. -/
def Call.Sane : Call → Prop
  | .move m => m.Valid
  | _ => True

instance : (c : Call) → Decidable c.Sane
  | .move m => inferInstanceAs (Decidable m.Valid)
  | .connect | .clear | .cmd _ => .isTrue trivial

/-- Any calls one after another, and any failures. -/
def saneCalls : Guard Cell CellInput Event
  | _, _, .call c => c.Sane
  | _, _, _ => True

instance (tr : List Event) (s : Cell) : (i : CellInput) → Decidable (saneCalls tr s i)
  | .call c => inferInstanceAs (Decidable c.Sane)
  | .pc _ | .robot => .isTrue trivial

/-- `robot_sendCmd(CMD_EXIT)` has written the exit command to register 545. -/
def Asked (tr : List Event) : Prop :=
  ∃ pre post, tr = pre ++ .write .ADDR_CMD_EXIT exitCmd :: post ∧
    (calls pre).getLast? = some (.cmd .CMD_EXIT)

theorem Asked.snoc {tr : List Event} (h : Asked tr) (e : Event) : Asked (tr ++ [e]) := by
  obtain ⟨pre, post, rfl, hc⟩ := h
  exact ⟨pre, post ++ [e], by simp, hc⟩

/-! ## The condition -/

/-- The robot has read both ALLOW words and not yet the type, or it will with no further write of
the PC. -/
def Exposed (m : Mem) : Phase → Prop
  | .boot | .idle | .checked | .acked => m.cmd1 = allowMoveCmd1 ∧ m.cmd2 = allowMoveCmd2
  | .holding => m.cmd2 = allowMoveCmd2
  | .armed => True
  | _ => False

instance (m : Mem) : (p : Phase) → Decidable (Exposed m p)
  | .boot | .idle | .checked | .acked =>
    inferInstanceAs (Decidable (m.cmd1 = allowMoveCmd1 ∧ m.cmd2 = allowMoveCmd2))
  | .holding => inferInstanceAs (Decidable (m.cmd2 = allowMoveCmd2))
  | .armed => .isTrue trivial
  | .typed _ | .sourced _ _ | .latched _ | .moving | .waiting | .off => .isFalse id

/-- What must hold when the next operation of the driver takes effect. `robot_connect` takes no
type away from an exposed robot, and no ALLOW word exposes a robot to a type it does not know. -/
def Covered (s : Cell) : Prop :=
  match s.driver with
  | .busy .connect 5 => ¬ Exposed s.mem s.robot.phase
  | .busy (.move _) 0 | .busy (.cmd .CMD_ALLOW_MOVE_1) 0 =>
    s.robot.phase.Ahead → s.mem.cmd2 = allowMoveCmd2 → Known s.mem.type
  | .busy (.cmd .CMD_ALLOW_MOVE_2) 0 =>
    s.robot.phase = .holding ∨ (s.robot.phase.Ahead ∧ s.mem.cmd1 = allowMoveCmd1) →
      Known s.mem.type
  | _ => True

instance : (s : Cell) → Decidable (Covered s)
  | ⟨.idle, _, _⟩ | ⟨.failing _, _, _⟩ | ⟨.busy .clear _, _, _⟩ => .isTrue trivial
  | ⟨.busy .connect 5, m, r⟩ => inferInstanceAs (Decidable (¬ Exposed m r.phase))
  | ⟨.busy .connect 0, _, _⟩ | ⟨.busy .connect 1, _, _⟩ | ⟨.busy .connect 2, _, _⟩
  | ⟨.busy .connect 3, _, _⟩ | ⟨.busy .connect 4, _, _⟩ | ⟨.busy .connect (_ + 6), _, _⟩ =>
    .isTrue trivial
  | ⟨.busy (.move _) 0, m, r⟩ | ⟨.busy (.cmd .CMD_ALLOW_MOVE_1) 0, m, r⟩ =>
    inferInstanceAs (Decidable (r.phase.Ahead → m.cmd2 = allowMoveCmd2 → Known m.type))
  | ⟨.busy (.cmd .CMD_ALLOW_MOVE_2) 0, m, r⟩ =>
    inferInstanceAs (Decidable
      (r.phase = .holding ∨ (r.phase.Ahead ∧ m.cmd1 = allowMoveCmd1) → Known m.type))
  | ⟨.busy (.move _) (_ + 1), _, _⟩ | ⟨.busy (.cmd .CMD_ALLOW_MOVE_1) (_ + 1), _, _⟩
  | ⟨.busy (.cmd .CMD_ALLOW_MOVE_2) (_ + 1), _, _⟩ => .isTrue trivial
  | ⟨.busy (.cmd .CMD_EXIT) _, _, _⟩ | ⟨.busy (.cmd .CMD_CLR_READY) _, _, _⟩
  | ⟨.busy (.cmd .CMD_READY) _, _, _⟩ => .isTrue trivial

def coveredCalls : Guard Cell CellInput Event
  | _, _, .call c => c.Sane
  | _, s, .pc o => o.applied → Covered s
  | _, _, .robot => True

instance (tr : List Event) (s : Cell) : (i : CellInput) → Decidable (coveredCalls tr s i)
  | .call c => inferInstanceAs (Decidable c.Sane)
  | .pc o => inferInstanceAs (Decidable (o.applied → Covered s))
  | .robot => .isTrue trivial

/-! ## The invariant -/

/-- Every type that the robot has latched is known. -/
def Phase.Latched : Phase → Prop
  | .typed t | .sourced t _ => Known t
  | .latched q => Known q.type
  | _ => True

structure Safe (tr : List Event) (d : Driver) (m : Mem) (p : Phase) : Prop where
  call : ∀ c k, d = .busy c k → (calls tr).getLast? = some c ∧ c.Sane
  written : ∀ mv k, d = .busy (.move mv) k → Written mv.words k m
  exit : m.exit = exitCmd → Asked tr
  off : p = .off → Asked tr
  known : Exposed m p → Known m.type
  latched : p.Latched

theorem exposed_iff {m : Mem} {p : Phase} : Exposed m p ↔
    p = .armed ∨ (p = .holding ∧ m.cmd2 = allowMoveCmd2) ∨
      (p.Ahead ∧ m.cmd1 = allowMoveCmd1 ∧ m.cmd2 = allowMoveCmd2) := by
  cases p <;> simp [Exposed, Phase.Ahead]

/-- Exposed now means exposed before, when no ALLOW word is new. -/
theorem exposed_of {m m' : Mem} {p : Phase} (h : Exposed m' p) (hm : SetsNothing m m') :
    Exposed m p := by
  rw [exposed_iff] at h ⊢
  rcases h with h | ⟨hp, h2⟩ | ⟨hp, h1, h2⟩
  · exact Or.inl h
  · exact Or.inr (Or.inl ⟨hp, hm.allow2 h2⟩)
  · exact Or.inr (Or.inr ⟨hp, hm.allow1 h1, hm.allow2 h2⟩)

/-- ALLOW_MOVE_1 exposes only a robot that has register 540 ahead of it. -/
theorem exposed_allow1 {m : Mem} {p : Phase} (h : Exposed (m.write .ADDR_CMD_1 allowMoveCmd1) p) :
    Exposed m p ∨ (p.Ahead ∧ m.cmd2 = allowMoveCmd2) := by
  rw [exposed_iff] at h
  rcases h with h | ⟨hp, h2⟩ | ⟨hp, -, h2⟩
  · exact Or.inl (exposed_iff.mpr (Or.inl h))
  · exact Or.inl (exposed_iff.mpr (Or.inr (Or.inl ⟨hp, h2⟩)))
  · exact Or.inr ⟨hp, h2⟩

theorem exposed_allow2 {m : Mem} {p : Phase} (h : Exposed (m.write .ADDR_CMD_2 allowMoveCmd2) p) :
    Exposed m p ∨ p = .holding ∨ (p.Ahead ∧ m.cmd1 = allowMoveCmd1) := by
  rw [exposed_iff] at h
  rcases h with h | ⟨hp, -⟩ | ⟨hp, h1, -⟩
  · exact Or.inl (exposed_iff.mpr (Or.inl h))
  · exact Or.inr (Or.inl hp)
  · exact Or.inr (Or.inr ⟨hp, h1⟩)

theorem exposed_robot {m m' : Mem} {p p' : Phase} {e : Event} (h : Phase.Step m p e p' m')
    (hx : Exposed m' p') : Exposed m p := by
  cases h
  case quiet => exact hx
  case booted => exact hx
  case noExit => exact hx
  case notAllowed => exact hx
  case allowed hw => exact ⟨hw, hx⟩
  case again => exact hx
  case notSecond hw => exact absurd hx.2 hw
  case second hw => exact hw
  case acked hw =>
    have h1 := hx.1
    rw [hw] at h1
    exact absurd h1 clrReady_ne_allow1
  case unready => exact hx
  all_goals exact hx.elim

theorem latched_robot {m m' : Mem} {p p' : Phase} {e : Event} (hl : p.Latched)
    (hk : Exposed m p → Known m.type) (h : Phase.Step m p e p' m') : p'.Latched := by
  cases h
  case quiet => exact hl
  case type => exact hk trivial
  case source => exact hl
  case dest => exact hl
  all_goals trivial

theorem safe_robot {tr : List Event} {m m' : Mem} {p p' : Phase} {d : Driver} {e : Event}
    (hI : Safe tr d m p) (h : Phase.Step m p e p' m') : Safe (tr ++ [e]) d m' p' := by
  obtain ⟨hcall, hwritten, hexit, hoff, hknown, hlatched⟩ := hI
  have hw := h.words
  have hp : m'.type = m.type := congrArg Params.type hw.2.2.1
  refine ⟨?_, ?_, ?_, ?_, ?_, latched_robot hlatched hknown h⟩
  · intro c k hd
    rw [calls_append, h.no_call, List.append_nil]
    exact hcall c k hd
  · intro mv k hd
    exact (hwritten mv k hd).of_params hw.2.2.1
  · intro hx
    rw [hw.2.2.2] at hx
    exact (hexit hx).snoc e
  · rintro rfl
    cases h
    case quiet => exact (hoff rfl).snoc _
    case exitAsked hx => exact (hexit hx).snoc _
    case unknown hu => exact absurd hlatched hu
  · intro hx
    rw [hp]
    exact hknown (exposed_robot h hx)

/-- Each write that takes effect keeps the invariant, when it meets the condition. -/
theorem safe_write {tr : List Event} {m : Mem} {r : Robot} {d : Driver} {a : MEMADDR} {w : REG16}
    (hI : Safe tr d m r.phase) (hc : Covered ⟨d, m, r⟩) (hw : d.Writes a w) :
    ((m.write a w).exit = exitCmd → Asked (tr ++ [.write a w])) ∧
      (Exposed (m.write a w) r.phase → Known (m.write a w).type) := by
  have hexit : m.exit = exitCmd → Asked (tr ++ [.write a w]) := fun hx => (hI.exit hx).snoc _
  have hknown := hI.known
  have hsame : (m.write a w).type = m.type → SetsNothing m (m.write a w) →
      ((m.write a w).exit = exitCmd → Asked (tr ++ [.write a w])) ∧
        (Exposed (m.write a w) r.phase → Known (m.write a w).type) := by
    intro ht hm
    rw [ht]
    exact ⟨fun hx => hexit (hm.exit hx), fun hx => hknown (exposed_of hx hm)⟩
  cases hw
  case zero k hk =>
    by_cases hk5 : k = 5
    · subst hk5
      cases hk
      exact ⟨hexit, fun hx => absurd hx hc⟩
    · exact hsame (zero_type hk hk5 m) (zero_sets_nothing m _)
  case cmd c ha =>
    cases c
    case CMD_READY => cases ha
    case CMD_ALLOW_MOVE_1 =>
      cases ha
      refine ⟨hexit, fun hx => ?_⟩
      rcases exposed_allow1 hx with hx | ⟨hp, h2⟩
      · exact hknown hx
      · exact hc hp h2
    case CMD_ALLOW_MOVE_2 =>
      cases ha
      refine ⟨hexit, fun hx => ?_⟩
      rcases exposed_allow2 hx with hx | hx
      · exact hknown hx
      · exact hc hx
    case CMD_EXIT =>
      cases ha
      exact ⟨fun _ => ⟨tr, [], rfl, (hI.call _ _ rfl).1⟩, hknown⟩
    case CMD_CLR_READY =>
      cases ha
      exact hsame rfl (clrReady_sets_nothing m _)
  case allow1 =>
    refine ⟨hexit, fun hx => ?_⟩
    rcases exposed_allow1 hx with hx | ⟨hp, h2⟩
    · exact hknown hx
    · exact hc hp h2
  case word mv k hk =>
    have hv : mv.Valid := (hI.call _ _ rfl).2
    have hn := word_sets_nothing hk m
    rcases word_type hk m with ht | ht
    · exact hsame ht hn
    · rw [ht]
      exact ⟨fun hx => hexit (hn.exit hx), fun _ => hv.known⟩
  case allow2 mv =>
    have hv : mv.Valid := (hI.call _ _ rfl).2
    refine ⟨hexit, fun _ => ?_⟩
    rw [show (m.write .ADDR_CMD_2 allowMoveCmd2).type = mv.words.type from
      (hI.written mv 4 rfl).type (by omega)]
    exact hv.known
  case clear1 => exact hsame rfl (zero_sets_nothing m _)
  case clear2 => exact hsame rfl (zero_sets_nothing m _)
  case clrReady => exact hsame rfl (clrReady_sets_nothing m _)

theorem safe_pc {tr : List Event} {m : Mem} {r : Robot} {d d' : Driver} {o : Outcome} {e : Event}
    (hI : Safe tr d m r.phase) (hc : o.applied → Covered ⟨d, m, r⟩)
    (hs : Driver.Step o m.ready d e d') : Safe (tr ++ [e]) d' (m.after e) r.phase := by
  obtain ⟨-, -, hcalls, -⟩ := hs.plain.snoc tr
  have hmem : ((m.after e).exit = exitCmd → Asked (tr ++ [e])) ∧
      (Exposed (m.after e) r.phase → Known (m.after e).type) := by
    rcases driver_event hs with ⟨a, w, rfl, ho, hw⟩ | ⟨-, hm⟩
    · exact safe_write hI (hc ho) hw
    · rw [hm]
      exact ⟨fun hx => (hI.exit hx).snoc e, hI.known⟩
  refine ⟨?_, ?_, hmem.1, fun hp => (hI.off hp).snoc e, hmem.2, hI.latched⟩
  · intro c k hd
    rw [hcalls]
    obtain ⟨j, hj⟩ := hs.same_call hd
    exact hI.call c j hj
  · rintro mv k rfl
    exact written_pc (hI.written mv) hs

theorem safe_call {tr : List Event} {m : Mem} {p : Phase} {c : Call} (hI : Safe tr .idle m p)
    (hc : c.Sane) : Safe (tr ++ [.call c]) (.busy c 0) m p := by
  refine ⟨?_, ?_, fun hx => (hI.exit hx).snoc _, fun hp => (hI.off hp).snoc _, hI.known, hI.latched⟩
  · rintro c' k ⟨⟩
    exact ⟨by simp [calls, Event.call?], hc⟩
  · rintro mv k ⟨⟩
    exact ⟨by omega, by omega, by omega⟩

theorem safe_run {s : Cell} {tr : List Event} (h : Run cell coveredCalls Cell.start tr s) :
    Safe tr s.driver s.mem s.robot.phase := by
  apply cell_invariant Safe h
  · refine ⟨fun c k hd => ?_, fun mv k hd => ?_, fun hx => ?_, fun hp => ?_, fun hx => ?_, trivial⟩
    · cases hd
    · cases hd
    · exact absurd hx zero_ne_exit
    · cases hp
    · exact absurd hx.1 zero_ne_allow1
  · exact fun _ _ _ _ hI hc => safe_call hI hc
  · exact fun _ _ _ _ _ _ _ hI hc hs => safe_pc hI hc hs
  · exact fun _ _ _ _ _ _ _ hI hs => safe_robot hI hs

/-! ## The law -/

/-- In a run whose writes all meet the condition, the robot is at `*exit` or past it only after
`robot_sendCmd` has written CMD_EXIT to register 545. -/
theorem the_robot_goes_off_only_when_asked (s : Cell) (tr : List Event)
    (h : Run cell coveredCalls Cell.start tr s)
    (hx : s.robot.line = .exit ∨ s.robot.line = .ended) : Asked tr := by
  apply (safe_run h).off
  rcases hx with hx | hx <;> simp [Robot.phase, hx]

/-- The law at a session whose move fails at its poll and is carried out all the same. The program
connects again behind the motion, clears the words and ends with CMD_EXIT. -/
theorem the_robot_goes_off_when_asked :
    ∃ tr s, Run cell coveredCalls Cell.start tr s ∧ s.robot.line = .exit ∧
      .ret (.move ⟨13, 29, NORMAL_MOVE⟩) false ∈ tr ∧ finished tr = 1 ∧ Asked tr := by
  have hrun : ∃ tr s, Run cell coveredCalls Cell.start tr s ∧
      decide (s.robot.line = .exit ∧ .ret (.move ⟨13, 29, NORMAL_MOVE⟩) false ∈ tr ∧
        finished tr = 1) = true :=
    exists_run_of_execWith (fun tr s => _)
      (connectAndClear ++ .call (.move ⟨13, 29, NORMAL_MOVE⟩) :: pcSteps 5 ++
        [CellInput.pc (.failed false), .pc .ok] ++ robotSteps 33 ++ .call .connect :: pcSteps 8 ++
        .call .clear :: pcSteps 4 ++ robotSteps 2 ++ .call (.cmd .CMD_EXIT) :: pcSteps 2 ++
        robotSteps 5)
      (by decide +kernel)
  obtain ⟨tr, s, h, hP⟩ := hrun
  obtain ⟨hx, hret, hfin⟩ := of_decide_eq_true hP
  exact ⟨tr, s, h, hx, hret, hfin, the_robot_goes_off_only_when_asked s tr h (Or.inl hx)⟩

/-- The poll of a call fails, and the call returns false with both ALLOW words set. The robot
reads them, and `robot_connect` writes 0 to register 544 before the robot reads the type. -/
theorem a_reconnect_switches_the_robot_off :
    ∃ tr s, Run cell saneCalls Cell.start tr s ∧ s.robot.line = .exit ∧ ¬ Asked tr := by
  have hrun : ∃ tr s, Run cell saneCalls Cell.start tr s ∧
      decide (s.robot.line = .exit ∧ .write .ADDR_CMD_EXIT exitCmd ∉ tr) = true :=
    exists_run_of_execWith (fun tr s => _)
      (connectAndClear ++ .call (.move ⟨13, 29, NORMAL_MOVE⟩) :: pcSteps 5 ++
        [CellInput.pc (.failed false), .pc .ok] ++ robotSteps 8 ++ .call .connect :: pcSteps 6 ++
        robotSteps 4)
      (by decide +kernel)
  obtain ⟨tr, s, h, hP⟩ := hrun
  obtain ⟨hx, hnot⟩ := of_decide_eq_true hP
  refine ⟨tr, s, h, hx, ?_⟩
  rintro ⟨pre, post, rfl, -⟩
  exact hnot (by simp)

end robotchess
