-- The PC driver on its registers, with no robot. Each poll is answered by any
-- word at all, so what holds here holds with any machine behind register 1040.
-- When both ALLOW words stand, the parameters beside them are those of the call
-- that the PC is in.
import RobotChess.Session

open runs

namespace robotchess

/-! ## The PC and its registers -/

structure Pc where
  driver : Driver
  mem : Mem
  deriving DecidableEq, Repr

/-- The PC outside the driver, with every register at 0. -/
def Pc.start : Pc := ⟨.idle, .zero⟩

inductive PcInput
  -- the PC enters a driver function
  | call (c : Call)
  -- its next operation has this outcome, and a read of 1040 gives this word
  | op (o : Outcome) (ans : REG16)
  deriving DecidableEq, Repr

def pc : Machine Pc PcInput Event
  | s, .call c =>
    if s.driver = .idle then some (.call c, { s with driver := .busy c 0 }) else none
  | s, .op o ans => (s.driver.step o ans).map fun (e, d) => (e, ⟨d, s.mem.after e⟩)

/-- The PC takes `n` steps, and no Modbus operation fails. -/
def okSteps (n : Nat) (ans : REG16) : List PcInput := List.replicate n (.op .ok ans)

/-- What one step of the PC can be. -/
inductive Pc.Step (s : Pc) : PcInput → Event → Pc → Prop
  | call (c : Call) : s.driver = .idle → Step s (.call c) (.call c) ⟨.busy c 0, s.mem⟩
  | op {o : Outcome} {ans : REG16} {e : Event} {d : Driver} : Driver.Step o ans s.driver e d →
      Step s (.op o ans) e ⟨d, s.mem.after e⟩

theorem pc_step {s t : Pc} {i : PcInput} {e : Event} (h : pc s i = some (e, t)) :
    Pc.Step s i e t := by
  cases i with
  | call c =>
    simp only [pc] at h
    split at h
    · cases h
      exact .call c ‹_›
    · cases h
  | op o ans =>
    obtain ⟨⟨e', d⟩, hd, he⟩ := Option.map_eq_some_iff.mp h
    cases he
    exact .op (driver_step hd)

/-- An event that is no call is a step of the driver. -/
theorem pc_driver {s t : Pc} {i : PcInput} {e : Event} (h : pc s i = some (e, t))
    (he : e.call? = none) :
    ∃ o ans d, Driver.Step o ans s.driver e d ∧ t = ⟨d, s.mem.after e⟩ := by
  cases pc_step h with
  | call c _ => cases he
  | op hd => exact ⟨_, _, _, hd, rfl⟩

/-- A law of the driver and its registers that the two kinds of step keep holds after each run. -/
theorem pc_invariant (Inv : List Event → Driver → Mem → Prop) {ok : Guard Pc PcInput Event}
    {s t : Pc} {tr : List Event} (h : Run pc ok s tr t) (h0 : Inv [] s.driver s.mem)
    (hcall : ∀ tr m c, Inv tr .idle m → ok tr ⟨.idle, m⟩ (.call c) →
      Inv (tr ++ [.call c]) (.busy c 0) m)
    (hop : ∀ tr d m o ans e d', Inv tr d m → ok tr ⟨d, m⟩ (.op o ans) → Driver.Step o ans d e d' →
      Inv (tr ++ [e]) d' (m.after e)) : Inv tr t.driver t.mem := by
  apply h.invariant (fun tr t => Inv tr t.driver t.mem) h0
  intro tr t i e u hI hok hM
  obtain ⟨d, m⟩ := t
  cases pc_step hM with
  | call c hd =>
    cases hd
    exact hcall _ _ _ hI hok
  | op hd => exact hop _ _ _ _ _ _ _ hI hok hd

/-! ## The PC of the cell -/

/-- What the PC sees of the cell: not the ready word, which each poll brings anew. -/
def Cell.pc (s : Cell) : Pc := ⟨s.driver, { s.mem with ready := 0 }⟩

theorem after_unseen (m : Mem) (e : Event) :
    { m.after e with ready := 0 } = ({ m with ready := 0 } : Mem).after e := by
  cases e
  case write a w => cases a <;> rfl
  all_goals rfl

/-- The events of the PC. -/
def Event.onPc : Event → Bool
  | .call _ | .connected _ | .write _ _ | .lost _ _ | .answer _ | .ret _ _ => true
  | _ => false

theorem driver_event_onPc {o : Outcome} {ans : REG16} {d d' : Driver} {e : Event}
    (h : Driver.Step o ans d e d') : e.onPc = true := by
  have hw : ∀ a w, (writeEvent o a w).onPc = true := by
    intro a w
    unfold writeEvent
    split <;> rfl
  cases h
  all_goals first
    | exact hw _ _
    | rfl

theorem robot_event_onPc {m m' : Mem} {p p' : Phase} {e : Event} (h : Phase.Step m p e p' m') :
    e.onPc = false := by
  cases h
  case quiet hq => cases e <;> first | rfl | exact hq.elim
  all_goals rfl

/-- The PC of a run of the cell is a run of the PC alone, with the polls that the robot answered. -/
theorem cell_run_is_pc_run {ok : Guard Cell CellInput Event} {ok' : Guard Pc PcInput Event}
    {s t : Cell} {tr : List Event}
    (hcall : ∀ tr s c, ok tr s (.call c) → ok' (tr.filter Event.onPc) s.pc (.call c))
    (hop : ∀ tr s o, ok tr s (.pc o) → ok' (tr.filter Event.onPc) s.pc (.op o s.mem.ready))
    (h : Run cell ok s tr t) : Run pc ok' s.pc (tr.filter Event.onPc) t.pc := by
  apply Run.simulate Cell.pc Event.onPc _ h
  intro tr t i e u hi hM
  cases i with
  | call c =>
    cases cell_step hM with
    | call c hd => exact ⟨.call c, hcall _ _ _ hi, by simp [pc, Cell.pc, hd]⟩
  | pc o =>
    obtain ⟨⟨e', d⟩, hd, he⟩ := Option.map_eq_some_iff.mp hM
    cases he
    rw [if_pos (driver_event_onPc (driver_step hd))]
    exact ⟨.op o t.mem.ready, hop _ _ _ hi,
      by simpa [pc, Cell.pc, hd] using (after_unseen t.mem e).symm⟩
  | robot =>
    cases cell_step hM with
    | robot hr =>
      have hp := step_phase hr
      obtain ⟨h1, h2, h3, h4⟩ := hp.words
      simp only [Mem.params, Params.mk.injEq] at h3
      simp only [robot_event_onPc hp, Bool.false_eq_true, if_false, Cell.pc, h1, h2, h3, h4]

/-! ## The parameters that stand beside the ALLOW words -/

/-- The calls that send no ALLOW word outside `robot_sendMove`. -/
def Call.NoAllow : Call → Prop
  | .cmd c => c = .CMD_EXIT ∨ c = .CMD_CLR_READY
  | _ => True

instance : (c : Call) → Decidable c.NoAllow
  | .cmd c => inferInstanceAs (Decidable (c = .CMD_EXIT ∨ c = .CMD_CLR_READY))
  | .connect | .clear | .move _ => .isTrue trivial

/-- Such calls, with no failed operation. -/
def noFailure : Guard Pc PcInput Event
  | _, _, .call c => c.NoAllow
  | _, _, .op o _ => o = .ok

instance (tr : List Event) (s : Pc) : (i : PcInput) → Decidable (noFailure tr s i)
  | .call c => inferInstanceAs (Decidable c.NoAllow)
  | .op o _ => inferInstanceAs (Decidable (o = .ok))

/-- What the words are at each point of the driver. Only a move has ALLOW_MOVE_2 in 541, and
it takes ALLOW_MOVE_1 back first. -/
def Current (m : Mem) : Driver → Prop
  | .busy (.move mv) k => MoveRegs mv.words k m ∧ (7 ≤ k → m.cmd1 ≠ allowMoveCmd1)
  | .busy (.cmd c) _ => m.cmd2 = 0 ∧ (Call.cmd c).NoAllow
  | _ => m.cmd2 = 0

theorem current_call {m : Mem} {c : Call} (hI : Current m .idle) (hc : c.NoAllow) :
    Current m (.busy c 0) := by
  have h2 : m.cmd2 = 0 := hI
  match c with
  | .connect => exact h2
  | .clear => exact h2
  | .cmd _ => exact ⟨h2, hc⟩
  | .move mv =>
    exact ⟨⟨by omega, by omega, fun _ => h2, by omega, by omega, by omega, by omega, by omega⟩,
      by omega⟩

theorem current_op {m : Mem} {d d' : Driver} {ans : REG16} {e : Event} (hI : Current m d)
    (h : Driver.Step .ok ans d e d') : Current (m.after e) d' := by
  have hmove : ∀ mv j k, d = .busy (.move mv) j → d' = .busy (.move mv) k →
      (7 ≤ k → (m.after e).cmd1 ≠ allowMoveCmd1) → Current (m.after e) (.busy (.move mv) k) := by
    rintro mv j k rfl rfl h1
    refine ⟨moveRegs_pc ?_ h, h1⟩
    rintro i ⟨⟩
    exact hI.1
  cases h
  case connected => exact hI
  case zero a _ => exact (write_zero m a).2.1 hI
  case allow1 => exact hmove _ _ _ rfl rfl (by omega)
  case word hk _ =>
    have hk3 := word_bounds hk
    exact hmove _ _ _ rfl rfl (by omega)
  case allow2 => exact hmove _ _ _ rfl rfl (by omega)
  case answered => exact hmove _ _ _ rfl rfl (by omega)
  case notYet => exact hmove _ _ _ rfl rfl (by omega)
  case clear1 c k ht =>
    rcases ht with ⟨rfl, rfl⟩ | ⟨mv, rfl, rfl⟩
    · exact hI
    · exact hmove _ _ _ rfl rfl (fun _ => zero_ne_allow1)
  case clear2 c k ht =>
    rcases ht with ⟨rfl, rfl⟩ | ⟨mv, rfl, rfl⟩
    · rfl
    · exact hmove _ _ _ rfl rfl (fun _ => hI.2 (by omega))
  case clrReady c k ht =>
    rcases ht with ⟨rfl, rfl⟩ | ⟨mv, rfl, rfl⟩
    · exact hI
    · exact hmove _ _ _ rfl rfl (fun _ => clrReady_ne_allow1)
  case cmd c a ha _ =>
    obtain ⟨h2, hc⟩ := hI
    rcases hc with rfl | rfl
    all_goals
      cases ha
      exact ⟨h2, by simp [Call.NoAllow]⟩
  case invalid => exact hI.1
  case failed => exact hI
  case returned c k hk =>
    match c with
    | .connect => exact hI
    | .clear => exact hI
    | .cmd _ => exact hI.1
    | .move mv =>
      have h9 : 9 ≤ k := by simpa [Call.body, robot_sendMove_eq] using hk
      exact hI.1.cleared (by omega)
  all_goals contradiction

theorem current_run {s t : Pc} {tr : List Event} (hs : Current s.mem s.driver)
    (h : Run pc noFailure s tr t) : Current t.mem t.driver := by
  apply pc_invariant (fun _ d m => Current m d) h hs
  · exact fun _ _ _ hI hc => current_call hI hc
  · rintro tr d m o ans e d' hI rfl hd
    exact current_op hI hd

/-- The PC is in `robot_sendMove`, past its write of ALLOW_MOVE_2 and before its clearing writes. -/
def Armed (mv : MOVE) (d : Driver) : Prop := d = .busy (.move mv) 5 ∨ d = .busy (.move mv) 6

theorem armed_of_current {m : Mem} {d : Driver} (hI : Current m d) (h1 : m.cmd1 = allowMoveCmd1)
    (h2 : m.cmd2 = allowMoveCmd2) : ∃ mv, Armed mv d ∧ m.params = mv.words := by
  have h0 : m.cmd2 ≠ 0 := by
    rw [h2]
    decide
  match d with
  | .idle => exact absurd hI h0
  | .failing _ => exact absurd hI h0
  | .busy .connect _ => exact absurd hI h0
  | .busy .clear _ => exact absurd hI h0
  | .busy (.cmd _) _ => exact absurd hI.1 h0
  | .busy (.move mv) k =>
    obtain ⟨hr, hc⟩ := hI
    have hlow : ¬ k ≤ 4 := fun hk => h0 (hr.early hk)
    have hhigh : ¬ 7 ≤ k := fun hk => hc hk h1
    have hk : k = 5 ∨ k = 6 := by omega
    refine ⟨mv, ?_, hr.written.params (by omega)⟩
    rcases hk with rfl | rfl
    · exact Or.inl rfl
    · exact Or.inr rfl

/-- When both ALLOW words stand, the PC is in a move that has just set them, and the three
parameter words are those of that move. -/
theorem armed_words_have_current_parameters (t : Pc) (tr : List Event)
    (h : Run pc noFailure Pc.start tr t) (h1 : t.mem.cmd1 = CMD.word .CMD_ALLOW_MOVE_1)
    (h2 : t.mem.cmd2 = CMD.word .CMD_ALLOW_MOVE_2) :
    ∃ mv, Armed mv t.driver ∧ t.mem.params = mv.words := by
  have hs : Current Pc.start.mem Pc.start.driver := rfl
  exact armed_of_current (current_run hs h) h1 h2

/-- The law at a move that polls. -/
theorem armed_words_have_current_parameters_run :
    ∃ tr t, Run pc noFailure Pc.start tr t ∧ t.mem.cmd1 = CMD.word .CMD_ALLOW_MOVE_1 ∧
      t.mem.cmd2 = CMD.word .CMD_ALLOW_MOVE_2 ∧
      ∃ mv, Armed mv t.driver ∧ t.mem.params = mv.words := by
  have hrun : ∃ tr t, Run pc noFailure Pc.start tr t ∧
      decide (t.mem.cmd1 = CMD.word .CMD_ALLOW_MOVE_1 ∧
        t.mem.cmd2 = CMD.word .CMD_ALLOW_MOVE_2) = true :=
    exists_run_of_execWith (fun _ t => _)
      (.call (.cmd .CMD_EXIT) :: okSteps 2 0 ++ .call (.move ⟨13, 29, NORMAL_MOVE⟩) :: okSteps 6 7)
      (by decide +kernel)
  obtain ⟨tr, t, h, hP⟩ := hrun
  obtain ⟨h1, h2⟩ := of_decide_eq_true hP
  exact ⟨tr, t, h, h1, h2, armed_words_have_current_parameters t tr h h1 h2⟩

/-! ## The same in the cell -/

/-- Such calls, with no failed operation, and the robot taking its steps. -/
def noFailureInCell : Guard Cell CellInput Event
  | _, _, .call c => c.NoAllow
  | _, _, .pc o => o = .ok
  | _, _, .robot => True

/-- In the cell too, both ALLOW words stand beside the parameters of the move that the PC is in. -/
theorem armed_cell_has_current_parameters {t : Cell} {tr : List Event}
    (h : Run cell noFailureInCell Cell.start tr t) (h1 : t.mem.cmd1 = allowMoveCmd1)
    (h2 : t.mem.cmd2 = allowMoveCmd2) : ∃ mv, Armed mv t.driver ∧ t.mem.params = mv.words := by
  have hpc : Run pc noFailure Pc.start (tr.filter Event.onPc) t.pc :=
    cell_run_is_pc_run (fun _ _ _ hc => hc) (fun _ _ _ ho => ho) h
  have hs : Current Pc.start.mem Pc.start.driver := rfl
  obtain ⟨mv, hd, hp⟩ := armed_of_current (current_run hs hpc) h1 h2
  exact ⟨mv, hd, hp⟩

end robotchess
