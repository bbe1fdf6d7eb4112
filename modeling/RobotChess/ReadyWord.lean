-- The ready word of the robot, with any PC and with restarts of the robot program.
-- Line 102 sets all 16 bits of the word, line 107 clears one of them, and the
-- initialisation leaves the word alone.
import RobotChess.Cell

open runs

namespace robotchess

/-! ## The law -/

/-- The robot is past line 102 and not past line 107. -/
def Robot.Signals (r : Robot) : Prop :=
  r.line = .waitforpc ∨ r.line = .testAck ∨ r.line = .unready

instance (r : Robot) : Decidable r.Signals :=
  inferInstanceAs (Decidable (_ ∨ _ ∨ _))

/-- Outside the initialisation the ready word is `CMD_READY` between line 102 and line 107, and 0
elsewhere. -/
def ReadySound (s : Plant) : Prop :=
  (∀ todo, s.robot.line ≠ .init todo) →
    s.mem.ready = if s.robot.Signals then CMD.word .CMD_READY else 0

/-- Any writes of the PC, and restarts at any points. -/
def anyRun : Guard Plant PlantInput Event := fun _ _ _ => True

instance (tr : List Event) (s : Plant) (i : PlantInput) : Decidable (anyRun tr s i) :=
  .isTrue trivial

/-- The robot takes steps, with no write of the PC and no restart. -/
def robotAlone : Guard Plant PlantInput Event := fun _ _ i => i = .robot

/-- The robot does not run line 107, and it is not restarted while it signals. -/
def noUnready : Guard Plant PlantInput Event
  | _, _, .write _ _ => True
  | _, s, .robot => s.robot.line ≠ .unready
  | _, s, .restart => ¬ s.robot.Signals

instance (tr : List Event) (s : Plant) : (i : PlantInput) → Decidable (noUnready tr s i)
  | .write _ _ => .isTrue trivial
  | .robot => inferInstanceAs (Decidable (s.robot.line ≠ .unready))
  | .restart => inferInstanceAs (Decidable (¬ s.robot.Signals))

/-! ## One line -/

theorem signals_iff {r : Robot} : r.Signals ↔ r.phase = .waiting ∨ r.phase = .acked := by
  unfold Robot.Signals Robot.phase
  cases hl : r.line
  case testExit => by_cases hc : r.nWcmdExit = exitCmd <;> simp [hc]
  case testCmd1 => by_cases hc : r.nWcmd1 = allowMoveCmd1 <;> simp [hc]
  case testCmd2 => by_cases hc : r.nWcmd2 = allowMoveCmd2 <;> simp [hc]
  case testAck => by_cases hc : r.nWcmdClrReady = readyClearCmd <;> simp [hc]
  all_goals simp

/-- Only line 107 takes the ready signal back. -/
theorem line_of_unready {r r' : Robot} {m m' : Mem}
    (h : r.step m = some (.unready, r', m')) : r.line = .unready := by
  unfold Robot.step at h
  cases hl : r.line
  all_goals simp only [hl] at h
  case unready => rfl
  case testType =>
    split at h
    · cases h
    · split at h <;> cases h
  case init todo => cases todo <;> cases h
  case motion todo =>
    cases todo with
    | nil => cases h
    | cons st todo => cases st <;> cases h
  all_goals cases h

/-- Only line 102 and line 107 change the ready word, and only they start and end the signal. -/
theorem step_ready {r r' : Robot} {m m' : Mem} {e : Event} (h : r.step m = some (e, r', m')) :
    (r'.Signals ∧ m'.ready = moveReady) ∨ r.line = .unready ∨
      (m'.ready = m.ready ∧ (r'.Signals ↔ r.Signals)) := by
  have hs := step_phase h
  have hline : e = .unready → r.line = .unready := by
    rintro rfl
    exact line_of_unready h
  rw [signals_iff, signals_iff]
  generalize r.phase = p at hs
  generalize r'.phase = p' at hs
  cases hs
  case done => exact Or.inl ⟨Or.inl rfl, rfl⟩
  case unready => exact Or.inr (Or.inl (hline rfl))
  all_goals exact Or.inr (Or.inr ⟨rfl, by simp⟩)

/-! ## The law of a run -/

theorem readyWord_step {tr : List Event} {s t : Plant} {i : PlantInput} {e : Event}
    (hI : s.mem.ready = if s.robot.Signals then moveReady else 0) (hok : noUnready tr s i)
    (h : plant s i = some (e, t)) : t.mem.ready = if t.robot.Signals then moveReady else 0 := by
  rcases plant_step h with ⟨a, w, rfl, -, rfl⟩ | ⟨rfl, hr⟩ | ⟨rfl, -, rfl⟩
  · simp only [write_ready]
    exact hI
  · rcases step_ready hr with ⟨hs, hw⟩ | hl | ⟨hw, hs⟩
    · rw [if_pos hs]
      exact hw
    · exact absurd hl hok
    · rw [hw, hI]
      by_cases hsig : s.robot.Signals
      · rw [if_pos hsig, if_pos (hs.mpr hsig)]
      · rw [if_neg hsig, if_neg (fun h => hsig (hs.mp h))]
  · have hsig : ¬ s.robot.Signals := hok
    rw [if_neg hsig] at hI
    rw [if_neg (by simp [Robot.Signals, Robot.restart])]
    exact hI

theorem readyWord_run {s t : Plant} {tr : List Event} (hready : s.mem.ready = 0)
    (hs : ¬ s.robot.Signals) (h : Run plant noUnready s tr t) :
    t.mem.ready = if t.robot.Signals then moveReady else 0 := by
  apply h.invariant (fun _ t => t.mem.ready = if t.robot.Signals then moveReady else 0)
  · rw [if_neg hs]
    exact hready
  · exact fun _ _ _ _ _ hI hok hM => readyWord_step hI hok hM

/-- The initialisation comes to `*main` by itself, and leaves the words as they are. -/
theorem init_run (m : Mem) (todo : List InitStmt) (r : Robot) (hl : r.line = .init todo) :
    ∃ tr t, Run plant robotAlone ⟨m, r⟩ tr t ∧ t.robot.line = .main ∧ t.mem = m := by
  induction todo generalizing r with
  | nil =>
    have hM : plant ⟨m, r⟩ .robot = some (.silent, ⟨m, { r with line := .main }⟩) := by
      simp [plant, Robot.step, hl]
    exact ⟨_, _, Run.nil.snoc rfl hM, rfl, rfl⟩
  | cons st todo ih =>
    have hM : plant ⟨m, r⟩ .robot =
        some (.silent, ⟨m, { st.run r with line := .init todo }⟩) := by
      simp [plant, Robot.step, hl]
    obtain ⟨tr, t, ht, hline, hmem⟩ := ih { st.run r with line := .init todo } rfl
    have h1 : Run plant robotAlone ⟨m, r⟩ [.silent] ⟨m, { st.run r with line := .init todo }⟩ :=
      Run.nil.snoc rfl hM
    exact ⟨_, t, h1.append ht, hline, hmem⟩

/-- At `*main` a ready word that is not 0 is not sound. -/
theorem not_sound_at_main {s : Plant} (hl : s.robot.line = .main) (hr : s.mem.ready ≠ 0) :
    ¬ ReadySound s := by
  intro hs
  have hz := hs (by simp [hl])
  rw [if_neg (by simp [Robot.Signals, hl])] at hz
  exact hr hz

/-- As long as the robot does not run line 107, and is not restarted while it signals, the ready
word is sound in each state. After each step that does so, the robot alone comes to a state where
it is not. -/
theorem the_ready_word_is_sound (s t : Plant) (tr : List Event) (hready : s.mem.ready = 0)
    (hs : ¬ s.robot.Signals) (h : Run plant noUnready s tr t) :
    ReadySound t ∧ ∀ i e u, ¬ noUnready tr t i → plant t i = some (e, u) →
      ∃ tr' v, Run plant robotAlone u tr' v ∧ ¬ ReadySound v := by
  have hI := readyWord_run hready hs h
  refine ⟨fun _ => hI, ?_⟩
  intro i e u hok hM
  rcases plant_step hM with ⟨a, w, rfl, -, rfl⟩ | ⟨rfl, hr⟩ | ⟨rfl, -, rfl⟩
  · exact absurd trivial hok
  · have hl : t.robot.line = .unready := Decidable.not_not.mp hok
    have hsig : t.robot.Signals := Or.inr (Or.inr hl)
    rw [if_pos hsig] at hI
    simp only [Robot.step, hl, Option.some.injEq, Prod.mk.injEq] at hr
    obtain ⟨-, hrobot, hmem⟩ := hr
    refine ⟨[], u, .nil, not_sound_at_main (by rw [← hrobot]) ?_⟩
    rw [← hmem]
    simp only [M_Out, hI]
    decide
  · have hsig : t.robot.Signals := Decidable.not_not.mp hok
    rw [if_pos hsig] at hI
    obtain ⟨tr', v, hv, hline, hmem⟩ := init_run t.mem initialisation t.robot.restart rfl
    refine ⟨tr', v, hv, not_sound_at_main hline ?_⟩
    rw [hmem, hI]
    decide

/-- The law at one motion, with a restart before it. -/
theorem the_ready_word_is_sound_run :
    ∃ tr t, Run plant noUnready ⟨.zero, .atMain⟩ tr t ∧ t.robot.line = .waitforpc ∧
      ReadySound t := by
  have hrun : ∃ tr t, Run plant noUnready ⟨.zero, .atMain⟩ tr t ∧
      decide (t.robot.line = .waitforpc) = true :=
    exists_run_of_execWith (fun _ t => _)
      (.robot :: .restart :: List.replicate 10 PlantInput.robot ++ armMove ⟨13, 29, NORMAL_MOVE⟩ ++
        List.replicate 33 PlantInput.robot)
      (by decide +kernel)
  obtain ⟨tr, t, h, hP⟩ := hrun
  exact ⟨tr, t, h, of_decide_eq_true hP,
    (the_ready_word_is_sound ⟨.zero, .atMain⟩ t tr rfl (by decide) h).1⟩

/-- Line 107 clears the lowest bit of `CMD_READY` and leaves the rest. So after each motion that
is acknowledged, the ready word is 0x456 and not 0. -/
theorem the_acknowledged_ready_word_is_not_zero :
    ∃ tr t, Run plant anyRun ⟨.zero, .atMain⟩ tr t ∧ t.robot.line = .main ∧
      t.mem.ready = 0x456 ∧ ¬ ReadySound t := by
  have hrun : ∃ tr t, Run plant anyRun ⟨.zero, .atMain⟩ tr t ∧
      decide (t.robot.line = .main ∧ t.mem.ready = 0x456) = true :=
    exists_run_of_execWith (fun _ t => _)
      (armMove ⟨13, 29, NORMAL_MOVE⟩ ++ List.replicate 33 PlantInput.robot ++
        .write .ADDR_CMD_1 readyClearCmd :: List.replicate 3 PlantInput.robot)
      (by decide +kernel)
  obtain ⟨tr, t, h, hP⟩ := hrun
  obtain ⟨hl, hr⟩ := of_decide_eq_true hP
  exact ⟨tr, t, h, hl, hr, not_sound_at_main hl (by rw [hr]; decide)⟩

end robotchess
