-- What `modbusClearCommand` repairs. Whatever calls failed before it, when its
-- three writes succeed the robot goes back to the idle cycle of `*main` and stays
-- there. Its last motion is one that it had already read both ALLOW words for.
import RobotChess.NoDeadlock

open runs

namespace robotchess

/-! ## The runs -/

/-- Any calls but a CMD_EXIT, and any failures. -/
def anyButExit : Guard Cell CellInput Event
  | _, _, .call c => c ≠ .cmd .CMD_EXIT
  | _, _, _ => True

instance (tr : List Event) (s : Cell) : (i : CellInput) → Decidable (anyButExit tr s i)
  | .call c => inferInstanceAs (Decidable (c ≠ .cmd .CMD_EXIT))
  | .pc _ | .robot => .isTrue trivial

/-- One call of `modbusClearCommand`, with no failed operation. -/
def oneClear : Guard Cell CellInput Event
  | tr, _, .call c => calls tr = [] ∧ c = .clear
  | _, _, .pc o => o = .ok
  | _, _, .robot => True

instance (tr : List Event) (s : Cell) : (i : CellInput) → Decidable (oneClear tr s i)
  | .call c => inferInstanceAs (Decidable (calls tr = [] ∧ c = .clear))
  | .pc o => inferInstanceAs (Decidable (o = .ok))
  | .robot => .isTrue trivial

/-! ## What a failure can leave behind -/

/-- What the variables hold at a line, when the program has never read CMD_EXIT. -/
def Robot.Lawful (r : Robot) : Prop :=
  match r.line with
  | .init _ => False
  | .testExit => r.nWcmdExit ≠ exitCmd
  | .readMoveParams | .readSource | .readDest | .testType => r.nWcmd2 = allowMoveCmd2
  | .exit | .ended => r.nWcmd2 = allowMoveCmd2 ∧ ¬ Known r.nWmoveType
  | _ => True

/-- What holds in every state, whatever failed before. -/
structure Residue (s : Cell) : Prop where
  ready : ReadyInv s.mem s.robot.phase
  exit : s.mem.exit = 0
  noExit : ∀ k, s.driver ≠ .busy (.cmd .CMD_EXIT) k
  script : s.robot.OnScript
  lawful : s.robot.Lawful

theorem lawful_step {r r' : Robot} {m m' : Mem} {e : Event} (hI : r.Lawful) (hx : m.exit = 0)
    (h : r.step m = some (e, r', m')) : r'.Lawful := by
  unfold Robot.Lawful at hI
  cases hl : r.line
  all_goals simp only [hl] at hI
  case motion todo =>
    cases todo <;> simp only [Robot.step, hl, Option.some.injEq, Prod.mk.injEq] at h <;>
      obtain ⟨-, rfl, -⟩ := h <;> trivial
  case testType =>
    simp only [Robot.step, hl] at h
    by_cases hn : r.nWmoveType = normalMove
    · simp only [if_pos hn, Option.some.injEq, Prod.mk.injEq] at h
      obtain ⟨-, rfl, -⟩ := h
      trivial
    · by_cases hh : r.nWmoveType = hitMove
      · simp only [if_neg hn, if_pos hh, Option.some.injEq, Prod.mk.injEq] at h
        obtain ⟨-, rfl, -⟩ := h
        trivial
      · simp only [if_neg hn, if_neg hh, Option.some.injEq, Prod.mk.injEq] at h
        obtain ⟨-, rfl, -⟩ := h
        exact ⟨hI, by rintro (hk | hk) <;> contradiction⟩
  all_goals
    simp only [Robot.step, hl, Option.some.injEq, Prod.mk.injEq, reduceCtorEq] at h
  all_goals
    obtain ⟨-, rfl, -⟩ := h
    unfold Robot.Lawful
  case readExit =>
    rw [M_In16_exit, hx]
    exact zero_ne_exit
  case testExit =>
    rw [if_neg hI]
    trivial
  case testCmd2 =>
    by_cases hc : r.nWcmd2 = allowMoveCmd2
    · rw [if_pos hc]
      exact hc
    · rw [if_neg hc]
      trivial
  case testCmd1 => by_cases hc : r.nWcmd1 = allowMoveCmd1 <;> simp [hc]
  case testAck => by_cases hc : r.nWcmdClrReady = readyClearCmd <;> simp [hc]
  all_goals exact hI

/-- The PC writes only 0 to register 545, unless it sends CMD_EXIT. -/
theorem exit_stays {d d' : Driver} {m : Mem} {o : Outcome} {ans : REG16} {e : Event}
    (hx : m.exit = 0) (hd : ∀ k, d ≠ .busy (.cmd .CMD_EXIT) k) (h : Driver.Step o ans d e d') :
    (m.after e).exit = 0 := by
  rcases driver_event h with ⟨a, w, rfl, -, hw⟩ | ⟨-, hm⟩
  · cases hw
    case zero => exact (write_zero m a).2.2 hx
    case cmd c ha =>
      cases c
      case CMD_EXIT => exact absurd rfl (hd 0)
      case CMD_READY => cases ha
      all_goals
        cases ha
        exact hx
    case word hk => exact (word_write hk m).2.2.trans hx
    all_goals exact hx
  · rw [hm]
    exact hx

theorem residue_step {s t : Cell} {i : CellInput} {e : Event} (hI : Residue s)
    (hi : i ≠ .call (.cmd .CMD_EXIT)) (h : cell s i = some (e, t)) : Residue t := by
  cases cell_step h with
  | call c hd =>
    refine ⟨hI.ready, hI.exit, ?_, hI.script, hI.lawful⟩
    rintro k hk
    cases hk
    exact hi rfl
  | pc hd =>
    refine ⟨readyInv_pc e hI.ready, exit_stays hI.exit hI.noExit hd, ?_, hI.script, hI.lawful⟩
    intro k hk
    obtain ⟨j, hj⟩ := hd.same_call hk
    exact hI.noExit j hj
  | robot hr =>
    have hp := step_phase hr
    exact ⟨readyInv_robot hI.ready hp, hp.words.2.2.2.trans hI.exit, hI.noExit,
      onScript_step hI.script hr, lawful_step hI.lawful hI.exit hr⟩

theorem residue_run {ok : Guard Cell CellInput Event} {s t : Cell} {tr : List Event}
    (hok : ∀ tr s, ¬ ok tr s (.call (.cmd .CMD_EXIT))) (hs : Residue s)
    (h : Run cell ok s tr t) : Residue t := by
  apply h.invariant (fun _ t => Residue t) hs
  intro tr t i e u hI hi hM
  refine residue_step hI ?_ hM
  rintro rfl
  exact hok _ _ hi

theorem residue_start : Residue Cell.start := by
  refine ⟨by decide, rfl, (fun k hk => by cases hk), ?_, trivial⟩
  intro todo ht
  cases ht

/-! ## After the three writes -/

/-- When the call returns with no failed operation, its three writes stand. -/
theorem cleared_run {u v : Cell} {tr : List Event}
    (h : Run cell oneClear u (.call .clear :: tr ++ [.ret .clear true]) v) :
    v.mem.cmd1 = readyClearCmd ∧ v.mem.cmd2 = 0 := by
  obtain ⟨t, i, ht, -, hM⟩ := h.last
  obtain ⟨k, hk, hl, rfl⟩ := cell_ret_true hM
  have hI : ∀ j, t.driver = .busy .clear j → Cleared t.mem j := by
    obtain ⟨u', i', -, hM', -⟩ := ht.first
    have hu := cell_call hM'
    apply cell_invariant (fun _ d m _ => ∀ j, d = .busy .clear j → Cleared m j) ht
    · intro j hj
      rw [hu] at hj
      cases hj
    · rintro tr m r c hI ⟨-, rfl⟩ j hj
      cases hj
      exact ⟨by omega, by omega⟩
    · rintro tr d m r o e d' hI rfl hs k rfl
      exact cleared_pc (Or.inl ⟨rfl, rfl⟩) hI hs
    · intro tr d m p e p' m' hI hs j hj
      unfold Cleared
      rw [hs.words.1, hs.words.2.1]
      exact hI j hj
  have h3 : 3 ≤ k := by simpa [Call.body, modbusClearCommand_eq] using hl
  exact ⟨(hI k hk).2 h3, (hI k hk).1 (by omega)⟩

/-! ## The way back to `*main` -/

/-- The robot is in the cycle of `*main`, and has found there no ALLOW_MOVE_1 and no CMD_EXIT. -/
def Robot.InMain (r : Robot) : Prop :=
  match r.line with
  | .main | .mainDly | .readExit | .readCmd1 => True
  | .testExit => r.nWcmdExit ≠ exitCmd
  | .testCmd1 => r.nWcmd1 ≠ allowMoveCmd1
  | _ => False

/-- The number of lines to `*main` at most, when the registers hold CLR_READY and 0. -/
def Robot.toMain (r : Robot) : Nat :=
  match r.line with
  | .unready => 1
  | .waitforpc => 3
  | .testAck => if r.nWcmdClrReady = readyClearCmd then 2 else 4
  | .motion todo => todo.length + 4
  | .testType => 40
  | .readDest => 41
  | .readSource => 42
  | .readMoveParams => 43
  | .testCmd2 => if r.nWcmd2 = allowMoveCmd2 then 44 else 1
  | .readsecond => 2
  | .testCmd1 => if r.nWcmd1 = allowMoveCmd1 then 3 else 0
  | _ => 0

/-- The robot has an unknown type in hand, or comes to read one, so it goes to `*exit`. -/
def Doomed (m : Mem) : Phase → Prop
  | .off => True
  | .armed => ¬ Known m.type
  | .typed t | .sourced t _ => ¬ Known t
  | .latched p => ¬ Known p.type
  | _ => False

/-- The registers are as `modbusClearCommand` leaves them, whatever failed before. -/
structure Settling (s : Cell) : Prop extends Residue s where
  cmd1 : s.mem.cmd1 = readyClearCmd
  cmd2 : s.mem.cmd2 = 0

/-- The steps of the robot neither bring the unknown type nor take it away. -/
theorem doomed_step {m m' : Mem} {p p' : Phase} {e : Event} (hx : m.exit = 0) (h2 : m.cmd2 = 0)
    (h : Phase.Step m p e p' m') : Doomed m' p' ↔ Doomed m p := by
  cases h
  case exitAsked hw => exact absurd (hx.symm.trans hw) zero_ne_exit
  case second hw => exact absurd (h2.symm.trans hw) zero_ne_allow2
  case start hk => exact ⟨False.elim, fun hu => hu hk⟩
  case unknown hu => exact ⟨fun _ => hu, fun _ => trivial⟩
  all_goals exact Iff.rfl

theorem toMain_le {r : Robot} (h : r.OnScript) : r.toMain ≤ 44 := by
  unfold Robot.toMain
  cases hl : r.line
  case motion todo =>
    have hle := (h todo hl).length_le
    have hlen : startHitMove.length = 35 := rfl
    simp only
    omega
  all_goals simp only
  case testAck => split <;> omega
  case testCmd1 => split <;> omega
  case testCmd2 => split <;> omega
  all_goals omega

/-- Each line brings the robot nearer to `*main`, or keeps it there. -/
theorem toMain_falls {s : Cell} {r' : Robot} {m' : Mem} {e : Event} (hI : Settling s)
    (hd : ¬ Doomed s.mem s.robot.phase) (h : s.robot.step s.mem = some (e, r', m')) :
    r'.toMain ≤ s.robot.toMain - 1 := by
  have hlaw := hI.lawful
  have h1 := hI.cmd1
  have h2 := hI.cmd2
  obtain ⟨d, m, r⟩ := s
  simp only at hd h hlaw h1 h2 ⊢
  unfold Robot.Lawful at hlaw
  cases hl : r.line
  all_goals simp only [hl] at hlaw
  case motion todo =>
    cases todo <;> simp only [Robot.step, hl, Option.some.injEq, Prod.mk.injEq] at h <;>
      obtain ⟨-, rfl, -⟩ := h <;> simp [Robot.toMain, hl]
  case testType =>
    have hle : startHitMove.length = 35 ∧ startNormalMove.length = 20 := ⟨rfl, rfl⟩
    have hk : Known r.params.type := by simpa [Robot.phase, hl, Doomed] using hd
    simp only [Robot.step, hl] at h
    by_cases hn : r.nWmoveType = normalMove
    · simp only [if_pos hn, Option.some.injEq, Prod.mk.injEq] at h
      obtain ⟨-, rfl, -⟩ := h
      simp only [Robot.toMain, hl]
      omega
    · have hh : r.nWmoveType = hitMove := hk.resolve_left hn
      simp only [if_neg hn, if_pos hh, Option.some.injEq, Prod.mk.injEq] at h
      obtain ⟨-, rfl, -⟩ := h
      simp only [Robot.toMain, hl]
      omega
  case exit => exact absurd (by simp [Robot.phase, hl, Doomed]) hd
  all_goals
    simp only [Robot.step, hl, Option.some.injEq, Prod.mk.injEq, reduceCtorEq] at h
  all_goals
    obtain ⟨-, rfl, -⟩ := h
    simp only [Robot.toMain, hl]
  case testExit => simp [if_neg hlaw]
  case readCmd1 => simp [h1]
  case testCmd1 => by_cases hc : r.nWcmd1 = allowMoveCmd1 <;> simp [hc]
  case readsecond => simp [h2]
  case testCmd2 => by_cases hc : r.nWcmd2 = allowMoveCmd2 <;> simp [hc]
  case waitforpc => simp [h1]
  case testAck => by_cases hc : r.nWcmdClrReady = readyClearCmd <;> simp [hc]
  all_goals omega

/-- With no line left the robot is in `*main`, when it is not on its way to `*exit`. -/
theorem inMain_of_toMain {m : Mem} {r : Robot} (hI : r.Lawful) (hd : ¬ Doomed m r.phase)
    (h : r.toMain = 0) : r.InMain := by
  unfold Robot.Lawful at hI
  unfold Robot.toMain at h
  unfold Robot.InMain
  cases hl : r.line
  all_goals simp only [hl] at hI h ⊢
  case testExit => exact hI
  case testCmd1 =>
    intro hc
    rw [if_pos hc] at h
    omega
  case testCmd2 => split at h <;> omega
  case testAck => split at h <;> omega
  case exit => exact hd (by simp [Robot.phase, hl, Doomed])
  case ended => exact hd (by simp [Robot.phase, hl, Doomed])
  all_goals omega

theorem inMain_phase {r : Robot} (h : r.InMain) : r.phase = .idle ∨ r.phase = .checked := by
  unfold Robot.InMain at h
  unfold Robot.phase
  cases hl : r.line
  all_goals simp only [hl] at h ⊢
  case testExit => simp [if_neg h]
  case testCmd1 => simp [if_neg h]
  all_goals simp

/-- In `*main` the ready word is not CMD_READY. -/
theorem inMain_ready {s : Cell} (hI : Residue s) (h : s.robot.InMain) :
    s.mem.ready ≠ moveReady := by
  intro hr
  have hp := hI.ready.mp hr
  rcases inMain_phase h with hq | hq <;> rw [hq] at hp <;> rcases hp with hp | hp <;> cases hp

/-! ## The runs of the robot alone -/

theorem settling_step {s t : Cell} {e : Event} (hI : Settling s) (h : cell s .robot = some (e, t)) :
    Settling t ∧ (Doomed t.mem t.robot.phase ↔ Doomed s.mem s.robot.phase) := by
  have hres := residue_step hI.toResidue (by simp) h
  cases cell_step h with
  | robot hr =>
    have hp := step_phase hr
    exact ⟨⟨hres, hp.words.1.trans hI.cmd1, hp.words.2.1.trans hI.cmd2⟩,
      doomed_step hI.exit hI.cmd2 hp⟩

/-- The motions that the robot starts by itself from `v`: none yet, or the one that it had read
both ALLOW words for. -/
def LastMotion (v : Cell) (tr : List Event) (p : Phase) : Prop :=
  (starts tr = [] ∧ (p.Latching → v.robot.phase.Latching)) ∨
    (v.robot.phase.Latching ∧ ¬ Doomed v.mem v.robot.phase ∧ (starts tr).length = 1 ∧
      ¬ p.Latching)

theorem lastMotion_step {v : Cell} {tr : List Event} {m m' : Mem} {p p' : Phase} {e : Event}
    (hI : LastMotion v tr p) (h2 : m.cmd2 = 0) (hd : Doomed m p ↔ Doomed v.mem v.robot.phase)
    (h : Phase.Step m p e p' m') : LastMotion v (tr ++ [e]) p' := by
  by_cases hl : p.Latching
  · obtain ⟨hs, hv⟩ : starts tr = [] ∧ v.robot.phase.Latching := by
      rcases hI with ⟨hs, hv⟩ | ⟨-, -, -, hn⟩
      · exact ⟨hs, hv hl⟩
      · exact absurd hl hn
    rcases h.plain with ⟨q, rfl, rfl, rfl, hk, rfl⟩ | ⟨rfl, -, -, -⟩ | he
    · refine Or.inr ⟨hv, fun hu => ?_, by simp [hs], id⟩
      exact hd.mpr hu hk
    · exact hl.elim
    · exact Or.inl ⟨(he.snoc tr).1.trans hs, fun _ => hv⟩
  · have hne : m.cmd2 ≠ allowMoveCmd2 := by
      rw [h2]
      exact zero_ne_allow2
    obtain ⟨hs', hl'⟩ := quiet_robot tr hne hl h
    rcases hI with ⟨hs, -⟩ | ⟨hv, hu, h1, -⟩
    · exact Or.inl ⟨hs'.trans hs, fun hp => absurd hp hl'⟩
    · exact Or.inr ⟨hv, hu, by rw [hs', h1], hl'⟩

theorem settling_run {v t : Cell} {tr : List Event} (hv : Settling v)
    (h : Run cell robotOnly v tr t) :
    Settling t ∧ (Doomed t.mem t.robot.phase ↔ Doomed v.mem v.robot.phase) ∧
      LastMotion v tr t.robot.phase := by
  apply h.invariant (fun tr t => Settling t ∧
    (Doomed t.mem t.robot.phase ↔ Doomed v.mem v.robot.phase) ∧ LastMotion v tr t.robot.phase)
    ⟨hv, Iff.rfl, Or.inl ⟨rfl, id⟩⟩
  rintro tr t i e u ⟨hI, hd, hl⟩ rfl hM
  obtain ⟨hI', hd'⟩ := settling_step hI hM
  cases cell_step hM with
  | robot hr => exact ⟨hI', hd'.trans hd, lastMotion_step hl hI.cmd2 hd (step_phase hr)⟩

/-! ## The robot at `*exit` -/

/-- The number of lines to `End` for a robot that has read both ALLOW words. -/
def Robot.toEnd (r : Robot) : Nat :=
  match r.line with
  | .testCmd2 => 6
  | .readMoveParams => 5
  | .readSource => 4
  | .readDest => 3
  | .testType => 2
  | .exit => 1
  | _ => 0

/-- The lines of a robot that goes to `*exit`. It has read ALLOW_MOVE_2 as its last cmd2. -/
theorem doomed_line {m : Mem} {r : Robot} (hI : r.Lawful) (hd : Doomed m r.phase) :
    r.nWcmd2 = allowMoveCmd2 ∧ ((r.line = .testType ∧ ¬ Known r.nWmoveType) ∨ r.line = .ended ∨
      r.line = .testCmd2 ∨ r.line = .readMoveParams ∨ r.line = .readSource ∨ r.line = .readDest ∨
      r.line = .exit) := by
  unfold Robot.Lawful at hI
  unfold Robot.phase at hd
  cases hl : r.line
  all_goals simp only [hl] at hI hd
  case testExit =>
    rw [if_neg hI] at hd
    exact hd.elim
  case testCmd1 => split at hd <;> exact hd.elim
  case testAck => split at hd <;> exact hd.elim
  case testCmd2 =>
    by_cases hc : r.nWcmd2 = allowMoveCmd2
    · exact ⟨hc, by simp⟩
    · rw [if_neg hc] at hd
      exact hd.elim
  case testType =>
    have hk : ¬ Known r.nWmoveType := hd
    exact ⟨hI, by simp [hk]⟩
  case exit => exact ⟨hI.1, by simp⟩
  case ended => exact ⟨hI.1, by simp⟩
  all_goals first
    | exact ⟨hI, by simp⟩
    | exact hd.elim

/-- Each line brings a robot that goes to `*exit` nearer to `End`. -/
theorem toEnd_falls {s : Cell} {r' : Robot} {m' : Mem} {e : Event} (hI : Settling s)
    (hd : Doomed s.mem s.robot.phase) (h : s.robot.step s.mem = some (e, r', m')) :
    r'.toEnd < s.robot.toEnd := by
  obtain ⟨h2, hl⟩ := doomed_line hI.lawful hd
  rcases hl with ⟨hl, hk⟩ | hl | hl | hl | hl | hl | hl
  · have hn : ¬ s.robot.nWmoveType = normalMove := fun hn => hk (Or.inl hn)
    have hh : ¬ s.robot.nWmoveType = hitMove := fun hh => hk (Or.inr hh)
    simp only [Robot.step, hl, if_neg hn, if_neg hh, Option.some.injEq, Prod.mk.injEq] at h
    obtain ⟨-, rfl, -⟩ := h
    simp [Robot.toEnd, hl]
  · simp [Robot.step, hl] at h
  all_goals
    simp only [Robot.step, hl, h2, if_true, Option.some.injEq, Prod.mk.injEq] at h
    obtain ⟨-, rfl, -⟩ := h
    simp [Robot.toEnd, hl]

theorem step_robot {s : Cell} (h : s.robot.line ≠ .ended) :
    ∃ e r m, s.robot.step s.mem = some (e, r, m) ∧ cell s .robot = some (e, ⟨s.driver, m, r⟩) := by
  obtain ⟨e, r, m, hr⟩ := step_of_not_ended s.mem h
  exact ⟨e, r, m, hr, by simp [cell, hr]⟩

/-! ## The law -/

/-- The robot alone, from `v`, is in the cycle of `*main` after 44 steps and stays there, with no
ready signal. -/
def Settles (v : Cell) : Prop :=
  (∀ n, ∃ tr t, Run cell robotOnly v tr t ∧ tr.length = n) ∧
    ∀ tr t, Run cell robotOnly v tr t → 44 ≤ tr.length →
      t.robot.InMain ∧ t.mem.ready ≠ CMD.word .CMD_READY

/-- The robot has read ALLOW_MOVE_2, latches an unknown type, and ends at `*exit`. It starts no
motion. -/
def GoesOff (v : Cell) : Prop :=
  v.robot.nWcmd2 = CMD.word .CMD_ALLOW_MOVE_2 ∧
    (∀ tr t, Run cell robotOnly v tr t → starts tr = []) ∧
    ∃ tr t, Run cell robotOnly v tr t ∧ tr.length ≤ 6 ∧ t.robot.line = .ended ∧
      ¬ Known t.robot.nWmoveType

/-- The three writes stand, and the robot is not on its way to `*exit`. -/
def Returning (s : Cell) : Prop := Settling s ∧ ¬ Doomed s.mem s.robot.phase

theorem returning_step {s : Cell} (hI : Returning s) :
    ∃ e t, cell s .robot = some (e, t) ∧ Returning t ∧ t.robot.toMain ≤ s.robot.toMain - 1 := by
  obtain ⟨hs, hn⟩ := hI
  have hne : s.robot.line ≠ .ended := by
    intro hl
    apply hn
    simp [Robot.phase, hl, Doomed]
  obtain ⟨e, r, m, hr, hM⟩ := step_robot hne
  obtain ⟨hs', hd⟩ := settling_step hs hM
  exact ⟨e, _, hM, ⟨hs', fun hu => hn (hd.mp hu)⟩, toMain_falls hs hn hr⟩

theorem settles_of_returning {v : Cell} (hv : Returning v) : Settles v := by
  refine ⟨fun n => ?_, fun tr t ht hlen => ?_⟩
  · obtain ⟨tr, t, ht, hl, -⟩ := exists_run_of_length cell robotOnly Returning .robot
      (fun _ _ => rfl) (fun s hs => by
        obtain ⟨e, t, hM, ht, -⟩ := returning_step hs
        exact ⟨e, t, hM, ht⟩) v hv n
    exact ⟨tr, t, ht, hl⟩
  · obtain ⟨⟨hs, hn⟩, hr⟩ := ht.rank_le Returning (fun s => s.robot.toMain) hv (by
      rintro tr s i e t hs rfl hM
      obtain ⟨e', t', hM', ht', hf⟩ := returning_step hs
      rw [hM] at hM'
      cases hM'
      exact ⟨ht', hf⟩)
    have hle := toMain_le hv.1.script
    have hmain := inMain_of_toMain hs.lawful hn (by omega)
    exact ⟨hmain, inMain_ready hs.toResidue hmain⟩

theorem goesOff_of_doomed {v : Cell} (hv : Settling v) (hd : Doomed v.mem v.robot.phase) :
    GoesOff v := by
  refine ⟨(doomed_line hv.lawful hd).1, fun tr t ht => ?_, ?_⟩
  · rcases (settling_run hv ht).2.2 with ⟨hs, -⟩ | ⟨-, hn, -, -⟩
    · exact hs
    · exact absurd hd hn
  · obtain ⟨tr, t, ht, hl, hend, hs, -⟩ := reaches_of_rank cell robotOnly
      (fun s => Settling s ∧ Doomed s.mem s.robot.phase) (fun s => s.robot.line = .ended)
      (fun s => s.robot.toEnd) .robot (fun _ _ => rfl) (by
        rintro s ⟨hs, hd⟩ hne
        obtain ⟨e, r, m, hr, hM⟩ := step_robot hne
        obtain ⟨hs', hd'⟩ := settling_step hs hM
        exact ⟨e, _, hM, ⟨hs', hd'.mpr hd⟩, toEnd_falls hs hd hr⟩) v ⟨hv, hd⟩
    have hle : v.robot.toEnd ≤ 6 := by
      unfold Robot.toEnd
      cases v.robot.line <;> simp
    have hlaw := hs.lawful
    simp only [Robot.Lawful, hend] at hlaw
    exact ⟨tr, t, ht, hl.trans hle, hend, hlaw.2⟩

/-- Whatever happened before, when `modbusClearCommand` has returned with its three writes made,
the robot alone goes back to `*main` and stays there, or it has an unknown type in hand and ends at
`*exit`. It starts no motion but one that it had read both ALLOW words for. -/
theorem the_clear_command_recovers (u v : Cell) (tr tr₁ : List Event)
    (hu : Run cell anyButExit Cell.start tr u)
    (hv : Run cell oneClear u (.call .clear :: tr₁ ++ [.ret .clear true]) v) :
    (∀ tr₂ t, Run cell robotOnly v tr₂ t →
      (t.mem.cmd1 = CMD.word .CMD_CLR_READY ∧ t.mem.cmd2 = 0) ∧
        (starts tr₂).length ≤ 1 ∧ (starts tr₂ ≠ [] → v.robot.phase.Latching)) ∧
      (¬ Doomed v.mem v.robot.phase → Settles v) ∧ (Doomed v.mem v.robot.phase → GoesOff v) := by
  have hru : Residue u := residue_run (fun _ _ h => h rfl) residue_start hu
  have hrv : Residue v := residue_run (fun _ _ h => by cases h.2) hru hv
  obtain ⟨h1, h2⟩ := cleared_run hv
  have hset : Settling v := ⟨hrv, h1, h2⟩
  refine ⟨fun tr₂ t ht => ?_, fun hd => settles_of_returning ⟨hset, hd⟩,
    fun hd => goesOff_of_doomed hset hd⟩
  obtain ⟨hst, -, hl⟩ := settling_run hset ht
  refine ⟨⟨hst.cmd1, hst.cmd2⟩, ?_⟩
  rcases hl with ⟨hs, -⟩ | ⟨hl, -, hs, -⟩
  · exact ⟨by simp [hs], fun hne => absurd hs hne⟩
  · exact ⟨hs.le, fun _ => hl⟩

/-- A poll fails, and the robot has read both ALLOW words by then. -/
def failedPoll (mv : MOVE) : List CellInput :=
  toFirstPoll mv ++ [CellInput.pc (.failed false), .pc .ok] ++ robotSteps 8

/-- The clear after it, with the robot's read of the type between two of the writes. -/
def lateClear : List Event :=
  [.write .ADDR_CMD_1 0, .read nWmovTypeAddr normalMove, .write .ADDR_CMD_2 0,
    .write .ADDR_CMD_1 readyClearCmd]

/-- The law at a failed poll. The robot still carries out the motion, and then settles. -/
theorem the_clear_command_recovers_run :
    ∃ tr u v, Run cell anyButExit Cell.start tr u ∧
      Run cell oneClear u (.call .clear :: lateClear ++ [.ret .clear true]) v ∧
      v.robot.phase = .typed normalMove ∧ Settles v := by
  have hrun : ∃ tr u, Run cell anyButExit Cell.start tr u ∧
      (execWith cell oneClear [] u (.call .clear :: pcSteps 1 ++ robotSteps 1 ++ pcSteps 3)).any
        (fun q => decide (q.1 = .call .clear :: lateClear ++ [.ret .clear true] ∧
          q.2.robot.phase = .typed normalMove)) = true :=
    exists_run_of_execWith (fun _ u => _) (failedPoll ⟨13, 29, NORMAL_MOVE⟩) (by decide +kernel)
  obtain ⟨tr, u, hu, hnext⟩ := hrun
  have hclear : ∃ tr₁ v, Run cell oneClear u tr₁ v ∧
      decide (tr₁ = .call .clear :: lateClear ++ [.ret .clear true] ∧
        v.robot.phase = .typed normalMove) = true :=
    exists_run_of_execWith (fun _ v => _) _ hnext
  obtain ⟨tr₁, v, hv, hP⟩ := hclear
  obtain ⟨rfl, hp⟩ := of_decide_eq_true hP
  refine ⟨tr, u, v, hu, hv, hp, (the_clear_command_recovers u v tr _ hu hv).2.1 ?_⟩
  rw [hp]
  exact fun hn => hn (Or.inl rfl)

end robotchess
