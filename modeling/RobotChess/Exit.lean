-- The exit command. The robot reads register 545 once in each cycle of `*main`, so
-- an exit command may come too late for one more motion, and for no second one. At
-- `*exit` the arm is at `pObs`, with an empty gripper and no motion half done.
import RobotChess.Script

open runs bench

namespace robotchess

universe u

variable {α : Type u}

/-! ## No second motion -/

/-- The robot is past its read of register 545 in this cycle, and not at `*exit` or in a motion. -/
def Robot.PastExitRead (r : Robot) : Prop :=
  match r.line with
  | .testExit | .readCmd1 | .testCmd1 | .readsecond | .testCmd2 | .readMoveParams | .readSource
  | .readDest | .testType => True
  | _ => False

/-- Register 545 is overwritten with no other word, and the robot is not restarted. -/
def exitKept : Guard Plant PlantInput Event
  | _, _, .write a w => a = .ADDR_CMD_EXIT → w = CMD.word .CMD_EXIT
  | _, _, .robot => True
  | _, _, .restart => False

instance (tr : List Event) (s : Plant) : (i : PlantInput) → Decidable (exitKept tr s i)
  | .write a w => inferInstanceAs (Decidable (a = .ADDR_CMD_EXIT → w = CMD.word .CMD_EXIT))
  | .robot => .isTrue trivial
  | .restart => .isFalse id

/-- The phases between the read of register 545 and the start of a motion. -/
def Phase.Early : Phase → Prop
  | .checked | .holding | .armed | .typed _ | .sourced _ _ | .latched _ => True
  | _ => False

theorem pastExitRead_of_early {r : Robot} (h : r.phase.Early) : r.PastExitRead := by
  unfold Robot.PastExitRead
  cases hl : r.line
  all_goals simp only [Robot.phase, hl] at h
  case testAck => split at h <;> exact h.elim
  all_goals trivial

/-- From phase `p₀` on, with the exit command in register 545 all the time. -/
structure Prompt (p₀ : Phase) (tr : List Event) (m : Mem) (p : Phase) : Prop where
  exit : m.exit = exitCmd
  one : (starts tr).length ≤ 1
  first : starts tr ≠ [] → p₀.Early
  early : p.Early → starts tr = [] ∧ p₀.Early

theorem prompt_robot {p₀ p p' : Phase} {tr : List Event} {m m' : Mem} {e : Event}
    (hI : Prompt p₀ tr m p) (h : Phase.Step m p e p' m') : Prompt p₀ (tr ++ [e]) m' p' := by
  obtain ⟨hexit, hone, hfirst, hearly⟩ := hI
  have hexit' : m'.exit = exitCmd := h.words.2.2.2.trans hexit
  -- a step that starts no motion and enters no early phase from outside
  have hplain : e.Plain → (p'.Early → p.Early) → Prompt p₀ (tr ++ [e]) m' p' := by
    intro he hp
    have hs := (he.snoc tr).1
    exact ⟨hexit', by rwa [hs], by rwa [hs], fun h => by rw [hs]; exact hearly (hp h)⟩
  cases h
  case quiet hq => exact hplain hq.plain id
  case noExit hne => exact absurd hexit hne
  case start =>
    obtain ⟨hs, hp⟩ := hearly trivial
    have hs' : ∀ q, starts (tr ++ [.start q]) = [q] := by
      intro q
      rw [starts_append, hs]
      rfl
    exact ⟨hexit', by rw [hs']; simp, fun _ => hp, fun h => h.elim⟩
  case done =>
    have hs : starts (tr ++ [.ready]) = starts tr := by simp
    exact ⟨hexit', by rwa [hs], by rwa [hs], fun h => h.elim⟩
  all_goals exact hplain ⟨rfl, rfl, by simp⟩ (fun h => by first | exact trivial | exact h.elim)

theorem prompt_run {s t : Plant} {tr : List Event} (hexit : s.mem.exit = exitCmd)
    (h : Run plant exitKept s tr t) : Prompt s.robot.phase tr t.mem t.robot.phase := by
  apply plant_invariant (Prompt s.robot.phase) h
  · exact ⟨hexit, by simp, fun h => absurd rfl h, fun h => ⟨rfl, h⟩⟩
  · rintro tr m r a w ⟨hexit, hone, hfirst, hearly⟩ hok
    have hp : Event.Plain (.write a w) := ⟨rfl, rfl, by simp⟩
    have hs := (hp.snoc tr).1
    refine ⟨?_, by rwa [hs], by rwa [hs], by rwa [hs]⟩
    cases a
    case ADDR_CMD_EXIT => exact hok rfl
    all_goals exact hexit
  · exact fun _ _ _ _ hok => hok.elim
  · exact fun _ _ _ _ _ _ hI _ hs => prompt_robot hI hs

/-! ## The arm at the exit -/

/-- The arm and the count of the motions, whatever the moves are. -/
structure Tidied (b₀ : Bench Square α) (tr : List Event) (r : Robot) : Prop where
  motion : ∀ todo, r.line = .motion todo → (starts tr).length = finished tr + 1 ∧
    (bench.run (r.left todo) (benchAfter b₀ tr)).gripper = .opened
  rest : ¬ r.InMotion → (starts tr).length = finished tr ∧
    (benchAfter b₀ tr).gripper.held = none
  home : r.Home → (benchAfter b₀ tr).place = .rest

/-- Both motions end with an open gripper. -/
theorem left_gripper (b : Bench Square α) (r : Robot) :
    (bench.run (r.left startNormalMove) b).gripper = .opened ∧
      (bench.run (r.left startHitMove) b).gripper = .opened := by
  have hn : r.left startNormalMove = (r.left startNormalMove).take 7 ++
      [.release, (ArmCmd.mvsOver r.nWmovDest).cmd] := rfl
  have hh : r.left startHitMove = (r.left startHitMove).take 14 ++
      [.release, (ArmCmd.mvsOver r.nWmovDest).cmd] := rfl
  refine ⟨?_, ?_⟩
  · rw [hn]
    exact run_release_gripper _ _ _
  · rw [hh]
    exact run_release_gripper _ _ _

theorem tidied_start {b₀ : Bench Square α} {tr : List Event} {r : Robot} {todo : List Stmt}
    (hI : Tidied b₀ tr r) (hl : r.line = .testType)
    (hg : ∀ b : Bench Square α, (bench.run (r.left todo) b).gripper = .opened) :
    Tidied b₀ (tr ++ [.start r.params]) { r with line := .motion todo } := by
  have hno : ¬ r.InMotion := by
    rintro ⟨todo', ht⟩
    rw [hl] at ht
    cases ht
  refine ⟨?_, fun h => absurd ⟨todo, rfl⟩ h, fun h => h.elim⟩
  rintro todo' ⟨⟩
  refine ⟨?_, ?_⟩
  · rw [starts_append, finished_append, List.length_append, (hI.rest hno).1]
    rfl
  · exact hg _

theorem tidied_robot {b₀ : Bench Square α} {tr : List Event} {r r' : Robot} {e : Event}
    (hI : Tidied b₀ tr r) (h : r.Acts e r') : Tidied b₀ (tr ++ [e]) r' := by
  cases h
  case stmt st todo hl =>
    obtain ⟨hs, hf, -, -⟩ := (stmt_quiet r st).plain.snoc tr
    obtain ⟨hcount, hg⟩ := hI.motion _ hl
    refine ⟨?_, fun h => absurd ⟨todo, rfl⟩ h, fun h => h.elim⟩
    rintro todo' ⟨⟩
    rw [hs, hf, left_stmt]
    exact ⟨hcount, hg⟩
  case done hl =>
    obtain ⟨hcount, hg⟩ := hI.motion _ hl
    refine ⟨?_, fun _ => ⟨?_, ?_⟩, fun h => h.elim⟩
    · rintro todo ⟨⟩
    · rw [starts_append, finished_append]
      simpa using hcount
    · have hopen : (benchAfter b₀ tr).gripper = .opened := hg
      rw [benchAfter_quiet b₀ tr rfl, hopen]
      rfl
  case normal hl hn => exact tidied_start hI hl (fun b => (left_gripper b r).1)
  case hit hl hh hn => exact tidied_start hI hl (fun b => (left_gripper b r).2)
  case home hl =>
    have hp : Event.Plain (.arm .movObs) := ⟨rfl, rfl, by simp⟩
    have hno : ¬ r.InMotion := by
      rintro ⟨todo, ht⟩
      rw [hl] at ht
      cases ht
    obtain ⟨hs, hf, -, -⟩ := hp.snoc tr
    obtain ⟨hcount, hg⟩ := hI.rest hno
    refine ⟨?_, fun _ => ?_, fun _ => ?_⟩
    · rintro todo ⟨⟩
    · rw [hs, hf, benchAfter_arm]
      exact ⟨hcount, hg⟩
    · rw [benchAfter_arm]
      rfl
  case other hno ha hp hno' hhome =>
    obtain ⟨hs, hf, -, -⟩ := hp.snoc tr
    refine ⟨fun todo ht => absurd ⟨todo, ht⟩ hno', fun _ => ?_, fun h => ?_⟩
    · rw [hs, hf, benchAfter_quiet b₀ tr ha]
      exact hI.rest hno
    · rw [benchAfter_quiet b₀ tr ha]
      exact hI.home (hhome h)

theorem tidied_run {b₀ : Bench Square α} {s t : Plant} {tr : List Event}
    (hmain : s.robot.line = .main) (hg : b₀.gripper.held = none) (h : Run plant anyPc s tr t) :
    Tidied b₀ tr t.robot := by
  apply acts_invariant (Tidied b₀) h
  · refine ⟨fun todo ht => ?_, fun _ => ⟨rfl, hg⟩, fun hh => ?_⟩
    · rw [hmain] at ht
      cases ht
    · simp only [Robot.Home, hmain] at hh
  · intro tr r a w hI
    have hp : Event.Plain (.write a w) := ⟨rfl, rfl, by simp⟩
    obtain ⟨hs, hf, -, -⟩ := hp.snoc tr
    refine ⟨?_, ?_, ?_⟩
    all_goals
      rw [benchAfter_quiet b₀ tr rfl]
    · rw [hs, hf]
      exact hI.motion
    · rw [hs, hf]
      exact hI.rest
    · exact hI.home
  · exact fun _ _ _ _ hI hacts => tidied_robot hI hacts

/-! ## The law -/

/-- From the exit command on, the robot starts at most one more motion, and only when it is past
its read of register 545 in this cycle, so none when it is in a motion or waits after one. And
whenever it has come to `*exit`, the arm went to `pObs` last, the gripper holds nothing, and each
motion that started has been carried out. -/
theorem the_exit_is_prompt_and_safe :
    (∀ (s t : Plant) (tr : List Event), s.mem.exit = CMD.word .CMD_EXIT →
      Run plant exitKept s tr t →
      (starts tr).length ≤ 1 ∧ (starts tr ≠ [] → s.robot.PastExitRead) ∧
        (s.robot.InMotion ∨ s.robot.line = .waitforpc ∨ s.robot.line = .testAck →
          starts tr = [])) ∧
    (∀ (b₀ : Bench Square α) (s t : Plant) (tr : List Event), s.robot.line = .main →
      b₀.gripper.held = none → Run plant anyPc s tr t →
      t.robot.line = .exit ∨ t.robot.line = .ended →
      (benchAfter b₀ tr).place = .rest ∧ (benchAfter b₀ tr).gripper.held = none ∧
        (starts tr).length = finished tr) := by
  refine ⟨?_, ?_⟩
  · intro s t tr hexit h
    have hI := prompt_run hexit h
    have hpast : starts tr ≠ [] → s.robot.PastExitRead :=
      fun hs => pastExitRead_of_early (hI.first hs)
    refine ⟨hI.one, hpast, ?_⟩
    intro hl
    by_contra hs
    have hp := hpast hs
    unfold Robot.PastExitRead at hp
    rcases hl with ⟨todo, hl⟩ | hl | hl <;> simp only [hl] at hp
  · intro b₀ s t tr hmain hg h hl
    have hI := tidied_run hmain hg h
    have hno : ¬ t.robot.InMotion := by
      rintro ⟨todo, ht⟩
      rcases hl with hl | hl <;> rw [hl] at ht <;> cases ht
    have hhome : t.robot.Home := by
      unfold Robot.Home
      rcases hl with hl | hl <;> simp only [hl]
    exact ⟨hI.home hhome, (hI.rest hno).2, (hI.rest hno).1⟩

/-- An armed cell with the exit command, where the robot has just read register 545. -/
def lateExit : Plant :=
  ⟨⟨allowMoveCmd1, allowMoveCmd2, 13, 29, normalMove, exitCmd, 0⟩,
    { Robot.atMain with line := .readCmd1 }⟩

/-- The law at an exit command that comes too late for one motion, and at a hit that ends with
an exit. -/
theorem the_exit_is_prompt_and_safe_run :
    (∃ tr t, Run plant exitKept lateExit tr t ∧ (starts tr).length = 1 ∧
      lateExit.robot.PastExitRead) ∧
    (∃ tr t, Run plant anyPc ⟨.zero, .atMain⟩ tr t ∧ finished tr = 1 ∧ t.robot.line = .exit ∧
      (benchAfter twoPieces tr).gripper.held = none) := by
  refine ⟨?_, ?_⟩
  · have hrun : ∃ tr t, Run plant exitKept lateExit tr t ∧
        decide ((starts tr).length = 1) = true :=
      exists_run_of_execWith (fun tr _ => _) (List.replicate 10 .robot) (by decide +kernel)
    obtain ⟨tr, t, h, hP⟩ := hrun
    have hs := of_decide_eq_true hP
    refine ⟨tr, t, h, hs, ((@the_exit_is_prompt_and_safe Nat).1 lateExit t tr rfl h).2.1 ?_⟩
    intro hnil
    rw [hnil] at hs
    cases hs
  · have hrun : ∃ tr t, Run plant anyPc ⟨.zero, .atMain⟩ tr t ∧
        decide (finished tr = 1 ∧ t.robot.line = .exit) = true :=
      exists_run_of_execWith (fun tr t => _)
        (armMove ⟨13, 29, HIT_MOVE⟩ ++ List.replicate 48 PlantInput.robot ++
          [PlantInput.write .ADDR_CMD_EXIT exitCmd, .write .ADDR_CMD_1 readyClearCmd] ++
          List.replicate 7 PlantInput.robot)
        (by decide +kernel)
    obtain ⟨tr, t, h, hP⟩ := hrun
    obtain ⟨hf, hl⟩ := of_decide_eq_true hP
    exact ⟨tr, t, h, hf, hl, (the_exit_is_prompt_and_safe.2 twoPieces ⟨.zero, .atMain⟩ t tr rfl
      rfl h (Or.inl hl)).2.1⟩

end robotchess
