-- Any number of moves in one session. A call that returns true has had its own
-- motion, as long as the driver never trusts the ready signal of the motion
-- before. The source does not see to that, so a run shows what goes wrong.
import RobotChess.Session

open runs

namespace robotchess

/-! ## The law -/

/-- The robot has carried out one motion for each move, in their order. -/
def Matched (tr : List Event) : Prop :=
  starts tr = (moves tr).map MOVE.words ∧ finished tr = (moves tr).length

instance (tr : List Event) : Decidable (Matched tr) :=
  inferInstanceAs (Decidable (_ ∧ _))

/-- The last call is a call of `robot_sendMove` with this move. The events before it match, and
since it began its motion has started and has been carried out. -/
def LastMatched (mv : MOVE) (tr : List Event) : Prop :=
  ∃ tr₀ tr₁, tr = tr₀ ++ .call (.move mv) :: tr₁ ∧ calls tr₁ = [] ∧ Matched tr₀ ∧
    starts tr₁ = [mv.words] ∧ finished tr₁ = 1

theorem LastMatched.matched {mv : MOVE} {tr : List Event} (h : LastMatched mv tr) :
    Matched tr := by
  obtain ⟨tr₀, tr₁, rfl, hc, ⟨hs₀, hf₀⟩, hs₁, hf₁⟩ := h
  have hm : moves tr₁ = [] := by
    unfold moves
    rw [hc]
    rfl
  rw [List.append_cons]
  unfold Matched
  simp only [starts_append, finished_append, moves_append, hs₀, hf₀, hs₁, hf₁, hm]
  simp [moves, calls, Event.call?, Call.move?]

/-- Whenever `robot_sendMove` returns true, the motions so far match the moves so far, one for
each, and the last one belongs to this call. -/
def ExactlyOnce (tr : List Event) : Prop :=
  ∀ pre mv post, tr = pre ++ .ret (.move mv) true :: post → LastMatched mv pre ∧ Matched pre

/-! ## The condition -/

/-- The driver is not about to overwrite an acknowledgement that the robot still waits for, and
not about to read a ready word that the robot is still to take back. -/
def Orderly (s : Cell) : Prop :=
  match s.driver with
  | .busy (.move _) 0 => s.robot.phase ≠ .waiting
  | .busy (.move _) 5 => s.robot.phase ≠ .acked
  | _ => True

instance : (s : Cell) → Decidable (Orderly s)
  | ⟨.busy (.move _) 0, _, r⟩ => inferInstanceAs (Decidable (r.phase ≠ .waiting))
  | ⟨.busy (.move _) 5, _, r⟩ => inferInstanceAs (Decidable (r.phase ≠ .acked))
  | ⟨.busy (.move _) 1, _, _⟩ | ⟨.busy (.move _) 2, _, _⟩ | ⟨.busy (.move _) 3, _, _⟩
  | ⟨.busy (.move _) 4, _, _⟩ | ⟨.busy (.move _) (_ + 6), _, _⟩ => .isTrue trivial
  | ⟨.idle, _, _⟩ | ⟨.failing _, _, _⟩ | ⟨.busy .connect _, _, _⟩ | ⟨.busy .clear _, _, _⟩
  | ⟨.busy (.cmd _) _, _, _⟩ => .isTrue trivial

/-- A session in which each step of the PC meets the condition. -/
def orderlySession : Guard Cell CellInput Event
  | tr, s, i => session tr s i ∧ (i = .pc .ok → Orderly s)

instance (tr : List Event) (s : Cell) (i : CellInput) : Decidable (orderlySession tr s i) :=
  inferInstanceAs (Decidable (_ ∧ _))

/-! ## The invariant -/

/-- Before the first move, and from the last call of `robot_sendMove` on. -/
inductive Sequence (tr : List Event) (d : Driver) (m : Mem) (p : Phase) : Prop
  | early : moves tr = [] → starts tr = [] → finished tr = 0 → p.Idle → ReadyInv m p →
      (∀ mv k, d ≠ .busy (.move mv) k) → Sequence tr d m p
  | move (tr₀ tr₁ : List Event) (mv : MOVE) : tr = tr₀ ++ .call (.move mv) :: tr₁ →
      calls tr₁ = [] → mv.Valid → 2 ≤ (calls tr₀).length → Matched tr₀ → CallInv mv tr₁ m p d →
      (d = .idle → starts tr₁ = [mv.words] ∧ finished tr₁ = 1) → Sequence tr d m p

/-- A move may be called when nothing is armed and the last motion is over. -/
theorem callInv_call {mv : MOVE} {m : Mem} {p : Phase} (h2 : m.cmd2 ≠ allowMoveCmd2)
    (hr : ReadyInv m p) (hb : p.Before mv.words) (hl : ¬ p.Latching) :
    CallInv mv [] m p (.busy (.move mv) 0) := by
  refine ⟨rfl, ⟨?_, hr, fun h => absurd h h2⟩, fun _ => ⟨rfl, h2, hl⟩, ?_, ?_, ?_, ?_, ?_⟩
  · exact .before rfl rfl hb (fun h => absurd h hl)
  all_goals intro h; omega

/-- A session calls a move only after two other calls. -/
theorem SessionCall.two {cs : List Call} {mv : MOVE} (h : SessionCall cs (.move mv)) :
    mv.Valid ∧ 2 ≤ cs.length := by
  match cs with
  | [] => cases h
  | [_] => cases h
  | _ :: _ :: _ => exact ⟨h, by simp⟩

/-- After two calls a session calls only moves. -/
theorem SessionCall.move_of_two {cs : List Call} {c : Call} (h : SessionCall cs c)
    (h2 : 2 ≤ cs.length) : ∃ mv, c = .move mv := by
  match cs, c with
  | [], _ => simp at h2
  | [_], _ => simp at h2
  | _ :: _ :: _, .move mv => exact ⟨mv, rfl⟩
  | _ :: _ :: _, .connect => exact h.elim
  | _ :: _ :: _, .clear => exact h.elim
  | _ :: _ :: _, .cmd _ => exact h.elim

theorem Progress.past_phase {w : Params} {tr : List Event} {m : Mem} {p : Phase}
    (h : Progress w tr m p) (hs : starts tr = [w]) (hf : finished tr = 1) :
    p = .waiting ∨ p.Past := by
  cases h with
  | before hs' _ _ _ => simp [hs] at hs'
  | moving _ hf' _ => simp [hf] at hf'
  | waiting _ _ hp => exact Or.inl hp
  | past _ _ hp _ => exact Or.inr hp

theorem sequence_call {tr : List Event} {m : Mem} {p : Phase} {c : Call}
    (hI : Sequence tr .idle m p) (hc : SessionCall (calls tr) c) (h2 : m.cmd2 = 0) :
    Sequence (tr ++ [.call c]) (.busy c 0) m p := by
  have h2' : m.cmd2 ≠ allowMoveCmd2 := by
    rw [h2]
    decide
  have hmove : ∀ mv, c = .move mv → Matched tr → ReadyInv m p → p.Before mv.words →
      ¬ p.Latching → Sequence (tr ++ [.call c]) (.busy c 0) m p := by
    rintro mv rfl hm hr hb hl
    obtain ⟨hv, htwo⟩ := hc.two
    exact .move tr [] mv rfl rfl hv htwo hm (callInv_call h2' hr hb hl) (fun h => by cases h)
  cases hI with
  | early hm hs hf hp hr _ =>
    by_cases hmv : ∃ mv, c = .move mv
    · obtain ⟨mv, rfl⟩ := hmv
      apply hmove mv rfl ⟨by rw [hs, hm]; rfl, by rw [hf, hm]; rfl⟩ hr
      · cases p <;> trivial
      · cases p <;> first | exact id | exact hp.elim
    · have hm' : moves (tr ++ [.call c]) = [] := by
        rw [moves_append, hm]
        cases c <;> first | rfl | exact absurd ⟨_, rfl⟩ hmv
      refine .early hm' (by simp [hs]) (by simp [hf]) hp hr ?_
      intro mv k hk
      cases hk
      exact hmv ⟨mv, rfl⟩
  | move tr₀ tr₁ _ heq hcs hv htwo hmat hcall hdone =>
    obtain ⟨hs, hf⟩ := hdone rfl
    have hlen : 2 ≤ (calls tr).length := by
      rw [heq, calls_append, List.length_append]
      omega
    obtain ⟨mv, rfl⟩ := hc.move_of_two hlen
    apply hmove mv rfl (LastMatched.matched ⟨_, _, heq, hcs, hmat, hs, hf⟩) hcall.common.ready
    · rcases hcall.common.progress.past_phase hs hf with rfl | hp
      · trivial
      · cases p <;> trivial
    · rcases hcall.common.progress.past_phase hs hf with rfl | hp
      · exact id
      · cases p <;> first | exact id | exact hp.elim

/-- In `robot_connect` and `modbusClearCommand` the driver stays out of `robot_sendMove`. -/
theorem not_move_pc {o : Outcome} {ans : REG16} {d d' : Driver} {e : Event}
    (h : Driver.Step o ans d e d') (hd : ∀ mv k, d ≠ .busy (.move mv) k) :
    ∀ mv k, d' ≠ .busy (.move mv) k := by
  intro mv k hk
  obtain ⟨j, hj⟩ := h.same_call hk
  exact hd mv j hj

/-- When a session returns from a move, the poll has given `CMD_READY`. -/
theorem seen_of_return {mv : MOVE} {tr : List Event} {m : Mem} {p : Phase} {d d' : Driver}
    {o : Outcome} {ans : REG16} {e : Event} (hI : CallInv mv tr m p d) (hr : Regs m d)
    (h : Driver.Step o ans d e d') (hd : d' = .idle) :
    starts tr = [mv.words] ∧ finished tr = 1 := by
  subst hd
  cases h
  case invalid => cases hI.1
  case failed => exact hr.elim
  case returned c k hk =>
    obtain ⟨rfl, hI⟩ := hI
    have h9 : 9 ≤ k := by simpa [Call.body, robot_sendMove_eq] using hk
    exact hI.seen (by omega)

theorem sequence_pc {tr : List Event} {m : Mem} {p : Phase} {d d' : Driver} {r : Robot}
    {o : Outcome} {e : Event} (hI : Sequence tr d m p) (hr : Regs m d) (hp : r.phase = p)
    (ho : Orderly ⟨d, m, r⟩) (h : Driver.Step o m.ready d e d') :
    Sequence (tr ++ [e]) d' (m.after e) p := by
  obtain ⟨hs', hf', hc', hm'⟩ := h.plain.snoc tr
  cases hI with
  | early hm hs hf hp hready hd =>
    exact .early (hm'.trans hm) (hs'.trans hs) (hf'.trans hf) hp (readyInv_pc e hready)
      (not_move_pc h hd)
  | move tr₀ tr₁ mv heq hcs hv htwo hmat hcall hdone =>
    obtain ⟨hs₁, hf₁, hc₁, -⟩ := h.plain.snoc tr₁
    refine .move tr₀ (tr₁ ++ [e]) mv (by rw [heq]; simp) (hc₁.trans hcs) hv htwo hmat ?_ ?_
    · apply callInv_pc hcall h
      · rintro rfl
        rw [← hp]
        exact ho
      · rintro rfl _
        rw [← hp]
        exact ho
    · intro hd
      rw [hs₁, hf₁]
      exact seen_of_return hcall hr h hd

/-- Register 541 holds ALLOW_MOVE_2 only inside `robot_sendMove`. -/
theorem Regs.cmd2_of_not_move {m : Mem} {d : Driver} (h : Regs m d)
    (hd : ∀ mv k, d ≠ .busy (.move mv) k) : m.cmd2 ≠ allowMoveCmd2 := by
  have h2 : m.cmd2 = 0 := by
    match d with
    | .idle => exact h
    | .busy .connect _ => exact h.2
    | .busy .clear _ => exact h
    | .busy (.cmd _) _ => exact h.elim
    | .failing _ => exact h.elim
    | .busy (.move mv) k => exact absurd rfl (hd mv k)
  rw [h2]
  decide

theorem sequence_robot {tr : List Event} {m m' : Mem} {p p' : Phase} {d : Driver} {e : Event}
    (hI : Sequence tr d m p) (hr : Regs m d) (h : Phase.Step m p e p' m') :
    Sequence (tr ++ [e]) d m' p' := by
  cases hI with
  | early hm hs hf hp hready hd =>
    obtain ⟨hp', hs', hf', -, -⟩ := idle_robot tr hp (hr.cmd2_of_not_move hd) h
    have hm' : moves (tr ++ [e]) = [] := by
      rw [moves_append, hm]
      unfold moves
      rw [h.no_call]
      rfl
    exact .early hm' (hs'.trans hs) (hf'.trans hf) hp' (readyInv_robot hready h) hd
  | move tr₀ tr₁ mv heq hcs hv htwo hmat hcall hdone =>
    have hcall' := callInv_robot hcall h
    refine .move tr₀ (tr₁ ++ [e]) mv (by rw [heq]; simp) ?_ hv htwo hmat hcall' ?_
    · rw [calls_append, hcs, h.no_call]
      rfl
    · intro hd
      obtain ⟨hs, hf⟩ := hdone hd
      exact hcall'.common.progress.still hs hf

theorem sequence_run {s : Cell} {tr : List Event} (h : Run cell orderlySession Cell.start tr s) :
    Live tr s.driver s.mem s.robot.phase ∧ Sequence tr s.driver s.mem s.robot.phase := by
  apply cell_invariant (fun tr d m p => Live tr d m p ∧ Sequence tr d m p) h
  · exact ⟨live_run .nil, .early rfl rfl rfl trivial (by decide) (fun _ _ h => by cases h)⟩
  · rintro tr m r c ⟨hl, hI⟩ ⟨hc, -⟩
    exact ⟨live_call hl hc, sequence_call hI hc hl.regs⟩
  · rintro tr d m r o e d' ⟨hl, hI⟩ ⟨hok, ho⟩ hd
    cases hok
    exact ⟨live_pc hl hd, sequence_pc hI hl.regs rfl (ho rfl) hd⟩
  · rintro tr d m p e p' m' ⟨hl, hI⟩ hr
    exact ⟨live_robot hl hr, sequence_robot hI hl.regs hr⟩

/-! ## The law of a session -/

/-- In a session whose steps meet the condition, each call of `robot_sendMove` that returns true
has had exactly its own motion carried out, and the calls before it theirs. -/
theorem each_call_that_returns_true_is_one_motion (s : Cell) (tr : List Event)
    (h : Run cell orderlySession Cell.start tr s) : ExactlyOnce tr := by
  rintro pre mv post rfl
  obtain ⟨u, v, i, hu, -, hM, -⟩ := h.at_event
  obtain ⟨k, hk, hl, -⟩ := cell_ret_true hM
  have h9 : 9 ≤ k := by simpa [Call.body, robot_sendMove_eq] using hl
  have key : LastMatched mv pre := by
    cases (sequence_run hu).2 with
    | early _ _ _ _ _ hd => exact absurd hk (hd mv k)
    | move tr₀ tr₁ _ heq hcs _ _ hmat hcall _ =>
      rw [hk] at hcall
      obtain ⟨hmv, hduring⟩ := hcall
      cases hmv
      obtain ⟨hs, hf⟩ := hduring.seen (by omega)
      exact ⟨_, _, heq, hcs, hmat, hs, hf⟩
  exact ⟨key, key.matched⟩

/-- A session up to the return of its first move, with the robot waiting for its
acknowledgement. -/
def firstMove : List CellInput :=
  connectAndClear ++ .call (.move ⟨13, 29, NORMAL_MOVE⟩) :: pcSteps 5 ++ robotSteps 33 ++ pcSteps 5

/-- The law at two moves, with the robot back in its idle cycle before the second. -/
theorem two_calls_are_two_motions :
    ∃ tr s, Run cell orderlySession Cell.start tr s ∧ ExactlyOnce tr ∧ finished tr = 2 ∧
      .ret (.move ⟨29, 37, HIT_MOVE⟩) true ∈ tr := by
  have hrun : ∃ tr s, Run cell orderlySession Cell.start tr s ∧
      decide (finished tr = 2 ∧ .ret (.move ⟨29, 37, HIT_MOVE⟩) true ∈ tr) = true :=
    exists_run_of_execWith (fun tr _ => _)
      (firstMove ++ robotSteps 3 ++ .call (.move ⟨29, 37, HIT_MOVE⟩) :: pcSteps 5 ++
        robotSteps 48 ++ pcSteps 5)
      (by decide +kernel)
  obtain ⟨tr, s, h, hP⟩ := hrun
  obtain ⟨hf, hret⟩ := of_decide_eq_true hP
  exact ⟨tr, s, h, each_call_that_returns_true_is_one_motion s tr h, hf, hret⟩

/-- The next call overwrites the acknowledgement in register 540 before the robot reads it. It
then reads the ready word of the motion before, and returns true with no motion of its own. -/
theorem a_call_trusts_the_ready_signal_of_the_motion_before :
    ∃ tr s, Run cell session Cell.start tr s ∧ ¬ ExactlyOnce tr := by
  have hrun : ∃ tr s, Run cell session Cell.start tr s ∧
      decide (tr.getLast? = some (.ret (.move ⟨29, 37, HIT_MOVE⟩) true) ∧
        (finished tr, (moves tr).length) = (1, 2)) = true :=
    exists_run_of_execWith (fun tr _ => _)
      (firstMove ++ .call (.move ⟨29, 37, HIT_MOVE⟩) :: pcSteps 10)
      (by decide +kernel)
  obtain ⟨tr, s, h, hP⟩ := hrun
  obtain ⟨hlast, hcount⟩ := of_decide_eq_true hP
  refine ⟨tr, s, h, fun hI => ?_⟩
  obtain ⟨pre, rfl⟩ := List.getLast?_eq_some_iff.mp hlast
  have hm := (hI pre _ [] rfl).2.2
  have hp : Event.Plain (.ret (.move ⟨29, 37, HIT_MOVE⟩) true) := ⟨rfl, rfl, by simp⟩
  obtain ⟨-, hf', -, hm'⟩ := hp.snoc pre
  rw [hf', hm', hm] at hcount
  simp at hcount
  omega

end robotchess
