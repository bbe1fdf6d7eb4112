-- Which move the robot latches, over any number of calls that may fail. The robot
-- reads five words at five times, so a call that rewrites them under a robot that
-- another call has armed can tear a move. The law says when no move is torn.
import RobotChess.Sequence

open runs

namespace robotchess

/-! ## The calls -/

/-- A call of a program that keeps to the interface of the driver: any driver function, with valid
moves, and no ALLOW word that is sent by hand. -/
def Call.Proper : Call → Prop
  | .connect => True
  | .clear => True
  | .move m => m.Valid
  | .cmd c => c ≠ .CMD_ALLOW_MOVE_1 ∧ c ≠ .CMD_ALLOW_MOVE_2

instance : (c : Call) → Decidable c.Proper
  | .connect | .clear => .isTrue trivial
  | .move m => inferInstanceAs (Decidable m.Valid)
  | .cmd c => inferInstanceAs (Decidable (c ≠ .CMD_ALLOW_MOVE_1 ∧ c ≠ .CMD_ALLOW_MOVE_2))

/-- Any calls one after another, and any failures. -/
def properCalls : Guard Cell CellInput Event
  | _, _, .call c => c.Proper
  | _, _, _ => True

instance (tr : List Event) (s : Cell) : (i : CellInput) → Decidable (properCalls tr s i)
  | .call c => inferInstanceAs (Decidable c.Proper)
  | .pc _ | .robot => .isTrue trivial

/-! ## The past of a run -/

/-- The last call, the move of the call that last wrote ALLOW_MOVE_1, and what that was at the
last read of register 540. -/
structure Past where
  call : Option Call
  armer : Option MOVE
  seen : Option MOVE
  deriving DecidableEq

def Past.next (h : Past) : Event → Past
  | .call c => { h with call := some c }
  | .write .ADDR_CMD_1 w =>
    if w = allowMoveCmd1 then { h with armer := h.call.bind Call.move? } else h
  | .read bit _ => if bit = nWcmd1Addr then { h with seen := h.armer } else h
  | _ => h

def past (tr : List Event) : Past := tr.foldl Past.next ⟨none, none, none⟩

@[simp] theorem past_snoc (tr : List Event) (e : Event) : past (tr ++ [e]) = (past tr).next e := by
  simp [past]

/-- Each motion that starts has exactly the words of one move: the move of the last call that
wrote ALLOW_MOVE_1 before the robot read register 540 in this cycle. -/
def Untorn (tr : List Event) : Prop :=
  ∀ pre p post, tr = pre ++ .start p :: post → ∃ mv, (past pre).seen = some mv ∧ p = mv.words

/-! ## The condition -/

/-- The robot reads register 540 before it can start the next motion. -/
def Phase.Ahead : Phase → Prop
  | .boot | .idle | .checked | .acked => True
  | _ => False

instance : (p : Phase) → Decidable p.Ahead
  | .boot | .idle | .checked | .acked => .isTrue trivial
  | .holding | .armed | .typed _ | .sourced _ _ | .latched _ | .moving | .waiting | .off =>
    .isFalse id

/-- The robot is reading the parameter words, or will come to read them with no further write of
the PC. -/
def Committed (m : Mem) : Phase → Prop
  | .boot | .idle | .checked | .acked => m.cmd1 = allowMoveCmd1 ∧ m.cmd2 = allowMoveCmd2
  | .holding => m.cmd2 = allowMoveCmd2
  | .armed | .typed _ | .sourced _ _ => True
  | .latched _ | .moving | .waiting | .off => False

instance (m : Mem) : (p : Phase) → Decidable (Committed m p)
  | .boot | .idle | .checked | .acked =>
    inferInstanceAs (Decidable (m.cmd1 = allowMoveCmd1 ∧ m.cmd2 = allowMoveCmd2))
  | .holding => inferInstanceAs (Decidable (m.cmd2 = allowMoveCmd2))
  | .armed | .typed _ | .sourced _ _ => .isTrue trivial
  | .latched _ | .moving | .waiting | .off => .isFalse id

/-- What must hold when the next operation of the driver takes effect. ALLOW_MOVE_1 arms no old
words, a parameter word is not changed under a committed robot, and ALLOW_MOVE_2 completes no
ALLOW_MOVE_1 of another call. -/
def Careful (h : Past) (s : Cell) : Prop :=
  match s.driver with
  | .busy .connect 3 | .busy .connect 4 | .busy .connect 5 => ¬ Committed s.mem s.robot.phase
  | .busy (.move _) 0 => s.mem.cmd2 = allowMoveCmd2 → ¬ s.robot.phase.Ahead
  | .busy (.move _) 1 | .busy (.move _) 2 | .busy (.move _) 3 =>
    ¬ Committed s.mem s.robot.phase
  | .busy (.move mv) 4 =>
    (s.robot.phase = .holding → h.seen = some mv) ∧
      (s.robot.phase.Ahead → s.mem.cmd1 = allowMoveCmd1 → h.armer = some mv)
  | _ => True

instance (h : Past) : (s : Cell) → Decidable (Careful h s)
  | ⟨.idle, _, _⟩ | ⟨.failing _, _, _⟩ | ⟨.busy .clear _, _, _⟩ | ⟨.busy (.cmd _) _, _, _⟩ =>
    .isTrue trivial
  | ⟨.busy .connect 3, m, r⟩ | ⟨.busy .connect 4, m, r⟩ | ⟨.busy .connect 5, m, r⟩ =>
    inferInstanceAs (Decidable (¬ Committed m r.phase))
  | ⟨.busy .connect 0, _, _⟩ | ⟨.busy .connect 1, _, _⟩ | ⟨.busy .connect 2, _, _⟩
  | ⟨.busy .connect (_ + 6), _, _⟩ => .isTrue trivial
  | ⟨.busy (.move _) 0, m, r⟩ =>
    inferInstanceAs (Decidable (m.cmd2 = allowMoveCmd2 → ¬ r.phase.Ahead))
  | ⟨.busy (.move _) 1, m, r⟩ | ⟨.busy (.move _) 2, m, r⟩ | ⟨.busy (.move _) 3, m, r⟩ =>
    inferInstanceAs (Decidable (¬ Committed m r.phase))
  | ⟨.busy (.move mv) 4, m, r⟩ =>
    inferInstanceAs (Decidable ((r.phase = .holding → h.seen = some mv) ∧
      (r.phase.Ahead → m.cmd1 = allowMoveCmd1 → h.armer = some mv)))
  | ⟨.busy (.move _) (_ + 5), _, _⟩ => .isTrue trivial

def carefulCalls : Guard Cell CellInput Event
  | _, _, .call c => c.Proper
  | tr, s, .pc o => o.applied → Careful (past tr) s
  | _, _, .robot => True

instance (tr : List Event) (s : Cell) : (i : CellInput) → Decidable (carefulCalls tr s i)
  | .call c => inferInstanceAs (Decidable c.Proper)
  | .pc o => inferInstanceAs (Decidable (o.applied → Careful (past tr) s))
  | .robot => .isTrue trivial

/-! ## The invariant -/

/-- The parameter registers hold this move. -/
def Right (o : Option MOVE) (m : Mem) : Prop := ∃ mv, o = some mv ∧ m.params = mv.words

/-- What the robot has latched, and what it will latch with no further write of the PC. -/
def Kept (h : Past) (m : Mem) : Phase → Prop
  | .boot | .idle | .checked | .acked =>
    m.cmd1 = allowMoveCmd1 → m.cmd2 = allowMoveCmd2 → Right h.armer m
  | .holding => m.cmd2 = allowMoveCmd2 → Right h.seen m
  | .armed => Right h.seen m
  | .typed t => Right h.seen m ∧ t = m.type
  | .sourced t s => Right h.seen m ∧ t = m.type ∧ s = m.source
  | .latched q => ∃ mv, h.seen = some mv ∧ q = mv.words
  | .moving | .waiting | .off => True

theorem kept_robot {h : Past} {m m' : Mem} {p p' : Phase} {e : Event} (hI : Kept h m p)
    (hs : Phase.Step m p e p' m') : Kept (h.next e) m' p' := by
  cases hs
  case quiet hq => cases e <;> first | exact hI | exact hq.elim
  case booted => exact hI
  case exitAsked => trivial
  case noExit => exact hI
  case notAllowed => exact hI
  case allowed hw => exact fun h2 => hI hw h2
  case again => exact hI
  case notSecond hw => exact fun _ h2 => absurd h2 hw
  case second hw => exact hI hw
  case type => exact ⟨hI, rfl⟩
  case source => exact ⟨hI.1, hI.2, rfl⟩
  case dest =>
    obtain ⟨⟨mv, hmv, hp⟩, rfl, rfl⟩ := hI
    exact ⟨mv, hmv, hp⟩
  case start => trivial
  case unknown => trivial
  case done => trivial
  case notAcked => trivial
  case acked hw =>
    intro h1
    rw [hw] at h1
    exact absurd h1 clrReady_ne_allow1
  case unready => exact hI

/-- The PC writes no parameter word and sets no ALLOW word. -/
theorem kept_same {h : Past} {m m' : Mem} {p : Phase} (hI : Kept h m p)
    (hp : m'.params = m.params) (h1 : m'.cmd1 = allowMoveCmd1 → m.cmd1 = allowMoveCmd1)
    (h2 : m'.cmd2 = allowMoveCmd2 → m.cmd2 = allowMoveCmd2) : Kept h m' p := by
  have hr : ∀ o, Right o m → Right o m' := by
    rintro o ⟨mv, ho, hm⟩
    exact ⟨mv, ho, hp.trans hm⟩
  simp only [Mem.params, Params.mk.injEq] at hp
  cases p
  case holding => exact fun hw => hr _ (hI (h2 hw))
  case armed => exact hr _ hI
  case typed t => exact ⟨hr _ hI.1, hI.2.trans hp.1.symm⟩
  case sourced t s => exact ⟨hr _ hI.1, hI.2.1.trans hp.1.symm, hI.2.2.trans hp.2.1.symm⟩
  case latched q => exact hI
  case moving => trivial
  case waiting => trivial
  case off => trivial
  all_goals exact fun hw hw' => hr _ (hI (h1 hw) (h2 hw'))

/-- A parameter word changes while the robot is not committed. -/
theorem kept_word {h : Past} {m m' : Mem} {p : Phase} (hI : Kept h m p) (hc : ¬ Committed m p)
    (h1 : m'.cmd1 = m.cmd1) (h2 : m'.cmd2 = m.cmd2) : Kept h m' p := by
  cases p
  case holding => exact fun hw => absurd (h2.symm.trans hw) hc
  case armed => exact absurd trivial hc
  case typed => exact absurd trivial hc
  case sourced => exact absurd trivial hc
  case latched => exact hI
  case moving => trivial
  case waiting => trivial
  case off => trivial
  all_goals exact fun hw hw' => absurd ⟨h1.symm.trans hw, h2.symm.trans hw'⟩ hc

/-- ALLOW_MOVE_1 takes effect. -/
theorem kept_allow1 {h : Past} {m : Mem} {p : Phase} (hI : Kept h m p)
    (hc : m.cmd2 = allowMoveCmd2 → ¬ p.Ahead) :
    Kept (h.next (.write .ADDR_CMD_1 allowMoveCmd1)) (m.write .ADDR_CMD_1 allowMoveCmd1) p := by
  cases p
  case holding => exact hI
  case armed => exact hI
  case typed => exact hI
  case sourced => exact hI
  case latched => exact hI
  case moving => trivial
  case waiting => trivial
  case off => trivial
  all_goals exact fun _ hw => absurd trivial (hc hw)

/-- ALLOW_MOVE_2 takes effect, with the parameter words of its move in place. -/
theorem kept_allow2 {h : Past} {m : Mem} {p : Phase} {mv : MOVE} (hI : Kept h m p)
    (hw : m.params = mv.words) (hh : p = .holding → h.seen = some mv)
    (ha : p.Ahead → m.cmd1 = allowMoveCmd1 → h.armer = some mv) :
    Kept h (m.write .ADDR_CMD_2 allowMoveCmd2) p := by
  cases p
  case holding => exact fun _ => ⟨mv, hh rfl, hw⟩
  case armed => exact hI
  case typed => exact hI
  case sourced => exact hI
  case latched => exact hI
  case moving => trivial
  case waiting => trivial
  case off => trivial
  all_goals exact fun h1 _ => ⟨mv, ha trivial h1, hw⟩

/-- Only ALLOW_MOVE_1 in register 540 has another armer. -/
theorem next_write {h : Past} {a : MEMADDR} {w : REG16}
    (hw : a = .ADDR_CMD_1 → w ≠ allowMoveCmd1) : h.next (.write a w) = h := by
  unfold Past.next
  cases a
  case ADDR_CMD_1 => exact if_neg (hw rfl)
  all_goals rfl

/-- An event of the driver with no write leaves the past as it is. -/
theorem next_hidden {h : Past} {e : Event} (he : e.onPlant = false) (hc : e.call? = none) :
    h.next e = h := by
  cases e
  case call => cases hc
  case write => cases he
  case read => cases he
  all_goals rfl

/-- The invariant of a run. -/
structure Tidy (h : Past) (d : Driver) (m : Mem) (p : Phase) : Prop where
  call : ∀ c k, d = .busy c k → h.call = some c ∧ c.Proper
  written : ∀ mv k, d = .busy (.move mv) k → Written mv.words k m
  kept : Kept h m p

/-- A zero of `robot_connect` that takes effect. -/
theorem kept_zero {h : Past} {m : Mem} {r : Robot} {a : MEMADDR} {k : Nat}
    (hI : Kept h m r.phase) (hk : zeroAddr k = some a)
    (hc : Careful h ⟨.busy .connect k, m, r⟩) : Kept h (m.write a 0) r.phase := by
  unfold zeroAddr at hk
  split at hk <;> cases hk
  · exact kept_same hI rfl (zero_sets_nothing m _).allow1 id
  · exact kept_same hI rfl id (zero_sets_nothing m _).allow2
  · exact kept_word hI hc rfl rfl
  · exact kept_word hI hc rfl rfl
  · exact kept_word hI hc rfl rfl
  · exact kept_same hI rfl id id

/-- A parameter word of `robot_sendMove` that takes effect. -/
theorem kept_param {h : Past} {m : Mem} {r : Robot} {a : MEMADDR} {w : REG16} {mv : MOVE}
    {k : Nat} (hI : Kept h m r.phase) (hk : wordAt mv.words k = some (a, w))
    (hc : Careful h ⟨.busy (.move mv) k, m, r⟩) :
    Kept (h.next (.write a w)) (m.write a w) r.phase := by
  unfold wordAt at hk
  split at hk <;> cases hk <;> exact kept_word hI hc rfl rfl

/-- A command that `robot_sendCmd` sends by hand and that takes effect. -/
theorem kept_cmd {h : Past} {m : Mem} {p : Phase} {c : CMD} {a : MEMADDR} (hI : Kept h m p)
    (hc : (Call.cmd c).Proper) (ha : robot_sendCmd c = some a) :
    Kept (h.next (.write a c.word)) (m.write a c.word) p := by
  obtain ⟨h1, h2⟩ := hc
  cases c
  case CMD_ALLOW_MOVE_1 => exact absurd rfl h1
  case CMD_ALLOW_MOVE_2 => exact absurd rfl h2
  case CMD_READY => cases ha
  case CMD_EXIT =>
    cases ha
    exact kept_same hI rfl id id
  case CMD_CLR_READY =>
    cases ha
    rw [next_write (fun _ => by decide)]
    exact kept_same hI rfl (clrReady_sets_nothing m _).allow1 id

theorem kept_pc {h : Past} {m : Mem} {r : Robot} {d d' : Driver} {o : Outcome} {e : Event}
    (hI : Tidy h d m r.phase) (hc : o.applied → Careful h ⟨d, m, r⟩)
    (hs : Driver.Step o m.ready d e d') : Kept (h.next e) (m.after e) r.phase := by
  have hkept := hI.kept
  rcases driver_event hs with ⟨a, w, rfl, ho, hw⟩ | ⟨he, hm⟩
  · cases hw
    case zero hk =>
      have hn : h.next (.write a 0) = h := next_write (fun _ => zero_ne_allow1)
      rw [hn]
      exact kept_zero hkept hk (hc ho)
    case cmd ha => exact kept_cmd hkept (hI.call _ _ rfl).2 ha
    case allow1 => exact kept_allow1 hkept (hc ho)
    case word hk => exact kept_param hkept hk (hc ho)
    case allow2 mv =>
      obtain ⟨hh, ha⟩ := hc ho
      exact kept_allow2 hkept ((hI.written mv 4 rfl).params (by omega)) hh ha
    case clear1 =>
      have hn : h.next (.write .ADDR_CMD_1 0) = h := next_write (fun _ => zero_ne_allow1)
      rw [hn]
      exact kept_same hkept rfl (zero_sets_nothing m _).allow1 id
    case clear2 => exact kept_same hkept rfl id (zero_sets_nothing m _).allow2
    case clrReady =>
      rw [next_write (fun _ => clrReady_ne_allow1)]
      exact kept_same hkept rfl (clrReady_sets_nothing m _).allow1 id
  · rw [next_hidden he hs.plain.2.1, hm]
    exact hkept

/-- The driver makes no call of its own. -/
theorem next_call {h : Past} {e : Event} (he : e.call? = none) : (h.next e).call = h.call := by
  unfold Past.next
  split
  · cases he
  · split <;> rfl
  · split <;> rfl
  · rfl

theorem tidy_pc {h : Past} {m : Mem} {r : Robot} {d d' : Driver} {o : Outcome} {e : Event}
    (hI : Tidy h d m r.phase) (hc : o.applied → Careful h ⟨d, m, r⟩)
    (hs : Driver.Step o m.ready d e d') : Tidy (h.next e) d' (m.after e) r.phase := by
  refine ⟨?_, ?_, kept_pc hI hc hs⟩
  · intro c k hd
    rw [next_call hs.plain.2.1]
    obtain ⟨j, hj⟩ := hs.same_call hd
    exact hI.call c j hj
  · rintro mv k rfl
    exact written_pc (hI.written mv) hs

theorem tidy_robot {h : Past} {m m' : Mem} {p p' : Phase} {d : Driver} {e : Event}
    (hI : Tidy h d m p) (hs : Phase.Step m p e p' m') : Tidy (h.next e) d m' p' := by
  refine ⟨?_, ?_, kept_robot hI.kept hs⟩
  · intro c k hd
    have hn : (h.next e).call = h.call := by
      cases hs
      case quiet hq => cases e <;> first | rfl | exact hq.elim
      all_goals rfl
    rw [hn]
    exact hI.call c k hd
  · intro mv k hd
    exact (hI.written mv k hd).of_params hs.words.2.2.1

theorem tidy_run {s : Cell} {tr : List Event} (h : Run cell carefulCalls Cell.start tr s) :
    Tidy (past tr) s.driver s.mem s.robot.phase := by
  apply cell_invariant (fun tr d m p => Tidy (past tr) d m p) h
  · refine ⟨fun c k hd => ?_, fun mv k hd => ?_, fun h1 => ?_⟩
    · cases hd
    · cases hd
    · exact absurd h1 zero_ne_allow1
  · intro tr m r c hI hc
    rw [past_snoc]
    refine ⟨?_, ?_, hI.kept⟩
    · rintro c' k ⟨⟩
      exact ⟨rfl, hc⟩
    · rintro mv k ⟨⟩
      exact ⟨by omega, by omega, by omega⟩
  · intro tr d m r o e d' hI hc hs
    rw [past_snoc]
    exact tidy_pc hI hc hs
  · intro tr d m p e p' m' hI hs
    rw [past_snoc]
    exact tidy_robot hI hs

/-! ## The law -/

/-- In a run whose writes all meet the condition, no motion has words of two moves, zeros of
`robot_connect`, or the move of an earlier call. -/
theorem no_torn_or_stale_move (s : Cell) (tr : List Event)
    (h : Run cell carefulCalls Cell.start tr s) : Untorn tr := by
  rintro pre p post rfl
  obtain ⟨u, v, i, hu, -, hM, -⟩ := h.at_event
  have hkept := (tidy_run hu).kept
  generalize he : Event.start p = e at hM
  cases cell_step hM with
  | call c _ => cases he
  | pc hd =>
    have hp := hd.plain
    rw [← he] at hp
    exact absurd hp.1 (by simp [Event.start?])
  | robot hr =>
    rcases (step_phase hr).plain with ⟨q, hq, hs, -, -, -⟩ | ⟨-, hs, -, -⟩ | hp
    · rw [← he] at hs
      cases hs
      rw [hq] at hkept
      exact hkept
    · rw [← he] at hs
      cases hs
    · rw [← he] at hp
      exact absurd hp.1 (by simp [Event.start?])

/-- The law at a move whose poll fails before the robot has read ALLOW_MOVE_1. The program clears
the words and sends another move, and the robot starts only this one. -/
theorem no_torn_or_stale_move_run :
    ∃ tr s, Run cell carefulCalls Cell.start tr s ∧ Untorn tr ∧
      .ret (.move ⟨13, 29, NORMAL_MOVE⟩) false ∈ tr ∧
      starts tr = [MOVE.words ⟨12, 28, NORMAL_MOVE⟩] := by
  have hrun : ∃ tr s, Run cell carefulCalls Cell.start tr s ∧
      decide (.ret (.move ⟨13, 29, NORMAL_MOVE⟩) false ∈ tr ∧
        starts tr = [MOVE.words ⟨12, 28, NORMAL_MOVE⟩]) = true :=
    exists_run_of_execWith (fun tr _ => _)
      (connectAndClear ++ .call (.move ⟨13, 29, NORMAL_MOVE⟩) :: pcSteps 5 ++
        [CellInput.pc (.failed false), .pc .ok] ++ .call .clear :: pcSteps 4 ++ robotSteps 3 ++
        .call (.move ⟨12, 28, NORMAL_MOVE⟩) :: pcSteps 5 ++ robotSteps 12)
      (by decide +kernel)
  obtain ⟨tr, s, h, hP⟩ := hrun
  exact ⟨tr, s, h, no_torn_or_stale_move s tr h, of_decide_eq_true hP⟩

/-- The poll of a call fails, and the call returns false with both ALLOW words set. The robot
reads the type and the source of its move, then the next call writes its own words, and then the
robot reads the destination. -/
theorem a_retry_tears_the_move_of_a_failed_call :
    ∃ tr s, Run cell properCalls Cell.start tr s ∧ ¬ Untorn tr := by
  have hrun : ∃ tr s, Run cell properCalls Cell.start tr s ∧
      decide (tr.getLast? = some (.start (MOVE.words ⟨13, 28, NORMAL_MOVE⟩)) ∧
        (past tr).seen = some ⟨13, 29, NORMAL_MOVE⟩) = true :=
    exists_run_of_execWith (fun tr _ => _)
      (connectAndClear ++ .call (.move ⟨13, 29, NORMAL_MOVE⟩) :: pcSteps 5 ++
        [CellInput.pc (.failed false), .pc .ok] ++ robotSteps 10 ++
        .call (.move ⟨12, 28, NORMAL_MOVE⟩) :: pcSteps 4 ++ robotSteps 2)
      (by decide +kernel)
  obtain ⟨tr, s, h, hP⟩ := hrun
  obtain ⟨hlast, hseen⟩ := of_decide_eq_true hP
  refine ⟨tr, s, h, fun hI => ?_⟩
  obtain ⟨pre, rfl⟩ := List.getLast?_eq_some_iff.mp hlast
  obtain ⟨mv, hmv, hw⟩ := hI pre _ [] rfl
  rw [past_snoc] at hseen
  have hmv' : mv = ⟨13, 29, NORMAL_MOVE⟩ := Option.some.inj (hmv.symm.trans hseen)
  rw [hmv'] at hw
  exact absurd hw (by decide)

end robotchess
