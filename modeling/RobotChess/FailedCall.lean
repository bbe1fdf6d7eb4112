-- What a call of `robot_sendMove` that returns false leaves behind. A failed poll
-- returns with both ALLOW words set, and the robot then carries out a move that the
-- caller takes for lost. The law says which failures leave nothing armed.
import RobotChess.SwitchedOff

open runs

namespace robotchess

/-! ## The law -/

/-- No further call, so the run is inside one call. -/
def inCall : Guard Cell CellInput Event
  | _, _, .call _ => False
  | _, _, _ => True

instance (tr : List Event) (s : Cell) : (i : CellInput) → Decidable (inCall tr s i)
  | .call _ => .isFalse id
  | .pc _ | .robot => .isTrue trivial

/-- The calls that send no ALLOW word. -/
def Call.Harmless : Call → Prop
  | .move _ => False
  | c => c.Proper

instance : (c : Call) → Decidable c.Harmless
  | .move _ => .isFalse id
  | .connect => inferInstanceAs (Decidable (Call.connect).Proper)
  | .clear => inferInstanceAs (Decidable (Call.clear).Proper)
  | .cmd c => inferInstanceAs (Decidable (Call.cmd c).Proper)

/-- Any calls up to the next call of `robot_sendMove`. -/
def untilNextMove : Guard Cell CellInput Event
  | _, _, .call c => c.Harmless
  | _, _, _ => True

instance (tr : List Event) (s : Cell) : (i : CellInput) → Decidable (untilNextMove tr s i)
  | .call c => inferInstanceAs (Decidable c.Harmless)
  | .pc _ | .robot => .isTrue trivial

/-- At the return of a call with events `tr` the registers do not hold both ALLOW words. If the
robot has started no motion in the call, it starts none before the next move is called. -/
def LeavesNothing (tr : List Event) (v : Cell) : Prop :=
  ¬ (v.mem.cmd1 = CMD.word .CMD_ALLOW_MOVE_1 ∧ v.mem.cmd2 = CMD.word .CMD_ALLOW_MOVE_2) ∧
    (starts tr = [] → ∀ tr' t, Run cell untilNextMove v tr' t → starts tr' = [])

/-! ## The condition -/

/-- Register 540 held ALLOW_MOVE_1 when the call began, or the call's write of it took effect. -/
def First (u : Cell) (tr : List Event) : Prop :=
  u.mem.cmd1 = allowMoveCmd1 ∨ .write .ADDR_CMD_1 allowMoveCmd1 ∈ tr

/-- The same for register 541 and ALLOW_MOVE_2. -/
def Second (u : Cell) (tr : List Event) : Prop :=
  u.mem.cmd2 = allowMoveCmd2 ∨ .write .ADDR_CMD_2 allowMoveCmd2 ∈ tr

/-- The call began in state `u` with the robot past no pair of ALLOW words, and not both ALLOW
words came together: in the registers, or one in the hands of the robot. -/
structure Unarmed (u : Cell) (tr : List Event) : Prop where
  latching : ¬ u.robot.phase.Latching
  words : ¬ (First u tr ∧ Second u tr)
  holding : u.robot.phase = .holding → ¬ Second u tr

instance : (p : Phase) → Decidable p.Latching
  | .armed | .typed _ | .sourced _ _ | .latched _ => .isTrue trivial
  | .boot | .idle | .checked | .holding | .moving | .waiting | .acked | .off => .isFalse id

instance (u : Cell) (tr : List Event) : Decidable (First u tr) :=
  inferInstanceAs (Decidable (_ ∨ _))

instance (u : Cell) (tr : List Event) : Decidable (Second u tr) :=
  inferInstanceAs (Decidable (_ ∨ _))

theorem unarmed_iff (u : Cell) (tr : List Event) : Unarmed u tr ↔
    ¬ u.robot.phase.Latching ∧ ¬ (First u tr ∧ Second u tr) ∧
      (u.robot.phase = .holding → ¬ Second u tr) := by
  constructor
  · intro h
    exact ⟨h.latching, h.words, h.holding⟩
  · intro h
    exact ⟨h.1, h.2.1, h.2.2⟩

instance (u : Cell) (tr : List Event) : Decidable (Unarmed u tr) :=
  decidable_of_iff _ (unarmed_iff u tr).symm

theorem First.snoc {u : Cell} {tr : List Event} (h : First u tr) (e : Event) :
    First u (tr ++ [e]) := by
  rcases h with h | h
  · exact Or.inl h
  · exact Or.inr (List.mem_append_left _ h)

theorem Second.snoc {u : Cell} {tr : List Event} (h : Second u tr) (e : Event) :
    Second u (tr ++ [e]) := by
  rcases h with h | h
  · exact Or.inl h
  · exact Or.inr (List.mem_append_left _ h)

/-- A condition on the whole call holds of each part of it. -/
theorem Unarmed.of_snoc {u : Cell} {tr : List Event} {e : Event} (h : Unarmed u (tr ++ [e])) :
    Unarmed u tr := by
  refine ⟨h.latching, fun hw => ?_, fun hh hs => h.holding hh (hs.snoc e)⟩
  exact h.words ⟨hw.1.snoc e, hw.2.snoc e⟩

/-! ## Inside the call -/

/-- What holds in the call up to its poll: where the ALLOW words stand, and that nothing starts
under the condition. -/
structure Arming (u : Cell) (tr : List Event) (m : Mem) (p : Phase) : Prop where
  first : m.cmd1 = allowMoveCmd1 ↔ First u tr
  second : m.cmd2 = allowMoveCmd2 ↔ Second u tr
  held : p = .holding → u.robot.phase = .holding ∨ First u tr
  quiet : Unarmed u tr → starts tr = [] ∧ ¬ p.Latching

/-- A robot that cannot start a motion by itself. -/
structure Inert (m : Mem) (p : Phase) : Prop where
  latching : ¬ p.Latching
  holding : p = .holding → m.cmd2 ≠ allowMoveCmd2
  words : ¬ (m.cmd1 = allowMoveCmd1 ∧ m.cmd2 = allowMoveCmd2)

theorem Arming.inert {u : Cell} {tr : List Event} {m : Mem} {p : Phase} (h : Arming u tr m p)
    (hu : Unarmed u tr) : Inert m p := by
  refine ⟨(h.quiet hu).2, ?_, ?_⟩
  · intro hp h2
    have hsecond := h.second.mp h2
    rcases h.held hp with hh | hfirst
    · exact hu.holding hh hsecond
    · exact hu.words ⟨hfirst, hsecond⟩
  · rintro ⟨h1, h2⟩
    exact hu.words ⟨h.first.mp h1, h.second.mp h2⟩

/-- An inert robot starts no motion and stays inert. -/
theorem inert_robot {m m' : Mem} {p p' : Phase} {e : Event} (hI : Inert m p)
    (h : Phase.Step m p e p' m') : Inert m' p' ∧ starts [e] = [] := by
  obtain ⟨hl, hh, hw⟩ := hI
  have hwords : ¬ (m'.cmd1 = allowMoveCmd1 ∧ m'.cmd2 = allowMoveCmd2) := by
    rw [h.words.1, h.words.2.1]
    exact hw
  cases h
  case quiet hq => exact ⟨⟨hl, hh, hw⟩, by simpa using (hq.plain.snoc []).1⟩
  case allowed h1 => exact ⟨⟨id, fun _ h2 => hw ⟨h1, h2⟩, hw⟩, rfl⟩
  case second h2 => exact absurd h2 (hh rfl)
  case type => exact absurd trivial hl
  case source => exact absurd trivial hl
  case dest => exact absurd trivial hl
  case start => exact absurd trivial hl
  all_goals exact ⟨⟨id, (fun hp => by cases hp), hwords⟩, rfl⟩

theorem Phase.Step.no_write {m m' : Mem} {p p' : Phase} {e : Event} (h : Phase.Step m p e p' m')
    (a : MEMADDR) (w : REG16) : e ≠ .write a w := by
  rintro rfl
  cases h
  case quiet hq => exact hq

theorem arming_robot {u : Cell} {tr : List Event} {m m' : Mem} {p p' : Phase} {e : Event}
    (hI : Arming u tr m p) (h : Phase.Step m p e p' m') : Arming u (tr ++ [e]) m' p' := by
  have h1 : First u (tr ++ [e]) ↔ First u tr := by
    have hne := h.no_write .ADDR_CMD_1 allowMoveCmd1
    simp [First, Ne.symm hne]
  have h2 : Second u (tr ++ [e]) ↔ Second u tr := by
    have hne := h.no_write .ADDR_CMD_2 allowMoveCmd2
    simp [Second, Ne.symm hne]
  refine ⟨?_, ?_, ?_, ?_⟩
  · rw [h1, h.words.1]
    exact hI.first
  · rw [h2, h.words.2.1]
    exact hI.second
  · rintro rfl
    rw [h1]
    cases h
    case quiet => exact hI.held rfl
    case allowed hw => exact Or.inr (hI.first.mp hw)
  · intro hu
    have hu' := hu.of_snoc
    obtain ⟨hi, hs⟩ := inert_robot (hI.inert hu') h
    exact ⟨by rw [starts_append, (hI.quiet hu').1, hs]; rfl, hi.latching⟩

/-- A step of the PC, where only the two ALLOW writes set the ALLOW words. -/
theorem arming_pc {u : Cell} {tr : List Event} {m : Mem} {p : Phase} {e : Event}
    (hI : Arming u tr m p) (he : e.Plain)
    (h1 : (m.after e).cmd1 = allowMoveCmd1 ↔
      m.cmd1 = allowMoveCmd1 ∨ e = .write .ADDR_CMD_1 allowMoveCmd1)
    (h2 : (m.after e).cmd2 = allowMoveCmd2 ↔
      m.cmd2 = allowMoveCmd2 ∨ e = .write .ADDR_CMD_2 allowMoveCmd2) :
    Arming u (tr ++ [e]) (m.after e) p := by
  refine ⟨?_, ?_, ?_, ?_⟩
  · rw [h1, hI.first]
    simp [First, or_assoc, eq_comm]
  · rw [h2, hI.second]
    simp [Second, or_assoc, eq_comm]
  · intro hp
    rcases hI.held hp with hh | hf
    · exact Or.inl hh
    · exact Or.inr (hf.snoc e)
  · intro hu
    rw [(he.snoc tr).1]
    exact hI.quiet hu.of_snoc

/-- An event that is no write. -/
theorem arming_hidden {u : Cell} {tr : List Event} {m : Mem} {p : Phase} {e : Event}
    (hI : Arming u tr m p) (he : e.Plain) (hx : e.onPlant = false) :
    Arming u (tr ++ [e]) (m.after e) p := by
  apply arming_pc hI he
  all_goals
    cases e
    case write => cases hx
    all_goals simp [Mem.after]

/-- A write that leaves the ALLOW words where they stand. -/
theorem arming_write {u : Cell} {tr : List Event} {m : Mem} {p : Phase} {a : MEMADDR} {w : REG16}
    (hI : Arming u tr m p) (o : Outcome) (h1 : a = .ADDR_CMD_1 → w = allowMoveCmd1)
    (h2 : a = .ADDR_CMD_2 → w = allowMoveCmd2) :
    Arming u (tr ++ [writeEvent o a w]) (m.after (writeEvent o a w)) p := by
  unfold writeEvent
  split
  · apply arming_pc hI ⟨rfl, rfl, by simp⟩
    all_goals cases a <;> simp_all [Mem.after, Mem.write]
  · exact arming_hidden hI ⟨rfl, rfl, by simp⟩ rfl

/-- A parameter word. -/
theorem arming_word {u : Cell} {tr : List Event} {m : Mem} {p : Phase} {mv : MOVE} {k : Nat}
    {a : MEMADDR} {w : REG16} (hI : Arming u tr m p) (hk : wordAt mv.words k = some (a, w))
    (o : Outcome) : Arming u (tr ++ [writeEvent o a w]) (m.after (writeEvent o a w)) p := by
  apply arming_write hI o
  all_goals
    rintro rfl
    unfold wordAt at hk
    split at hk <;> cases hk

/-- The invariant of the call. Past its poll the call returns true, and after its return nothing
more is needed. -/
def Failing (u : Cell) (mv : MOVE) (tr : List Event) (m : Mem) (p : Phase) : Driver → Prop
  | .busy c k => c = .move mv ∧ (k ≤ 5 → Arming u tr m p)
  | .failing c => c = .move mv ∧ Arming u tr m p
  | .idle => True

theorem failing_pc {u : Cell} {mv : MOVE} {tr : List Event} {m : Mem} {p : Phase} {d d' : Driver}
    {o : Outcome} {ans : REG16} {e : Event} (hI : Failing u mv tr m p d)
    (hs : Driver.Step o ans d e d') : Failing u mv (tr ++ [e]) (m.after e) p d' := by
  have he := hs.plain
  cases hs
  case connected => cases hI.1
  case refused => cases hI.1
  case zero => cases hI.1
  case cmd => cases hI.1
  case cmdFailed => cases hI.1
  case allow1 =>
    exact ⟨hI.1, fun _ => arming_write (hI.2 (by omega)) o (fun _ => rfl) (fun h => by cases h)⟩
  case word k a w hk ho =>
    have hk3 := word_bounds hk
    exact ⟨hI.1, fun _ => arming_word (hI.2 (by omega)) hk .ok⟩
  case wordFailed k a w hk ho =>
    have hk3 := word_bounds hk
    exact ⟨hI.1, arming_word (hI.2 (by omega)) hk o⟩
  case allow2 =>
    exact ⟨hI.1, fun _ => arming_write (hI.2 (by omega)) o (fun h => by cases h) (fun _ => rfl)⟩
  case answered => exact ⟨hI.1, by omega⟩
  case notYet => exact ⟨hI.1, fun _ => arming_hidden (hI.2 (by omega)) he rfl⟩
  case noAnswer => exact ⟨hI.1, arming_hidden (hI.2 (by omega)) he rfl⟩
  case failed => trivial
  case invalid => trivial
  case returned => trivial
  -- past the poll
  all_goals
    rename_i ht
    obtain ⟨rfl, -⟩ := hI
    obtain rfl := tailAt_move.mp ht
    exact ⟨rfl, by omega⟩

theorem failing_run {u v : Cell} {mv : MOVE} {tr : List Event} (hd : u.driver = .busy (.move mv) 0)
    (h : Run cell inCall u tr v) : Failing u mv tr v.mem v.robot.phase v.driver := by
  apply cell_invariant (fun tr d m p => Failing u mv tr m p d) h
  · rw [hd]
    refine ⟨rfl, fun _ => ⟨?_, ?_, Or.inl, fun hu => ⟨rfl, hu.latching⟩⟩⟩
    · simp [First]
    · simp [Second]
  · exact fun _ _ _ _ _ hf => hf.elim
  · exact fun _ _ _ _ _ _ _ hI _ hs => failing_pc hI hs
  · intro tr d m p e p' m' hI hs
    match d with
    | .idle => trivial
    | .failing c => exact ⟨hI.1, arming_robot hI.2 hs⟩
    | .busy c k => exact ⟨hI.1, fun hk => arming_robot (hI.2 hk) hs⟩

/-! ## After the call -/

/-- A harmless call arms nothing. -/
theorem inert_write {m : Mem} {p : Phase} {d : Driver} {a : MEMADDR} {w : REG16}
    (hI : Inert m p) (hd : ∀ c k, d = .busy c k → c.Harmless) (hw : d.Writes a w) :
    Inert (m.write a w) p := by
  have hsame : SetsNothing m (m.write a w) → Inert (m.write a w) p := by
    intro hm
    refine ⟨hI.latching, fun hp h2 => hI.holding hp (hm.allow2 h2), ?_⟩
    exact fun hw => hI.words ⟨hm.allow1 hw.1, hm.allow2 hw.2⟩
  cases hw
  case zero => exact hsame (zero_sets_nothing m _)
  case cmd c ha =>
    obtain ⟨h1, h2⟩ : (Call.cmd c).Proper := hd _ _ rfl
    cases c
    case CMD_ALLOW_MOVE_1 => exact absurd rfl h1
    case CMD_ALLOW_MOVE_2 => exact absurd rfl h2
    case CMD_READY => cases ha
    case CMD_EXIT =>
      cases ha
      exact ⟨hI.latching, hI.holding, hI.words⟩
    case CMD_CLR_READY =>
      cases ha
      exact hsame (clrReady_sets_nothing m _)
  case allow1 => exact (hd _ _ rfl).elim
  case word => exact (hd _ _ rfl).elim
  case allow2 => exact (hd _ _ rfl).elim
  case clear1 => exact hsame (zero_sets_nothing m _)
  case clear2 => exact hsame (zero_sets_nothing m _)
  case clrReady => exact hsame (clrReady_sets_nothing m _)

/-- From an inert state no motion starts before the next call of `robot_sendMove`. -/
theorem inert_run {v t : Cell} {tr : List Event} (hd : v.driver = .idle)
    (hI : Inert v.mem v.robot.phase) (h : Run cell untilNextMove v tr t) : starts tr = [] := by
  have key : starts tr = [] ∧ Inert t.mem t.robot.phase ∧
      ∀ c k, t.driver = .busy c k → c.Harmless := by
    apply cell_invariant (fun tr d m p => starts tr = [] ∧ Inert m p ∧
      ∀ c k, d = .busy c k → c.Harmless) h
    · refine ⟨rfl, hI, fun c k hk => ?_⟩
      rw [hd] at hk
      cases hk
    · rintro tr m r c ⟨hs, hI, -⟩ hc
      refine ⟨by simp [hs], hI, ?_⟩
      rintro c' k ⟨⟩
      exact hc
    · rintro tr d m r o e d' ⟨hs, hI, hc⟩ - hstep
      refine ⟨(hstep.plain.snoc tr).1.trans hs, ?_, ?_⟩
      · rcases driver_event hstep with ⟨a, w, rfl, -, hw⟩ | ⟨-, hm⟩
        · exact inert_write hI hc hw
        · rw [hm]
          exact hI
      · intro c k hk
        obtain ⟨j, hj⟩ := hstep.same_call hk
        exact hc c j hj
    · rintro tr d m p e p' m' ⟨hs, hI, hc⟩ hstep
      obtain ⟨hI', he⟩ := inert_robot hI hstep
      exact ⟨by rw [starts_append, hs, he]; rfl, hI', hc⟩
  exact key.1

/-! ## The law -/

/-- When a call returns false, it did so after a failed operation up to its poll. -/
theorem arming_of_return {u v : Cell} {mv : MOVE} {tr : List Event}
    (hd : u.driver = .busy (.move mv) 0)
    (h : Run cell inCall u (tr ++ [.ret (.move mv) false]) v) :
    Arming u tr v.mem v.robot.phase ∧ v.driver = .idle := by
  obtain ⟨t, i, ht, -, hM⟩ := h.last
  have hI := failing_run hd ht
  obtain ⟨o, hs, rfl⟩ := cell_ret hM
  rcases ret_false hs with hf | ⟨w, hw⟩
  · rw [hf] at hI
    exact ⟨hI.2, rfl⟩
  · cases hw

/-- A call of `robot_sendMove` that returns false leaves nothing armed, when its two ALLOW words
did not come together and the robot was past no such pair when it began. When they came together
in the registers, the call leaves them there. -/
theorem a_failed_call_leaves_nothing_armed (u v : Cell) (mv : MOVE) (tr : List Event)
    (hd : u.driver = .busy (.move mv) 0)
    (h : Run cell inCall u (tr ++ [.ret (.move mv) false]) v) :
    (Unarmed u tr → LeavesNothing tr v) ∧ (LeavesNothing tr v → ¬ (First u tr ∧ Second u tr)) := by
  obtain ⟨hI, hidle⟩ := arming_of_return hd h
  refine ⟨?_, ?_⟩
  · intro hu
    have hinert := hI.inert hu
    exact ⟨hinert.words, fun _ tr' t ht => inert_run hidle hinert ht⟩
  · rintro ⟨hw, -⟩ ⟨h1, h2⟩
    exact hw ⟨hI.first.mpr h1, hI.second.mpr h2⟩

/-- A call from the idle cycle, with both registers free. -/
def freshCall (mv : MOVE) : Cell := ⟨.busy (.move mv) 0, .zero, .atMain⟩

/-- The law at a call that loses its ALLOW_MOVE_2 and then its poll. -/
theorem a_failed_call_leaves_nothing_armed_run :
    ∃ tr v, Run cell inCall (freshCall ⟨13, 29, NORMAL_MOVE⟩)
      (tr ++ [.ret (.move ⟨13, 29, NORMAL_MOVE⟩) false]) v ∧ LeavesNothing tr v := by
  have hrun : ∃ tr v, Run cell inCall (freshCall ⟨13, 29, NORMAL_MOVE⟩) tr v ∧
      decide (tr.getLast? = some (.ret (.move ⟨13, 29, NORMAL_MOVE⟩) false) ∧
        Unarmed (freshCall ⟨13, 29, NORMAL_MOVE⟩) tr.dropLast) = true :=
    exists_run_of_execWith (fun tr _ => _)
      (pcSteps 4 ++ [CellInput.pc (.failed false), .pc (.failed false), .pc .ok])
      (by decide +kernel)
  obtain ⟨tr, v, h, hP⟩ := hrun
  obtain ⟨hlast, hu⟩ := of_decide_eq_true hP
  obtain ⟨pre, rfl⟩ := List.getLast?_eq_some_iff.mp hlast
  rw [List.dropLast_concat] at hu
  exact ⟨pre, v, h, (a_failed_call_leaves_nothing_armed _ v _ pre rfl h).1 hu⟩

/-- The poll of a call fails, and the call returns false with both ALLOW words set. The robot then
carries out its move with no further call. -/
theorem a_failed_poll_leaves_the_robot_armed :
    ∃ tr s, Run cell properCalls Cell.start tr s ∧
      tr.getLast? = some (.ret (.move ⟨13, 29, NORMAL_MOVE⟩) false) ∧
      (s.mem.cmd1 = CMD.word .CMD_ALLOW_MOVE_1 ∧ s.mem.cmd2 = CMD.word .CMD_ALLOW_MOVE_2) ∧
      starts tr = [] ∧ ∃ tr' t, Run cell untilNextMove s tr' t ∧
        starts tr' = [MOVE.words ⟨13, 29, NORMAL_MOVE⟩] := by
  have hrun : ∃ tr s, Run cell properCalls Cell.start tr s ∧
      decide ((tr.getLast? = some (.ret (.move ⟨13, 29, NORMAL_MOVE⟩) false) ∧
        (s.mem.cmd1 = CMD.word .CMD_ALLOW_MOVE_1 ∧ s.mem.cmd2 = CMD.word .CMD_ALLOW_MOVE_2) ∧
        starts tr = []) ∧
        (execWith cell untilNextMove [] s (robotSteps 12)).any (fun q =>
          decide (starts q.1 = [MOVE.words ⟨13, 29, NORMAL_MOVE⟩])) = true) = true :=
    exists_run_of_execWith (fun tr s => _)
      (connectAndClear ++ .call (.move ⟨13, 29, NORMAL_MOVE⟩) :: pcSteps 5 ++
        [CellInput.pc (.failed false), .pc .ok])
      (by decide +kernel)
  obtain ⟨tr, s, h, hP⟩ := hrun
  obtain ⟨⟨hlast, harmed, hs⟩, hnext⟩ := of_decide_eq_true hP
  obtain ⟨tr', t, ht, hP'⟩ := exists_run_of_execWith
    (fun tr _ => decide (starts tr = [MOVE.words ⟨13, 29, NORMAL_MOVE⟩])) (robotSteps 12) hnext
  exact ⟨tr, s, h, hlast, harmed, hs, tr', t, ht, of_decide_eq_true hP'⟩

end robotchess
