-- A session as `main` runs it: `robot_connect`, `modbusClearCommand`, and then
-- any number of moves, with no failed Modbus operation. The words that the PC
-- writes follow the line it is at, and the handshake never stops for good.
import RobotChess.OneCall

open runs

namespace robotchess

/-! ## The session -/

/-- The calls of a session, in their order. -/
def SessionCall : List Call → Call → Prop
  | [], c => c = .connect
  | [_], c => c = .clear
  | _, .move m => m.Valid
  | _, _ => False

instance (cs : List Call) (c : Call) : Decidable (SessionCall cs c) :=
  match cs, c with
  | [], c => inferInstanceAs (Decidable (c = .connect))
  | [_], c => inferInstanceAs (Decidable (c = .clear))
  | _ :: _ :: _, .move m => inferInstanceAs (Decidable m.Valid)
  | _ :: _ :: _, .connect => .isFalse id
  | _ :: _ :: _, .clear => .isFalse id
  | _ :: _ :: _, .cmd _ => .isFalse id

def session : Guard Cell CellInput Event
  | tr, _, .call c => SessionCall (calls tr) c
  | _, _, .pc o => o = .ok
  | _, _, .robot => True

instance (tr : List Event) (s : Cell) (i : CellInput) : Decidable (session tr s i) :=
  match i with
  | .call c => inferInstanceAs (Decidable (SessionCall (calls tr) c))
  | .pc o => inferInstanceAs (Decidable (o = .ok))
  | .robot => .isTrue trivial

/-- The inputs of a session up to its first call of `robot_sendMove`, with no robot in between. -/
def connectAndClear : List CellInput := .call .connect :: pcSteps 8 ++ .call .clear :: pcSteps 4

/-! ## The words of the PC in a session -/

/-- What the words are before operation `k` of a move. -/
structure MoveRegs (w : Params) (k : Nat) (m : Mem) : Prop where
  last : k ≤ 9
  allow1 : 1 ≤ k → k ≤ 6 → m.cmd1 = allowMoveCmd1
  early : k ≤ 4 → m.cmd2 = 0
  source : 2 ≤ k → m.source = w.source
  dest : 3 ≤ k → m.dest = w.dest
  type : 4 ≤ k → m.type = w.type
  allow2 : 5 ≤ k → k ≤ 7 → m.cmd2 = allowMoveCmd2
  cleared : 8 ≤ k → m.cmd2 = 0

/-- What the words are at each point of the driver. -/
def Regs (m : Mem) : Driver → Prop
  | .idle => m.cmd2 = 0
  | .busy .connect _ => m.cmd1 = 0 ∧ m.cmd2 = 0
  | .busy .clear _ => m.cmd2 = 0
  | .busy (.move mv) k => mv.Valid ∧ MoveRegs mv.words k m
  | .busy (.cmd _) _ => False
  | .failing _ => False

theorem MoveRegs.written {w : Params} {k : Nat} {m : Mem} (h : MoveRegs w k m) : Written w k m :=
  ⟨h.source, h.dest, h.type⟩

theorem moveRegs_word {w : Params} {k : Nat} {m : Mem} {a : MEMADDR} {v : REG16}
    (hI : MoveRegs w k m) (hv : wordAt w k = some (a, v)) :
    MoveRegs w (k + 1) (m.write a v) := by
  have hk := word_bounds hv
  obtain ⟨h1, h2, -⟩ := word_write hv m
  have hwritten := written_word hI.written hv
  refine ⟨by omega, fun _ _ => ?_, fun _ => ?_, hwritten.source, hwritten.dest, hwritten.type,
    by omega, by omega⟩
  · exact h1.trans (hI.allow1 (by omega) (by omega))
  · exact h2.trans (hI.early (by omega))

/-- Past the parameter words only the two command words change. -/
theorem MoveRegs.later {w : Params} {j k : Nat} {m m' : Mem} (hI : MoveRegs w j m) (hj : 4 ≤ j)
    (hp : m'.params = m.params) (hk : 5 ≤ k ∧ k ≤ 9) (h1 : k ≤ 6 → m'.cmd1 = allowMoveCmd1)
    (h2 : k ≤ 7 → m'.cmd2 = allowMoveCmd2) (h0 : 8 ≤ k → m'.cmd2 = 0) : MoveRegs w k m' := by
  have hwritten : Written w k m' := (hI.written.later hj).of_params hp
  exact ⟨hk.2, fun _ => h1, by omega, hwritten.source, hwritten.dest, hwritten.type,
    fun _ => h2, h0⟩

/-- The words of a move follow its operations. -/
theorem moveRegs_pc {mv : MOVE} {m : Mem} {d : Driver} {k : Nat} {ans : REG16} {e : Event}
    (hI : ∀ j, d = .busy (.move mv) j → MoveRegs mv.words j m)
    (h : Driver.Step .ok ans d e (.busy (.move mv) k)) : MoveRegs mv.words k (m.after e) := by
  cases h
  case allow1 =>
    obtain ⟨-, -, h2, -, -, -, -, -⟩ := hI _ rfl
    exact ⟨by omega, fun _ _ => rfl, fun _ => h2 (by omega), by omega, by omega, by omega,
      by omega, by omega⟩
  case word hv => exact moveRegs_word (hI _ rfl) hv
  case allow2 =>
    have hr := hI _ rfl
    exact hr.later (by omega) rfl (by omega) (fun _ => hr.allow1 (by omega) (by omega))
      (fun _ => rfl) (by omega)
  case answered =>
    have hr := hI _ rfl
    exact hr.later (by omega) rfl (by omega) (fun _ => hr.allow1 (by omega) (by omega))
      (fun _ => hr.allow2 (by omega) (by omega)) (by omega)
  case notYet => exact hI _ rfl
  case clear1 ht =>
    obtain rfl := tailAt_move.mp ht
    have hr := hI _ rfl
    exact hr.later (by omega) rfl (by omega) (by omega)
      (fun _ => hr.allow2 (by omega) (by omega)) (by omega)
  case clear2 ht =>
    obtain rfl := tailAt_move.mp ht
    exact (hI _ rfl).later (by omega) rfl (by omega) (by omega) (by omega) (fun _ => rfl)
  case clrReady ht =>
    obtain rfl := tailAt_move.mp ht
    have hr := hI _ rfl
    exact hr.later (by omega) rfl (by omega) (by omega) (by omega)
      (fun _ => hr.cleared (by omega))

theorem regs_pc {m : Mem} {d d' : Driver} {ans : REG16} {e : Event} (hI : Regs m d)
    (h : Driver.Step .ok ans d e d') : Regs (m.after e) d' := by
  have hmove : ∀ mv j k, d = .busy (.move mv) j → d' = .busy (.move mv) k →
      Regs (m.after e) (.busy (.move mv) k) := by
    rintro mv j k rfl rfl
    refine ⟨hI.1, moveRegs_pc ?_ h⟩
    rintro i ⟨⟩
    exact hI.2
  cases h
  case connected => exact hI
  case zero a _ => exact ⟨(write_zero m a).1 hI.1, (write_zero m a).2.1 hI.2⟩
  case allow1 => exact hmove _ _ _ rfl rfl
  case word => exact hmove _ _ _ rfl rfl
  case allow2 => exact hmove _ _ _ rfl rfl
  case answered => exact hmove _ _ _ rfl rfl
  case notYet => exact hmove _ _ _ rfl rfl
  case clear1 c k ht =>
    rcases ht with ⟨rfl, rfl⟩ | ⟨mv, rfl, rfl⟩
    · exact hI
    · exact hmove _ _ _ rfl rfl
  case clear2 c k ht =>
    rcases ht with ⟨rfl, rfl⟩ | ⟨mv, rfl, rfl⟩
    · rfl
    · exact hmove _ _ _ rfl rfl
  case clrReady c k ht =>
    rcases ht with ⟨rfl, rfl⟩ | ⟨mv, rfl, rfl⟩
    · exact hI
    · exact hmove _ _ _ rfl rfl
  case cmd => exact hI.elim
  case invalid => exact hI.elim
  case failed => exact hI.elim
  case returned c k hk =>
    match c with
    | .connect => exact hI.2
    | .clear => exact hI
    | .cmd _ => exact hI.elim
    | .move mv =>
      have h9 : 9 ≤ k := by simpa [Call.body, robot_sendMove_eq] using hk
      exact hI.2.cleared (by omega)
  all_goals contradiction

theorem regs_call {tr : List Event} {m : Mem} {c : Call} (hI : Regs m .idle)
    (hz : calls tr = [] → m.cmd1 = 0) (hc : SessionCall (calls tr) c) : Regs m (.busy c 0) := by
  have h2 : m.cmd2 = 0 := hI
  cases hcs : calls tr with
  | nil =>
    rw [hcs] at hc
    obtain rfl : c = .connect := hc
    exact ⟨hz hcs, h2⟩
  | cons a cs =>
    cases cs with
    | nil =>
      rw [hcs] at hc
      obtain rfl : c = .clear := hc
      exact h2
    | cons b cs =>
      rw [hcs] at hc
      match c with
      | .move mv =>
        exact ⟨hc, by omega, by omega, fun _ => h2, by omega, by omega, by omega, by omega,
          by omega⟩
      | .connect => exact hc.elim
      | .clear => exact hc.elim
      | .cmd _ => exact hc.elim

/-- The robot writes none of these words. -/
theorem Regs.robot {m m' : Mem} {p p' : Phase} {e : Event} {d : Driver} (hI : Regs m d)
    (h : Phase.Step m p e p' m') : Regs m' d := by
  have key : ∀ w, Regs { m with ready := w } d := by
    intro w
    match d with
    | .idle => exact hI
    | .failing _ => exact hI
    | .busy .connect _ => exact hI
    | .busy .clear _ => exact hI
    | .busy (.cmd _) _ => exact hI
    | .busy (.move mv) k =>
      obtain ⟨hv, h1, h2, h3, h4, h5, h6, h7, h8⟩ := hI
      exact ⟨hv, h1, h2, h3, h4, h5, h6, h7, h8⟩
  cases h
  case done => exact key _
  case unready => exact key _
  all_goals exact hI

/-! ## The robot in a session -/

/-- Every type that the robot has latched is known, and it is not on its way to `*exit`. -/
def Phase.Sound : Phase → Prop
  | .typed t | .sourced t _ => Known t
  | .latched q => Known q.type
  | .boot | .off => False
  | _ => True

/-- The invariant of a session. -/
structure Live (tr : List Event) (d : Driver) (m : Mem) (p : Phase) : Prop where
  regs : Regs m d
  first : calls tr = [] → d = .idle ∧ m.cmd1 = 0
  exit : m.exit = 0
  ready : ReadyInv m p
  known : p = .armed ∨ m.cmd2 = allowMoveCmd2 → Known m.type
  sound : p.Sound
  young : calls tr = [] ∨ (∃ k, d = .busy .connect k) → ¬ p.Latching

theorem Live.young_cmd2 {tr : List Event} {d : Driver} {m : Mem} {p : Phase} (hI : Live tr d m p)
    (h : calls tr = [] ∨ ∃ k, d = .busy .connect k) : m.cmd2 ≠ allowMoveCmd2 := by
  have hr := hI.regs
  rcases h with h | ⟨k, rfl⟩
  · rw [(hI.first h).1] at hr
    rw [show m.cmd2 = 0 from hr]
    decide
  · rw [hr.2]
    decide

theorem live_call {tr : List Event} {m : Mem} {p : Phase} {c : Call} (hI : Live tr .idle m p)
    (hc : SessionCall (calls tr) c) : Live (tr ++ [.call c]) (.busy c 0) m p := by
  have hne : calls (tr ++ [.call c]) ≠ [] := by simp [calls, Event.call?]
  refine ⟨regs_call hI.regs (fun h => (hI.first h).2) hc, fun h => absurd h hne, hI.exit, hI.ready,
    hI.known, hI.sound, ?_⟩
  rintro (h | ⟨k, hk⟩)
  · exact absurd h hne
  · -- only the first call of a session is `robot_connect`
    cases hk
    refine hI.young (Or.inl ?_)
    rcases hcs : calls tr with _ | ⟨_, _ | ⟨_, _⟩⟩
    · rfl
    · rw [hcs] at hc
      cases hc
    · rw [hcs] at hc
      exact hc.elim

theorem sound_robot {m m' : Mem} {p p' : Phase} {e : Event} (hs : p.Sound)
    (hx : m.exit = 0) (hk : p = .armed → Known m.type) (h : Phase.Step m p e p' m') :
    p'.Sound := by
  cases h
  case quiet => exact hs
  case exitAsked hw => rw [hx] at hw; exact absurd hw (by decide)
  case type => exact hk rfl
  case source => exact hs
  case dest => exact hs
  case unknown hu => exact absurd hs hu
  all_goals trivial

theorem live_robot {tr : List Event} {m m' : Mem} {p p' : Phase} {d : Driver} {e : Event}
    (hI : Live tr d m p) (h : Phase.Step m p e p' m') : Live (tr ++ [e]) d m' p' := by
  have hw := h.words
  have hc : calls (tr ++ [e]) = calls tr := by rw [calls_append, h.no_call, List.append_nil]
  have hty : m'.type = m.type := congrArg Params.type hw.2.2.1
  refine ⟨hI.regs.robot h, ?_, hw.2.2.2.trans hI.exit, readyInv_robot hI.ready h, ?_,
    sound_robot hI.sound hI.exit (fun h => hI.known (Or.inl h)) h, ?_⟩
  · rw [hc, hw.1]
    exact hI.first
  · rw [hty, hw.2.1]
    rintro (rfl | h2)
    · cases h
      case quiet => exact hI.known (Or.inl rfl)
      case second h2 => exact hI.known (Or.inr h2)
    · exact hI.known (Or.inr h2)
  · rw [hc]
    intro hy
    exact (quiet_robot tr (hI.young_cmd2 hy) (hI.young hy) h).2

/-- A step of the PC leaves no unknown type under an armed robot. -/
theorem known_pc {tr : List Event} {d d' : Driver} {m : Mem} {p : Phase} {ans : REG16} {e : Event}
    (hI : Live tr d m p) (h : Driver.Step .ok ans d e d') :
    p = .armed ∨ (m.after e).cmd2 = allowMoveCmd2 → Known (m.after e).type := by
  have hk := hI.known
  have hr := hI.regs
  cases h
  case zero k a _ =>
    have hl : p ≠ .armed := by
      rintro rfl
      exact hI.young (Or.inr ⟨k, rfl⟩) trivial
    have h2 : (m.write a 0).cmd2 = 0 := (write_zero m a).2.1 hr.2
    rintro (rfl | hw)
    · exact absurd rfl hl
    · exact absurd (h2.symm.trans hw) (by decide)
  case word mv k a w hv _ =>
    intro h2
    rw [show (m.after (.write a w)).cmd2 = m.cmd2 from (word_write hv m).2.1] at h2
    rcases word_type hv m with ht | ht
    · rw [show (m.after (.write a w)).type = m.type from ht]
      exact hk h2
    · rw [show (m.after (.write a w)).type = mv.words.type from ht]
      exact hr.1.known
  case allow2 mv =>
    intro _
    have hty : m.type = mv.words.type := hr.2.type (by omega)
    exact hty ▸ hr.1.known
  case clear1 => exact hk
  case clrReady => exact hk
  case clear2 =>
    rintro (rfl | hw)
    · exact hk (Or.inl rfl)
    · exact absurd hw zero_ne_allow2
  case cmd => exact hr.elim
  case wordFailed ho => exact absurd rfl ho
  case cmdFailed ho => exact absurd rfl ho
  all_goals exact hk

/-- The PC writes only 0 to register 545. -/
theorem exit_pc {tr : List Event} {d d' : Driver} {m : Mem} {p : Phase} {ans : REG16} {e : Event}
    (hI : Live tr d m p) (h : Driver.Step .ok ans d e d') : (m.after e).exit = 0 := by
  have hx := hI.exit
  cases h
  case zero a _ => exact (write_zero m a).2.2 hx
  case word hv _ => exact (word_write hv m).2.2.trans hx
  case cmd => exact hI.regs.elim
  case wordFailed ho => exact absurd rfl ho
  case cmdFailed ho => exact absurd rfl ho
  all_goals exact hx

theorem Driver.Step.from_idle {o : Outcome} {ans : REG16} {e : Event} {d : Driver} :
    ¬ Driver.Step o ans .idle e d := by
  intro h
  cases h

theorem live_pc {tr : List Event} {d d' : Driver} {m : Mem} {p : Phase} {e : Event}
    (hI : Live tr d m p) (h : Driver.Step .ok m.ready d e d') :
    Live (tr ++ [e]) d' (m.after e) p := by
  obtain ⟨-, -, hc, -⟩ := h.plain.snoc tr
  have hne : calls tr ≠ [] := by
    intro h0
    rw [(hI.first h0).1] at h
    exact h.from_idle
  refine ⟨regs_pc hI.regs h, fun h0 => absurd (hc.symm.trans h0) hne, exit_pc hI h,
    readyInv_pc e hI.ready, known_pc hI h, hI.sound, ?_⟩
  rintro (h0 | ⟨k, rfl⟩)
  · exact absurd (hc.symm.trans h0) hne
  · exact hI.young (Or.inr (h.same_call rfl))

theorem live_run {s : Cell} {tr : List Event} (h : Run cell session Cell.start tr s) :
    Live tr s.driver s.mem s.robot.phase := by
  apply cell_invariant Live h
  · exact ⟨rfl, fun _ => ⟨rfl, rfl⟩, rfl, by decide, by decide, trivial, fun _ => id⟩
  · exact fun _ _ _ _ hI hc => live_call hI hc
  · rintro tr d m r o e d' hI hok hd
    cases hok
    exact live_pc hI hd
  · exact fun _ _ _ _ _ _ _ hI hr => live_robot hI hr

end robotchess
