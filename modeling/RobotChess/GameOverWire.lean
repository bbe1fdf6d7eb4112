-- The game over the wire. A PC that looks at register 1040 before it calls a move keeps to the
-- condition of a session by itself. So what it plays over TCP is what stands on the board.
import RobotChess.Game
import RobotChess.Wired

open bytes framing runs bench

namespace robotchess

universe u

variable {α : Type u}

/-! ## A PC that looks at the ready word -/

/-- A session in which a move is called only while register 1040 does not hold `CMD_READY`. -/
def watchfulSession : Guard Cell CellInput Event := fun tr s i =>
  session tr s i ∧ ∀ mv, i = .call (.move mv) → s.mem.ready ≠ CMD.word .CMD_READY

/-- Up to its poll, a move does not meet the acknowledgement of the move before. -/
def Unacked (d : Driver) (p : Phase) : Prop :=
  ∀ mv k, d = .busy (.move mv) k → k ≤ 5 → p ≠ .acked ∧ (k = 0 → p ≠ .waiting)

theorem unacked_call {c : Call} {m : Mem} {p : Phase} (hr : ReadyInv m p)
    (hc : ∀ mv, c = .move mv → m.ready ≠ CMD.word .CMD_READY) : Unacked (.busy c 0) p := by
  rintro mv k ⟨⟩ -
  have hne : ¬ (p = .waiting ∨ p = .acked) := fun hp => hc mv rfl (hr.mpr hp)
  exact ⟨fun hp => hne (Or.inr hp), fun _ hp => hne (Or.inl hp)⟩

theorem unacked_pc {d d' : Driver} {p : Phase} {o : Outcome} {ans : REG16} {e : Event}
    (hI : Unacked d p) (h : Driver.Step o ans d e d') : Unacked d' p := by
  rintro mv k hd hk
  have hpast : ∀ j, d = .busy (.move mv) j → j ≤ 5 → k ≠ 0 →
      p ≠ .acked ∧ (k = 0 → p ≠ .waiting) := by
    intro j hj h5 h0
    exact ⟨(hI mv j hj h5).1, fun h => absurd h h0⟩
  cases h <;> cases hd
  case allow1 => exact hpast 0 rfl (by omega) (by omega)
  case word j _ _ _ _ => exact hpast j rfl (by omega) (by omega)
  case allow2 => exact hpast 4 rfl (by omega) (by omega)
  case answered => omega
  case notYet => exact hpast 5 rfl (by omega) (by omega)
  case clear1 ht =>
    obtain rfl := tailAt_move.mp ht
    omega
  case clear2 ht =>
    obtain rfl := tailAt_move.mp ht
    omega
  case clrReady ht =>
    obtain rfl := tailAt_move.mp ht
    omega

/-- While ALLOW_MOVE_1 stands in register 540, the robot reads no acknowledgement there. -/
theorem unacked_robot {tr : List Event} {d : Driver} {m m' : Mem} {p p' : Phase} {e : Event}
    (hI : Unacked d p) (hr : Regs m d) (hs : Sequence tr d m p) (h : Phase.Step m p e p' m') :
    Unacked d p' := by
  rintro mv k rfl hk
  obtain ⟨hacked, hwaiting⟩ := hI mv k rfl hk
  constructor
  · rintro rfl
    cases h
    case quiet => exact hacked rfl
    case acked hw =>
      by_cases h0 : k = 0
      · exact hwaiting h0 rfl
      · have hallow := hr.2.allow1 (by omega) (by omega)
        rw [hallow] at hw
        exact allow1_ne_clrReady hw
  · rintro rfl
    cases hs with
    | early _ _ _ _ _ hd => exact absurd rfl (hd mv 0)
    | move _ tr₁ _ _ _ _ _ _ hcall _ =>
      obtain ⟨hmv, hduring⟩ := hcall
      cases hmv
      obtain ⟨hstarts, h2, hl⟩ := hduring.early (by omega)
      apply left_robot hduring.progress (fun _ => hwaiting rfl) h
      exact (quiet_robot tr₁ h2 hl h).1.trans hstarts

theorem orderly_of_unacked {s : Cell} (h : Unacked s.driver s.robot.phase) : Orderly s := by
  unfold Orderly
  split
  · rename_i hd
    exact (h _ 0 hd (by omega)).2 rfl
  · rename_i hd
    exact (h _ 5 hd (by omega)).1
  · trivial

/-- A PC that looks at the ready word keeps to the condition. -/
theorem watchful_run {s : Cell} {tr : List Event} (h : Run cell watchfulSession Cell.start tr s) :
    Run cell orderlySession Cell.start tr s ∧ Unacked s.driver s.robot.phase := by
  apply h.invariant (fun tr s => Run cell orderlySession Cell.start tr s ∧
    Unacked s.driver s.robot.phase) ⟨.nil, fun _ _ h => by cases h⟩
  rintro tr s i e t ⟨hrun, hI⟩ ⟨hok, hready⟩ hM
  obtain ⟨hl, hs⟩ := sequence_run hrun
  refine ⟨.snoc hrun ⟨hok, fun _ => orderly_of_unacked hI⟩ hM, ?_⟩
  cases cell_step hM with
  | call c hd => exact unacked_call hl.ready (fun mv hc => hready mv (by rw [hc]))
  | pc hd => exact unacked_pc hI hd
  | robot hr => exact unacked_robot hI hl.regs hs (step_phase hr)

/-! ## Over TCP -/

/-- The same session over the wire. No call times out, the server gives up no request, and the
connection is not refused. -/
def wiredSession : Guard Wired WiredInput (Option (List Event)) := fun tr w i =>
  inTime tr w i ∧ i ≠ .connects false ∧
    ∀ c, i = .call c → SessionCall (calls (tr.flatMap shown)) c ∧
      ∀ mv, c = .move mv → w.mem.ready ≠ CMD.word .CMD_READY

instance (tr : List (Option (List Event))) (w : Wired) (i : WiredInput) :
    Decidable (wiredSession tr w i) :=
  match i with
  | .call (.move mv) => decidable_of_iff (SessionCall (calls (tr.flatMap shown)) (.move mv) ∧
      w.mem.ready ≠ CMD.word .CMD_READY) (by simp [wiredSession, inTime])
  | .call .connect => decidable_of_iff (SessionCall (calls (tr.flatMap shown)) .connect)
      (by simp [wiredSession, inTime])
  | .call .clear => decidable_of_iff (SessionCall (calls (tr.flatMap shown)) .clear)
      (by simp [wiredSession, inTime])
  | .call (.cmd c) => decidable_of_iff (SessionCall (calls (tr.flatMap shown)) (.cmd c))
      (by simp [wiredSession, inTime])
  | .connects ok => decidable_of_iff (ok = true) (by simp [wiredSession, inTime])
  | .line i => decidable_of_iff (inTime tr w (.line i)) (by simp [wiredSession])
  | .issues | .returns | .robot => isTrue (by simp [wiredSession, inTime])

section
variable {w w' : Wired} {s t : Cell} {y : Remote} {es : Option (List Event)} {i : WiredInput}
  {tr : List Event}

theorem watchful_step {i : CellInput} {e : Event} (hi : noneLost s i)
    (hM : cell s i = some (e, t)) (he : e ≠ .connected false)
    (hc : ∀ c, i = .call c → SessionCall (calls tr) c ∧
      ∀ mv, c = .move mv → s.mem.ready ≠ CMD.word .CMD_READY) :
    watchfulSession tr s i := by
  cases i with
  | call c => exact ⟨(hc c rfl).1, fun mv h => (hc c rfl).2 mv (by cases h; rfl)⟩
  | robot => exact ⟨trivial, fun mv h => by cases h⟩
  | pc o =>
    refine ⟨?_, fun mv h => by cases h⟩
    cases o with
    | ok => rfl
    | failed b =>
      have hd := hi b rfl
      cases cell_step hM with
      | pc hd' =>
        rw [hd] at hd'
        cases hd'
        case connected ho => cases ho
        case refused => exact absurd rfl he
        case zero hk => cases hk
        case clear1 ht => rcases ht with ⟨ht, -⟩ | ⟨mv, ht, -⟩ <;> cases ht
        case returned hk => simp [Call.body, robot_connect] at hk

/-- Steps that show no call, and no refused connection, are steps of the session. -/
theorem watchful_steps {es : List Event} (h : Run cell (fun _ => noneLost) s es t)
    (hno : ∀ e ∈ es, e.call? = none ∧ e ≠ .connected false) :
    Run cell (fun seen => watchfulSession (tr ++ seen)) s es t := by
  induction h with
  | nil => exact .nil
  | snoc _ hi hM ih =>
    obtain ⟨hcall, hrefused⟩ := hno _ List.mem_concat_self
    refine .snoc (ih fun e he => hno e (by simp [he])) (watchful_step hi hM hrefused ?_) hM
    rintro c rfl
    cases cell_step hM with
    | call => cases hcall

theorem shows_no_call (st : Statement) (m : Mem) :
    ∀ e ∈ st.shows m, e.call? = none ∧ e ≠ .connected false := by
  cases st <;> simp [Statement.shows, Event.call?]

/-- Only a call shows a call, and only a refused connection shows one. -/
theorem wired_shows (hM : wired w i = some (es, w')) (hcall : ∀ c, i ≠ .call c)
    (hrefused : i ≠ .connects false) :
    ∀ e ∈ shown es, e.call? = none ∧ e ≠ .connected false := by
  cases i with
  | call c => exact absurd rfl (hcall c)
  | issues =>
    simp only [wired] at hM
    split at hM
    · cases hM
    · split at hM <;> cases hM <;> simp [shown]
  | line i =>
    have hM' := wired_line hM
    cases hline : plcLine w.connection i with
    | none =>
      rw [hline] at hM'
      cases hM'
    | some p =>
      obtain ⟨e, c⟩ := p
      rw [hline] at hM'
      cases e with
      | replied =>
        cases hM'
        cases w.driver.statement with
        | none => simp [shown]
        | some st => exact shows_no_call st w.mem
      | _ =>
        cases hM'
        simp [shown]
  | connects ok =>
    simp only [wired] at hM
    cases ok with
    | false => exact absurd rfl hrefused
    | true =>
      split at hM
      · cases hM
        simp [shown, Event.call?]
      · cases hM
  | returns =>
    simp only [wired] at hM
    split at hM
    · cases hM
    · cases hM
      simp [shown, Event.call?]
    · split at hM <;> cases hM <;> simp [shown, Event.call?]
  | robot =>
    simp only [wired] at hM
    obtain ⟨⟨e, r, m⟩, hr, he⟩ := Option.map_eq_some_iff.mp hM
    cases he
    have hplant := phase_event_onPlant (step_phase hr)
    simp only [shown, Option.getD_some, List.mem_singleton, forall_eq]
    constructor
    · cases e <;> first | rfl | cases hplant
    · rintro rfl
      cases hplant

/-- A step of the session over the wire is a run of the session. -/
theorem session_step {seen : List (Option (List Event))} (h : Matches w s y)
    (hi : wiredSession seen w i) (hM : wired w i = some (es, w')) :
    ∃ s', Run cell (fun tr => watchfulSession (seen.flatMap shown ++ tr)) s (shown es) s' ∧
      ∃ y', Matches w' s' y' := by
  obtain ⟨htime, hrefused, hcalls⟩ := hi
  obtain ⟨s', hrun, hm⟩ := matches_step h htime hM
  refine ⟨s', ?_, hm⟩
  by_cases hcall : ∃ c, i = .call c
  · obtain ⟨c, rfl⟩ := hcall
    have hes : shown es = [.call c] := by
      simp only [wired] at hM
      split at hM <;> cases hM
      rfl
    rw [hes] at hrun ⊢
    obtain ⟨u, j, hj, hM', hend⟩ := hrun.first
    obtain rfl := hend.of_nil
    refine .single (i := j) (watchful_step hj hM' (by simp) ?_) hM'
    rintro c' rfl
    cases cell_step hM' with
    | call =>
      rw [List.append_nil, h.words]
      exact hcalls c rfl
  · exact watchful_steps hrun (wired_shows hM (fun c hc => hcall ⟨c, hc⟩) hrefused)

end

/-- A session over the wire is a session. -/
theorem session_run {t_id : Word} {st : Store} (hroom : 1040 < st.registers.length)
    (hzero : memOf st.registers = .zero) {tr : List (Option (List Event))} {w : Wired}
    (h : Run wired wiredSession ⟨.idle, .start modbus_tcp_backend t_id st.mapping, .atMain⟩ tr w) :
    ∃ s, Run cell watchfulSession Cell.start (tr.flatMap shown) s ∧ ∃ y, Matches w s y := by
  have hstart : Matches ⟨.idle, .start modbus_tcp_backend t_id st.mapping, .atMain⟩
      Cell.start ⟨st, .idle⟩ := ⟨distant_start t_id st, hroom, hzero.symm, rfl, rfl⟩
  apply h.refine (fun w s => ∃ y, Matches w s y) shown _ ⟨_, hstart⟩
  rintro tr w i es w' s ⟨y, hy⟩ hi hM
  exact session_step hy hi hM

/-- From `main` to the board. Over TCP, whatever the pieces that the streams are cut into and
whatever the robot does in between: when no call times out, the server gives up no request and the
PC calls a move only while register 1040 does not hold `CMD_READY`, each time that
`robot_sendMove` returns true the board and the pile are the ones of all the moves so far, and no
piece is ever lost. -/
theorem a_session_over_tcp_plays_its_moves (b₀ : Bench Square α) (hg : b₀.gripper.held = none)
    (t_id : Word) (st : Store) (hroom : 1040 < st.registers.length)
    (hzero : memOf st.registers = .zero) (tr : List (Option (List Event))) (w : Wired)
    (h : Run wired wiredSession ⟨.idle, .start modbus_tcp_backend t_id st.mapping, .atMain⟩ tr w)
    (hlegal : (playAll b₀.position ((moves (tr.flatMap shown)).map MOVE.words)).isSome) :
    inPlay (benchAfter b₀ (tr.flatMap shown)) = b₀.position.pieces ∧
      ∀ pre mv post, tr.flatMap shown = pre ++ .ret (.move mv) true :: post →
        ∃ q, playAll b₀.position ((moves pre).map MOVE.words) = some q ∧
          AtRest b₀ (benchAfter b₀ pre) q := by
  obtain ⟨s, hs, -⟩ := session_run hroom hzero h
  have horderly := (watchful_run hs).1
  exact ⟨(session_plays hg horderly hlegal).keeps hg, session_returns hg horderly hlegal⟩

/-- A request and its response, each in some pieces. -/
def exchanged (sent answered : List Nat) : List WiredInput :=
  .issues :: sent.map (fun n => .line (.serverReads n)) ++ .line (.replies fun _ => 0) ::
    answered.map (fun n => .line (.clientReads n)) ++ [.line .returns]

/-- A write of one word, and of the three parameter words. -/
def wroteWord : List WiredInput := exchanged [7, 3] [7, 3]
def wroteParams : List WiredInput := exchanged [7, 4, 5] [7, 3]

/-- A session over the wire up to the first request of a poll. -/
def pollOverWire : List WiredInput :=
  .call .connect :: .connects true :: (List.replicate 6 wroteWord).flatten ++ .returns ::
  .call .clear :: (List.replicate 3 wroteWord).flatten ++ .returns ::
  .call (.move ⟨13, 29, NORMAL_MOVE⟩) :: wroteWord ++ wroteParams ++ wroteWord ++ [.issues]

/-- The rest of that poll while the robot carries out the motion, and the end of the call. -/
def firstMoveOverWire : List WiredInput :=
  pollOverWire ++ [.line (.serverReads 7)] ++ List.replicate 33 .robot ++
  [.line (.serverReads 3), .line (.replies fun _ => 0), .line (.clientReads 7),
    .line (.clientReads 0), .line (.clientReads 1), .line .returns] ++
  (List.replicate 3 wroteWord).flatten ++ [.returns]

/-- The law at one move. -/
theorem a_move_over_tcp_is_played : ∃ tr w pre q, Run wired wiredSession
    ⟨.idle, .start modbus_tcp_backend 0 (Store.mapping ⟨[], [], [], List.replicate 1041 0⟩),
      .atMain⟩ tr w ∧
    tr.flatMap shown = pre ++ [.ret (.move ⟨13, 29, NORMAL_MOVE⟩) true] ∧
    AtRest beforeGame (benchAfter beforeGame pre) q ∧ (plt1 29).map q.board = some (some 1) := by
  have hrun : ∃ tr w, Run wired wiredSession ⟨.idle, .start modbus_tcp_backend 0
      (Store.mapping ⟨[], [], [], List.replicate 1041 0⟩), .atMain⟩ tr w ∧
      decide ((tr.flatMap shown).getLast? = some (.ret (.move ⟨13, 29, NORMAL_MOVE⟩) true) ∧
        moves (tr.flatMap shown) = [⟨13, 29, NORMAL_MOVE⟩]) = true :=
    exists_run_of_execWith (fun tr _ => _) firstMoveOverWire (by decide +kernel)
  obtain ⟨tr, w, h, hP⟩ := hrun
  obtain ⟨hlast, hmoves⟩ := of_decide_eq_true hP
  obtain ⟨pre, hpre⟩ := List.getLast?_eq_some_iff.mp hlast
  have hlegal : ((playAll beforeGame.position ((moves (tr.flatMap shown)).map MOVE.words)).any
      fun q => decide ((plt1 29).map q.board = some (some 1))) = true := by
    rw [hmoves]
    decide +kernel
  have hroom : 1040 < (List.replicate 1041 (0 : Word)).length := by
    rw [List.length_replicate]
    decide
  obtain ⟨-, hall⟩ := a_session_over_tcp_plays_its_moves beforeGame rfl 0
    ⟨[], [], [], List.replicate 1041 0⟩ hroom (by decide +kernel) tr w h
    (Option.isSome_of_any hlegal)
  obtain ⟨q, hq, hat⟩ := hall pre _ [] hpre
  have hsame : moves (tr.flatMap shown) = moves pre := by
    rw [hpre]
    simp [moves, calls, Event.call?]
  rw [hsame, hq] at hlegal
  exact ⟨tr, w, pre, q, h, hpre, hat, of_decide_eq_true hlegal⟩

end robotchess
