-- A session over the wire never stops for good. From each of its states the function that
-- the PC is in can still return true, in a bounded number of steps.
import RobotChess.NoDeadlock
import RobotChess.Waiting
import RobotChess.GameOverWire

open bytes framing runs

namespace robotchess

/-- The steps that are left when the PC calls no function. Nothing times out, and the connection is
not refused. -/
def onward : Guard Wired WiredInput (Option (List Event)) := fun _ _ i =>
  (∀ code, i ≠ .line (.fails code) ∧ i ≠ .line (.serverFails code)) ∧ i ≠ .connects false ∧
    ∀ c, i ≠ .call c

/-! ## The end of a call of the library -/

/-- The store when the call is over. -/
def Remote.settled (y : Remote) : Store :=
  match y.stage with
  | .called r => r.op.carry y.store
  | _ => y.store

/-- Where the driver goes on when the call is over. -/
def Driver.told (d : Driver) (y : Remote) : Driver :=
  match y.stage with
  | .idle => d
  | .called r => d.goesOn (ansOf (r.outcome y.store))
  | .carried res => d.goesOn (ansOf res)

theorem Single.queue_le {x : Traffic} {stage : Stage} (h : Single x stage) :
    x.queue.length ≤ 0 + 1 := by
  cases stage with
  | idle =>
    obtain ⟨-, hreq, hrsp⟩ := h
    simp [Traffic.queue, hreq, hrsp]
  | called r =>
    obtain ⟨a, -, -, hreq, hrsp⟩ := h
    simp [Traffic.queue, hreq, hrsp]
  | carried res =>
    obtain ⟨a, s, -, -, hreq, hrsp⟩ := h
    simp [Traffic.queue, hreq, hrsp]

theorem Single.last {x : Traffic} {stage : Stage} (h : Single x stage) :
    ∀ a, x.waiting = some a → x.queue.getLast? = some a := by
  intro a ha
  cases stage with
  | idle =>
    rw [h.1] at ha
    cases ha
  | called r =>
    obtain ⟨b, -, hw, hreq, hrsp⟩ := h
    rw [← ha, hw]
    simp [Traffic.queue, hreq, hrsp]
  | carried res =>
    obtain ⟨b, s, -, hw, hreq, hrsp⟩ := h
    rw [← ha, hw]
    simp [Traffic.queue, hreq, hrsp]

/-- What the steps of a waiting call are for the driver. -/
theorem wired_inside {w : Wired} {tr : List Moment} {c : Connection} {i : ConnectionInput}
    (hi : inside tr c i) : wired w (.line i) = match plcLine w.connection i with
    | none => none
    | some (.replied, c) => some (some ((w.driver.statement.map (Statement.shows w.mem)).getD []),
      { w with connection := c })
    | some (.returned res, c) =>
      some (some [], { w with driver := w.driver.goesOn (ansOf res), connection := c })
    | some (.failed _, c) => some (none, { w with driver := w.driver.goesOn none, connection := c })
    | some (_, c) => some (some [], { w with connection := c }) := by
  cases i <;> first | rfl | exact hi.elim

theorem onward_inside {tr : List Moment} {c : Connection} {i : ConnectionInput}
    (hi : inside tr c i) (seen : List (Option (List Event))) (w : Wired) :
    onward seen w (.line i) := by
  refine ⟨fun code => ⟨?_, ?_⟩, by simp, by simp⟩
  · rintro ⟨⟩
    exact hi
  · rintro ⟨⟩
    exact hi

/-- The call under way in `v` comes to the same end as the one in `w`. -/
structure Finishing (w : Wired) (y : Remote) (n : Nat) (v : Wired) (x : Traffic) (z : Remote) :
    Prop where
  carries : Carries tcpFramed (BitVec.ofInt 8 MODBUS_TCP_SLAVE) v.connection x
  store : x.store = z.store
  single : Single x z.stage
  left : stepsLeft v.connection x = n
  settled : z.settled = y.settled
  told : v.driver.told z = w.driver.told y
  robot : v.robot = w.robot

/-- The next step of a call that waits. -/
theorem finishing_step {w v : Wired} {y z : Remote} {n : Nat} {x : Traffic}
    (h : Finishing w y n v x z) (hcall : v.connection.call ≠ none) :
    ∃ i e u m, (∀ tr, onward tr v i) ∧ wired v i = some (e, u) ∧
      (∃ x' z', Finishing w y m u x' z') ∧ m < n := by
  obtain ⟨hc, hs, hx, rfl, hsettled, htold, hrobot⟩ := h
  obtain ⟨i, hi, hsome⟩ := inside_enabled (Or.inl rfl) rfl hc hx.last
    (Option.isSome_iff_ne_none.mpr hcall) []
  obtain ⟨⟨e, c'⟩, hline⟩ := Option.isSome_iff_exists.mp hsome
  obtain ⟨x', hc', hlt, hk⟩ := inside_step (Or.inl rfl) rfl hc hi hline
  have hgoes := wired_inside (w := v) hi
  rw [show plcLine v.connection i = some (e, c') from hline] at hgoes
  obtain ⟨hcalled, hset⟩ := line_moment hline
  have hok : ∀ tr, onward tr v (.line i) := fun tr => onward_inside hi tr v
  rcases hk with ⟨rfl, rfl⟩ | ⟨⟨k, hk, hfail⟩, -⟩
  · exact ⟨_, _, _, _, hok, hgoes, ⟨x', z, hc', hs, hx, rfl, hsettled, htold, hrobot⟩, hlt⟩
  · obtain ⟨j, stage', hj, hx'⟩ := remote_step hc.waiting hx hfail hk
    obtain ⟨st, stage⟩ := z
    rw [hs] at hj
    generalize hst' : x'.store = st' at hj
    cases remote_cases hj with
    | calls =>
      rw [hcalled _ rfl] at hi
      exact hi.elim
    | sets =>
      rw [hset _ rfl] at hi
      exact hi.elim
    | @carries _ r =>
      exact ⟨_, _, _, _, hok, hgoes, ⟨x', ⟨r.op.carry st, .carried (r.outcome st)⟩, hc', hst', hx',
        rfl, hsettled, htold, hrobot⟩, hlt⟩
    | @returns _ res =>
      exact ⟨_, _, _, _, hok, hgoes, ⟨x', ⟨st, .idle⟩, hc', hst', hx', rfl, hsettled, htold,
        hrobot⟩, hlt⟩

/-- A call that waits comes to its end, and nothing else changes. -/
theorem call_finishes {w : Wired} {y : Remote}
    (h : Distant tcpFramed (BitVec.ofInt 8 MODBUS_TCP_SLAVE) w.connection y) :
    ∃ tr w', Run wired onward w tr w' ∧ tr.length ≤ 522 ∧
      Distant tcpFramed (BitVec.ofInt 8 MODBUS_TCP_SLAVE) w'.connection ⟨y.settled, .idle⟩ ∧
      w'.driver = w.driver.told y ∧ w'.robot = w.robot := by
  obtain ⟨x, hc, hs, hx⟩ := h
  have hle := stepsLeft_le (n := 0) (Or.inl rfl) hc hx.queue_le
  have hreach := reaches_of_good wired onward (fun n v => ∃ x' z, Finishing w y n v x' z)
    (fun v => v.connection.call = none)
    (by
      rintro n v ⟨x', z, hz⟩ hcall
      exact finishing_step hz hcall)
    (stepsLeft w.connection x) w ⟨x, y, hc, hs, hx, rfl, rfl, rfl, rfl⟩
  obtain ⟨tr, w', hrun, hlen, hover, m, x', z, hc', hs', hx', -, hsettled, htold, hrobot⟩ := hreach
  have hw : x'.waiting = none := by
    rw [hc'.call] at hover
    simpa using hover
  obtain ⟨st, stage⟩ := z
  cases stage with
  | idle =>
    refine ⟨tr, w', hrun, by omega, ⟨x', hc', hs'.trans hsettled, hx'⟩, htold, hrobot⟩
  | called r =>
    obtain ⟨a, -, hw', -⟩ := hx'
    rw [hw] at hw'
    cases hw'
  | carried res =>
    obtain ⟨a, s, -, hw', -⟩ := hx'
    rw [hw] at hw'
    cases hw'

/-! ## The driver goes on -/

/-- A wired cell in a session, and the cell that it is. -/
structure Going (w : Wired) (s : Cell) (y : Remote) : Prop where
  matched : Matches w s y
  reached : ∃ tr, Run cell watchfulSession Cell.start tr s

section
variable {w w' : Wired} {s s' : Cell} {y y' : Remote} {c : Call} {k : Nat}

/-- The session goes on by steps that show no call. -/
theorem Going.next (h : Going w s y) {es : List Event}
    (hrun : Run cell (fun _ => noneLost) s es s')
    (hno : ∀ e ∈ es, e.call? = none ∧ e ≠ .connected false) (hm : Matches w' s' y') :
    Going w' s' y' := by
  obtain ⟨tr, htr⟩ := h.reached
  exact ⟨hm, _, htr.append (watchful_steps hrun hno)⟩

theorem Going.live (h : Going w s y) : ∃ tr, Live tr s.driver s.mem s.robot.phase := by
  obtain ⟨tr, htr⟩ := h.reached
  exact ⟨tr, (sequence_run (watchful_run htr).1).1⟩

/-- Outside a call of the library the drivers are at the same operation. -/
theorem Going.driver (h : Going w s y) (hy : y.stage = .idle) : s.driver = w.driver.inCell := by
  have hd := h.matched.driver
  rwa [hy] at hd

theorem Going.not_failing (h : Going w s y) (hy : y.stage = .idle) : w.driver ≠ .failing c := by
  intro hd
  obtain ⟨tr, hl⟩ := h.live
  have hr := hl.regs
  rw [h.driver hy, hd] at hr
  exact hr

theorem Going.not_cmd (h : Going w s y) (hy : y.stage = .idle) {cmd : CMD} :
    w.driver ≠ .busy (.cmd cmd) k := by
  intro hd
  obtain ⟨tr, hl⟩ := h.live
  have hr := hl.regs
  rw [h.driver hy, hd] at hr
  exact hr

theorem goesOn_cases (c : Call) (k : Nat) (ans : Option REG16) :
    (∃ k', (Driver.busy c k).goesOn ans = .busy c k') ∨
      (Driver.busy c k).goesOn ans = .failing c := by
  unfold Driver.goesOn
  simp only
  split
  · exact Or.inl ⟨_, rfl⟩
  · split
    · exact Or.inl ⟨_, rfl⟩
    · exact Or.inl ⟨_, rfl⟩
  · exact Or.inl ⟨_, rfl⟩
  · exact Or.inr rfl

theorem told_cases (c : Call) (k : Nat) (y : Remote) :
    (∃ k', (Driver.busy c k).told y = .busy c k') ∨ (Driver.busy c k).told y = .failing c := by
  unfold Driver.told
  split
  · exact Or.inl ⟨k, rfl⟩
  · exact goesOn_cases c k _
  · exact goesOn_cases c k _

/-- What a call of the library comes to, in the cell too. -/
theorem going_finishes (h : Going w s y) : ∃ tr w' s', Run wired onward w tr w' ∧
    tr.length ≤ 522 ∧ Going w' s' ⟨y.settled, .idle⟩ ∧ w'.driver = w.driver.told y := by
  obtain ⟨tr, w', hrun, hlen, hd, hdriver, hrobot⟩ := call_finishes h.matched.distant
  obtain ⟨st, stage⟩ := y
  have hat := h.matched.driver
  have hroom := h.matched.room
  have hmem := h.matched.mem
  have hrob := h.matched.robot.trans hrobot.symm
  cases stage with
  | idle =>
    refine ⟨tr, w', s, hrun, hlen, ⟨⟨hd, hroom, hmem, hrob, ?_⟩, h.reached⟩, hdriver⟩
    rw [hdriver]
    exact hat
  | carried res =>
    refine ⟨tr, w', s, hrun, hlen, ⟨⟨hd, hroom, hmem, hrob, ?_⟩, h.reached⟩, hdriver⟩
    rw [hdriver]
    exact hat.1
  | called r =>
    obtain ⟨hat, stm, hst, hr⟩ := hat
    cases hwd : w.driver with
    | idle =>
      rw [hwd] at hst
      cases hst
    | failing c =>
      rw [hwd] at hst
      cases hst
    | busy c k =>
      rw [hwd] at hst hat hdriver
      obtain ⟨d, m, rob⟩ := s
      simp only at hat hmem hrob
      obtain ⟨hroom', hcell⟩ := statement_carried hroom rob hst hr
      rw [← hmem, ← hat] at hcell
      exact ⟨tr, w', _, hrun, hlen, h.next hcell (shows_no_call stm m)
        ⟨hd, hroom', rfl, hrob, by rw [hdriver]; rfl⟩, hdriver⟩

/-- The request of a statement is sent and carried out. -/
theorem request_goes (h : Going w s y) (hy : y.stage = .idle) (hd : w.driver = .busy c k)
    {st : Statement} (hst : c.statements[k]? = some st) {r : Request}
    (hr : st.request = some r) : ∃ tr w' s', Run wired onward w tr w' ∧ tr.length ≤ 523 ∧
      Going w' s' ⟨r.op.carry y.store, .idle⟩ ∧
      w'.driver = (Driver.busy c k).goesOn (ansOf (r.outcome y.store)) := by
  obtain ⟨store, stage⟩ := y
  obtain rfl : stage = .idle := hy
  have hstatement : w.driver.statement = some st := by rw [hd]; exact hst
  obtain ⟨x, hc, hs, hx⟩ := h.matched.distant
  have hidle : w.connection.call = none := by
    rw [hc.call, hx.1]
    rfl
  obtain ⟨call, hcall⟩ : ∃ call, r.call ⟨MODBUS_TCP_SLAVE, modbus_tcp_backend⟩
      (next_t_id w.connection.t_id) = .ok call :=
    ⟨_, (r.call_iff tcpFramed _ _ _).mpr ⟨issued_allowed hr, rfl⟩⟩
  obtain ⟨con, hline⟩ : ∃ con, plcLine w.connection (.calls r) = some (.called r, con) := by
    simp [plcLine, connection, hidle, hcall]
  have hM : wired w .issues = some (some [], { w with connection := con }) := by
    simp [wired, hstatement, hr, hline]
  have hsent : Going { w with connection := con } s ⟨store, .called r⟩ := by
    refine ⟨⟨?_, h.matched.room, h.matched.mem, h.matched.robot, h.driver rfl, st, hstatement, hr⟩,
      h.reached⟩
    have hin := patient_calls [] w.connection r
    rcases distant_step (Or.inl rfl) rfl h.matched.distant hin hline with
      ⟨he, -⟩ | ⟨-, j, z, hj, hd⟩
    · cases he
    · cases remote_cases hj with
      | calls => exact hd
  obtain ⟨tr, w', s', hrun, hlen, hg, hdriver⟩ := going_finishes hsent
  have hfirst : Run wired onward w [some []] { w with connection := con } :=
    .single (i := .issues) (by simp [onward]) hM
  refine ⟨[some []] ++ tr, w', s', hfirst.append hrun, ?_, hg, ?_⟩
  · rw [List.length_append, List.length_singleton]
    omega
  · rw [hdriver, ← hd]
    rfl

/-- While the PC polls and sends nothing, the robot alone gives the ready signal. -/
theorem robot_answers (h : Going w s y) (hy : y.stage = .idle) (hd : w.driver = .busy c k)
    (hst : c.statements[k]? = some .poll) : ∃ tr w' s' y', Run wired onward w tr w' ∧
      tr.length ≤ 49 ∧ Going w' s' y' ∧ y'.stage = .idle ∧ w'.driver = w.driver ∧
      s'.mem.ready = CMD.word .CMD_READY := by
  have hscript : s.robot.OnScript := by
    obtain ⟨tr, htr⟩ := h.reached
    exact onScript_run htr (by intro todo ht; cases ht)
  have hreach := reaches_of_good wired onward
    (fun n v => ∃ t z, Going v t z ∧ z.stage = .idle ∧ v.driver = w.driver ∧ t.robot.rank = n)
    (fun v => v.mem.ready = CMD.word .CMD_READY) (by
      rintro n v ⟨t, z, hg, hz, hdriver, rfl⟩ hnot
      obtain ⟨tr, hl⟩ := hg.live
      have hact : t.driver.act = some .poll := by
        rw [hg.driver hz, hdriver, hd]
        exact body_at hst (j := 0) Nat.zero_lt_one
      obtain ⟨mv, hpoll⟩ := act_poll hact
      have hw : t.robot.phase ≠ .waiting ∧ t.robot.phase ≠ .acked := by
        rw [← hg.matched.words] at hnot
        constructor <;> intro hp <;> apply hnot <;> apply hl.ready.mpr <;> simp [hp]
      have hne : t.robot.line ≠ .ended := by
        intro hline
        have := hl.sound
        simp only [Robot.phase, hline] at this
        exact this
      rw [hpoll] at hl
      obtain ⟨e, r, m, hr⟩ := step_of_not_ended t.mem hne
      have hfalls := rank_falls hl.armed hl.sound hw hr
      rw [hg.matched.words, hg.matched.robot] at hr
      have hM : wired v .robot = some (some [e], { v with
          robot := r, connection := showReady v.connection m.ready }) := by
        simp [wired, hr]
      obtain ⟨t', hrun, z', hz', hm⟩ := matches_robot hg.matched hM
      have hno := wired_shows hM (by simp) (by simp)
      refine ⟨.robot, _, _, t'.robot.rank, fun _ => by simp [onward], hM,
        ⟨t', z', hg.next hrun hno hm, hz'.trans hz, hdriver, rfl⟩, ?_⟩
      rw [hm.robot]
      exact hfalls)
    s.robot.rank w ⟨s, y, h, hy, rfl, rfl⟩
  obtain ⟨tr, w', hrun, hlen, hready, n, t, z, hg, hz, hdriver, -⟩ := hreach
  exact ⟨tr, w', t, z, hrun, hlen.trans (rank_le hscript), hg, hz, hdriver,
    (congrArg Mem.ready hg.matched.words).trans hready⟩

/-- Each statement comes to its end. -/
theorem statement_goes (h : Going w s y) (hy : y.stage = .idle) (hd : w.driver = .busy c k)
    {st : Statement} (hst : c.statements[k]? = some st) :
    ∃ tr w' s' y', Run wired onward w tr w' ∧ tr.length ≤ 572 ∧ Going w' s' y' ∧
      y'.stage = .idle ∧ w'.driver = .busy c (k + 1) := by
  have hroom := h.matched.room
  cases st with
  | connect =>
    have hstatement : w.driver.statement = some .connect := by rw [hd]; exact hst
    have hM : wired w (.connects true) = some (some [.connected true], { w with
        driver := w.driver.goesOn (some 0)
        connection := .start modbus_tcp_backend w.connection.t_id w.connection.tables }) := by
      simp [wired, hstatement]
    obtain ⟨s', hrun, y', hy', hm⟩ := matches_connects h.matched hM
    have hno := wired_shows hM (by simp) (by simp)
    refine ⟨_, _, s', y', .single (i := .connects true) (by simp [onward]) hM, by simp,
      h.next hrun hno hm, hy', ?_⟩
    simp [hd, Driver.goesOn, hst]
  | write a v =>
    obtain ⟨tr, w', s', hrun, hlen, hg, hdriver⟩ := request_goes h hy hd hst rfl
    refine ⟨tr, w', s', _, hrun, by omega, hg, rfl, ?_⟩
    simp [hdriver, Driver.goesOn, hst]
  | writeOr a v =>
    obtain ⟨tr, w', s', hrun, hlen, hg, hdriver⟩ := request_goes h hy hd hst rfl
    refine ⟨tr, w', s', _, hrun, by omega, hg, rfl, ?_⟩
    rw [(write_carried hroom a v).1] at hdriver
    simp [hdriver, Driver.goesOn, hst]
  | params p =>
    obtain ⟨tr, w', s', hrun, hlen, hg, hdriver⟩ := request_goes h hy hd hst rfl
    refine ⟨tr, w', s', _, hrun, by omega, hg, rfl, ?_⟩
    rw [(params_carried hroom p).1] at hdriver
    simp [hdriver, Driver.goesOn, hst]
  | poll =>
    obtain ⟨tr₁, w₁, s₁, y₁, hrun₁, hlen₁, hg₁, hy₁, hd₁, hready⟩ := robot_answers h hy hd hst
    obtain ⟨tr, w', s', hrun, hlen, hg, hdriver⟩ :=
      request_goes hg₁ hy₁ (hd₁.trans hd) hst rfl
    refine ⟨tr₁ ++ tr, w', s', _, hrun₁.append hrun, ?_, hg, rfl, ?_⟩
    · rw [List.length_append]
      omega
    · rw [(poll_carried hg₁.matched.room).1, ← hg₁.matched.mem, hready] at hdriver
      simp [hdriver, Driver.goesOn, hst]
  | fail =>
    cases c with
    | cmd cmd => exact absurd hd (h.not_cmd hy)
    | _ =>
      have hmem := List.mem_of_getElem? hst
      simp [Call.statements] at hmem

/-- The function comes to its return. -/
theorem function_returns (n : Nat) (h : Going w s y) (hy : y.stage = .idle)
    (hd : w.driver = .busy c k) (hn : c.statements.length ≤ k + n) :
    ∃ tr w', Run wired onward w (tr ++ [some [.ret c true]]) w' ∧ tr.length ≤ 572 * n := by
  induction n generalizing w s y k with
  | zero =>
    have hover : c.statements[k]? = none := List.getElem?_eq_none_iff.mpr hn
    have hM : wired w .returns = some (some [.ret c true], { w with driver := .idle }) := by
      simp [wired, hd, hover]
    exact ⟨[], _, .single (i := .returns) (by simp [onward]) hM, Nat.zero_le _⟩
  | succ n ih =>
    cases hst : c.statements[k]? with
    | none =>
      obtain ⟨tr, w', hrun, hlen⟩ := ih h hy hd (by
        have := List.getElem?_eq_none_iff.mp hst
        omega)
      exact ⟨tr, w', hrun, by omega⟩
    | some st =>
      obtain ⟨tr₁, w₁, s₁, y₁, hrun₁, hlen₁, hg₁, hy₁, hd₁⟩ := statement_goes h hy hd hst
      obtain ⟨tr, w', hrun, hlen⟩ := ih hg₁ hy₁ hd₁ (by omega)
      refine ⟨tr₁ ++ tr, w', ?_, ?_⟩
      · rw [List.append_assoc]
        exact hrun₁.append hrun
      · rw [List.length_append]
        omega

end

theorem length_statements (c : Call) : c.statements.length ≤ 7 := by
  cases c with
  | cmd c =>
    simp only [Call.statements]
    split <;> simp
  | _ => simp [Call.statements]

/-- From each state of a session over TCP the function that the PC is in can return true, in at
most 4526 steps and its return, whatever has happened before. It never is about to return
false. -/
theorem a_session_over_tcp_goes_on (t_id : Word) (st : Store)
    (hroom : 1040 < st.registers.length) (hzero : memOf st.registers = .zero)
    (tr : List (Option (List Event))) (w : Wired)
    (h : Run wired wiredSession ⟨.idle, .start modbus_tcp_backend t_id st.mapping, .atMain⟩ tr w) :
    (∀ c, w.driver ≠ .failing c) ∧ ∀ c k, w.driver = .busy c k →
      ∃ tr' w', Run wired onward w (tr' ++ [some [.ret c true]]) w' ∧ tr'.length ≤ 4526 := by
  obtain ⟨s, hs, y, hy⟩ := session_run hroom hzero h
  have hg : Going w s y := ⟨hy, _, hs⟩
  obtain ⟨tr₁, w₁, s₁, hrun₁, hlen₁, hg₁, hd₁⟩ := going_finishes hg
  constructor
  · intro c hd
    apply hg₁.not_failing rfl (c := c)
    rw [hd₁, hd]
    unfold Driver.told
    split <;> rfl
  · intro c k hd
    obtain ⟨k', hk'⟩ : ∃ k', w₁.driver = .busy c k' := by
      rcases told_cases c k y with hk | hk
      · rwa [hd₁, hd]
      · exact absurd (by rw [hd₁, hd, hk]) (hg₁.not_failing rfl (c := c))
    obtain ⟨tr', w', hrun, hlen⟩ := function_returns 7 hg₁ rfl hk' (by
      have := length_statements c
      omega)
    refine ⟨tr₁ ++ tr', w', ?_, ?_⟩
    · rw [List.append_assoc]
      exact hrun₁.append hrun
    · rw [List.length_append]
      omega

/-- The law in the middle of the first poll, with the robot still at its first line. -/
theorem a_first_poll_over_tcp_goes_on : ∃ w tr' w',
    w.driver = .busy (.move ⟨13, 29, NORMAL_MOVE⟩) 3 ∧ w.connection.call.isSome ∧
      w.robot.line = .main ∧ Run wired onward w
        (tr' ++ [some [.ret (.move ⟨13, 29, NORMAL_MOVE⟩) true]]) w' ∧ tr'.length ≤ 4526 := by
  have hrun : ∃ tr w, Run wired wiredSession ⟨.idle, .start modbus_tcp_backend 0
      (Store.mapping ⟨[], [], [], List.replicate 1041 0⟩), .atMain⟩ tr w ∧
      decide (w.driver = .busy (.move ⟨13, 29, NORMAL_MOVE⟩) 3 ∧ w.connection.call.isSome ∧
        w.robot.line = .main) = true :=
    exists_run_of_execWith (fun _ w => _) pollOverWire (by decide +kernel)
  obtain ⟨tr, w, h, hP⟩ := hrun
  obtain ⟨hd, hcall, hline⟩ := of_decide_eq_true hP
  have hroom : 1040 < (List.replicate 1041 (0 : Word)).length := by
    rw [List.length_replicate]
    decide
  obtain ⟨-, hall⟩ := a_session_over_tcp_goes_on 0 ⟨[], [], [], List.replicate 1041 0⟩ hroom
    (by decide +kernel) tr w h
  obtain ⟨tr', w', hrun, hlen⟩ := hall _ _ hd
  exact ⟨w, tr', w', hd, hcall, hline, hrun, hlen⟩

end robotchess
