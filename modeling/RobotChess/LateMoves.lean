-- What a time-out does to the driver. The functions that look at a result return false
-- from then on, until the PC connects again, whatever the server has carried out.
import RobotChess.Late
import RobotChess.Wired

open bytes framing runs

namespace robotchess

/-- A time-out comes only before the first byte of a message, at the PC and at the server. -/
def beforeMessages : Guard Wired WiredInput (Option (List Event)) := fun _ w i =>
  ∀ j, i = .line j → betweenMessages [] w.connection j

instance (tr : List (Option (List Event))) (w : Wired) (i : WiredInput) :
    Decidable (beforeMessages tr w i) :=
  match i with
  | .line i => decidable_of_iff (betweenMessages [] w.connection i) (by simp [beforeMessages])
  | .call _ | .issues | .connects _ | .returns | .robot => isTrue (by simp [beforeMessages])

/-- The time-outs since the PC connected. -/
def timeouts (tr : List (Option (List Event))) : Nat :=
  tr.foldl (fun n es => if es = some [.connected true] then 0 else
    n + if es = none then 1 else 0) 0

theorem timeouts_snoc (tr : List (Option (List Event))) (es : Option (List Event)) :
    timeouts (tr ++ [es]) = if es = some [.connected true] then 0 else
      timeouts tr + if es = none then 1 else 0 := by
  unfold timeouts
  rw [List.foldl_append]
  rfl

/-- The connection of the driver is behind by some responses. -/
structure Behind (n : Nat) (w : Wired) (x : Traffic) : Prop where
  carries : Carries tcpFramed (BitVec.ofInt 8 MODBUS_TCP_SLAVE) w.connection x
  order : InOrder n x

/-- A statement whose result is looked at. -/
def Statement.listens : Statement → Bool
  | .write _ _ => false
  | _ => true

/-- The driver is past no statement whose result is looked at. -/
def Unheard (d : Driver) : Prop :=
  ∀ c k, d = .busy c k → ∀ st ∈ c.statements.take k, st.listens = false

theorem unheard_goesOn {d : Driver} (h : Unheard d) : Unheard (d.goesOn none) := by
  cases d with
  | idle => exact h
  | failing c => exact h
  | busy c k =>
    cases hst : c.statements[k]? with
    | none =>
      simp only [Driver.goesOn, hst]
      rintro c k ⟨⟩
    | some st =>
      cases st with
      | write a w =>
        simp only [Driver.goesOn, hst]
        rintro c k ⟨⟩ st hmem
        rw [List.take_add_one, hst, List.mem_append] at hmem
        rcases hmem with hmem | hmem
        · exact h _ _ rfl st hmem
        · rw [Option.toList_some, List.mem_singleton] at hmem
          rw [hmem]
          rfl
      | _ =>
        simp only [Driver.goesOn, hst]
        rintro c k ⟨⟩

section
variable {w w' : Wired} {x : Traffic} {n : Nat} {es : Option (List Event)}

/-- One step of the connection, with what a call returns that comes late. -/
theorem behind_line (h : Behind n w x) {i : ConnectionInput} {e : Moment} {c : Connection}
    (hi : betweenMessages [] w.connection i)
    (hM : plcLine w.connection i = some (e, c)) (d : Driver) :
    (∃ y, Behind (n + if e.isFailed then 1 else 0) ⟨d, c, w.robot⟩ y) ∧
      ∀ res, e = .returned res → ¬ 65536 ∣ n → res = .error .EMBBADDATA := by
  rcases carries_step (Or.inl rfl) rfl h.carries hi hM with ⟨he, hc⟩ | ⟨-, k, y, hk, -, hc⟩
  · constructor
    · have hno : e.isFailed = false := by
        cases e <;> first | rfl | cases he
      rw [hno]
      exact ⟨x, hc, h.order⟩
    · rintro res rfl
      cases he
  · refine ⟨⟨y, hc, inOrder_step h.order hk⟩, ?_⟩
    rintro res rfl hn
    exact returned_late h.order hn hk

theorem behind_robot (h : Behind n w x) (r : Robot) (ready : REG16) :
    ∃ y, Behind n ⟨w.driver, showReady w.connection ready, r⟩ y := by
  have hc := h.carries
  let st : Store := { x.store with registers := x.store.registers.set 1040 ready }
  have hshow : (showReady w.connection ready).tables = st.mapping := by
    simp only [showReady, hc.tables]
    rfl
  exact ⟨{ x with store := st }, ⟨hc.t_id, hshow, hc.call, hc.waiting, hc.requests, hc.server,
    hc.client, hc.idle⟩, h.order.count, h.order.t_ids, h.order.last⟩

/-- What a step of a driver that is behind comes to. -/
def StaysUnheard (w : Wired) (es : Option (List Event)) (w' : Wired) : Prop :=
  Unheard w.driver → Unheard w'.driver ∧
    ∀ c, es = some [.ret c true] → ∀ st ∈ c.statements, st.listens = false

/-- A step that does not move the driver and shows no return. -/
theorem stays {o : List Event} (hd : w'.driver = w.driver) (ho : ∀ c, o ≠ [.ret c true]) :
    StaysUnheard w (some o) w' := by
  intro h
  rw [hd]
  exact ⟨h, fun c he => absurd (Option.some.inj he) (ho c)⟩

/-- A step that tells the driver of a failure. -/
theorem stays_failed {o : Option (List Event)} (hd : w'.driver = w.driver.goesOn none)
    (ho : ∀ c, o ≠ some [.ret c true]) : StaysUnheard w o w' := by
  intro h
  rw [hd]
  exact ⟨unheard_goesOn h, fun c he => absurd he (ho c)⟩

theorem behind_issues (h : Behind n w x) (hM : wired w .issues = some (es, w')) :
    (∃ y, Behind (n + if es = none then 1 else 0) w' y) ∧ StaysUnheard w es w' := by
  simp only [wired] at hM
  split at hM
  · cases hM
  · rename_i r hr
    obtain ⟨st, -, hreq⟩ := Option.bind_eq_some_iff.mp hr
    split at hM
    · cases hM
    · rename_i hline
      exact absurd (issued_called hreq hline) (by simp)
    · rename_i e c hne hline
      cases hM
      obtain rfl := issued_called hreq hline
      have hin := betweenMessages_of_patient (patient_calls [] w.connection r)
      exact ⟨(behind_line h hin hline w.driver).1, stays rfl (by simp)⟩

theorem behind_on_line (h : Behind n w x) {i : ConnectionInput}
    (hi : betweenMessages [] w.connection i)
    (hM : wired w (.line i) = some (es, w')) :
    (∃ y, Behind (n + if es = none then 1 else 0) w' y) ∧
      (¬ 65536 ∣ n → StaysUnheard w es w') := by
  have hshows : ∀ m c, (w.driver.statement.map (Statement.shows m)).getD [] ≠ [.ret c true] := by
    intro m c
    cases w.driver.statement with
    | none => simp
    | some st => cases st <;> simp [Statement.shows]
  cases hline : plcLine w.connection i with
  | none => cases i <;> simp [wired, hline] at hM
  | some p =>
    obtain ⟨e, c⟩ := p
    have hM' := wired_line hM
    rw [hline] at hM'
    obtain ⟨hb, hres⟩ := behind_line h hi hline w'.driver
    cases e with
    | replied =>
      cases hM'
      exact ⟨hb, fun _ => stays rfl (hshows _)⟩
    | returned res =>
      cases hM'
      refine ⟨hb, fun hn => stays_failed ?_ (by simp)⟩
      simp only [hres res rfl hn]
      rfl
    | failed code =>
      cases hM'
      exact ⟨hb, fun _ => stays_failed rfl (by simp)⟩
    | _ =>
      cases hM'
      exact ⟨hb, fun _ => stays rfl (by simp)⟩

theorem behind_returns (h : Behind n w x) (hM : wired w .returns = some (es, w')) :
    (∃ y, Behind (n + if es = none then 1 else 0) w' y) ∧ StaysUnheard w es w' := by
  have hidle : Unheard .idle := fun c k hd => nomatch hd
  simp only [wired] at hM
  split at hM
  · cases hM
  · cases hM
    exact ⟨⟨x, h.carries, h.order⟩, fun _ => ⟨hidle, by simp⟩⟩
  · rename_i c k hd
    split at hM
    · rename_i hst
      cases hM
      refine ⟨⟨x, h.carries, h.order⟩, fun hun => ⟨hidle, ?_⟩⟩
      intro c' he st hmem
      have hcc : c = c' := by simpa using he
      subst hcc
      apply hun c k hd st
      rwa [List.take_of_length_le (List.getElem?_eq_none_iff.mp hst)]
    · cases hM
      exact ⟨⟨x, h.carries, h.order⟩, fun _ => ⟨hidle, by simp⟩⟩
    · cases hM

theorem behind_step (h : Behind n w x) {tr : List (Option (List Event))} {i : WiredInput}
    (hi : beforeMessages tr w i) (hconn : es ≠ some [.connected true])
    (hM : wired w i = some (es, w')) :
    (∃ y, Behind (n + if es = none then 1 else 0) w' y) ∧
      (¬ 65536 ∣ n → StaysUnheard w es w') := by
  cases i with
  | call c =>
    simp only [wired] at hM
    split at hM
    · cases hM
      refine ⟨⟨x, h.carries, h.order⟩, fun _ _ => ⟨?_, by simp⟩⟩
      rintro c k ⟨⟩ st hmem
      cases hmem
    · cases hM
  | issues =>
    obtain ⟨hb, hs⟩ := behind_issues h hM
    exact ⟨hb, fun _ => hs⟩
  | line i => exact behind_on_line h (hi i rfl) hM
  | connects ok =>
    simp only [wired] at hM
    split at hM
    · split at hM
      · cases hM
        exact absurd rfl hconn
      · cases hM
        exact ⟨⟨x, h.carries, h.order⟩, fun _ => stays_failed rfl (by simp)⟩
    · cases hM
  | returns =>
    obtain ⟨hb, hs⟩ := behind_returns h hM
    exact ⟨hb, fun _ => hs⟩
  | robot =>
    simp only [wired] at hM
    obtain ⟨⟨e, r, m⟩, hr, he⟩ := Option.map_eq_some_iff.mp hM
    cases he
    refine ⟨behind_robot h r m.ready, fun _ => stays rfl ?_⟩
    rintro c ⟨⟩
    cases phase_event_onPlant (step_phase hr)

/-- Which inputs show a call, and a connection. -/
theorem wired_event {i : WiredInput} {e : Event} (hM : wired w i = some (some [e], w')) :
    (∀ c, e = .call c → i = .call c) ∧ (e = .connected true → i = .connects true) := by
  cases i with
  | call c =>
    simp only [wired] at hM
    split at hM <;> cases hM
    exact ⟨fun c' hc => by cases hc; rfl, by simp⟩
  | issues =>
    simp only [wired] at hM
    repeat' split at hM
    all_goals cases hM
  | line i =>
    have hshows : ∀ m, (w.driver.statement.map (Statement.shows m)).getD [] = [e] →
        (∀ c, e ≠ .call c) ∧ e ≠ .connected true := by
      intro m hm
      cases hst : w.driver.statement with
      | none =>
        rw [hst] at hm
        cases hm
      | some st =>
        rw [hst] at hm
        cases st <;> cases hm <;> exact ⟨by simp, by simp⟩
    have hM' := wired_line hM
    repeat' split at hM'
    · cases hM'
    · simp only [Option.some.injEq, Prod.mk.injEq] at hM'
      obtain ⟨hcall, hconn⟩ := hshows _ hM'.1
      exact ⟨fun c hc => absurd hc (hcall c), fun hc => absurd hc hconn⟩
    all_goals cases hM'
  | connects ok =>
    simp only [wired] at hM
    split at hM
    · split at hM <;> cases hM
      · rename_i hok
        exact ⟨by simp, fun _ => by rw [hok]⟩
      · exact ⟨by simp, by simp⟩
    · cases hM
  | returns =>
    simp only [wired] at hM
    repeat' split at hM
    all_goals cases hM
    all_goals exact ⟨by simp, by simp⟩
  | robot =>
    simp only [wired] at hM
    obtain ⟨⟨e, r, m⟩, hr, he⟩ := Option.map_eq_some_iff.mp hM
    cases he
    have hplant := phase_event_onPlant (step_phase hr)
    constructor
    · rintro c rfl
      cases hplant
    · rintro rfl
      cases hplant

/-- A call begins at its first statement. -/
theorem call_unheard {i : WiredInput} {c : Call} (hM : wired w i = some (some [.call c], w')) :
    Unheard w'.driver := by
  obtain rfl := (wired_event hM).1 c rfl
  simp only [wired] at hM
  split at hM
  · cases hM
    rintro c k ⟨⟩ st hmem
    cases hmem
  · cases hM

/-- A PC that connects again is not behind. -/
theorem behind_connected (h : Behind n w x) {i : WiredInput}
    (hM : wired w i = some (some [.connected true], w')) : ∃ y, Behind 0 w' y := by
  obtain rfl := (wired_event hM).2 rfl
  simp only [wired] at hM
  split at hM
  · cases hM
    rw [h.carries.tables]
    exact ⟨_, carries_start tcpFramed _ w.connection.t_id x.store, inOrder_start _ x.store⟩
  · cases hM

theorem count_snoc (tr : List (Option (List Event))) (es : Option (List Event)) :
    (tr ++ [es]).count none = tr.count none + if es = none then 1 else 0 := by
  rw [List.count_append, List.count_singleton]
  cases es <;> rfl

theorem behind_run {t_id : Word} {st : Store} {rob : Robot} {tr : List (Option (List Event))}
    (h : Run wired beforeMessages ⟨.idle, .start modbus_tcp_backend t_id st.mapping, rob⟩ tr w) :
    ∃ y, Behind (timeouts tr) w y := by
  apply h.invariant (fun tr w => ∃ y, Behind (timeouts tr) w y)
    ⟨_, carries_start tcpFramed _ t_id st, inOrder_start t_id st⟩
  rintro tr w i es w' ⟨y, hy⟩ hi hM
  rw [timeouts_snoc]
  by_cases hconn : es = some [.connected true]
  · rw [if_pos hconn]
    rw [hconn] at hM
    exact behind_connected hy hM
  · rw [if_neg hconn]
    exact (behind_step hy hi hconn hM).1

/-- From a call that begins late on. -/
theorem unheard_run {tr : List (Option (List Event))} {ok : Guard Wired WiredInput
      (Option (List Event))} (hok : ∀ tr w i, ok tr w i → beforeMessages tr w i)
    (h : Run wired ok w tr w') (hb : Behind n w x) (hun : Unheard w.driver) (hn : 0 < n)
    (hlt : n + tr.count none < 65536) (hconn : some [.connected true] ∉ tr) :
    (∃ y, Behind (n + tr.count none) w' y) ∧ Unheard w'.driver := by
  apply h.invariant (fun tr w' => n + tr.count none < 65536 → some [.connected true] ∉ tr →
    (∃ y, Behind (n + tr.count none) w' y) ∧ Unheard w'.driver) (fun _ _ => ⟨⟨x, hb⟩, hun⟩)
    _ hlt hconn
  intro tr w i es w' hI hi hM hlt hconn
  rw [List.mem_append, not_or, List.mem_singleton] at hconn
  rw [count_snoc] at hlt ⊢
  obtain ⟨⟨y, hy⟩, hun⟩ := hI (by omega) hconn.1
  obtain ⟨hb, hs⟩ := behind_step hy (hok _ _ _ hi) (Ne.symm hconn.2) hM
  rw [← Nat.add_assoc]
  exact ⟨hb, (hs (by omega) hun).1⟩

end

theorem statements_listen {c : Call} (hc : c ≠ .clear) :
    ∃ st ∈ c.statements, st.listens = true := by
  cases c with
  | connect => exact ⟨.connect, by simp [Call.statements], rfl⟩
  | clear => exact absurd rfl hc
  | move m =>
    refine ⟨.params m.words, ?_, rfl⟩
    simp [Call.statements, regTemp_eq]
  | cmd c =>
    simp only [Call.statements]
    split
    · exact ⟨_, List.mem_singleton.mpr rfl, rfl⟩
    · exact ⟨_, List.mem_singleton.mpr rfl, rfl⟩

/-- When time-outs come only before the first byte of a message: a driver function that is entered
after a time-out returns false, until the PC connects again or 65536 time-outs have come together.
`modbusClearCommand` returns nothing and looks at no result. -/
theorem after_a_time_out_every_function_fails (t_id : Word) (st : Store) (rob : Robot)
    (tr : List (Option (List Event))) (w : Wired)
    (h : Run wired beforeMessages ⟨.idle, .start modbus_tcp_backend t_id st.mapping, rob⟩ tr w)
    (pre mid post : List (Option (List Event))) (c : Call) (b : Bool)
    (htr : tr = pre ++ some [.call c] :: (mid ++ some [.ret c b] :: post))
    (hlate : 0 < timeouts pre) (hconn : some [.connected true] ∉ mid)
    (hlt : timeouts pre + mid.count none < 65536) (hc : c ≠ .clear) : b = false := by
  subst htr
  obtain ⟨u, v, i, hpre, hi, hM, hrest⟩ := h.at_event
  obtain ⟨p, q, j, hmid, hj, hN, -⟩ := hrest.at_event
  obtain ⟨y, hy⟩ := behind_run hpre
  obtain ⟨⟨z, hz⟩, -⟩ := behind_step hy hi (by simp) hM
  rw [if_neg (by simp), Nat.add_zero] at hz
  obtain ⟨⟨y', hy'⟩, hun⟩ := unheard_run (fun _ _ _ hok => hok) hmid hz (call_unheard hM) hlate
    hlt hconn
  obtain ⟨-, hs⟩ := behind_step hy' hj (by simp) hN
  cases b with
  | false => rfl
  | true =>
    obtain ⟨st, hst, hlistens⟩ := statements_listen hc
    have := (hs (by omega) hun).2 c rfl st hst
    rw [hlistens] at this
    cases this

/-- The PC connects, and all writes of `robot_connect` time out, which it does not look at. Then the
exit command gets the response to the first of them. -/
theorem an_exit_after_a_time_out_fails : ∃ (pre mid : List (Option (List Event))) (w : Wired)
    (b : Bool), Run wired beforeMessages ⟨.idle, .start modbus_tcp_backend 0
        (Store.mapping ⟨[], [], [], List.replicate 1041 0⟩), .atMain⟩
      (pre ++ some [.call (.cmd .CMD_EXIT)] :: (mid ++ [some [.ret (.cmd .CMD_EXIT) b]])) w ∧
    some [.connected true] ∈ pre ∧ some [.ret .connect true] ∈ pre ∧ b = false := by
  have hrun : ∃ tr w, Run wired beforeMessages ⟨.idle, .start modbus_tcp_backend 0
        (Store.mapping ⟨[], [], [], List.replicate 1041 0⟩), .atMain⟩ tr w ∧
      decide (tr = ([some [.call .connect], some [.connected true]] ++
            (List.replicate 6 [some [], none]).flatten ++ [some [.ret .connect true]]) ++
          some [.call (.cmd .CMD_EXIT)] :: ([some [], some [], some [],
            some [.write .ADDR_CMD_EXIT 0x3333], some [], some [], some []] ++
              [some [.ret (.cmd .CMD_EXIT) false]])) = true :=
    exists_run_of_execWith (fun tr _ => _)
      ([.call .connect, .connects true] ++
        (List.replicate 6 [.issues, .line (.fails 110)]).flatten ++ [.returns,
        .call (.cmd .CMD_EXIT), .issues, .line (.serverReads 9), .line (.serverReads 9),
        .line (.replies fun _ => 0), .line (.clientReads 9), .line (.clientReads 9),
        .line .returns, .returns])
      (by decide +kernel)
  obtain ⟨tr, w, h, hP⟩ := hrun
  have htr := of_decide_eq_true hP
  have hfalse := after_a_time_out_every_function_fails 0 ⟨[], [], [], List.replicate 1041 0⟩
    .atMain tr w h _ _ _ (.cmd .CMD_EXIT) _ htr (by decide) (by decide) (by decide) (by decide)
  exact ⟨_, _, w, _, htr ▸ h, by decide, by decide, hfalse⟩

end robotchess
