-- Which failures a driver call reports. `robot_sendCmd` tests the result of its
-- write and `robot_sendMove` two of its results. The results of the other writes
-- are dropped, so a call can return true with registers that it never wrote.
import RobotChess.PcAlone

open runs

namespace robotchess

/-! ## What a call reports -/

/-- The rest of one call, where a failed write leaves its register as it was. -/
def failingWrites : Guard Pc PcInput Event
  | _, _, .call _ => False
  | _, _, .op o _ => o ≠ .failed true

instance (tr : List Event) (s : Pc) : (i : PcInput) → Decidable (failingWrites tr s i)
  | .call _ => .isFalse id
  | .op o _ => inferInstanceAs (Decidable (o ≠ .failed true))

/-- A Modbus operation that failed. -/
def Event.Failed : Event → Prop
  | .connected ok => ok = false
  | .lost _ _ => True
  | .answer w => w = none
  | _ => False

/-- What the registers hold when a call has done what it is for. -/
def Delivered (m : Mem) : Call → Prop
  | .connect => ∀ a, m.reg a = 0
  | .clear => m.cmd1 = CMD.word .CMD_CLR_READY ∧ m.cmd2 = 0
  | .move mv => (m.cmd1 = CMD.word .CMD_CLR_READY ∧ m.cmd2 = 0) ∧ m.params = mv.words
  | .cmd c => ∀ a, robot_sendCmd c = some a → m.reg a = c.word

/-- A call with events `tr` that is now in state `t` returns true only with its words delivered,
and returns false as soon as an operation has failed. -/
structure Reports (c : Call) (tr : List Event) (t : Pc) : Prop where
  delivered : ∀ tr₁, tr = tr₁ ++ [.ret c true] → Delivered t.mem c
  fails : ∀ tr₁ e tr₂, tr = tr₁ ++ e :: tr₂ → e.Failed →
    (tr₂ = [] ∧ t.driver = .failing c) ∨ tr₂ = [.ret c false]

/-! ## The condition -/

/-- The registers whose writes have their result dropped. -/
def Call.Drops : Call → MEMADDR → Prop
  | .connect, _ => True
  | .clear, _ => True
  | .move _, a => a = .ADDR_CMD_1 ∨ a = .ADDR_CMD_2
  | .cmd _, _ => False

/-- Each write that failed had its result tested. -/
def Tested (c : Call) (tr : List Event) : Prop := ∀ a w, .lost a w ∈ tr → ¬ c.Drops a

theorem Tested.of_snoc {c : Call} {tr : List Event} {e : Event} (h : Tested c (tr ++ [e])) :
    Tested c tr :=
  fun a w hl => h a w (List.mem_append_left _ hl)

/-- With the condition, a write whose result is dropped has not failed. -/
theorem Tested.ok {c : Call} {tr : List Event} {o : Outcome} {a : MEMADDR} {w : REG16}
    (h : Tested c (tr ++ [writeEvent o a w])) (ho : o ≠ .failed true) (ha : c.Drops a) :
    o = .ok := by
  match o with
  | .ok => rfl
  | .failed true => exact absurd rfl ho
  | .failed false =>
    exact absurd ha (h a w (List.mem_append_right _ (List.mem_singleton.mpr rfl)))

/-! ## The words that are delivered so far -/

/-- What the writes before operation `k` have left, when none of them failed. -/
def Sent (k : Nat) (m : Mem) : Call → Prop
  | .connect => ∀ j a, zeroAddr j = some a → j < k → m.reg a = 0
  | .clear => Cleared m k
  | .move mv => Written mv.words k m ∧ Cleared m (k - 6)
  | .cmd c => ∀ a, robot_sendCmd c = some a → 1 ≤ k → m.reg a = c.word

theorem sent_start (c : Call) (m : Mem) : Sent 0 m c := by
  match c with
  | .connect => exact fun _ _ _ hj => absurd hj (Nat.not_lt_zero _)
  | .clear => exact ⟨by omega, by omega⟩
  | .move mv => exact ⟨⟨by omega, by omega, by omega⟩, by omega, by omega⟩
  | .cmd c => exact fun _ _ h1 => absurd h1 (by omega)

/-- The write number `k` of `robot_connect`. -/
theorem sent_zero {k : Nat} {m : Mem} {a : MEMADDR} (hI : Sent k m .connect)
    (hk : zeroAddr k = some a) : Sent (k + 1) (m.write a 0) .connect := by
  intro j b hj hlt
  by_cases hb : b = a
  · rw [hb]
    exact reg_write_self m a 0
  · rw [reg_write_other m 0 hb]
    have hjk : j ≠ k := by
      rintro rfl
      rw [hk] at hj
      exact hb (Option.some.inj hj).symm
    exact hI j b hj (by omega)

theorem sent_op {c : Call} {j k : Nat} {m : Mem} {ans : REG16} {e : Event} (hI : Sent j m c)
    (h : Driver.Step .ok ans (.busy c j) e (.busy c k)) : Sent k (m.after e) c := by
  match c with
  | .connect =>
    cases h
    case connected =>
      intro i a hi hlt
      obtain rfl : i = 0 := by omega
      cases hi
    case zero hk => exact sent_zero hI hk
    all_goals
      rename_i ht
      simp [TailAt] at ht
  | .clear =>
    have ht : TailAt .clear 0 := Or.inl ⟨rfl, rfl⟩
    exact cleared_pc ht (by rintro i ⟨⟩; exact hI) h
  | .move mv =>
    refine ⟨written_pc ?_ h, cleared_pc (tailAt_move.mpr rfl) ?_ h⟩
    · rintro i ⟨⟩
      exact hI.1
    · rintro i ⟨⟩
      exact hI.2
  | .cmd w =>
    cases h
    case cmd a _ ha =>
      intro b hb _
      obtain rfl : a = b := Option.some.inj (ha.symm.trans hb)
      exact reg_write_self m a w.word
    all_goals
      rename_i ht
      simp [TailAt] at ht

/-- A call that has run all its operations has delivered its words. -/
theorem delivered_of_sent {c : Call} {k : Nat} {m : Mem} (hI : Sent k m c)
    (hk : c.body.length ≤ k) : Delivered m c := by
  match c with
  | .connect =>
    have h7 : 7 ≤ k := hk
    have hall : ∀ a, ∃ j, zeroAddr j = some a ∧ j ≤ 6 := by
      intro a
      cases a
      · exact ⟨1, rfl, by omega⟩
      · exact ⟨2, rfl, by omega⟩
      · exact ⟨3, rfl, by omega⟩
      · exact ⟨4, rfl, by omega⟩
      · exact ⟨5, rfl, by omega⟩
      · exact ⟨6, rfl, by omega⟩
    intro a
    obtain ⟨j, hj, hle⟩ := hall a
    exact hI j a hj (by omega)
  | .clear =>
    have h3 : 3 ≤ k := by simpa [Call.body, modbusClearCommand_eq] using hk
    exact ⟨hI.2 h3, hI.1 (by omega)⟩
  | .move mv =>
    have h9 : 9 ≤ k := by simpa [Call.body, robot_sendMove_eq] using hk
    exact ⟨⟨hI.2.2 (by omega), hI.2.1 (by omega)⟩, hI.1.params (by omega)⟩
  | .cmd w =>
    intro a ha
    have h1 : 1 ≤ k := by simpa [Call.body, sendCmdOr, ha] using hk
    exact hI a ha h1

/-! ## With every result tested -/

/-- No operation has failed. -/
def NoneFailed (tr : List Event) : Prop := ∀ e ∈ tr, ¬ e.Failed

theorem NoneFailed.snoc {tr : List Event} {e : Event} (h : NoneFailed tr) (he : ¬ e.Failed) :
    NoneFailed (tr ++ [e]) := by
  intro e' hm
  rcases List.mem_append.mp hm with hm | hm
  · exact h e' hm
  · rw [List.mem_singleton.mp hm]
    exact he

/-- A failed event after events that did not fail is the last one. -/
theorem NoneFailed.last {tr tr₁ tr₂ : List Event} {e x : Event} (h : NoneFailed tr)
    (he : e.Failed) (hl : tr ++ [x] = tr₁ ++ e :: tr₂) : tr₂ = [] ∧ e = x := by
  rcases List.eq_nil_or_concat tr₂ with rfl | ⟨l, y, rfl⟩
  · obtain ⟨-, hx⟩ := List.append_inj' hl rfl
    exact ⟨rfl, (List.cons.inj hx).1.symm⟩
  · rw [List.concat_eq_append, ← List.cons_append, ← List.append_assoc] at hl
    obtain ⟨rfl, -⟩ := List.append_inj' hl rfl
    exact absurd he (h e (by simp))

/-- The call with its results tested: it goes on with no failure, or its last operation failed and
it returns false. -/
inductive Honest (c : Call) : List Event → Driver → Mem → Prop
  | going {tr : List Event} {k : Nat} {m : Mem} : NoneFailed tr → Sent k m c →
      Honest c tr (.busy c k) m
  | failing {tr : List Event} {e : Event} {m : Mem} : NoneFailed tr →
      Honest c (tr ++ [e]) (.failing c) m
  | failed {tr : List Event} {e : Event} {m : Mem} : NoneFailed tr →
      Honest c (tr ++ [e] ++ [.ret c false]) .idle m
  | returned {tr : List Event} {b : Bool} {m : Mem} : NoneFailed tr →
      Honest c (tr ++ [.ret c b]) .idle m

theorem write_not_failed {o : Outcome} {a : MEMADDR} {w : REG16} (h : o = .ok) :
    ¬ (writeEvent o a w).Failed := by
  rw [h]
  exact id

theorem drops_tail {c : Call} {k : Nat} (h : TailAt c k) :
    c.Drops .ADDR_CMD_1 ∧ c.Drops .ADDR_CMD_2 := by
  rcases h with ⟨rfl, -⟩ | ⟨mv, rfl, -⟩
  · exact ⟨trivial, trivial⟩
  · exact ⟨Or.inl rfl, Or.inr rfl⟩

theorem honest_op {c : Call} {tr : List Event} {m : Mem} {d d' : Driver} {o : Outcome}
    {ans : REG16} {e : Event} (hI : Honest c tr d m) (ho : o ≠ .failed true)
    (ht : Tested c (tr ++ [e])) (h : Driver.Step o ans d e d') :
    Honest c (tr ++ [e]) d' (m.after e) := by
  cases hI with
  | failing hn =>
    cases h
    exact .failed hn
  | failed => exact absurd h Driver.Step.from_idle
  | returned => exact absurd h Driver.Step.from_idle
  | going hn hs =>
    have hgo : ∀ k, d' = .busy c k → o = .ok → ¬ e.Failed →
        Honest c (tr ++ [e]) d' (m.after e) := by
      rintro k rfl rfl he
      exact .going (hn.snoc he) (sent_op hs h)
    -- a write whose result is dropped
    have hdrop : ∀ a w k, e = writeEvent o a w → c.Drops a → d' = .busy c k →
        Honest c (tr ++ [e]) d' (m.after e) := by
      rintro a w k rfl ha hd
      have hok := ht.ok ho ha
      exact hgo k hd hok (write_not_failed hok)
    cases h
    case refused => exact .failing hn
    case wordFailed => exact .failing hn
    case noAnswer => exact .failing hn
    case cmdFailed => exact .failing hn
    case invalid => exact .returned hn
    case returned => exact .returned hn
    case connected hok => exact hgo _ rfl hok (by simp [Event.Failed])
    case word hok _ => exact hgo _ rfl hok id
    case answered hok _ => exact hgo _ rfl hok (by simp [Event.Failed])
    case notYet hok _ => exact hgo _ rfl hok (by simp [Event.Failed])
    case cmd hok => exact hgo _ rfl hok id
    case zero => exact hdrop _ _ _ rfl trivial rfl
    case allow1 => exact hdrop _ _ _ rfl (Or.inl rfl) rfl
    case allow2 => exact hdrop _ _ _ rfl (Or.inr rfl) rfl
    case clear1 hb => exact hdrop _ _ _ rfl (drops_tail hb).1 rfl
    case clear2 hb => exact hdrop _ _ _ rfl (drops_tail hb).2 rfl
    case clrReady hb => exact hdrop _ _ _ rfl (drops_tail hb).1 rfl

theorem honest_run {c : Call} {m : Mem} {t : Pc} {tr : List Event}
    (h : Run pc failingWrites ⟨.busy c 0, m⟩ tr t) (ht : Tested c tr) :
    Honest c tr t.driver t.mem := by
  have key : Tested c tr → Honest c tr t.driver t.mem := by
    apply pc_invariant (fun tr d m => Tested c tr → Honest c tr d m) h
    · intro _
      exact .going (fun e he => by cases he) (sent_start c m)
    · exact fun _ _ _ _ hok => hok.elim
    · intro tr d m o ans e d' hI hok hd ht
      exact honest_op (hI ht.of_snoc) hok ht hd
  exact key ht

/-- A call whose failures are all tested reports them. -/
theorem reports_of_tested {c : Call} {m : Mem} {t : Pc} {tr : List Event}
    (h : Run pc failingWrites ⟨.busy c 0, m⟩ tr t) (ht : Tested c tr) : Reports c tr t := by
  refine ⟨?_, ?_⟩
  · rintro tr₁ rfl
    obtain ⟨u, i, hu, hok, hM⟩ := h.last
    have hI := honest_run hu ht.of_snoc
    obtain ⟨o, ans, d, hd, rfl⟩ := pc_driver hM rfl
    obtain ⟨k, hk, hl⟩ := ret_true hd
    rw [hk] at hI
    cases hI with
    | going _ hs => exact delivered_of_sent hs hl
  · intro tr₁ e tr₂ hl he
    have hI := honest_run h ht
    generalize t.driver = d at hI
    cases hI with
    | going hn _ => exact absurd he (hn e (by simp [hl]))
    | failing hn => exact Or.inl ⟨(hn.last he hl).1, rfl⟩
    | returned hn =>
      obtain ⟨-, rfl⟩ := hn.last he hl
      exact he.elim
    | failed hn =>
      rcases List.eq_nil_or_concat tr₂ with rfl | ⟨l, y, rfl⟩
      · obtain ⟨-, hx⟩ := List.append_inj' hl rfl
        obtain rfl := (List.cons.inj hx).1
        exact he.elim
      · rw [List.concat_eq_append, ← List.cons_append, ← List.append_assoc] at hl
        obtain ⟨hl', hx⟩ := List.append_inj' hl rfl
        obtain ⟨rfl, -⟩ := hn.last he hl'
        obtain rfl := (List.cons.inj hx).1
        exact Or.inr rfl

/-! ## With a result dropped -/

/-- The call stays the one that it began with. -/
theorem same_call_run {c : Call} {m : Mem} {t : Pc} {tr : List Event}
    (h : Run pc failingWrites ⟨.busy c 0, m⟩ tr t) : ∀ c' k, t.driver = .busy c' k → c' = c := by
  apply pc_invariant (fun _ d _ => ∀ c' k, d = .busy c' k → c' = c) h
  · rintro c' k ⟨⟩
    rfl
  · exact fun _ _ _ _ hok => hok.elim
  · intro tr d m o ans e d' hI _ hd c' k hk
    obtain ⟨j, hj⟩ := hd.same_call hk
    exact hI c' j hj

theorem lost_write {o : Outcome} {a b : MEMADDR} {v w : REG16}
    (h : Event.lost a v = writeEvent o b w) : a = b := by
  unfold writeEvent at h
  split at h <;> cases h
  rfl

/-- After a failed write whose result is dropped the call goes on. -/
theorem lost_goes_on {o : Outcome} {ans : REG16} {d d' : Driver} {a : MEMADDR} {w : REG16}
    (h : Driver.Step o ans d (.lost a w) d') :
    ∃ c j, d = .busy c j ∧ (c.Drops a → ∃ k, d' = .busy c k) := by
  generalize he : Event.lost a w = e at h
  cases h
  case wordFailed hk _ =>
    obtain rfl := lost_write he
    refine ⟨_, _, rfl, fun hd => ?_⟩
    unfold wordAt at hk
    split at hk <;> cases hk <;> rcases hd with hd | hd <;> cases hd
  case cmdFailed => exact ⟨_, _, rfl, fun hd => hd.elim⟩
  all_goals first
    | cases he
    | exact ⟨_, _, rfl, fun _ => ⟨_, rfl⟩⟩

/-- A call that reports its failures had no failed write with its result dropped. -/
theorem tested_of_reports {c : Call} {m : Mem} {t : Pc} {tr : List Event}
    (h : Run pc failingWrites ⟨.busy c 0, m⟩ tr t) (hr : Reports c tr t) : Tested c tr := by
  intro a w hl hd
  obtain ⟨tr₁, tr₂, rfl⟩ := List.append_of_mem hl
  obtain ⟨u, v, i, hu, -, hM, hrest⟩ := h.at_event
  have hon : ∃ k, v.driver = .busy c k := by
    obtain ⟨o, ans, d, hstep, rfl⟩ := pc_driver hM rfl
    obtain ⟨c', j, hj, hgo⟩ := lost_goes_on hstep
    obtain rfl := same_call_run hu c' j hj
    exact hgo hd
  obtain ⟨k, hk⟩ := hon
  rcases hr.fails tr₁ _ tr₂ rfl trivial with ⟨rfl, hf⟩ | rfl
  · rw [hrest.of_nil, hk] at hf
    cases hf
  · obtain ⟨v', i', -, hM', -⟩ := hrest.first
    obtain ⟨o, ans, d', hstep, -⟩ := pc_driver hM' rfl
    rcases ret_false hstep with hf | ⟨w', rfl⟩
    · rw [hk] at hf
      cases hf
    · exact hd.elim

/-! ## The law -/

/-- A call reports its failures if and only if each of its failed writes had its result tested. -/
theorem a_call_reports_iff_tested (c : Call) (m : Mem) (t : Pc) (tr : List Event)
    (h : Run pc failingWrites ⟨.busy c 0, m⟩ tr t) : Reports c tr t ↔ Tested c tr :=
  ⟨tested_of_reports h, reports_of_tested h⟩

/-- The law at a move whose parameter write fails. -/
theorem a_failed_parameter_write_is_reported :
    ∃ tr t, Run pc failingWrites ⟨.busy (.move ⟨13, 29, NORMAL_MOVE⟩) 0, .zero⟩ tr t ∧
      .lost .ADDR_MOVEDEST 29 ∈ tr ∧ Reports (.move ⟨13, 29, NORMAL_MOVE⟩) tr t := by
  have hrun : ∃ tr t, Run pc failingWrites ⟨.busy (.move ⟨13, 29, NORMAL_MOVE⟩) 0, .zero⟩ tr t ∧
      decide (tr = [.write .ADDR_CMD_1 allowMoveCmd1, .write .ADDR_MOVESOURCE 13,
        .lost .ADDR_MOVEDEST 29, .ret (.move ⟨13, 29, NORMAL_MOVE⟩) false]) = true :=
    exists_run_of_execWith (fun tr _ => _)
      (okSteps 2 0 ++ [PcInput.op (.failed false) 0, .op .ok 0]) (by decide +kernel)
  obtain ⟨tr, t, h, hP⟩ := hrun
  obtain rfl := of_decide_eq_true hP
  refine ⟨_, t, h, by simp, (a_call_reports_iff_tested _ _ _ _ h).2 ?_⟩
  intro a w hl
  simp only [List.mem_cons, List.not_mem_nil, or_false, reduceCtorEq, false_or,
    Event.lost.injEq] at hl
  obtain ⟨rfl, -⟩ := hl
  simp [Call.Drops]

/-- `robot_connect` returns true although its first write failed, with ALLOW_MOVE_1 still in 540.
And `robot_sendMove` polls for the answer to an ALLOW_MOVE_1 that was never delivered. -/
theorem a_dropped_result_hides_a_failed_write :
    (∃ tr t, Run pc failingWrites ⟨.busy .connect 0, Mem.zero.write .ADDR_CMD_1 allowMoveCmd1⟩
      tr t ∧ tr.getLast? = some (.ret .connect true) ∧ t.mem.reg .ADDR_CMD_1 ≠ 0) ∧
    ∃ tr t, Run pc failingWrites ⟨.busy (.move ⟨13, 29, NORMAL_MOVE⟩) 0, .zero⟩ tr t ∧
      .lost .ADDR_CMD_1 allowMoveCmd1 ∈ tr ∧ tr.getLast? = some (.answer (some 0)) := by
  constructor
  · have hrun : ∃ tr t, Run pc failingWrites
        ⟨.busy .connect 0, Mem.zero.write .ADDR_CMD_1 allowMoveCmd1⟩ tr t ∧
        decide (tr.getLast? = some (.ret .connect true) ∧ t.mem.reg .ADDR_CMD_1 ≠ 0) = true :=
      exists_run_of_execWith (fun tr t => _)
        (.op .ok 0 :: .op (.failed false) 0 :: okSteps 6 0) (by decide +kernel)
    obtain ⟨tr, t, h, hP⟩ := hrun
    exact ⟨tr, t, h, of_decide_eq_true hP⟩
  · have hrun : ∃ tr t, Run pc failingWrites ⟨.busy (.move ⟨13, 29, NORMAL_MOVE⟩) 0, .zero⟩ tr t ∧
        decide (.lost .ADDR_CMD_1 allowMoveCmd1 ∈ tr ∧
          tr.getLast? = some (.answer (some 0))) = true :=
      exists_run_of_execWith (fun tr _ => _) (.op (.failed false) 0 :: okSteps 5 0)
        (by decide +kernel)
    obtain ⟨tr, t, h, hP⟩ := hrun
    exact ⟨tr, t, h, of_decide_eq_true hP⟩

end robotchess
