-- Time-outs. A response that comes after its call has given up stays on the stream, and
-- the next call gets it. Over TCP that call tells it by its transaction and fails, and
-- so does every later one. On a serial line it takes the late response for its own. All
-- this is for time-outs before the first byte of a message: one inside a message leaves
-- its other bytes on the stream, and the next reader takes them for a new message.
import RobotChess.Connection

open bytes framing runs

namespace robotchess

/-! ## The order of the messages -/

/-- The requests whose responses have not been taken, oldest first. -/
def Traffic.queue (x : Traffic) : List Ask := x.responses.map Told.ask ++ x.requests

def Moment.isFailed : Moment → Bool
  | .failed _ => true
  | _ => false

/-- The calls that gave up. -/
def lost (tr : List Moment) : Nat := tr.countP Moment.isFailed

theorem lost_snoc (tr : List Moment) (e : Moment) :
    lost (tr ++ [e]) = lost tr + if e.isFailed then 1 else 0 := by
  rw [lost, List.countP_append, List.countP_singleton]
  rfl

theorem lost_seen (tr : List Moment) : lost (tr.flatMap Moment.seen) = lost tr := by
  induction tr with
  | nil => rfl
  | cons e tr ih =>
    unfold lost at ih ⊢
    rw [List.flatMap_cons, List.countP_append, List.countP_cons, ih, Nat.add_comm]
    cases e <;> rfl

/-- For each call that gave up there is a request too many, and the transactions are counted up. -/
structure InOrder (n : Nat) (x : Traffic) : Prop where
  count : x.queue.length = n + if x.waiting.isSome then 1 else 0
  t_ids : ∀ i a, x.queue[i]? = some a → a.t_id + BitVec.ofNat 16 (x.queue.length - 1 - i) = x.t_id
  last : ∀ a, x.waiting = some a → x.queue.getLast? = some a

section
variable {B : modbus_backend_t} {L : Framed B} {slave : Byte} {x x' : Traffic} {n : Nat}

theorem inOrder_calls (h : InOrder n x) {r : Request} {e : Moment}
    (hM : traffic L slave x (.calls r) = some (e, x')) : e = .called r ∧ InOrder n x' := by
  simp only [traffic] at hM
  split at hM
  · rename_i hr
    have hidle : x.waiting = none := by simpa using hr.1
    cases hM
    have hcount := h.count
    rw [hidle] at hcount
    have hq : ∀ a, ({ x with
        t_id := next_t_id x.t_id
        waiting := some a
        requests := x.requests ++ [a] } : Traffic).queue = x.queue ++ [a] := by
      intro a
      simp [Traffic.queue]
    refine ⟨rfl, ?_, ?_, ?_⟩
    · rw [hq, List.length_append, hcount]
      rfl
    · intro i a ha
      rw [hq] at ha
      rw [hq, List.length_append, List.length_singleton, Nat.add_sub_cancel]
      rcases at_of_snoc ha with ha | ⟨rfl, rfl⟩
      · have hi := lt_of_at ha
        have ht := h.t_ids i a ha
        rw [show x.queue.length - i = x.queue.length - 1 - i + 1 by omega, BitVec.ofNat_add,
          ← BitVec.add_assoc, ht]
        rfl
      · simp
    · rintro a ⟨⟩
      rw [hq, List.getLast?_concat]
  · cases hM

theorem inOrder_replies (h : InOrder n x) {e : Moment}
    (hM : traffic L slave x .replies = some (e, x')) : e = .replied ∧ InOrder n x' := by
  cases hreq : x.requests with
  | nil =>
    simp only [traffic, hreq] at hM
    cases hM
  | cons a as =>
    rw [traffic_replies hreq] at hM
    cases hM
    have hq : ({ x with
        store := a.request.op.carry x.store
        requests := as
        responses := x.responses ++ [⟨a, x.store⟩] } : Traffic).queue = x.queue := by
      simp [Traffic.queue, hreq]
    exact ⟨rfl, by rw [hq]; exact h.count, by rw [hq]; exact h.t_ids, by rw [hq]; exact h.last⟩

/-- What a call returns, and for which request the response was. -/
theorem inOrder_returns (h : InOrder n x) {e : Moment}
    (hM : traffic L slave x .returns = some (e, x')) : ∃ a p, x.waiting = some a ∧
      e = .returned (a.hears L slave p) ∧ p ∈ x.responses ∧
      p.ask.t_id + BitVec.ofNat 16 n = a.t_id ∧ InOrder n x' := by
  cases hw : x.waiting with
  | none =>
    simp only [traffic, hw] at hM
    cases hM
  | some a =>
    cases hrsp : x.responses with
    | nil =>
      simp only [traffic, hw, hrsp] at hM
      cases hM
    | cons p ps =>
      rw [traffic_returns hw hrsp] at hM
      cases hM
      have hq : x.queue =
          p.ask :: ({ x with waiting := none, responses := ps } : Traffic).queue := by
        simp [Traffic.queue, hrsp]
      have hcount := h.count
      have hlast := h.last a hw
      rw [hw] at hcount
      have hfirst := h.t_ids 0 p.ask (by rw [hq]; rfl)
      have ha := h.t_ids (x.queue.length - 1) a (by rw [← List.getLast?_eq_getElem?, hlast])
      rw [Nat.sub_self] at ha
      rw [Nat.sub_zero, hcount, ← ha] at hfirst
      refine ⟨a, p, rfl, rfl, List.mem_cons_self .., by simpa using hfirst, ?_, ?_,
        fun _ h0 => by cases h0⟩
      · rw [hq, List.length_cons] at hcount
        simp at hcount ⊢
        exact hcount
      · intro i b hb
        have := h.t_ids (i + 1) b (by rw [hq]; exact hb)
        rwa [hq, List.length_cons, Nat.add_sub_cancel, Nat.add_comm i 1, ← Nat.sub_sub] at this

theorem inOrder_fails (h : InOrder n x) {code : Nat} {e : Moment}
    (hM : traffic L slave x (.fails code) = some (e, x')) :
    e = .failed code ∧ InOrder (n + 1) x' := by
  cases hw : x.waiting with
  | none =>
    simp only [traffic, hw] at hM
    cases hM
  | some a =>
    rw [traffic_fails hw] at hM
    cases hM
    have hcount := h.count
    rw [hw] at hcount
    exact ⟨rfl, hcount, h.t_ids, fun _ h0 => by cases h0⟩

theorem inOrder_step (h : InOrder n x) {k : TrafficInput} {e : Moment}
    (hM : traffic L slave x k = some (e, x')) :
    InOrder (n + if e.isFailed then 1 else 0) x' := by
  cases k with
  | calls r =>
    obtain ⟨rfl, h'⟩ := inOrder_calls h hM
    exact h'
  | replies =>
    obtain ⟨rfl, h'⟩ := inOrder_replies h hM
    exact h'
  | returns =>
    obtain ⟨a, p, -, rfl, -, -, h'⟩ := inOrder_returns h hM
    exact h'
  | fails code =>
    obtain ⟨rfl, h'⟩ := inOrder_fails h hM
    exact h'
  | sets s =>
    simp only [traffic] at hM
    cases hM
    exact ⟨h.count, h.t_ids, h.last⟩

theorem inOrder_start (t_id : Word) (s : Store) : InOrder 0 (.start t_id s) :=
  ⟨rfl, fun i a h => by simp [Traffic.queue, Traffic.start] at h, fun _ h => by cases h⟩

theorem inOrder_run {t_id : Word} {s : Store} {tr : List Moment}
    (h : Run (traffic L slave) (fun _ => anyTraffic) (.start t_id s) tr x) :
    InOrder (lost tr) x := by
  apply h.invariant (fun tr x => InOrder (lost tr) x) (inOrder_start t_id s)
  intro tr x i e y hx _ hM
  rw [lost_snoc]
  exact inOrder_step hx hM

end

/-! ## The operations -/

/-- The store and the requests that are not carried out, after a moment. -/
def replay : Store × List Request → Moment → Store × List Request
  | (s, rs), .called r => (s, rs ++ [r])
  | (s, r :: rs), .replied => (r.op.carry s, rs)
  | (_, rs), .set s => (s, rs)
  | p, _ => p

theorem replay_seen (p : Store × List Request) (tr : List Moment) :
    (tr.flatMap Moment.seen).foldl replay p = tr.foldl replay p := by
  induction tr generalizing p with
  | nil => rfl
  | cons e tr ih =>
    rw [List.flatMap_cons, List.foldl_append, ih, List.foldl_cons]
    cases e <;> rfl

section
variable {B : modbus_backend_t} {L : Framed B} {slave : Byte} {x x' : Traffic}

theorem replay_step {k : TrafficInput} {e : Moment} (hM : traffic L slave x k = some (e, x')) :
    replay (x.store, x.requests.map Ask.request) e = (x'.store, x'.requests.map Ask.request) := by
  cases k with
  | calls r =>
    simp only [traffic] at hM
    split at hM
    · cases hM
      simp [replay]
    · cases hM
  | replies =>
    cases hreq : x.requests with
    | nil =>
      simp only [traffic, hreq] at hM
      cases hM
    | cons a as =>
      rw [traffic_replies hreq] at hM
      cases hM
      rfl
  | returns =>
    simp only [traffic] at hM
    split at hM
    · cases hM
      rfl
    · cases hM
  | fails code =>
    simp only [traffic] at hM
    split at hM
    · cases hM
    · cases hM
      rfl
  | sets s =>
    simp only [traffic] at hM
    cases hM
    rfl

theorem replay_run {t_id : Word} {s : Store} {tr : List Moment}
    (h : Run (traffic L slave) (fun _ => anyTraffic) (.start t_id s) tr x) :
    tr.foldl replay (s, []) = (x.store, x.requests.map Ask.request) := by
  apply h.invariant
    (fun tr x => tr.foldl replay (s, []) = (x.store, x.requests.map Ask.request)) rfl
  intro tr x i e y hx _ hM
  rw [List.foldl_append, hx]
  exact replay_step hM

end

/-! ## Over TCP -/

/-- A response to another transaction is bad data. -/
theorem hears_other {slave : Byte} {a : Ask} {p : Told} (h : a.t_id ≠ p.ask.t_id) :
    a.hears tcpFramed slave p = .error .EMBBADDATA := by
  have hpre : modbus_tcp_backend.pre_check_confirmation (a.adu tcpFramed slave)
      (p.adu tcpFramed slave) = false := other_t_id h _ _ _ _
  simp only [Ask.hears, Ask.awaiting, confirmed, check_confirmation, hpre]
  rfl

theorem ofNat_ne_zero {n : Nat} (h : ¬ 65536 ∣ n) : BitVec.ofNat 16 n ≠ 0 := by
  intro h0
  have := congrArg BitVec.toNat h0
  rw [BitVec.toNat_ofNat] at this
  exact h (Nat.dvd_of_mod_eq_zero this)

/-- What a call returns that comes after some time-outs. -/
theorem returned_late {slave : Byte} {x x' : Traffic} {n : Nat} (h : InOrder n x)
    (hn : ¬ 65536 ∣ n) {k : TrafficInput} {res : Except Errno Result}
    (hM : traffic tcpFramed slave x k = some (.returned res, x')) : res = .error .EMBBADDATA := by
  have hk : k = .returns := by
    cases k with
    | returns => rfl
    | calls r => exact absurd (inOrder_calls h hM).1 (by simp)
    | replies => exact absurd (inOrder_replies h hM).1 (by simp)
    | fails code => exact absurd (inOrder_fails h hM).1 (by simp)
    | sets s => cases hM
  subst hk
  obtain ⟨a, p, -, he, -, ht, -⟩ := inOrder_returns h hM
  have hother : a.t_id ≠ p.ask.t_id := by
    rw [← ht]
    intro h0
    exact ofNat_ne_zero hn (by simpa using h0)
  rw [Moment.returned.injEq, hears_other hother] at he
  exact he

/-- When time-outs come only before the first byte of a message, at the client and at the server:
after one every call that gets a response fails, until 65536 time-outs have come together, and no
call takes the response of another one. The server carries out all their operations all the same,
in order and each of them once. -/
theorem after_a_time_out_no_response_is_taken (client server : Int) (t_id : Word) (s : Store)
    (tr : List Moment) (c : Connection)
    (h : Run (connection modbus_tcp_backend client server) betweenMessages
      (.start modbus_tcp_backend t_id s.mapping) tr c) :
    (∀ tr₁ tr₂ res, tr = tr₁ ++ .returned res :: tr₂ → ¬ 65536 ∣ lost tr₁ →
      res = .error .EMBBADDATA) ∧
    c.tables = (tr.foldl replay (s, [])).1.mapping := by
  have hf : modbus_tcp_backend.filter_request server (BitVec.ofInt 8 client) = false := rfl
  obtain ⟨x, hx, hc⟩ := connection_carries (Or.inl rfl) tcpFramed hf h
  refine ⟨?_, by rw [← replay_seen, replay_run hx, hc.tables]⟩
  rintro tr₁ tr₂ res rfl hlost
  rw [List.flatMap_append, List.flatMap_cons] at hx
  obtain ⟨y, z, k, hy, -, hM, -⟩ := hx.at_event
  have hin := inOrder_run hy
  rw [lost_seen] at hin
  exact returned_late hin hlost hM

/-- A read that times out before its response, and the next read. -/
theorem a_read_after_a_time_out_fails : ∃ (tr : List Moment) (c : Connection),
    tr.flatMap Moment.seen = [.called (.readRegisters 0 1), .failed 110,
      .called (.readRegisters 0 1), .replied, .returned (.error .EMBBADDATA)] ∧
    (∀ tr₁ tr₂ res, tr = tr₁ ++ .returned res :: tr₂ → ¬ 65536 ∣ lost tr₁ →
      res = .error .EMBBADDATA) ∧
    c.tables = (tr.foldl replay (⟨[], [], [], [7]⟩, [])).1.mapping := by
  obtain ⟨tr, c, hrun, htr⟩ : ∃ tr c, Run (connection modbus_tcp_backend 255 255) betweenMessages
      (.start modbus_tcp_backend 0 (Store.mapping ⟨[], [], [], [7]⟩)) tr c ∧ _ :=
    exists_run_of_execWith
    (fun tr _ => tr.flatMap Moment.seen = [.called (.readRegisters 0 1), .failed 110,
      .called (.readRegisters 0 1), .replied, .returned (.error .EMBBADDATA)])
    [.calls (.readRegisters 0 1), .serverReads 7, .fails 110, .serverReads 3,
      .calls (.readRegisters 0 1), .replies fun _ => 0, .clientReads 7, .clientReads 0,
      .clientReads 1, .returns]
    (by decide)
  exact ⟨tr, c, of_decide_eq_true htr, after_a_time_out_no_response_is_taken 255 255 0
    ⟨[], [], [], [7]⟩ tr c hrun⟩

/-! ## On a serial line -/

/-- What the calls returned, oldest first. -/
def results (tr : List Moment) : List (Except Errno Result) :=
  tr.filterMap fun
    | .returned res => some res
    | _ => none

theorem results_seen (tr : List Moment) : results (tr.flatMap Moment.seen) = results tr := by
  induction tr with
  | nil => rfl
  | cons e tr ih =>
    unfold results at ih ⊢
    rw [List.flatMap_cons, List.filterMap_append, ih]
    cases e <;> rfl

/-- The store and the outcomes of a request, when the server gets it again and again. -/
def again (r : Request) : Store × List (Except Errno Result) → Moment →
    Store × List (Except Errno Result)
  | (s, os), .replied => (r.op.carry s, os ++ [r.outcome s])
  | (_, os), .set s => (s, os)
  | p, _ => p

theorem again_seen (r : Request) (p : Store × List (Except Errno Result)) (tr : List Moment) :
    (tr.flatMap Moment.seen).foldl (again r) p = tr.foldl (again r) p := by
  induction tr generalizing p with
  | nil => rfl
  | cons e tr ih =>
    rw [List.flatMap_cons, List.foldl_append, ih, List.foldl_cons]
    cases e <;> rfl

/-- On a serial line a call takes the response to an equal request for its own. -/
theorem hears_equal {slave : Byte} {a : Ask} {p : Told} (h : a.request = p.ask.request)
    (hr : p.ask.request.Allowed) :
    a.hears rtuFramed slave p = p.ask.request.outcome p.store := by
  obtain ⟨r, t⟩ := a
  cases h
  exact hears_own rtuFramed slave hr p.store

def Moment.isCalled : Moment → Bool
  | .called _ => true
  | _ => false

theorem called_seen (tr : List Moment) :
    (tr.flatMap Moment.seen).countP Moment.isCalled = tr.countP Moment.isCalled := by
  induction tr with
  | nil => rfl
  | cons e tr ih =>
    rw [List.flatMap_cons, List.countP_append, List.countP_cons, ih, Nat.add_comm]
    cases e <;> rfl

/-- All the requests are `r`. Its outcomes have been returned, but for those of the responses that
are still on the line. -/
structure Repeats (r : Request) (s : Store) (tr : List Moment) (x : Traffic) : Prop where
  asks : ∀ a ∈ x.queue, a.request = r ∧ r.Allowed
  told : tr.foldl (again r) (s, []) =
    (x.store, results tr ++ x.responses.map fun p => r.outcome p.store)
  count : tr.countP Moment.isCalled = (results tr).length + x.queue.length

theorem results_snoc (tr : List Moment) (e : Moment) :
    results (tr ++ [e]) = results tr ++ results [e] := by
  rw [results, List.filterMap_append]
  rfl

theorem mem_queue {x : Traffic} {p : Told} (h : p ∈ x.responses) : p.ask ∈ x.queue :=
  List.mem_append_left _ (List.mem_map_of_mem h)

section
variable {slave : Byte} {x x' : Traffic} {n : Nat} {r : Request} {s : Store} {tr : List Moment}

theorem repeats_calls {e : Moment} (h : Repeats r s tr x)
    (hM : traffic rtuFramed slave x (.calls r) = some (e, x')) : Repeats r s (tr ++ [e]) x' := by
  simp only [traffic] at hM
  split at hM
  · rename_i hr
    cases hM
    refine ⟨?_, ?_, ?_⟩
    · intro a ha
      simp only [Traffic.queue, ← List.append_assoc] at ha
      rcases List.mem_append.mp ha with ha | ha
      · exact h.asks a ha
      · rw [List.mem_singleton.mp ha]
        exact ⟨rfl, hr.2⟩
    · rw [List.foldl_append, h.told, results_snoc]
      simp [again, results]
    · rw [List.countP_append, h.count, results_snoc]
      simp [Traffic.queue, results, Moment.isCalled]
      omega
  · cases hM

theorem repeats_replies {e : Moment} (h : Repeats r s tr x)
    (hM : traffic rtuFramed slave x .replies = some (e, x')) : Repeats r s (tr ++ [e]) x' := by
  cases hreq : x.requests with
  | nil =>
    simp only [traffic, hreq] at hM
    cases hM
  | cons a as =>
    rw [traffic_replies hreq] at hM
    cases hM
    have ha := (h.asks a (List.mem_append_right _ (hreq ▸ List.mem_cons_self ..))).1
    refine ⟨?_, ?_, ?_⟩
    · intro b hb
      apply h.asks b
      simpa [Traffic.queue, hreq] using hb
    · rw [List.foldl_append, h.told, results_snoc]
      simp [again, results, ha]
    · rw [List.countP_append, h.count, results_snoc]
      simp [Traffic.queue, hreq, results, Moment.isCalled]

theorem repeats_returns {e : Moment} (hin : InOrder n x) (h : Repeats r s tr x)
    (hM : traffic rtuFramed slave x .returns = some (e, x')) : Repeats r s (tr ++ [e]) x' := by
  cases hw : x.waiting with
  | none =>
    simp only [traffic, hw] at hM
    cases hM
  | some a =>
    cases hrsp : x.responses with
    | nil =>
      simp only [traffic, hw, hrsp] at hM
      cases hM
    | cons p ps =>
      rw [traffic_returns hw hrsp] at hM
      cases hM
      have hmem : a ∈ x.queue := List.mem_of_getLast? (hin.last a hw)
      obtain ⟨ha, -⟩ := h.asks a hmem
      obtain ⟨hp, hr⟩ := h.asks p.ask (mem_queue (hrsp ▸ List.mem_cons_self ..))
      have hhears : a.hears rtuFramed slave p = r.outcome p.store := by
        rw [hears_equal (ha.trans hp.symm) (hp ▸ hr), hp]
      refine ⟨?_, ?_, ?_⟩
      · intro b hb
        apply h.asks b
        simp only [Traffic.queue, hrsp]
        exact List.mem_cons_of_mem _ hb
      · rw [List.foldl_append, h.told, results_snoc, hhears, hrsp]
        simp [again, results]
      · rw [List.countP_append, h.count, results_snoc]
        simp [Traffic.queue, hrsp, results, Moment.isCalled]
        omega

theorem repeats_fails {code : Nat} {e : Moment} (h : Repeats r s tr x)
    (hM : traffic rtuFramed slave x (.fails code) = some (e, x')) :
    Repeats r s (tr ++ [e]) x' := by
  simp only [traffic] at hM
  split at hM
  · cases hM
  · cases hM
    refine ⟨h.asks, ?_, ?_⟩
    · rw [List.foldl_append, h.told, results_snoc]
      simp [again, results]
    · rw [List.countP_append, h.count, results_snoc]
      simp [Traffic.queue, results, Moment.isCalled]

theorem repeats_run {t_id : Word}
    (h : Run (traffic rtuFramed slave) (fun _ => anyTraffic) (.start t_id s) tr x)
    (hr : ∀ r', .called r' ∈ tr → r' = r) : Repeats r s tr x := by
  have key : InOrder (lost tr) x ∧ ((∀ r', .called r' ∈ tr → r' = r) → Repeats r s tr x) := by
    apply h.invariant (fun tr x => InOrder (lost tr) x ∧
      ((∀ r', .called r' ∈ tr → r' = r) → Repeats r s tr x))
    · exact ⟨inOrder_start t_id s, fun _ => ⟨by simp [Traffic.queue, Traffic.start], rfl, rfl⟩⟩
    · rintro tr x i e y ⟨hin, hrep⟩ - hM
      refine ⟨by rw [lost_snoc]; exact inOrder_step hin hM, fun hr => ?_⟩
      have h := hrep fun r' hr' => hr r' (List.mem_append_left _ hr')
      cases i with
      | calls r' =>
        obtain ⟨rfl, -⟩ := inOrder_calls hin hM
        obtain rfl := hr r' (List.mem_append_right _ (List.mem_singleton.mpr rfl))
        exact repeats_calls h hM
      | replies => exact repeats_replies h hM
      | returns => exact repeats_returns hin h hM
      | fails code => exact repeats_fails h hM
      | sets s' =>
        simp only [traffic] at hM
        cases hM
        refine ⟨h.asks, ?_, ?_⟩
        · rw [List.foldl_append, h.told, results_snoc]
          simp [again, results]
        · rw [List.countP_append, h.count, results_snoc]
          simp [Traffic.queue, results, Moment.isCalled]
  exact key.2 hr

end

/-- When a client on a serial line sends the same request again and again, and time-outs come only
before the first byte of a message, its calls return the outcomes of the requests one by one. After
a time-out each call returns the outcome of an earlier call, and is one call too late for ever. -/
theorem a_serial_line_answers_late (client server : Int)
    (hf : modbus_rtu_backend.filter_request server (BitVec.ofInt 8 client) = false) (t_id : Word)
    (s : Store) (r : Request) (tr : List Moment) (c : Connection)
    (h : Run (connection modbus_rtu_backend client server) betweenMessages
      (.start modbus_rtu_backend t_id s.mapping) tr c)
    (hr : ∀ r', .called r' ∈ tr → r' = r) :
    (∃ rest, (tr.foldl (again r) (s, [])).2 = results tr ++ rest) ∧
    tr.countP Moment.isCalled =
      (results tr).length + lost tr + if c.call.isSome then 1 else 0 := by
  obtain ⟨x, hx, hc⟩ := connection_carries (Or.inr rfl) rtuFramed hf h
  have hin := inOrder_run hx
  have hrep : Repeats r s (tr.flatMap Moment.seen) x := by
    apply repeats_run hx
    intro r' hr'
    obtain ⟨e, he, hmem⟩ := List.mem_flatMap.mp hr'
    cases e <;> simp [Moment.seen] at hmem
    exact hr r' (hmem ▸ he)
  have htold := hrep.told
  have hcount := hrep.count
  rw [again_seen, results_seen] at htold
  rw [called_seen, results_seen, hin.count, lost_seen] at hcount
  refine ⟨⟨_, by rw [htold]⟩, ?_⟩
  rw [hcount, hc.call]
  cases x.waiting <;> simp [Nat.add_assoc]

/-- A register is read, and changes before the call gives up and reads it again. -/
theorem a_serial_read_is_a_call_late : ∃ (tr : List Moment) (c : Connection),
    results tr = [.ok (.words 1 [7])] ∧ c.tables.tab_registers = [8] ∧
    (∃ rest, (tr.foldl (again (.readRegisters 0 1)) (⟨[], [], [], [7]⟩, [])).2 =
      results tr ++ rest) ∧
    tr.countP Moment.isCalled =
      (results tr).length + lost tr + if c.call.isSome then 1 else 0 := by
  obtain ⟨tr, c, hrun, htr⟩ : ∃ tr c, Run (connection modbus_rtu_backend 1 1) betweenMessages
      (.start modbus_rtu_backend 0 (Store.mapping ⟨[], [], [], [7]⟩)) tr c ∧ _ :=
    exists_run_of_execWith
    (fun tr c => results tr = [.ok (.words 1 [7])] ∧ c.tables.tab_registers = [8] ∧
      ∀ e ∈ tr, e.isCalled → e = .called (.readRegisters 0 1))
    [.calls (.readRegisters 0 1), .serverReads 7, .serverReads 3, .serverReads 1,
      .replies fun _ => 0, .fails 110, .sets ⟨[], [], [], [8]⟩, .calls (.readRegisters 0 1),
      .clientReads 1, .clientReads 0, .clientReads 9, .returns]
    (by decide)
  obtain ⟨hres, htab, hcalled⟩ := of_decide_eq_true htr
  refine ⟨tr, c, hres, htab, a_serial_line_answers_late 1 1 rfl 0 ⟨[], [], [], [7]⟩
    (.readRegisters 0 1) tr c hrun fun r' hr' => ?_⟩
  have := hcalled _ hr' rfl
  simpa using this

end robotchess
