-- No call waits for ever. While a call waits there is something to do on the line, and
-- there is only so much to do.
import RobotChess.Late

open bytes framing runs

namespace robotchess

/-- The steps that a waiting call needs. -/
def inside : Guard Connection ConnectionInput Moment := fun _ _ i =>
  match i with
  | .serverReads _ | .replies _ | .clientReads _ | .returns => True
  | _ => False

/-- How many steps are left at most: one for each byte on the streams, one for each request with
the bytes of its response, and the return. -/
def stepsLeft (c : Connection) (x : Traffic) : Nat :=
  c.server.socket.length + 261 * x.requests.length + c.client.socket.length +
    if c.call.isSome then 1 else 0

theorem turn_shorter {B : modbus_backend_t} {t : msg_type_t} {l l' : loop_t} {poll : Poll}
    (h : receive_turn B t l poll = .ok l') : l'.socket.length < l.socket.length := by
  obtain ⟨bytes, hne, -, hsplit⟩ := receive_turn_ok h
  have := List.length_pos_iff.mpr hne
  rw [hsplit, List.length_append]
  omega

section
variable {B : modbus_backend_t} (L : Framed B) (slave : Byte)

theorem length_asks (hB : IsBackend B) {as : List Ask} (h : ∀ a ∈ as, a.request.Allowed) :
    (as.map (Ask.adu L slave)).flatten.length ≤ 260 * as.length := by
  induction as with
  | nil => simp
  | cons a as ih =>
    have hlen := L.length_adu slave a.t_id a.request.pdu
    have hshort := (Request.wellFormed (h a (List.mem_cons_self ..))).short
    have hroom := hB.pdu_room
    have hmax := hB.room.2
    have := ih fun b hb => h b (List.mem_cons_of_mem _ hb)
    simp only [List.map_cons, List.flatten_cons, List.length_append, List.length_cons, Ask.adu,
      hlen, MAX_MESSAGE_LENGTH] at *
    omega

theorem length_told (hB : IsBackend B) (p : Told) : (p.adu L slave).length ≤ 260 := by
  have hlen := L.length_adu slave p.ask.t_id (p.ask.request.responsePdu p.store)
  have hshort := (p.ask.request.response_wellFormed p.store).short
  have hroom := hB.pdu_room
  have hmax := hB.room.2
  simp only [Told.adu, hlen, MAX_MESSAGE_LENGTH] at *
  omega

theorem length_tolds (hB : IsBackend B) (ps : List Told) :
    (ps.map (Told.adu L slave)).flatten.length ≤ 260 * ps.length := by
  induction ps with
  | nil => simp
  | cons p ps ih =>
    have := length_told L slave hB p
    simp only [List.map_cons, List.flatten_cons, List.length_append, List.length_cons]
    omega

end

section
variable {B : modbus_backend_t} {L : Framed B} {slave : Byte} {client server : Int}
  {c c' : Connection} {x : Traffic} {n : Nat}

/-- There is a bounded number of steps for each request on the line. -/
theorem stepsLeft_le (hB : IsBackend B) (h : Carries L slave c x)
    (hcount : x.queue.length ≤ n + 1) : stepsLeft c x ≤ 522 * (n + 1) := by
  have hserver := h.server.length_le
  have hasks := length_asks L slave hB h.requests
  have htolds := length_tolds L slave hB x.responses
  have hclient : c.client.socket.length ≤ (x.responses.map (Told.adu L slave)).flatten.length := by
    by_cases hw : x.waiting = none
    · rw [h.idle hw]
    · exact (h.client hw).length_le
  have hone : ∀ o : Option Ask, (if o.isSome then 1 else 0) ≤ 1 := fun o => by split <;> omega
  have hw := hone x.waiting
  rw [Traffic.queue, List.length_append, List.length_map] at hcount
  have hcall : c.call.isSome = x.waiting.isSome := by rw [h.call, Option.isSome_map]
  rw [stepsLeft, hcall]
  omega

/-! ## Each step leaves fewer steps -/

theorem serverReads_shorter (h : Carries L slave c x) {k : Nat} {e : Moment}
    (hM : connection B client server c (.serverReads k) = some (e, c')) :
    stepsLeft c' x < stepsLeft c x := by
  simp only [connection] at hM
  split at hM
  · cases hM
  · rename_i hl
    rw [not_or] at hl
    obtain ⟨l', hl', -⟩ := turn_holds h.server hl.1 hl.2 k
    rw [hl'] at hM
    cases hM
    have := turn_shorter hl'
    simp only [stepsLeft]
    omega

theorem clientReads_shorter (h : Carries L slave c x) {k : Nat} {e : Moment}
    (hM : connection B client server c (.clientReads k) = some (e, c')) :
    stepsLeft c' x < stepsLeft c x := by
  simp only [connection] at hM
  split at hM
  · cases hM
  · rename_i hl
    rw [not_or, not_or] at hl
    have hw : x.waiting ≠ none := by
      have := hl.1
      rw [h.call] at this
      simpa using this
    obtain ⟨l', hl', -⟩ := turn_holds (h.client hw) hl.2.1 hl.2.2 k
    rw [hl'] at hM
    cases hM
    have := turn_shorter hl'
    simp only [stepsLeft]
    omega

theorem replies_shorter (hB : IsBackend B)
    (hf : B.filter_request server (BitVec.ofInt 8 client) = false)
    (h : Carries L (BitVec.ofInt 8 client) c x) {behind : Nat → Byte} {e : Moment} {y : Traffic}
    (hM : connection B client server c (.replies behind) = some (e, c'))
    (hy : traffic L (BitVec.ofInt 8 client) x .replies = some (e, y)) :
    stepsLeft c' y < stepsLeft c x := by
  obtain ⟨a, as, hreq, -, rfl, hsocket⟩ := replies_eq hB hf h hM
  have hlen := length_told L (BitVec.ofInt 8 client) hB ⟨a, x.store⟩
  rw [traffic_replies hreq] at hy
  cases hy
  simp only [stepsLeft, hreq, hsocket, loop_t.start, List.length_append, List.length_cons]
  omega

theorem returns_shorter (h : Carries L slave c x) {e e' : Moment} {y : Traffic}
    (hM : connection B client server c .returns = some (e, c'))
    (hy : traffic L slave x .returns = some (e', y)) : stepsLeft c' y < stepsLeft c x := by
  cases hw : x.waiting with
  | none =>
    simp only [traffic, hw] at hy
    cases hy
  | some a =>
    cases hrsp : x.responses with
    | nil =>
      simp only [traffic, hw, hrsp] at hy
      cases hy
    | cons p ps =>
      rw [traffic_returns hw hrsp] at hy
      cases hy
      simp only [connection, h.call, hw, Option.map_some] at hM
      split at hM
      · cases hM
        simp [stepsLeft, h.call, hw]
      · cases hM

/-- A step inside a call leaves fewer steps. It moves some bytes, or is a step of the messages. -/
theorem inside_step (hB : IsBackend B)
    (hf : B.filter_request server (BitVec.ofInt 8 client) = false)
    (h : Carries L (BitVec.ofInt 8 client) c x) {tr : List Moment} {i : ConnectionInput}
    {e : Moment} (hi : inside tr c i) (hM : connection B client server c i = some (e, c')) :
    ∃ y, Carries L (BitVec.ofInt 8 client) c' y ∧ stepsLeft c' y < stepsLeft c x ∧
      (e = .moved ∧ y = x ∨ (∃ k, traffic L (BitVec.ofInt 8 client) x k = some (e, y) ∧
        ∀ code, k ≠ .fails code) ∧ e.isFailed = false) := by
  cases i with
  | serverReads k =>
    obtain ⟨rfl, hc⟩ := carries_serverReads h hM
    exact ⟨x, hc, serverReads_shorter h hM, Or.inl ⟨rfl, rfl⟩⟩
  | replies behind =>
    obtain ⟨rfl, y, hy, hc⟩ := carries_replies hB hf h hM
    exact ⟨y, hc, replies_shorter hB hf h hM hy, Or.inr ⟨⟨.replies, hy, by simp⟩, rfl⟩⟩
  | clientReads k =>
    obtain ⟨rfl, hc⟩ := carries_clientReads h hM
    exact ⟨x, hc, clientReads_shorter h hM, Or.inl ⟨rfl, rfl⟩⟩
  | returns =>
    obtain ⟨res, he, y, hy, hc⟩ := carries_returns h hM
    exact ⟨y, hc, returns_shorter h hM hy, Or.inr ⟨⟨.returns, he ▸ hy, by simp⟩, he ▸ rfl⟩⟩
  | calls r => exact hi.elim
  | serverFails code => exact hi.elim
  | fails code => exact hi.elim
  | sets s => exact hi.elim

/-! ## A step is possible -/

/-- With a request on its line the server can read a byte of it or answer it. -/
theorem server_enabled (hB : IsBackend B)
    (hf : B.filter_request server (BitVec.ofInt 8 client) = false)
    (h : Carries L (BitVec.ofInt 8 client) c x) {a : Ask} {as : List Ask}
    (hreq : x.requests = a :: as) (tr : List Moment) :
    ∃ i, inside tr c i ∧ (connection B client server c i).isSome := by
  have hserver := h.server
  rw [hreq, List.map_cons] at hserver
  by_cases hready : c.server.length_to_read = 0
  · obtain ⟨ms, hms, -⟩ := over_holds hserver hready
    have hmsg := (List.cons.inj hms).1
    have hr := h.requests a (hreq ▸ List.mem_cons_self ..)
    have hint : B.check_integrity c.server.msg = true := by
      rw [← hmsg]
      exact L.integrity _ _ _
    have hreply := Request.reply_adu hB L a.t_id hf (fun _ => 0) hr x.store
    refine ⟨.replies fun _ => 0, trivial, ?_⟩
    simp only [connection, hready, hint, if_true]
    rw [← hmsg, Ask.adu, h.tables, hreply]
    rfl
  · rw [reader_reading hready] at hserver
    obtain ⟨l', hl', -⟩ := turn_holds h.server hready hserver.left 0
    refine ⟨.serverReads 0, trivial, ?_⟩
    simp [connection, hready, hserver.left, hl']

/-- A call that waits and has nothing to read has no response on the line. -/
theorem no_response (h : Carries L slave c x) (hw : x.waiting ≠ none)
    (hover : c.client.length_to_read ≠ 0) (hbytes : c.client.socket = []) : x.responses = [] := by
  have hclient := h.client hw
  rw [reader_reading hover] at hclient
  cases hrsp : x.responses with
  | nil => rfl
  | cons p ps =>
    rw [hrsp, List.map_cons] at hclient
    exact absurd hbytes hclient.left

/-- While a call waits, a byte can be read, or a request answered, or the call returns. -/
theorem inside_enabled (hB : IsBackend B)
    (hf : B.filter_request server (BitVec.ofInt 8 client) = false)
    (h : Carries L (BitVec.ofInt 8 client) c x)
    (hlast : ∀ a, x.waiting = some a → x.queue.getLast? = some a) (hcall : c.call.isSome)
    (tr : List Moment) : ∃ i, inside tr c i ∧ (connection B client server c i).isSome := by
  cases hw : x.waiting with
  | none =>
    rw [h.call, hw] at hcall
    cases hcall
  | some a =>
    have hclient := h.client (by simp [hw])
    by_cases hover : c.client.length_to_read = 0
    · refine ⟨.returns, trivial, ?_⟩
      simp [connection, h.call, hw, hover]
    · by_cases hbytes : c.client.socket = []
      · -- No response is on the line, so a request is.
        have hlast := hlast a hw
        rw [Traffic.queue, no_response h (by simp [hw]) hover hbytes, List.map_nil,
          List.nil_append] at hlast
        cases hreq : x.requests with
        | nil =>
          rw [hreq] at hlast
          cases hlast
        | cons b bs => exact server_enabled hB hf h hreq tr
      · obtain ⟨l', hl', -⟩ := turn_holds hclient hover hbytes 0
        refine ⟨.clientReads 0, trivial, ?_⟩
        simp [connection, h.call, hw, hover, hbytes, hl']

end

/-- However the streams are cut, and after any calls and time-outs before the first byte of a
message, a call that waits is at most 522 steps from its return, and 522 more for each call that
gave up before it, and one of these steps is always possible. A time-out inside a request breaks
this: when the server drops the first bytes of a request, the rest is not one, and nobody
answers. -/
theorem no_call_waits_for_ever (B : modbus_backend_t) (hB : IsBackend B) (client server : Int)
    (hf : B.filter_request server (BitVec.ofInt 8 client) = false) (t_id : Word) (s : Store)
    (tr : List Moment) (c : Connection)
    (h : Run (connection B client server) betweenMessages (.start B t_id s.mapping) tr c)
    (tr' : List Moment) (c' : Connection)
    (h' : Run (connection B client server) inside c tr' c') :
    tr'.length ≤ 522 * (lost tr + 1) ∧ (c'.call.isSome →
      ∃ i, inside tr' c' i ∧ (connection B client server c' i).isSome) := by
  obtain ⟨L⟩ := hB.framed
  obtain ⟨x, hx, hc⟩ := connection_carries hB L hf h
  have hin := inOrder_run hx
  rw [lost_seen] at hin
  have hcount : x.queue.length ≤ lost tr + 1 := by
    rw [hin.count]
    split <;> omega
  have hle := stepsLeft_le hB hc hcount
  obtain ⟨y, hy, hin', hlen⟩ : ∃ y, Carries L (BitVec.ofInt 8 client) c' y ∧
      InOrder (lost tr) y ∧ stepsLeft c' y + tr'.length ≤ stepsLeft c x := by
    apply h'.invariant (fun tr' c' => ∃ y, Carries L (BitVec.ofInt 8 client) c' y ∧
      InOrder (lost tr) y ∧ stepsLeft c' y + tr'.length ≤ stepsLeft c x)
      ⟨x, hc, hin, Nat.le_refl _⟩
    rintro tr' c' i e c'' ⟨y, hy, hin', hlen⟩ hi hM
    obtain ⟨z, hz, hlt, hk⟩ := inside_step hB hf hy hi hM
    have hin'' : InOrder (lost tr) z := by
      rcases hk with ⟨-, rfl⟩ | ⟨⟨k, hk, -⟩, he⟩
      · exact hin'
      · have := inOrder_step hin' hk
        rwa [he] at this
    refine ⟨z, hz, hin'', ?_⟩
    rw [List.length_append, List.length_singleton]
    omega
  exact ⟨by omega, fun hcall => inside_enabled hB hf hy hin'.last hcall tr'⟩

/-- A call that has just sent its request. -/
theorem a_read_does_not_wait_for_ever : ∃ c : Connection, c.call.isSome ∧
    ∀ tr' c', Run (connection modbus_tcp_backend 255 255) inside c tr' c' →
      tr'.length ≤ 522 * (0 + 1) ∧ (c'.call.isSome →
        ∃ i, inside tr' c' i ∧ (connection modbus_tcp_backend 255 255 c' i).isSome) := by
  obtain ⟨tr, c, hrun, htr⟩ : ∃ tr c, Run (connection modbus_tcp_backend 255 255) betweenMessages
      (.start modbus_tcp_backend 0 (Store.mapping ⟨[], [], [], [7]⟩)) tr c ∧ _ :=
    exists_run_of_execWith
    (fun tr c => c.call.isSome ∧ lost tr = 0) [.calls (.readRegisters 0 1)] (by decide)
  obtain ⟨hcall, hlost⟩ := of_decide_eq_true htr
  refine ⟨c, hcall, fun tr' c' h' => ?_⟩
  rw [← hlost]
  exact no_call_waits_for_ever modbus_tcp_backend (Or.inl rfl) 255 255 rfl 0 ⟨[], [], [], [7]⟩
    tr c hrun tr' c' h'

end robotchess
