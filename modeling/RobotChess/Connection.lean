-- A client and a server on one connection. Requests and responses are bytes of two
-- streams, which are cut into pieces and wait for as long as they like. What is seen
-- of it is a sequence of whole requests and whole responses.
import RobotChess.Wire

open bytes framing runs

namespace robotchess

/-! ## The bytes -/

/-- The client between `send_msg` and `receive_msg` in a call or outside one, the server in its
`modbus_receive`, and the tables. The stream to each of them is the `socket` of its loop. -/
structure Connection where
  -- the static `t_id` of modbus-tcp.c
  t_id : Word
  call : Option Awaiting
  client : loop_t
  server : loop_t
  tables : modbus_mapping_t

def Connection.start (B : modbus_backend_t) (t_id : Word) (tables : modbus_mapping_t) :
    Connection :=
  ⟨t_id, none, .start B [], .start B [], tables⟩

inductive ConnectionInput
  -- A function of the client is called.
  | calls (r : Request)
  -- `recv` gives some bytes to the server.
  | serverReads (n : Nat)
  -- `select` of the server returns -1: inside a request, after `byte_timeout` without a byte.
  | serverFails (code : Nat)
  -- The server has a request, with some bytes behind it in the buffer, and calls `modbus_reply`.
  | replies (behind : Nat → Byte)
  -- `recv` gives some bytes to the client.
  | clientReads (n : Nat)
  -- The client has a response.
  | returns
  -- `select` of the client returns -1, after a time-out.
  | fails (code : Nat)
  -- The program of the server changes its tables.
  | sets (s : Store)

inductive Moment
  -- A request is sent.
  | called (r : Request)
  -- A call sends nothing.
  | rejected (e : Errno)
  | replied
  | returned (res : Except Errno Result)
  | failed (code : Nat)
  | set (s : Store)
  | moved
  deriving DecidableEq

/-- A step of the connection. The program of the server is not in the source: it calls
`modbus_receive` again when it is through with a request and after each -1. A `modbus_receive` that
fails drops the bytes that it has read, and the next one takes what follows for a request. -/
def connection (B : modbus_backend_t) (client server : Int) :
    Machine Connection ConnectionInput Moment
  | c, .calls r =>
    if c.call.isSome then none
    else match r.call ⟨client, B⟩ (next_t_id c.t_id) with
      | .error e => some (.rejected e, c)
      | .ok call => some (.called r, { c with
          t_id := next_t_id c.t_id
          call := some call
          client := .start B c.client.socket
          server := { c.server with socket := c.server.socket ++ call.req } })
  | c, .serverReads n =>
    if c.server.length_to_read = 0 ∨ c.server.socket = [] then none
    else match receive_turn B .MSG_INDICATION c.server (.gives n) with
      | .ok loop => some (.moved, { c with server := loop })
      | .error (_, rest) => some (.moved, { c with server := .start B rest })
  | c, .serverFails _ =>
    if c.server.length_to_read = 0 then none
    else some (.moved, { c with server := .start B c.server.socket })
  | c, .replies behind =>
    if c.server.length_to_read = 0 then
      if B.check_integrity c.server.msg then
        match modbus_reply ⟨server, B⟩ (overlay c.server.msg behind) c.server.msg.length
          c.tables with
        | (.sent rsp, tables) => some (.replied, { c with
            tables
            server := .start B c.server.socket
            client := { c.client with socket := c.client.socket ++ rsp } })
        | (_, tables) => some (.moved, { c with tables, server := .start B c.server.socket })
      else some (.moved, { c with server := .start B c.server.socket })
    else none
  | c, .clientReads n =>
    if c.call.isNone ∨ c.client.length_to_read = 0 ∨ c.client.socket = [] then none
    else match receive_turn B .MSG_CONFIRMATION c.client (.gives n) with
      | .ok loop => some (.moved, { c with client := loop })
      | .error (e, rest) => some (.returned (.error e), { c with
          call := none, client := { c.client with socket := rest } })
  | c, .returns =>
    match c.call with
    | none => none
    | some call =>
      if c.client.length_to_read = 0 then
        some (.returned (if B.check_integrity c.client.msg then call.confirm c.client.msg
          else .error .EMBBADCRC), { c with call := none })
      else none
  | c, .fails code =>
    if c.call.isNone ∨ c.client.length_to_read = 0 then none
    else some (.failed code, { c with call := none })
  | c, .sets s => some (.set s, { c with tables := s.mapping })

/-- Every call is given the time that its response needs, and the server the time to read each
request to its end. -/
def patient : Guard Connection ConnectionInput Moment := fun _ c i =>
  (∀ code, i ≠ .fails code) ∧ ∀ code, i = .serverFails code → c.server.msg = []

/-- A time-out comes only before the first byte of a message. A call that fails has taken no byte
of a response, and the server gives up no request that it has begun to read. -/
def betweenMessages : Guard Connection ConnectionInput Moment := fun _ c i =>
  (∀ code, i = .fails code → c.client.msg = []) ∧
    ∀ code, i = .serverFails code → c.server.msg = []

theorem patient_calls (tr : List Moment) (c : Connection) (r : Request) :
    patient tr c (.calls r) := by
  simp [patient]

theorem betweenMessages_of_patient {tr : List Moment} {c : Connection} {i : ConnectionInput}
    (h : patient tr c i) : betweenMessages tr c i :=
  ⟨fun code he => absurd he (h.1 code), h.2⟩

instance (tr : List Moment) (c : Connection) (i : ConnectionInput) : Decidable (patient tr c i) :=
  match i with
  | .fails code => isFalse fun h => h.1 code rfl
  | .serverFails _ => decidable_of_iff (c.server.msg = []) (by simp [patient])
  | .calls _ | .serverReads _ | .replies _ | .clientReads _ | .returns | .sets _ =>
    isTrue (by simp [patient])

instance (tr : List Moment) (c : Connection) (i : ConnectionInput) :
    Decidable (betweenMessages tr c i) :=
  match i with
  | .fails _ => decidable_of_iff (c.client.msg = []) (by simp [betweenMessages])
  | .serverFails _ => decidable_of_iff (c.server.msg = []) (by simp [betweenMessages])
  | .calls _ | .serverReads _ | .replies _ | .clientReads _ | .returns | .sets _ =>
    isTrue (by simp [betweenMessages])

/-! ## The messages -/

/-- A request, as it was sent. -/
structure Ask where
  request : Request
  t_id : Word

/-- A response, as it was sent: the request was carried out on this store. -/
structure Told where
  ask : Ask
  store : Store

section
variable {B : modbus_backend_t} (L : Framed B) (slave : Byte)

def Ask.adu (a : Ask) : List Byte := L.adu slave a.t_id a.request.pdu

def Ask.awaiting (a : Ask) : Awaiting := confirmed B (a.adu L slave) (a.request.finish B)

def Told.adu (p : Told) : List Byte := L.adu slave p.ask.t_id (p.ask.request.responsePdu p.store)

/-- What a call makes of a response, which need not be its own. -/
def Ask.hears (a : Ask) (p : Told) : Except Errno Result :=
  (a.awaiting L slave).confirm (p.adu L slave)

/-- The connection as a line of whole messages. -/
structure Traffic where
  store : Store
  t_id : Word
  waiting : Option Ask
  -- The first one is the oldest.
  requests : List Ask
  responses : List Told

inductive TrafficInput
  | calls (r : Request)
  | replies
  | returns
  | fails (code : Nat)
  | sets (s : Store)

def traffic : Machine Traffic TrafficInput Moment
  | x, .calls r =>
    if x.waiting.isNone ∧ r.Allowed then
      some (.called r, { x with
        t_id := next_t_id x.t_id
        waiting := some ⟨r, next_t_id x.t_id⟩
        requests := x.requests ++ [⟨r, next_t_id x.t_id⟩] })
    else none
  | x, .replies =>
    match x.requests with
    | [] => none
    | a :: as => some (.replied, { x with
        store := a.request.op.carry x.store
        requests := as
        responses := x.responses ++ [⟨a, x.store⟩] })
  | x, .returns =>
    match x.waiting, x.responses with
    | some a, p :: ps => some (.returned (a.hears L slave p), { x with
        waiting := none, responses := ps })
    | _, _ => none
  | x, .fails code =>
    match x.waiting with
    | none => none
    | some _ => some (.failed code, { x with waiting := none })
  | x, .sets s => some (.set s, { x with store := s })

end

section
variable {B : modbus_backend_t} {L : Framed B} {slave : Byte} {x : Traffic}

theorem traffic_calls {r : Request} (hw : x.waiting = none) (hr : r.Allowed) :
    traffic L slave x (.calls r) = some (.called r, { x with
      t_id := next_t_id x.t_id
      waiting := some ⟨r, next_t_id x.t_id⟩
      requests := x.requests ++ [⟨r, next_t_id x.t_id⟩] }) := by
  simp [traffic, hw, hr]

theorem traffic_replies {a : Ask} {as : List Ask} (h : x.requests = a :: as) :
    traffic L slave x .replies = some (.replied, { x with
      store := a.request.op.carry x.store
      requests := as
      responses := x.responses ++ [⟨a, x.store⟩] }) := by
  simp [traffic, h]

theorem traffic_returns {a : Ask} {p : Told} {ps : List Told} (hw : x.waiting = some a)
    (h : x.responses = p :: ps) : traffic L slave x .returns =
      some (.returned (a.hears L slave p), { x with waiting := none, responses := ps }) := by
  simp [traffic, hw, h]

theorem traffic_fails {a : Ask} (hw : x.waiting = some a) (code : Nat) :
    traffic L slave x (.fails code) = some (.failed code, { x with waiting := none }) := by
  simp [traffic, hw]

end

/-- What is seen of the connection from outside. -/
def Moment.seen : Moment → List Moment
  | .moved => []
  | .rejected _ => []
  | e => [e]

/-! ## The streams hold whole messages -/

section
variable {B : modbus_backend_t} {t : msg_type_t} {l : loop_t} {ms : List (List Byte)}

/-- A turn of the loop does not change what the stream holds, and no error comes of it. -/
theorem turn_holds (h : (messages B t).Holds l.reader l.socket ms) (hl : l.length_to_read ≠ 0)
    (hs : l.socket ≠ []) (n : Nat) : ∃ l', receive_turn B t l (.gives n) = .ok l' ∧
      (messages B t).Holds l'.reader l'.socket ms := by
  have hpull := h.pull [n]
  have hturn := receive_turn_gives B t hl n
  cases hx : receive_turn B t l (.gives n) with
  | ok l' =>
    rw [hx] at hturn
    rw [hturn.2] at hpull
    exact ⟨l', rfl, hpull⟩
  | error p =>
    rw [hx] at hturn
    rcases hturn with ⟨h0, -⟩ | ⟨-, hr⟩
    · exact absurd h0 hs
    · rw [hr] at hpull
      exact hpull.refused.elim

/-- At the end of the loop the first message is there. -/
theorem over_holds (h : (messages B t).Holds l.reader l.socket ms) (hl : l.length_to_read = 0) :
    ∃ ms', ms = l.msg :: ms' ∧ l.socket = ms'.flatten := by
  rw [(receive_over B t [] hl).1] at h
  exact h.done

theorem start_holds (h : ∀ m ∈ ms, (messages B t).Accepts m) :
    (messages B t).Holds (loop_t.start B ms.flatten).reader (loop_t.start B ms.flatten).socket ms :=
  Format.holds_flatten h

/-- Before the first byte of a message the whole messages are on the stream. -/
theorem empty_holds (h : (messages B t).Holds l.reader l.socket ms) (hl : l.length_to_read ≠ 0)
    (hm : l.msg = []) : l.socket = ms.flatten := by
  rw [reader_reading hl] at h
  have := h.kept
  rwa [hm] at this

end

/-! ## The bytes carry the messages -/

/-- The connection holds the requests and the responses of the line. -/
structure Carries {B : modbus_backend_t} (L : Framed B) (slave : Byte) (c : Connection)
    (x : Traffic) : Prop where
  t_id : c.t_id = x.t_id
  tables : c.tables = x.store.mapping
  call : c.call = x.waiting.map (Ask.awaiting L slave)
  waiting : ∀ a, x.waiting = some a → a.request.Allowed
  requests : ∀ a ∈ x.requests, a.request.Allowed
  server : (messages B .MSG_INDICATION).Holds c.server.reader c.server.socket
    (x.requests.map (Ask.adu L slave))
  client : x.waiting ≠ none → (messages B .MSG_CONFIRMATION).Holds c.client.reader
    c.client.socket (x.responses.map (Told.adu L slave))
  idle : x.waiting = none → c.client.socket = (x.responses.map (Told.adu L slave)).flatten

section
variable {B : modbus_backend_t} (L : Framed B) (slave : Byte)

theorem Ask.accepted {a : Ask} (h : a.request.Allowed) :
    (messages B .MSG_INDICATION).Accepts (a.adu L slave) :=
  L.accepts_adu _ _ _ (Request.wellFormed h)

theorem Told.accepted (p : Told) : (messages B .MSG_CONFIRMATION).Accepts (p.adu L slave) :=
  L.accepts_adu _ _ _ (p.ask.request.response_wellFormed p.store)

theorem responses_hold (ps : List Told) : (messages B .MSG_CONFIRMATION).Holds
    (loop_t.start B (ps.map (Told.adu L slave)).flatten).reader
    (loop_t.start B (ps.map (Told.adu L slave)).flatten).socket (ps.map (Told.adu L slave)) := by
  apply start_holds
  intro m hm
  obtain ⟨p, -, rfl⟩ := List.mem_map.mp hm
  exact p.accepted L slave

theorem requests_hold {as : List Ask} (h : ∀ a ∈ as, a.request.Allowed) :
    (messages B .MSG_INDICATION).Holds
      (loop_t.start B (as.map (Ask.adu L slave)).flatten).reader
      (loop_t.start B (as.map (Ask.adu L slave)).flatten).socket (as.map (Ask.adu L slave)) := by
  apply start_holds
  intro m hm
  obtain ⟨a, ha, rfl⟩ := List.mem_map.mp hm
  exact Ask.accepted L slave (h a ha)

end

section
variable {B : modbus_backend_t} {L : Framed B} {client server : Int}
  {c c' : Connection} {x : Traffic} {e : Moment}

theorem carries_calls (h : Carries L (BitVec.ofInt 8 client) c x) {r : Request}
    (hM : connection B client server c (.calls r) = some (e, c')) :
    (∃ err, e = .rejected err ∧ c' = c) ∨ e = .called r ∧ ∃ y,
      traffic L (BitVec.ofInt 8 client) x (.calls r) = some (.called r, y) ∧
        Carries L (BitVec.ofInt 8 client) c' y := by
  simp only [connection] at hM
  split at hM
  · cases hM
  · rename_i hfree
    have hidle : x.waiting = none := by
      rw [h.call] at hfree
      simpa using hfree
    split at hM
    · cases hM
      exact Or.inl ⟨_, rfl, rfl⟩
    · rename_i call hcall
      cases hM
      obtain ⟨hr, hcall⟩ := (r.call_iff L client _ call).mp hcall
      rw [h.t_id] at hcall ⊢
      refine Or.inr ⟨rfl, _, traffic_calls hidle hr, ?_⟩
      have hall : ∀ a ∈ x.requests ++ [⟨r, next_t_id x.t_id⟩], a.request.Allowed := by
        intro a ha
        rcases List.mem_append.mp ha with ha | ha
        · exact h.requests a ha
        · rw [List.mem_singleton.mp ha]
          exact hr
      refine ⟨rfl, h.tables, by rw [hcall]; rfl, ?_, hall, ?_, ?_, fun hw => by cases hw⟩
      · rintro a ⟨⟩
        exact hr
      · rw [List.map_append, hcall]
        exact h.server.snoc (Ask.accepted L _ (a := ⟨r, next_t_id x.t_id⟩) hr)
      · intro _
        rw [h.idle hidle]
        exact responses_hold L _ x.responses

theorem carries_serverReads (h : Carries L (BitVec.ofInt 8 client) c x) {n : Nat}
    (hM : connection B client server c (.serverReads n) = some (e, c')) :
    e = .moved ∧ Carries L (BitVec.ofInt 8 client) c' x := by
  simp only [connection] at hM
  split at hM
  · cases hM
  · rename_i hl
    rw [not_or] at hl
    obtain ⟨l', hl', hholds⟩ := turn_holds h.server hl.1 hl.2 n
    rw [hl'] at hM
    cases hM
    exact ⟨rfl, h.t_id, h.tables, h.call, h.waiting, h.requests, hholds, h.client, h.idle⟩

/-- A server that has read no byte of a request starts again with the same stream. -/
theorem carries_serverFails (h : Carries L (BitVec.ofInt 8 client) c x) {code : Nat}
    (hok : c.server.msg = [])
    (hM : connection B client server c (.serverFails code) = some (e, c')) :
    e = .moved ∧ Carries L (BitVec.ofInt 8 client) c' x := by
  simp only [connection] at hM
  split at hM
  · cases hM
  · rename_i hl
    cases hM
    refine ⟨rfl, h.t_id, h.tables, h.call, h.waiting, h.requests, ?_, h.client, h.idle⟩
    rw [empty_holds h.server hl hok]
    exact requests_hold L _ h.requests

/-- The server answers the first of the requests. -/
theorem replies_eq (hB : IsBackend B) (hf : B.filter_request server (BitVec.ofInt 8 client) = false)
    (h : Carries L (BitVec.ofInt 8 client) c x) {behind : Nat → Byte}
    (hM : connection B client server c (.replies behind) = some (e, c')) :
    ∃ a as, x.requests = a :: as ∧ e = .replied ∧ c' = { c with
        tables := (a.request.op.carry x.store).mapping
        server := .start B (as.map (Ask.adu L (BitVec.ofInt 8 client))).flatten
        client := { c.client with
          socket := c.client.socket ++ Told.adu L (BitVec.ofInt 8 client) ⟨a, x.store⟩ } } ∧
      c.server.socket = (as.map (Ask.adu L (BitVec.ofInt 8 client))).flatten := by
  simp only [connection] at hM
  split at hM
  · rename_i hl
    obtain ⟨ms, hms, hsocket⟩ := over_holds h.server hl
    obtain ⟨a, as, hreq, hmsg, rfl⟩ := List.map_eq_cons_iff.mp hms
    have hr := h.requests a (hreq ▸ List.mem_cons_self ..)
    have hint : B.check_integrity (a.adu L (BitVec.ofInt 8 client)) = true := L.integrity _ _ _
    have hreply := Request.reply_adu hB L a.t_id hf behind hr x.store
    rw [← hmsg, if_pos hint, Ask.adu, h.tables, hreply] at hM
    cases hM
    exact ⟨a, as, hreq, rfl, by rw [hsocket]; rfl, hsocket⟩
  · cases hM

theorem carries_replies (hB : IsBackend B) (hf : B.filter_request server (BitVec.ofInt 8 client) =
      false) (h : Carries L (BitVec.ofInt 8 client) c x) {behind : Nat → Byte}
    (hM : connection B client server c (.replies behind) = some (e, c')) :
    e = .replied ∧ ∃ y, traffic L (BitVec.ofInt 8 client) x .replies = some (.replied, y) ∧
      Carries L (BitVec.ofInt 8 client) c' y := by
  obtain ⟨a, as, hreq, rfl, rfl, -⟩ := replies_eq hB hf h hM
  have hrest : ∀ b ∈ as, b.request.Allowed := fun b hb =>
    h.requests b (hreq ▸ List.mem_cons_of_mem _ hb)
  refine ⟨rfl, _, traffic_replies hreq, h.t_id, rfl, h.call, h.waiting, hrest,
    requests_hold L _ hrest, ?_, ?_⟩
  · intro hw
    simp only [List.map_append, List.map_singleton]
    exact (h.client hw).snoc (Told.accepted L _ ⟨a, x.store⟩)
  · intro hw
    simp only [List.map_append, List.map_singleton, List.flatten_append, h.idle hw,
      List.flatten_singleton]

theorem carries_clientReads (h : Carries L (BitVec.ofInt 8 client) c x) {n : Nat}
    (hM : connection B client server c (.clientReads n) = some (e, c')) :
    e = .moved ∧ Carries L (BitVec.ofInt 8 client) c' x := by
  simp only [connection] at hM
  split at hM
  · cases hM
  · rename_i hl
    rw [not_or, not_or] at hl
    have hw : x.waiting ≠ none := by
      have := hl.1
      rw [h.call] at this
      simpa using this
    obtain ⟨l', hl', hholds⟩ := turn_holds (h.client hw) hl.2.1 hl.2.2 n
    rw [hl'] at hM
    cases hM
    exact ⟨rfl, h.t_id, h.tables, h.call, h.waiting, h.requests, h.server, fun _ => hholds,
      fun h0 => absurd h0 hw⟩

theorem carries_returns (h : Carries L (BitVec.ofInt 8 client) c x)
    (hM : connection B client server c .returns = some (e, c')) :
    ∃ res, e = .returned res ∧ ∃ y,
      traffic L (BitVec.ofInt 8 client) x .returns = some (.returned res, y) ∧
        Carries L (BitVec.ofInt 8 client) c' y := by
  simp only [connection] at hM
  cases hw : x.waiting with
  | none =>
    rw [h.call, hw] at hM
    cases hM
  | some a =>
    rw [h.call, hw] at hM
    simp only [Option.map_some] at hM
    split at hM
    · rename_i hl
      obtain ⟨ms, hms, hsocket⟩ := over_holds (h.client (by simp [hw])) hl
      obtain ⟨p, ps, hrsp, hmsg, rfl⟩ := List.map_eq_cons_iff.mp hms
      have hint : B.check_integrity (p.adu L (BitVec.ofInt 8 client)) = true := L.integrity _ _ _
      rw [← hmsg, if_pos hint] at hM
      cases hM
      exact ⟨_, rfl, _, traffic_returns hw hrsp, h.t_id, h.tables, rfl, (fun _ ha => nomatch ha),
        h.requests, h.server, fun h0 => absurd rfl h0, fun _ => hsocket⟩
    · cases hM

theorem carries_fails (h : Carries L (BitVec.ofInt 8 client) c x) {code : Nat}
    (hok : c.client.msg = [])
    (hM : connection B client server c (.fails code) = some (e, c')) :
    e = .failed code ∧ ∃ y,
      traffic L (BitVec.ofInt 8 client) x (.fails code) = some (.failed code, y) ∧
        Carries L (BitVec.ofInt 8 client) c' y := by
  simp only [connection] at hM
  split at hM
  · cases hM
  · rename_i hl
    rw [not_or] at hl
    cases hM
    cases hw : x.waiting with
    | none =>
      rw [h.call, hw] at hl
      exact absurd rfl hl.1
    | some a =>
      refine ⟨rfl, _, traffic_fails hw code, h.t_id, h.tables, rfl, (fun _ ha => nomatch ha),
        h.requests, h.server, fun h0 => absurd rfl h0, fun _ => ?_⟩
      exact empty_holds (h.client (by simp [hw])) hl.2 hok

/-- A step of the bytes is a step of the messages, or is not seen. -/
theorem carries_step (hB : IsBackend B)
    (hf : B.filter_request server (BitVec.ofInt 8 client) = false)
    (h : Carries L (BitVec.ofInt 8 client) c x) {tr : List Moment} {i : ConnectionInput}
    (hok : betweenMessages tr c i)
    (hM : connection B client server c i = some (e, c')) :
    (e.seen = [] ∧ Carries L (BitVec.ofInt 8 client) c' x) ∨
      e.seen = [e] ∧ ∃ k y, traffic L (BitVec.ofInt 8 client) x k = some (e, y) ∧
        (∀ code, k = .fails code → i = .fails code) ∧ Carries L (BitVec.ofInt 8 client) c' y := by
  cases i with
  | calls r =>
    rcases carries_calls h hM with ⟨err, rfl, rfl⟩ | ⟨rfl, y, hy, hc⟩
    · exact Or.inl ⟨rfl, h⟩
    · exact Or.inr ⟨rfl, _, y, hy, by simp, hc⟩
  | serverReads n =>
    obtain ⟨rfl, hc⟩ := carries_serverReads h hM
    exact Or.inl ⟨rfl, hc⟩
  | serverFails code =>
    obtain ⟨rfl, hc⟩ := carries_serverFails h (hok.2 code rfl) hM
    exact Or.inl ⟨rfl, hc⟩
  | replies behind =>
    obtain ⟨rfl, y, hy, hc⟩ := carries_replies hB hf h hM
    exact Or.inr ⟨rfl, _, y, hy, by simp, hc⟩
  | clientReads n =>
    obtain ⟨rfl, hc⟩ := carries_clientReads h hM
    exact Or.inl ⟨rfl, hc⟩
  | returns =>
    obtain ⟨res, rfl, y, hy, hc⟩ := carries_returns h hM
    exact Or.inr ⟨rfl, _, y, hy, by simp, hc⟩
  | fails code =>
    obtain ⟨rfl, y, hy, hc⟩ := carries_fails h (hok.1 code rfl) hM
    exact Or.inr ⟨rfl, _, y, hy, by simp, hc⟩
  | sets s =>
    simp only [connection] at hM
    cases hM
    exact Or.inr ⟨rfl, .sets s, _, rfl, by simp, h.t_id, rfl, h.call, h.waiting, h.requests,
      h.server, h.client, h.idle⟩

end

/-- A call reads its own response as its outcome. -/
theorem hears_own {B : modbus_backend_t} (L : Framed B) (slave : Byte) {a : Ask}
    (ha : a.request.Allowed) (s : Store) :
    a.hears L slave ⟨a, s⟩ = a.request.outcome s :=
  Request.confirm_response L slave a.t_id ha s

/-- The messages on a line on which nothing has been sent. -/
def Traffic.start (t_id : Word) (s : Store) : Traffic := ⟨s, t_id, none, [], []⟩

theorem carries_start {B : modbus_backend_t} (L : Framed B) (slave : Byte) (t_id : Word)
    (s : Store) : Carries L slave (.start B t_id s.mapping) (.start t_id s) :=
  ⟨rfl, rfl, rfl, (fun _ h => nomatch h), (fun _ h => nomatch h), ⟨rfl, rfl⟩, fun h => absurd rfl h,
    fun _ => rfl⟩

def anyTraffic : Traffic → TrafficInput → Prop := fun _ _ => True

/-- A run of the bytes is a run of the messages. -/
theorem connection_carries {B : modbus_backend_t} (hB : IsBackend B) (L : Framed B)
    {client server : Int} (hf : B.filter_request server (BitVec.ofInt 8 client) = false)
    {t_id : Word} {s : Store} {tr : List Moment} {c : Connection}
    (h : Run (connection B client server) betweenMessages (.start B t_id s.mapping) tr c) :
    ∃ x, Run (traffic L (BitVec.ofInt 8 client)) (fun _ => anyTraffic) (.start t_id s)
      (tr.flatMap Moment.seen) x ∧ Carries L (BitVec.ofInt 8 client) c x := by
  apply h.refine (Carries L (BitVec.ofInt 8 client)) Moment.seen _ (carries_start L _ t_id s)
  intro tr c i e c' x hc hi hM
  rcases carries_step hB hf hc hi hM with ⟨he, hc'⟩ | ⟨he, k, y, hk, -, hc'⟩
  · rw [he]
    exact ⟨x, .nil, hc'⟩
  · rw [he]
    exact ⟨y, .single trivial hk, hc'⟩

end robotchess
