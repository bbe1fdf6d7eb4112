-- How a message is received, `receive_msg` in modbus.c. The length of a message is
-- found out in three steps, from the bytes that have come so far. `recv` gives as
-- many bytes as it likes, and no byte of the next message is taken.
import RobotChess.Framing
import RobotChess.Runs
import RobotChess.Rtu

open bytes framing runs

namespace robotchess

/-! ## The steps -/

inductive msg_type_t
  -- a request, on the side of the server
  | MSG_INDICATION
  -- a response, on the side of the client
  | MSG_CONFIRMATION
  deriving DecidableEq, Repr

inductive step_t
  | STEP_FUNCTION
  | STEP_META
  | STEP_DATA
  deriving DecidableEq, Repr

def compute_meta_length_after_function (function : Byte) : msg_type_t → Nat
  | .MSG_INDICATION =>
    if function ≤ FC_WRITE_SINGLE_REGISTER then 4
    else if function = FC_WRITE_MULTIPLE_COILS ∨ function = FC_WRITE_MULTIPLE_REGISTERS then 5
    else if function = FC_WRITE_AND_READ_REGISTERS then 9
    else 0
  | .MSG_CONFIRMATION =>
    if function = FC_WRITE_SINGLE_COIL ∨ function = FC_WRITE_SINGLE_REGISTER ∨
        function = FC_WRITE_MULTIPLE_COILS ∨ function = FC_WRITE_MULTIPLE_REGISTERS then 4
    else 1

def compute_data_length_after_meta (B : modbus_backend_t) (msg : List Byte)
    (msg_type : msg_type_t) : Nat :=
  let function := msg.getD B.header_length 0
  let length := match msg_type with
    | .MSG_INDICATION =>
      if function = FC_WRITE_MULTIPLE_COILS ∨ function = FC_WRITE_MULTIPLE_REGISTERS then
        (msg.getD (B.header_length + 5) 0).toNat
      else if function = FC_WRITE_AND_READ_REGISTERS then
        (msg.getD (B.header_length + 9) 0).toNat
      else 0
    | .MSG_CONFIRMATION =>
      if function ≤ FC_READ_INPUT_REGISTERS ∨ function = FC_REPORT_SLAVE_ID ∨
          function = FC_WRITE_AND_READ_REGISTERS then
        (msg.getD (B.header_length + 1) 0).toNat
      else 0
  length + B.checksum_length

/-- Lines 428 to 437, case `_STEP_META`. -/
def step_meta (B : modbus_backend_t) (msg_type : msg_type_t) (msg : List Byte) :
    Except Errno (step_t × Nat) :=
  let length_to_read := compute_data_length_after_meta B msg msg_type
  if B.max_adu_length < msg.length + length_to_read then .error .EMBBADDATA
  else .ok (.STEP_DATA, length_to_read)

/-- The switch at line 418: the next step and `length_to_read`. The first step falls through to
the second one when there is no meta information. -/
def next_step (B : modbus_backend_t) (msg_type : msg_type_t) (step : step_t) (msg : List Byte) :
    Except Errno (step_t × Nat) :=
  match step with
  | .STEP_FUNCTION =>
    let length_to_read :=
      compute_meta_length_after_function (msg.getD B.header_length 0) msg_type
    if length_to_read ≠ 0 then .ok (.STEP_META, length_to_read) else step_meta B msg_type msg
  | .STEP_META => step_meta B msg_type msg
  | .STEP_DATA => .ok (.STEP_DATA, 0)

/-! ## The loop -/

/-- What `select` and `recv` do in one turn of the loop. -/
inductive Poll
  -- one of them returns -1
  | fails (code : Nat)
  -- `recv` gives `n + 1` bytes, or as many as were asked for, or as many as there are
  | gives (n : Nat)
  deriving DecidableEq, Repr

/-- The variables of the loop at line 367, and the bytes that are still to come before the peer
closes the connection. -/
structure loop_t where
  msg : List Byte
  length_to_read : Nat
  step : step_t
  socket : List Byte
  deriving DecidableEq, Repr

def loop_t.start (B : modbus_backend_t) (socket : List Byte) : loop_t :=
  ⟨[], B.header_length + 1, .STEP_FUNCTION, socket⟩

/-- One turn of the loop: what it goes on with, or the error that it returns with the bytes that
are not taken. -/
def receive_turn (B : modbus_backend_t) (msg_type : msg_type_t) (s : loop_t) :
    Poll → Except (Errno × List Byte) loop_t
  | .fails code => .error (.system code, s.socket)
  | .gives n =>
    let bytes := s.socket.take (min (n + 1) s.length_to_read)
    let rest := s.socket.drop (min (n + 1) s.length_to_read)
    if bytes = [] then .error (.ECONNRESET, s.socket)
    else if bytes.length = s.length_to_read then
      match next_step B msg_type s.step (s.msg ++ bytes) with
      | .ok (step, length_to_read) => .ok ⟨s.msg ++ bytes, length_to_read, step, rest⟩
      | .error e => .error (e, rest)
    else .ok ⟨s.msg ++ bytes, s.length_to_read - bytes.length, s.step, rest⟩

/-- What `receive_msg` returns, and the bytes that are not taken. There is no result while it
waits. -/
def receive_loop (B : modbus_backend_t) (msg_type : msg_type_t) : List Poll → loop_t →
    Option (Except Errno (List Byte) × List Byte)
  | polls, s =>
    if s.length_to_read = 0 then
      some (if B.check_integrity s.msg then .ok s.msg else .error .EMBBADCRC, s.socket)
    else match polls with
      | [] => none
      | poll :: polls =>
        match receive_turn B msg_type s poll with
        | .ok s => receive_loop B msg_type polls s
        | .error (e, rest) => some (.error e, rest)

def receive_msg (B : modbus_backend_t) (msg_type : msg_type_t) (polls : List Poll)
    (socket : List Byte) : Option (Except Errno (List Byte) × List Byte) :=
  receive_loop B msg_type polls (.start B socket)

/-! ## The loop reads a format -/

/-- The messages of one type, stage by stage. -/
def messages (B : modbus_backend_t) (msg_type : msg_type_t) : Format Byte step_t Errno where
  first := .STEP_FUNCTION
  need := B.header_length
  next step msg := match next_step B msg_type step msg with
    | .ok (_, 0) => .done
    | .ok (step, n + 1) => .more step n
    | .error e => .refuse e

/-- Where the loop is, as a reader. -/
def loop_t.reader (s : loop_t) : Reader Byte step_t Errno :=
  match s.length_to_read with
  | 0 => .done s.msg
  | n + 1 => .reading s.msg n s.step

/-- What `receive_msg` returns for a reader that is over. -/
def outcome (B : modbus_backend_t) : Reader Byte step_t Errno → Option (Except Errno (List Byte))
  | .reading _ _ _ => none
  | .done msg => some (if B.check_integrity msg then .ok msg else .error .EMBBADCRC)
  | .refused e => some (.error e)

theorem after_eq (B : modbus_backend_t) (t : msg_type_t) (step : step_t) (msg socket : List Byte) :
    (messages B t).after step msg = match next_step B t step msg with
      | .ok (step, n) => loop_t.reader ⟨msg, n, step, socket⟩
      | .error e => .refused e := by
  unfold Format.after messages
  simp only
  split <;> rename_i h <;> split at h <;> simp_all [loop_t.reader]

theorem receive_over (B : modbus_backend_t) (t : msg_type_t) (polls : List Poll) {s : loop_t}
    (h : s.length_to_read = 0) : s.reader = .done s.msg ∧ receive_loop B t polls s =
      some (if B.check_integrity s.msg then .ok s.msg else .error .EMBBADCRC, s.socket) := by
  constructor
  · rw [loop_t.reader, h]
  · cases polls <;> rw [receive_loop, if_pos h]

theorem reader_reading {s : loop_t} (h : s.length_to_read ≠ 0) :
    s.reader = .reading s.msg (s.length_to_read - 1) s.step := by
  obtain ⟨n, hn⟩ := Nat.exists_eq_succ_of_ne_zero h
  rw [loop_t.reader, hn]
  rfl

/-- One turn of the loop is one read of the format. -/
theorem receive_turn_gives (B : modbus_backend_t) (t : msg_type_t) {s : loop_t}
    (hl : s.length_to_read ≠ 0) (n : Nat) :
    match receive_turn B t s (.gives n) with
    | .ok s' => s.socket ≠ [] ∧
      (messages B t).pull [n] s.reader s.socket = (s'.reader, s'.socket)
    | .error (e, rest) => (s.socket = [] ∧ e = .ECONNRESET) ∨ (s.socket ≠ [] ∧
      (messages B t).pull [n] s.reader s.socket = (.refused e, rest)) := by
  have hmin : min n (s.length_to_read - 1) + 1 = min (n + 1) s.length_to_read := by omega
  have hpull : (messages B t).pull [n] s.reader s.socket =
      ((messages B t).piece s.reader (s.socket.take (min (n + 1) s.length_to_read)),
        s.socket.drop (min (n + 1) s.length_to_read)) := by
    rw [reader_reading hl, ← hmin]
    rfl
  have hle : (s.socket.take (min (n + 1) s.length_to_read)).length ≤ s.length_to_read := by
    rw [List.length_take]
    omega
  have hempty : s.socket.take (min (n + 1) s.length_to_read) = [] ↔ s.socket = [] := by
    rw [List.take_eq_nil_iff, or_iff_right]
    omega
  rw [hpull, reader_reading hl]
  simp only [receive_turn, Format.piece]
  generalize s.socket.take (min (n + 1) s.length_to_read) = bytes at hle hempty ⊢
  generalize s.socket.drop (min (n + 1) s.length_to_read) = rest
  by_cases he : bytes = []
  · rw [if_pos he]
    exact Or.inl ⟨hempty.mp he, rfl⟩
  · have hs : s.socket ≠ [] := fun h => he (hempty.mpr h)
    rw [if_neg he]
    by_cases hfull : bytes.length = s.length_to_read
    · rw [if_pos hfull, if_pos (by omega), after_eq B t s.step (s.msg ++ bytes) rest]
      cases next_step B t s.step (s.msg ++ bytes) with
      | ok p => exact ⟨hs, rfl⟩
      | error e => exact Or.inr ⟨hs, rfl⟩
    · rw [if_neg hfull, if_neg (by omega)]
      refine ⟨hs, ?_⟩
      have hleft : s.length_to_read - bytes.length ≠ 0 := by omega
      have hreader := reader_reading
        (show (loop_t.mk (s.msg ++ bytes) (s.length_to_read - bytes.length) s.step
          rest).length_to_read ≠ 0 from hleft)
      rw [hreader, show s.length_to_read - 1 - bytes.length =
        s.length_to_read - bytes.length - 1 by omega]

/-- Whatever `select` and `recv` do, a result that is not theirs is the one of the format. -/
theorem receive_loop_result (B : modbus_backend_t) (t : msg_type_t) {polls : List Poll}
    {s : loop_t} {rest : List Byte} {r : Except Errno (List Byte)}
    (h : receive_loop B t polls s = some (r, rest)) :
    (∃ q, (messages B t).feed s.reader s.socket = (q, rest) ∧ outcome B q = some r) ∨
      (∃ code, r = .error (.system code)) ∨ r = .error .ECONNRESET := by
  induction polls generalizing s with
  | nil =>
    by_cases hl : s.length_to_read = 0
    · obtain ⟨hr, hx⟩ := receive_over B t [] hl
      rw [hx] at h
      cases h
      exact Or.inl ⟨.done s.msg, by rw [hr]; simp, rfl⟩
    · rw [receive_loop, if_neg hl] at h
      cases h
  | cons poll polls ih =>
    by_cases hl : s.length_to_read = 0
    · obtain ⟨hr, hx⟩ := receive_over B t (poll :: polls) hl
      rw [hx] at h
      cases h
      exact Or.inl ⟨.done s.msg, by rw [hr]; simp, rfl⟩
    · rw [receive_loop, if_neg hl] at h
      cases poll with
      | fails code =>
        cases h
        exact Or.inr (Or.inl ⟨code, rfl⟩)
      | gives n =>
        have hturn := receive_turn_gives B t hl n
        rw [← (messages B t).feed_pull [n]]
        cases hx : receive_turn B t s (.gives n) with
        | ok s' =>
          rw [hx] at h hturn
          rw [hturn.2]
          exact ih h
        | error p =>
          obtain ⟨e, left⟩ := p
          rw [hx] at h hturn
          cases h
          rcases hturn with ⟨-, rfl⟩ | ⟨-, hpull⟩
          · exact Or.inr (Or.inr rfl)
          · rw [hpull]
            exact Or.inl ⟨.refused e, by simp, rfl⟩

/-- When nothing fails, the loop ends where the reads of the format end. -/
theorem receive_loop_pull (B : modbus_backend_t) (t : msg_type_t) {ns : List Nat} {s : loop_t}
    {rest : List Byte} {q : Reader Byte step_t Errno} (hq : q.Over)
    (h : (messages B t).pull ns s.reader s.socket = (q, rest)) :
    receive_loop B t (ns.map .gives) s = (outcome B q).map fun r => (r, rest) := by
  induction ns generalizing s with
  | nil =>
    by_cases hl : s.length_to_read = 0
    · obtain ⟨hr, hx⟩ := receive_over B t [] hl
      cases h
      rw [hr, List.map_nil, hx]
      rfl
    · cases h
      rw [reader_reading hl] at hq
      exact hq.elim
  | cons n ns ih =>
    by_cases hl : s.length_to_read = 0
    · obtain ⟨hr, hx⟩ := receive_over B t ((n :: ns).map .gives) hl
      have hover : s.reader.Over := by rw [hr]; trivial
      rw [(messages B t).pull_over hover] at h
      cases h
      rw [hr, hx]
      rfl
    · rw [List.map_cons, receive_loop, if_neg hl]
      have hturn := receive_turn_gives B t hl n
      rw [Format.pull_cons] at h
      cases hx : receive_turn B t s (.gives n) with
      | ok s' =>
        rw [hx] at hturn
        rw [hturn.2] at h
        exact ih h
      | error p =>
        obtain ⟨e, left⟩ := p
        rw [hx] at hturn
        rcases hturn with ⟨hs, -⟩ | ⟨-, hpull⟩
        · -- With no bytes left the reader stays where it is.
          have hfeed := (messages B t).feed_pull (n :: ns) s.reader s.socket
          rw [Format.pull_cons, h, (messages B t).feed_over hq, hs, Format.feed_nil,
            reader_reading hl] at hfeed
          cases hfeed
          exact hq.elim
        · have hover : Reader.Over (.refused e : Reader Byte step_t Errno) := trivial
          rw [hpull] at h
          simp only [(messages B t).pull_over hover] at h
          cases h
          rfl

/-- A message at the head of the stream is received as it is, however `recv` cuts it. -/
theorem receive_of_feed (B : modbus_backend_t) (t : msg_type_t) {ns : List Nat}
    {socket rest : List Byte} {q : Reader Byte step_t Errno} (hq : q.Over)
    (hn : socket.length ≤ ns.length + rest.length)
    (h : (messages B t).feed (messages B t).start socket = (q, rest)) :
    receive_msg B t (ns.map .gives) socket = (outcome B q).map fun r => (r, rest) := by
  apply receive_loop_pull B t hq
  have hstart : (loop_t.start B socket).reader = (messages B t).start := rfl
  have hsocket : (loop_t.start B socket).socket = socket := rfl
  rw [hstart, hsocket, (messages B t).pull_eq_feed ns _ _ (by rw [h]; exact hq)
    (by rw [h]; exact hn), h]

/-! ## The length of a message -/

/-- The counts that the data length is computed from have arrived. -/
theorem compute_data_length_append (B : modbus_backend_t) (t : msg_type_t) (msg rest : List Byte)
    (h : B.header_length + 1 +
      compute_meta_length_after_function (msg.getD B.header_length 0) t ≤ msg.length) :
    compute_data_length_after_meta B (msg ++ rest) t =
      compute_data_length_after_meta B msg t := by
  have h0 := getD_before (show B.header_length < msg.length by omega) rest
  unfold compute_data_length_after_meta
  simp only [h0]
  cases t with
  | MSG_INDICATION =>
    simp only
    split
    · rename_i hf
      have hm : compute_meta_length_after_function (msg.getD B.header_length 0)
          .MSG_INDICATION = 5 := by
        rcases hf with hf | hf <;> rw [hf] <;> decide
      rw [getD_before (by omega)]
    · split
      · rename_i hf
        have hm : compute_meta_length_after_function (msg.getD B.header_length 0)
            .MSG_INDICATION = 9 := by
          rw [hf]
          decide
        rw [getD_before (by omega)]
      · rfl
  | MSG_CONFIRMATION =>
    simp only
    split
    · have hm : 1 ≤ compute_meta_length_after_function (msg.getD B.header_length 0)
          .MSG_CONFIRMATION := by
        simp only [compute_meta_length_after_function]
        split <;> decide
      rw [getD_before (by omega)]
    · rfl

/-- A step that has ended got all the bytes that it asked for. -/
theorem feed_loop_done {B : modbus_backend_t} {t : msg_type_t} {got socket c msg : List Byte}
    {n : Nat} {step : step_t}
    (h : (messages B t).feed (loop_t.reader ⟨got, n, step, socket⟩) c = (.done msg, [])) :
    n ≤ c.length := by
  by_contra hlt
  obtain ⟨k, rfl⟩ := Nat.exists_eq_add_of_lt (Nat.lt_of_not_le hlt)
  change (messages B t).feed (.reading got (c.length + k) step) c = _ at h
  rw [← List.append_nil c, Format.feed_piece _ _ _ _ _ _ (by rw [List.append_nil]; omega),
    List.append_nil, Format.piece, if_neg (by omega), Format.feed_nil] at h
  cases h

/-- The last step takes the bytes that it was told. -/
theorem feed_data (t : msg_type_t) (msg c bs socket : List Byte) {n : Nat} (hn : c.length = n) :
    (messages B t).feed (loop_t.reader ⟨msg, n, .STEP_DATA, socket⟩) (c ++ bs) =
      (.done (msg ++ c), bs) := by
  cases n with
  | zero =>
    obtain rfl := List.length_eq_zero_iff.mp hn
    simp [loop_t.reader]
  | succ n =>
    change (messages B t).feed (.reading msg n .STEP_DATA) (c ++ bs) = _
    rw [Format.feed_stage _ _ _ _ _ _ hn, after_eq B t _ _ socket]
    exact (messages B t).feed_done _ _

theorem feed_step_meta_done {B : modbus_backend_t} {t : msg_type_t} {got c msg : List Byte}
    (h : (messages B t).feed (match step_meta B t got with
      | .ok (step, n) => loop_t.reader ⟨got, n, step, []⟩
      | .error e => .refused e) c = (.done msg, [])) :
    got ++ c = msg ∧ c.length = compute_data_length_after_meta B got t := by
  unfold step_meta at h
  simp only at h
  split at h
  · rename_i hx
    split at hx
    · cases hx
    · cases hx
      have hle := feed_loop_done h
      have hc := List.take_append_drop (compute_data_length_after_meta B got t) c
      have hn : (c.take (compute_data_length_after_meta B got t)).length =
          compute_data_length_after_meta B got t := List.length_take_of_le hle
      rw [← hc, feed_data t _ _ _ _ hn] at h
      simp only [Prod.mk.injEq, Reader.done.injEq] at h
      obtain ⟨hmsg, hrest⟩ := h
      rw [hrest, List.append_nil] at hc
      exact ⟨by rw [← hmsg, hc], by rw [← hc, hn]⟩
  · cases c <;> cases h

/-- A message has the length that its function code and its counts say. -/
theorem length_of_accepts {B : modbus_backend_t} {t : msg_type_t} {msg : List Byte}
    (h : (messages B t).Accepts msg) : msg.length = B.header_length + 1 +
      compute_meta_length_after_function (msg.getD B.header_length 0) t +
        compute_data_length_after_meta B msg t := by
  change (messages B t).feed (loop_t.reader ⟨[], B.header_length + 1, .STEP_FUNCTION, []⟩) msg =
    _ at h
  have hle := feed_loop_done h
  obtain ⟨a, b, rfl, ha⟩ : ∃ a b, msg = a ++ b ∧ a.length = B.header_length + 1 :=
    ⟨_, _, (List.take_append_drop _ msg).symm, List.length_take_of_le hle⟩
  change (messages B t).feed (.reading [] B.header_length .STEP_FUNCTION) _ = _ at h
  rw [Format.feed_stage _ _ _ _ _ _ ha, List.nil_append, after_eq B t _ _ [], next_step] at h
  rw [getD_before (by omega) b]
  by_cases hm : compute_meta_length_after_function (a.getD B.header_length 0) t = 0
  · simp only [hm, ne_eq, not_true_eq_false, if_false] at h
    obtain ⟨-, hb⟩ := feed_step_meta_done h
    rw [compute_data_length_append B t a b (by omega), List.length_append, hb]
    omega
  · simp only [ne_eq, hm, not_false_eq_true, if_true] at h
    have hle := feed_loop_done h
    obtain ⟨c, d, rfl, hc⟩ : ∃ c d, b = c ++ d ∧
        c.length = compute_meta_length_after_function (a.getD B.header_length 0) t :=
      ⟨_, _, (List.take_append_drop _ b).symm, List.length_take_of_le hle⟩
    rw [reader_reading hm] at h
    rw [Format.feed_stage _ _ _ _ _ _ (by simp only; omega), after_eq B t _ _ [], next_step] at h
    obtain ⟨-, hd⟩ := feed_step_meta_done h
    simp only at hd
    rw [← List.append_assoc, compute_data_length_append B t (a ++ c) d, List.length_append,
      List.length_append, hd]
    · omega
    · rw [getD_before (by omega) c, List.length_append]
      omega

/-! ## Bounds -/

theorem meta_length_le (function : Byte) (t : msg_type_t) :
    compute_meta_length_after_function function t ≤ 9 := by
  cases t <;> simp only [compute_meta_length_after_function] <;> repeat' split
  all_goals decide

/-- The most bytes that `msg` holds at the end of a step. -/
def stepSize (B : modbus_backend_t) : step_t → Nat
  | .STEP_FUNCTION => B.header_length + 1
  | .STEP_META => B.header_length + 10
  | .STEP_DATA => B.max_adu_length

theorem step_meta_le {B : modbus_backend_t} {t : msg_type_t} {msg : List Byte} {step : step_t}
    {n : Nat} (h : step_meta B t msg = .ok (step, n)) :
    step = .STEP_DATA ∧ msg.length + n ≤ B.max_adu_length := by
  unfold step_meta at h
  simp only at h
  split at h
  · cases h
  · cases h
    exact ⟨rfl, by omega⟩

theorem messages_bounded (B : modbus_backend_t) (t : msg_type_t)
    (hB : B.header_length + 10 ≤ B.max_adu_length) :
    (messages B t).Bounded (stepSize B) B.max_adu_length := by
  refine ⟨Nat.le_refl _, fun s got s' n hg h => ?_, fun s => ?_⟩
  · simp only [messages] at h
    split at h <;> cases h
    rename_i hn
    have hmeta : step_meta B t got = .ok (s', n + 1) → got.length + n + 1 ≤ stepSize B s' := by
      intro hm
      obtain ⟨rfl, hle⟩ := step_meta_le hm
      exact hle
    cases s with
    | STEP_FUNCTION =>
      simp only [next_step] at hn
      split at hn
      · rename_i hl
        simp only [Except.ok.injEq, Prod.mk.injEq] at hn
        obtain ⟨rfl, hn⟩ := hn
        have := meta_length_le (got.getD B.header_length 0) t
        simp only [stepSize] at hg ⊢
        omega
      · exact hmeta hn
    | STEP_META => exact hmeta hn
    | STEP_DATA => cases hn
  · cases s <;> simp [stepSize] <;> omega

/-- The loop as a machine: the turns that do not return. -/
def receiver (B : modbus_backend_t) (t : msg_type_t) : Machine loop_t Poll Poll := fun s poll =>
  if s.length_to_read = 0 then none
  else match receive_turn B t s poll with
    | .ok s' => some (poll, s')
    | .error _ => none

def anyPoll : Guard loop_t Poll Poll := fun _ _ _ => True

/-- A turn that goes on has put some bytes of the stream behind the message. -/
theorem receive_turn_ok {B : modbus_backend_t} {t : msg_type_t} {s s' : loop_t} {poll : Poll}
    (h : receive_turn B t s poll = .ok s') :
    ∃ bytes, bytes ≠ [] ∧ s'.msg = s.msg ++ bytes ∧ s.socket = bytes ++ s'.socket := by
  cases poll with
  | fails code => cases h
  | gives n =>
    simp only [receive_turn] at h
    have hsplit := (List.take_append_drop (min (n + 1) s.length_to_read) s.socket).symm
    generalize s.socket.take (min (n + 1) s.length_to_read) = bytes at h hsplit
    generalize s.socket.drop (min (n + 1) s.length_to_read) = rest at h hsplit
    by_cases he : bytes = []
    · rw [if_pos he] at h
      cases h
    · rw [if_neg he] at h
      by_cases hfull : bytes.length = s.length_to_read
      · rw [if_pos hfull] at h
        split at h
        · cases h
          exact ⟨bytes, he, rfl, hsplit⟩
        · cases h
      · rw [if_neg hfull] at h
        cases h
        exact ⟨bytes, he, rfl, hsplit⟩

theorem receive_turn_within {B : modbus_backend_t} {t : msg_type_t} {s s' : loop_t} {poll : Poll}
    (hB : B.header_length + 10 ≤ B.max_adu_length) (hl : s.length_to_read ≠ 0)
    (hw : s.reader.Within (stepSize B) B.max_adu_length) (h : receive_turn B t s poll = .ok s') :
    s'.reader.Within (stepSize B) B.max_adu_length := by
  cases poll with
  | fails code => cases h
  | gives n =>
    have hturn := receive_turn_gives B t hl n
    rw [h] at hturn
    have := (messages_bounded B t hB).pull [n] hw s.socket
    rwa [hturn.2] at this

/-- The bytes that are there and the ones that `recv` is asked for fit. -/
theorem within_le {B : modbus_backend_t} {s : loop_t}
    (hB : B.header_length + 10 ≤ B.max_adu_length)
    (hw : s.reader.Within (stepSize B) B.max_adu_length) :
    s.msg.length + s.length_to_read ≤ B.max_adu_length := by
  by_cases hl : s.length_to_read = 0
  · rw [(receive_over B .MSG_INDICATION [] hl).1] at hw
    simp only [Reader.Within] at hw
    omega
  · rw [reader_reading hl] at hw
    have := (messages_bounded B .MSG_INDICATION hB).size_le s.step
    simp only [Reader.Within] at hw
    omega

/-- A turn that returns an error has taken some more bytes, or none. -/
theorem receive_turn_error {B : modbus_backend_t} {t : msg_type_t} {s : loop_t} {poll : Poll}
    {e : Errno} {rest : List Byte} (h : receive_turn B t s poll = .error (e, rest)) :
    ∃ bytes, s.socket = bytes ++ rest ∧ bytes.length ≤ s.length_to_read := by
  cases poll with
  | fails code =>
    cases h
    exact ⟨[], rfl, Nat.zero_le _⟩
  | gives n =>
    simp only [receive_turn] at h
    have hsplit := (List.take_append_drop (min (n + 1) s.length_to_read) s.socket).symm
    have hle : (s.socket.take (min (n + 1) s.length_to_read)).length ≤ s.length_to_read := by
      rw [List.length_take]
      omega
    generalize s.socket.take (min (n + 1) s.length_to_read) = bytes at h hsplit hle
    generalize s.socket.drop (min (n + 1) s.length_to_read) = left at h hsplit
    by_cases he : bytes = []
    · rw [if_pos he] at h
      cases h
      exact ⟨[], rfl, Nat.zero_le _⟩
    · rw [if_neg he] at h
      split at h
      · split at h
        · cases h
        · cases h
          exact ⟨bytes, hsplit, hle⟩
      · cases h

theorem receive_over_takes {B : modbus_backend_t} {t : msg_type_t} {polls : List Poll} {s : loop_t}
    {res : Except Errno (List Byte)} {rest : List Byte} (hl : s.length_to_read = 0)
    (h : receive_loop B t polls s = some (res, rest)) :
    s.socket = rest ∧ ∀ msg, res = .ok msg → msg = s.msg := by
  rw [(receive_over B t polls hl).2] at h
  cases h
  refine ⟨rfl, fun msg hmsg => ?_⟩
  split at hmsg
  · cases hmsg
    rfl
  · cases hmsg

/-- What the loop has taken when it returns: a success returns all of it. -/
theorem receive_loop_takes {B : modbus_backend_t} {t : msg_type_t} {polls : List Poll} {s : loop_t}
    {res : Except Errno (List Byte)} {rest : List Byte}
    (hB : B.header_length + 10 ≤ B.max_adu_length)
    (hw : s.reader.Within (stepSize B) B.max_adu_length)
    (h : receive_loop B t polls s = some (res, rest)) :
    ∃ bytes, s.socket = bytes ++ rest ∧ (s.msg ++ bytes).length ≤ B.max_adu_length ∧
      ∀ msg, res = .ok msg → msg = s.msg ++ bytes := by
  induction polls generalizing s with
  | nil =>
    have hle := within_le hB hw
    by_cases hl : s.length_to_read = 0
    · obtain ⟨hs, hok⟩ := receive_over_takes hl h
      exact ⟨[], hs, by rw [List.append_nil]; omega, by rwa [List.append_nil]⟩
    · rw [receive_loop, if_neg hl] at h
      cases h
  | cons poll polls ih =>
    have hle := within_le hB hw
    by_cases hl : s.length_to_read = 0
    · obtain ⟨hs, hok⟩ := receive_over_takes hl h
      exact ⟨[], hs, by rw [List.append_nil]; omega, by rwa [List.append_nil]⟩
    · rw [receive_loop, if_neg hl] at h
      cases hx : receive_turn B t s poll with
      | error p =>
        obtain ⟨e, left⟩ := p
        rw [hx] at h
        cases h
        obtain ⟨bytes, hsplit, hlen⟩ := receive_turn_error hx
        exact ⟨bytes, hsplit, by rw [List.length_append]; omega, nofun⟩
      | ok s' =>
        rw [hx] at h
        obtain ⟨bytes, -, hmsg, hsplit⟩ := receive_turn_ok hx
        obtain ⟨more, hmore, hlen, hok⟩ := ih (receive_turn_within hB hl hw hx) h
        rw [hmsg, List.append_assoc] at hlen hok
        exact ⟨bytes ++ more, by rw [hsplit, hmore, List.append_assoc], hlen, hok⟩

theorem receive_loop_ends {B : modbus_backend_t} {t : msg_type_t} {polls : List Poll} {s : loop_t}
    (hB : B.header_length + 10 ≤ B.max_adu_length)
    (hw : s.reader.Within (stepSize B) B.max_adu_length)
    (hp : B.max_adu_length ≤ s.msg.length + polls.length) :
    (receive_loop B t polls s).isSome := by
  induction polls generalizing s with
  | nil =>
    have := within_le hB hw
    simp only [List.length_nil] at hp
    rw [receive_loop, if_pos (by omega)]
    rfl
  | cons poll polls ih =>
    by_cases hl : s.length_to_read = 0
    · rw [(receive_over B t _ hl).2]
      rfl
    · rw [receive_loop, if_neg hl]
      cases hx : receive_turn B t s poll with
      | error p => rfl
      | ok s' =>
        obtain ⟨bytes, hne, hmsg, -⟩ := receive_turn_ok hx
        have := List.length_pos_iff.mpr hne
        apply ih (receive_turn_within hB hl hw hx)
        rw [hmsg, List.length_append]
        rw [List.length_cons] at hp
        omega

/-- What `receive_msg` returns is a message at the head of the stream. -/
theorem accepts_of_receive {B : modbus_backend_t} {t : msg_type_t} {polls : List Poll}
    {socket msg rest : List Byte} (h : receive_msg B t polls socket = some (.ok msg, rest)) :
    (messages B t).Accepts msg ∧ B.check_integrity msg = true ∧ socket = msg ++ rest := by
  rcases receive_loop_result B t h with ⟨q, hq, ho⟩ | ⟨code, hc⟩ | hc
  · cases q with
    | reading => cases ho
    | refused e => cases ho
    | done m =>
      simp only [outcome, Option.some.injEq] at ho
      split at ho
      · rename_i hint
        cases ho
        obtain ⟨hacc, hsplit⟩ := Format.accepts_of_feed hq
        exact ⟨hacc, hint, hsplit⟩
      · cases ho
  · cases hc
  · cases hc

/-- A sound message is received into whatever pieces `recv` cuts the stream. -/
theorem receive_of_accepts {B : modbus_backend_t} {t : msg_type_t} {msg : List Byte}
    (hacc : (messages B t).Accepts msg) (hint : B.check_integrity msg = true)
    (more : List Byte) {ns : List Nat} (hn : msg.length ≤ ns.length) :
    receive_msg B t (ns.map .gives) (msg ++ more) = some (.ok msg, more) := by
  rw [receive_of_feed B t (by trivial) (by rw [List.length_append]; omega) (hacc.feed more)]
  simp [outcome, hint]

/-! ## The laws -/

/-- A received message is the head of the stream, and the rest of the stream is left. Whatever
follows it, and into whatever pieces `recv` cuts it, it is received as the same message. -/
theorem a_message_ends_where_its_bytes_say (B : modbus_backend_t) (t : msg_type_t)
    (polls : List Poll) (socket msg rest : List Byte)
    (h : receive_msg B t polls socket = some (.ok msg, rest)) :
    socket = msg ++ rest ∧ ∀ (more : List Byte) (ns : List Nat), msg.length ≤ ns.length →
      receive_msg B t (ns.map .gives) (msg ++ more) = some (.ok msg, more) := by
  obtain ⟨hacc, hint, hsplit⟩ := accepts_of_receive h
  exact ⟨hsplit, fun more ns hn => receive_of_accepts hacc hint more hn⟩

/-- The response to a write, and the first bytes of the next response behind it. -/
theorem a_response_ends_before_the_next_one :
    ([0, 1, 0, 0, 0, 6, 255, 6, 2, 28, 83, 83, 0, 2] : List Byte) =
        [0, 1, 0, 0, 0, 6, 255, 6, 2, 28, 83, 83] ++ [0, 2] ∧
      ∀ (more : List Byte) (ns : List Nat), 12 ≤ ns.length →
        receive_msg modbus_tcp_backend .MSG_CONFIRMATION (ns.map .gives)
            ([0, 1, 0, 0, 0, 6, 255, 6, 2, 28, 83, 83] ++ more) =
          some (.ok [0, 1, 0, 0, 0, 6, 255, 6, 2, 28, 83, 83], more) :=
  a_message_ends_where_its_bytes_say modbus_tcp_backend .MSG_CONFIRMATION
    [.gives 2, .gives 100, .gives 0, .gives 100] _ _ _ (by decide)

theorem IsBackend.room {B : modbus_backend_t} (hB : IsBackend B) :
    B.header_length + 10 ≤ B.max_adu_length ∧ B.max_adu_length ≤ MAX_MESSAGE_LENGTH := by
  rcases hB with rfl | rfl <;> decide

/-- Whatever the peer sends and however `select` and `recv` behave: the loop never asks for bytes
past the end of its buffer, and while it goes on it has every byte that it has taken off the
stream. It returns after at most `max_adu_length` turns. What it has taken then is the head of the
stream, at most `max_adu_length` bytes: a success returns all of them, and an error drops them. -/
theorem the_receive_buffer_is_never_overrun (B : modbus_backend_t) (hB : IsBackend B)
    (t : msg_type_t) (socket : List Byte) :
    (∀ tr s, Run (receiver B t) anyPoll (.start B socket) tr s →
      s.msg.length + s.length_to_read ≤ MAX_MESSAGE_LENGTH ∧ s.msg ++ s.socket = socket) ∧
    (∀ polls res rest, receive_msg B t polls socket = some (res, rest) →
      ∃ taken, socket = taken ++ rest ∧ taken.length ≤ B.max_adu_length ∧
        ∀ msg, res = .ok msg → msg = taken) ∧
    ∀ polls : List Poll, B.max_adu_length ≤ polls.length →
      (receive_msg B t polls socket).isSome := by
  obtain ⟨hroom, hmax⟩ := hB.room
  have hstart : (loop_t.start B socket).reader.Within (stepSize B) B.max_adu_length :=
    (messages_bounded B t hroom).start
  refine ⟨fun tr s h => ?_, fun polls res rest h => receive_loop_takes hroom hstart h,
    fun polls hp => ?_⟩
  · have hI : s.reader.Within (stepSize B) B.max_adu_length ∧ s.msg ++ s.socket = socket := by
      apply h.invariant (fun _ s => s.reader.Within (stepSize B) B.max_adu_length ∧
        s.msg ++ s.socket = socket) ⟨hstart, rfl⟩
      rintro tr s poll e s' ⟨hw, hs⟩ - hM
      simp only [receiver] at hM
      split at hM
      · cases hM
      · rename_i hl
        split at hM
        · rename_i hx
          cases hM
          obtain ⟨bytes, -, hmsg, hsplit⟩ := receive_turn_ok hx
          refine ⟨receive_turn_within hroom hl hw hx, ?_⟩
          rw [hmsg, List.append_assoc, ← hsplit, hs]
        · cases hM
    exact ⟨Nat.le_trans (within_le hroom hI.1) hmax, hI.2⟩
  · apply receive_loop_ends hroom hstart
    rw [loop_t.start, List.length_nil]
    omega

/-- Seven bytes of a serial response come before a time-out, and they are dropped. -/
theorem the_serial_receive_buffer_is_never_overrun :
    receive_msg modbus_rtu_backend .MSG_CONFIRMATION [.gives 1, .gives 0, .gives 3, .fails 110]
        [1, 3, 8, 83, 83, 0, 0] = some (.error (.system 110), []) ∧
    (∃ taken : List Byte, [1, 3, 8, 83, 83, 0, 0] = taken ++ [] ∧ taken.length ≤ 256) ∧
    ∀ polls : List Poll, 256 ≤ polls.length → (receive_msg modbus_rtu_backend .MSG_CONFIRMATION
      polls [1, 3, 8, 83, 83, 0, 0]).isSome := by
  have hread : receive_msg modbus_rtu_backend .MSG_CONFIRMATION
      [.gives 1, .gives 0, .gives 3, .fails 110] [1, 3, 8, 83, 83, 0, 0] =
        some (.error (.system 110), []) := by decide
  obtain ⟨-, htakes, hends⟩ := the_receive_buffer_is_never_overrun modbus_rtu_backend (Or.inr rfl)
    .MSG_CONFIRMATION [1, 3, 8, 83, 83, 0, 0]
  obtain ⟨taken, hsplit, hlen, -⟩ := htakes _ _ _ hread
  exact ⟨hread, ⟨taken, hsplit, hlen⟩, hends⟩

end robotchess
