-- What the server does whatever messages arrive. The tables stay those of a store, no
-- response outgrows its buffer, and a write with too few bytes stores what stands
-- behind it in the buffer.
import RobotChess.Server

open bytes framing runs tables

namespace robotchess

/-! ## Sizes -/

theorem io_status_loop_length (bs : List Bool) :
    (io_status_loop 0 0 (bs.map flag)).length = byteCount bs.length := by
  have := (io_status_loop_packed 0 0 bs (by decide) (by simp)).length
  rwa [Nat.zero_add] at this

theorem length_build_response_basis {B : modbus_backend_t} (hB : IsBackend B) (sft : sft_t) :
    (B.build_response_basis sft).length = B.header_length + 1 := by
  rcases hB with rfl | rfl <;> rfl

theorem length_send_msg_pre {B : modbus_backend_t} (hB : IsBackend B) (msg : List Byte) :
    (B.send_msg_pre msg).length = msg.length + B.checksum_length := by
  rcases hB with rfl | rfl
  · simp [modbus_tcp_backend, modbus_tcp_send_msg_pre]
  · simp [modbus_rtu_backend, modbus_rtu_send_msg_pre]

theorem prepare_length {B : modbus_backend_t} (hB : IsBackend B) (req : Nat → Byte) (n : Nat) :
    (B.prepare_response_tid req n).2 = n - B.checksum_length := by
  rcases hB with rfl | rfl <;> rfl

/-- A PDU has at most 253 bytes. -/
theorem IsBackend.pdu_room {B : modbus_backend_t} (hB : IsBackend B) :
    B.header_length + 253 + B.checksum_length = B.max_adu_length := by
  rcases hB with rfl | rfl <;> rfl

/-- A response is as long as the request, or its PDU has at most 252 bytes. -/
theorem length_served {B : modbus_backend_t} (hB : IsBackend B) (sft : sft_t) (req : Nat → Byte)
    (n : Nat) (s : Store) (op : Op) : (served B sft req n s op).1.length = n ∨
      (served B sft req n s op).1.length ≤ B.header_length + 252 := by
  have hbasis := length_build_response_basis hB
  have hbits : ∀ bs : List Bool, bs.length ≤ 2000 →
      (respond B sft req n op (.bits bs)).length ≤ B.header_length + 252 := by
    intro bs hbs
    have := byteCount_le (show bs.length ≤ 8 * 250 by omega)
    simp only [respond, List.length_append, hbasis, io_status_loop_length,
      List.length_singleton]
    omega
  have hwords : ∀ ws : List Word, ws.length ≤ 125 →
      (respond B sft req n op (.words ws)).length ≤ B.header_length + 252 := by
    intro ws hws
    simp only [respond, List.length_append, hbasis, length_ofWords, List.length_singleton]
    omega
  have hwritten : (respond B sft req n op .written).length = n ∨
      (respond B sft req n op .written).length ≤ B.header_length + 252 := by
    simp only [respond]
    split
    · simp
    · right
      simp only [List.length_append, hbasis, List.length_map, List.length_range]
      omega
  have hslice : ∀ {α : Type} (tab : List α) (i k : Nat), (slice tab i k).length ≤ k := by
    intro α tab i k
    exact List.length_take_le _ _
  unfold served
  cases hx : op.serve s with
  | error r =>
    right
    simp only [response_exception, List.length_append, hbasis, List.length_singleton]
    omega
  | ok p =>
    obtain ⟨a, s'⟩ := p
    cases Op.serves hx with
    | readBits hmax => exact Or.inr (hbits _ (Nat.le_trans (hslice _ _ _) hmax))
    | readInputBits hmax => exact Or.inr (hbits _ (Nat.le_trans (hslice _ _ _) hmax))
    | readRegisters hmax => exact Or.inr (hwords _ (Nat.le_trans (hslice _ _ _) hmax))
    | readInputRegisters hmax => exact Or.inr (hwords _ (Nat.le_trans (hslice _ _ _) hmax))
    | writeAndRead hmax => exact Or.inr (hwords _ (Nat.le_trans (hslice _ _ _) hmax))
    | writeBit => exact hwritten
    | writeRegister => exact hwritten
    | writeBits => exact hwritten
    | writeRegisters => exact hwritten
    | reportSlaveId =>
      right
      simp only [respond, List.length_append, hbasis, List.length_singleton, slave_id]
      simp

/-! ## Runs of the server -/

/-- The server as a machine. A message is received into a buffer with some bytes behind it, and
`modbus_reply` answers it. -/
def server (ctx : modbus_t) :
    Machine modbus_mapping_t (List Byte × (Nat → Byte)) (List Byte × Reply) :=
  fun m (msg, behind) =>
    let (reply, m') := modbus_reply ctx (overlay msg behind) msg.length m
    some ((msg, reply), m')

/-- The messages are ones that `modbus_receive` may return. -/
def received (B : modbus_backend_t) :
    Guard modbus_mapping_t (List Byte × (Nat → Byte)) (List Byte × Reply) :=
  fun _ _ (msg, _) => (messages B .MSG_INDICATION).Accepts msg

/-- What `modbus_reply` does to the tables, and how long its response is. -/
theorem modbus_reply_keeps {B : modbus_backend_t} (hB : IsBackend B) (slave : Int) (s : Store)
    (req : Nat → Byte) {n : Nat} (hc : B.checksum_length ≤ n) (hn : n ≤ B.max_adu_length) :
    (∃ op : Option Op, (modbus_reply ⟨slave, B⟩ req n s.mapping).2 =
      (op.elim s fun op => op.carry s).mapping) ∧
    ∀ rsp, (modbus_reply ⟨slave, B⟩ req n s.mapping).1 = .sent rsp →
      rsp.length ≤ B.max_adu_length := by
  have hroom := hB.pdu_room
  have hexc : ∀ sft code, (B.send_msg_pre (response_exception B sft code)).length ≤
      B.max_adu_length := by
    intro sft code
    rw [length_send_msg_pre hB, response_exception, List.length_append,
      length_build_response_basis hB, List.length_singleton]
    omega
  rw [modbus_reply_eq]
  simp only
  split
  · exact ⟨⟨none, rfl⟩, fun rsp h => by cases h⟩
  · rcases Op.ofRequest fun k => req (B.header_length + k) with _ | _ | op
    · exact ⟨⟨none, rfl⟩, fun rsp h => by cases h⟩
    · refine ⟨⟨none, rfl⟩, fun rsp h => ?_⟩
      cases h
      exact hexc _ _
    · refine ⟨⟨some op, rfl⟩, fun rsp h => ?_⟩
      cases h
      have hlen := length_served hB ⟨req (B.header_length - 1), req B.header_length,
        (B.prepare_response_tid req n).1⟩ req (B.prepare_response_tid req n).2 s op
      rw [prepare_length hB] at hlen
      rw [length_send_msg_pre hB, prepare_length hB]
      omega

/-- Whatever messages arrive, the tables are those of a store that served at most one operation
for each of them, and no response is longer than its buffer. -/
theorem whatever_arrives_the_server_is_a_store (B : modbus_backend_t) (hB : IsBackend B)
    (slave : Int) (s : Store) (tr : List (List Byte × Reply)) (m : modbus_mapping_t)
    (h : Run (server ⟨slave, B⟩) (received B) s.mapping tr m) :
    (∃ ops : List Op, ops.length ≤ tr.length ∧ m = (ops.foldl Op.carry s).mapping ∧
      s.Keeps (ops.foldl Op.carry s)) ∧
    ∀ msg rsp, (msg, .sent rsp) ∈ tr → rsp.length ≤ MAX_MESSAGE_LENGTH := by
  apply h.invariant (fun tr m => (∃ ops : List Op, ops.length ≤ tr.length ∧
      m = (ops.foldl Op.carry s).mapping ∧ s.Keeps (ops.foldl Op.carry s)) ∧
    ∀ msg rsp, (msg, Reply.sent rsp) ∈ tr → rsp.length ≤ MAX_MESSAGE_LENGTH)
    ⟨⟨[], Nat.le_refl _, rfl, .rfl⟩, by simp⟩
  rintro tr m ⟨msg, behind⟩ e m' ⟨⟨ops, hops, rfl, hk⟩, hsent⟩ hacc hM
  simp only [server, Option.some.injEq, Prod.mk.injEq] at hM
  obtain ⟨rfl, rfl⟩ := hM
  have hmax : msg.length ≤ B.max_adu_length :=
    Format.Accepts.length_le (messages_bounded B .MSG_INDICATION hB.room.1) hacc
  have hc : B.checksum_length ≤ msg.length := by
    have : B.checksum_length ≤ compute_data_length_after_meta B msg .MSG_INDICATION :=
      Nat.le_add_left _ _
    rw [length_of_accepts hacc]
    omega
  obtain ⟨⟨op, hop⟩, hrsp⟩ :=
    modbus_reply_keeps hB slave (ops.foldl Op.carry s) (overlay msg behind) hc hmax
  constructor
  · cases op with
    | none => exact ⟨ops, by rw [List.length_append]; omega, hop, hk⟩
    | some op =>
      refine ⟨ops ++ [op], ?_, ?_, ?_⟩
      · simp only [List.length_append, List.length_singleton]
        omega
      · rw [hop, List.foldl_append]
        rfl
      · rw [List.foldl_append]
        exact hk.trans (op.carry_keeps _)
  · intro msg' rsp hmem
    rcases List.mem_append.mp hmem with hmem | hmem
    · exact hsent msg' rsp hmem
    · rw [List.mem_singleton] at hmem
      simp only [Prod.mk.injEq] at hmem
      exact Nat.le_trans (hrsp rsp hmem.2.symm) hB.room.2

/-- A server of two registers gets a write to the second one. -/
theorem a_server_of_two_registers_is_a_store :
    (∃ ops : List Op, ops.length ≤ 1 ∧
      (⟨[], [], [], [0, 0x5353]⟩ : modbus_mapping_t) =
        (ops.foldl Op.carry ⟨[], [], [], [0, 0]⟩).mapping ∧
      Store.Keeps ⟨[], [], [], [0, 0]⟩ (ops.foldl Op.carry ⟨[], [], [], [0, 0]⟩)) ∧
    ∀ msg rsp, (msg, .sent rsp) ∈ [(([0, 1, 0, 0, 0, 6, 255, 6, 0, 1, 83, 83] : List Byte),
      Reply.sent [0, 1, 0, 0, 0, 6, 255, 6, 0, 1, 83, 83])] → rsp.length ≤ MAX_MESSAGE_LENGTH :=
  have hacc : received modbus_tcp_backend [] (Store.mapping ⟨[], [], [], [0, 0]⟩)
    ([0, 1, 0, 0, 0, 6, 255, 6, 0, 1, 83, 83], fun _ => 0) := rfl
  have hstep : server ⟨255, modbus_tcp_backend⟩ (Store.mapping ⟨[], [], [], [0, 0]⟩)
      ([0, 1, 0, 0, 0, 6, 255, 6, 0, 1, 83, 83], fun _ => 0) =
    some (([0, 1, 0, 0, 0, 6, 255, 6, 0, 1, 83, 83],
      .sent [0, 1, 0, 0, 0, 6, 255, 6, 0, 1, 83, 83]), ⟨[], [], [], [0, 0x5353]⟩) := rfl
  whatever_arrives_the_server_is_a_store modbus_tcp_backend (Or.inl rfl) 255
    ⟨[], [], [], [0, 0]⟩ _ _ (.snoc .nil hacc hstep)

/-! ## Bytes behind a request -/

/-- How far the operation of a request is read, from the start of its PDU. -/
def reach (pdu : Nat → Byte) : Nat :=
  if pdu 0 = FC_WRITE_MULTIPLE_COILS then 6 + byteCount (word (pdu 3) (pdu 4)).toNat
  else if pdu 0 = FC_WRITE_MULTIPLE_REGISTERS then 6 + 2 * (word (pdu 3) (pdu 4)).toNat
  else if pdu 0 = FC_WRITE_AND_READ_REGISTERS then 10 + (pdu 9).toNat
  else if pdu 0 ≤ FC_WRITE_SINGLE_REGISTER then 5
  else 1

theorem reach_cases (pdu : Nat → Byte) : reach pdu = 1 ∨ 5 ≤ reach pdu := by
  unfold reach
  split_ifs <;> omega

theorem wordsFrom_congr {p q : Nat → Byte} {j n N : Nat} (h : ∀ i < N, p i = q i)
    (hN : j + 2 * n ≤ N) : wordsFrom p j n = wordsFrom q j n := by
  apply List.map_congr_left
  intro k hk
  rw [List.mem_range] at hk
  rw [h _ (by omega), h _ (by omega)]

theorem bitsFrom_congr {p q : Nat → Byte} {j n N : Nat} (h : ∀ i < N, p i = q i)
    (hN : j + byteCount n ≤ N) : bitsFrom p j n = bitsFrom q j n := by
  apply List.map_congr_left
  intro k hk
  rw [List.mem_range] at hk
  have : k / 8 < byteCount n := by
    unfold byteCount
    split <;> omega
  rw [h _ (by omega)]

/-- Requests that agree as far as they are read ask for the same. -/
theorem ofRequest_congr {p q : Nat → Byte} {N : Nat} (h : ∀ i < N, p i = q i)
    (hN : reach p ≤ N) : Op.ofRequest p = Op.ofRequest q := by
  have h0 : p 0 = q 0 := by
    apply h
    rcases reach_cases p with h1 | h5 <;> omega
  unfold reach at hN
  by_cases hbits : p 0 = FC_WRITE_MULTIPLE_COILS
  · rw [if_pos hbits] at hN
    rw [ofRequest_writeBits hbits, ofRequest_writeBits (h0 ▸ hbits), bitsFrom_congr h hN,
      h 1 (by omega), h 2 (by omega), h 3 (by omega), h 4 (by omega)]
  rw [if_neg hbits] at hN
  by_cases hregisters : p 0 = FC_WRITE_MULTIPLE_REGISTERS
  · rw [if_pos hregisters] at hN
    rw [ofRequest_writeRegisters hregisters, ofRequest_writeRegisters (h0 ▸ hregisters),
      wordsFrom_congr h hN, h 1 (by omega), h 2 (by omega), h 3 (by omega), h 4 (by omega)]
  rw [if_neg hregisters] at hN
  by_cases hboth : p 0 = FC_WRITE_AND_READ_REGISTERS
  · rw [if_pos hboth] at hN
    rw [ofRequest_writeAndRead hboth, ofRequest_writeAndRead (h0 ▸ hboth), ← h 1 (by omega),
      ← h 2 (by omega), ← h 3 (by omega), ← h 4 (by omega), ← h 5 (by omega), ← h 6 (by omega),
      ← h 7 (by omega), ← h 8 (by omega), ← h 9 (by omega)]
    split
    · rfl
    · rw [wordsFrom_congr h (by omega)]
  rw [if_neg hboth] at hN
  unfold Op.ofRequest
  simp only [← h0, if_neg hbits, if_neg hregisters, if_neg hboth]
  by_cases hshort : p 0 ≤ FC_WRITE_SINGLE_REGISTER
  · rw [if_pos hshort] at hN
    rw [h 1 (by omega), h 2 (by omega), h 3 (by omega), h 4 (by omega)]
  · -- The functions that are left read no count.
    have hne : ∀ f : Byte, f ≤ FC_WRITE_SINGLE_REGISTER → p 0 ≠ f := by
      rintro f hf rfl
      exact hshort hf
    simp only [if_neg (hne FC_READ_COILS (by decide)),
      if_neg (hne FC_READ_DISCRETE_INPUTS (by decide)),
      if_neg (hne FC_READ_HOLDING_REGISTERS (by decide)),
      if_neg (hne FC_READ_INPUT_REGISTERS (by decide)),
      if_neg (hne FC_WRITE_SINGLE_COIL (by decide)),
      if_neg (hne FC_WRITE_SINGLE_REGISTER (by decide))]

/-- A request that is read no further than its function code. -/
theorem ofRequest_short {p : Nat → Byte} (h : reach p = 1) : Op.ofRequest p = none ∨
    Op.ofRequest p = some (.error .function) ∨ Op.ofRequest p = some (.ok .reportSlaveId) := by
  unfold reach at h
  unfold Op.ofRequest
  split_ifs at h
  any_goals omega
  rename_i hbits hregisters hboth hshort
  have hne : ∀ f : Byte, f ≤ FC_WRITE_SINGLE_REGISTER → p 0 ≠ f := by
    rintro f hf rfl
    exact hshort hf
  simp only [if_neg hbits, if_neg hregisters, if_neg hboth,
    if_neg (hne FC_READ_COILS (by decide)), if_neg (hne FC_READ_DISCRETE_INPUTS (by decide)),
    if_neg (hne FC_READ_HOLDING_REGISTERS (by decide)),
    if_neg (hne FC_READ_INPUT_REGISTERS (by decide)),
    if_neg (hne FC_WRITE_SINGLE_COIL (by decide)),
    if_neg (hne FC_WRITE_SINGLE_REGISTER (by decide))]
  split_ifs
  · exact Or.inr (Or.inr rfl)
  · exact Or.inl rfl
  · exact Or.inr (Or.inl rfl)

section
variable {B : modbus_backend_t} {p q : Nat → Byte} {n : Nat}

theorem prepare_congr (hB : IsBackend B) (h : ∀ i < n, p i = q i) (hn : B.header_length + 1 ≤ n) :
    B.prepare_response_tid p n = B.prepare_response_tid q n := by
  rcases hB with rfl | rfl
  · have hn : 8 ≤ n := hn
    simp only [modbus_tcp_backend, modbus_tcp_prepare_response_tid, h 0 (by omega),
      h 1 (by omega)]
  · rfl

theorem served_congr (hB : IsBackend B) (s : Store) (sft : sft_t) (op : Op) {n' : Nat}
    (h : ∀ i < n, p i = q i) (hn : n' ≤ n) (h5 : B.header_length + 5 ≤ n) :
    served B sft p n' s op = served B sft q n' s op := by
  have hcopy : (List.range n').map p = (List.range n').map q := by
    apply List.map_congr_left
    intro i hi
    exact h i (Nat.lt_of_lt_of_le (List.mem_range.mp hi) hn)
  have hecho : ((List.range 4).map fun i => p ((B.build_response_basis sft).length + i)) =
      (List.range 4).map fun i => q ((B.build_response_basis sft).length + i) := by
    apply List.map_congr_left
    intro i hi
    rw [List.mem_range] at hi
    exact h _ (by rw [length_build_response_basis hB]; omega)
  have hrespond : respond B sft p n' op = respond B sft q n' op := by
    funext a
    cases a <;> simp only [respond, hcopy, hecho]
  simp only [served, hrespond]

/-- The reply to a request depends on no byte behind the ones that are read. -/
theorem modbus_reply_congr (hB : IsBackend B) (slave : Int) (s : Store)
    (h : ∀ i < n, p i = q i) (hn : B.header_length + 1 ≤ n)
    (h5 : (reach fun k => p (B.header_length + k)) = 1 ∨ B.header_length + 5 ≤ n)
    (hreach : B.header_length + (reach fun k => p (B.header_length + k)) ≤ n) :
    modbus_reply ⟨slave, B⟩ p n s.mapping = modbus_reply ⟨slave, B⟩ q n s.mapping := by
  have hop : (Op.ofRequest fun k => p (B.header_length + k)) =
      Op.ofRequest fun k => q (B.header_length + k) :=
    ofRequest_congr (fun i (hi : i < n - B.header_length) => h _ (by omega)) (by omega)
  rw [modbus_reply_eq, modbus_reply_eq]
  simp only
  rw [← h (B.header_length - 1) (by omega), ← h B.header_length (by omega),
    ← prepare_congr hB h hn, ← hop]
  split
  · rfl
  · rcases h5 with h1 | h5
    · rcases ofRequest_short h1 with hx | hx | hx <;> simp only [hx]
      rfl
    · have hle : (B.prepare_response_tid p n).2 ≤ n := by
        rw [prepare_length hB]
        omega
      simp only [served_congr hB s _ _ h hle h5]

end

/-- A write of more entries than the request has bytes for, all of them in the table. On the serial
line the two bytes of the checksum count as bytes of the request, as they do for `modbus_reply`. -/
def ShortWrite (B : modbus_backend_t) (s : Store) (msg : List Byte) : Prop :=
  let function := msg.getD B.header_length 0
  let addr := (wordIn msg (B.header_length + 1)).toNat
  let nb := (wordIn msg (B.header_length + 3)).toNat
  (function = FC_WRITE_MULTIPLE_COILS ∧ (1 ≤ nb ∧ nb ≤ 1968 ∧ addr + nb ≤ s.bits.length) ∧
      msg.length < B.header_length + 6 + byteCount nb) ∨
    (function = FC_WRITE_MULTIPLE_REGISTERS ∧
      (1 ≤ nb ∧ nb ≤ 123 ∧ addr + nb ≤ s.registers.length) ∧
      msg.length < B.header_length + 6 + 2 * nb)

theorem overlay_before {msg : List Byte} {i : Nat} (h : i < msg.length) (behind : Nat → Byte) :
    overlay msg behind i = msg.getD i 0 := by
  simp [overlay, h]

theorem overlay_behind {msg : List Byte} {i : Nat} (h : msg.length ≤ i) (behind : Nat → Byte) :
    overlay msg behind i = behind i := by
  simp [overlay, h]

/-- The PDU of a request, with what stands behind it. -/
def pduIn (B : modbus_backend_t) (msg : List Byte) (behind : Nat → Byte) : Nat → Byte :=
  fun k => overlay msg behind (B.header_length + k)

theorem pduIn_head {B : modbus_backend_t} {msg : List Byte} (h : B.header_length + 6 ≤ msg.length)
    (behind : Nat → Byte) :
    ∀ k < 6, pduIn B msg behind k = msg.getD (B.header_length + k) 0 := by
  intro k hk
  unfold pduIn
  exact overlay_before (by omega) behind

theorem ofRequest_pduIn_bits {B : modbus_backend_t} {msg : List Byte}
    (hf : msg.getD B.header_length 0 = FC_WRITE_MULTIPLE_COILS)
    (hlen : B.header_length + 6 ≤ msg.length) (behind : Nat → Byte) :
    Op.ofRequest (pduIn B msg behind) = some (.ok (.writeBits (wordIn msg (B.header_length + 1))
      (bitsFrom (pduIn B msg behind) 6 (wordIn msg (B.header_length + 3)).toNat))) := by
  have hget := pduIn_head hlen behind
  rw [ofRequest_writeBits ((hget 0 (by decide)).trans hf), hget 1 (by decide),
    hget 2 (by decide), hget 3 (by decide), hget 4 (by decide)]
  rfl

theorem ofRequest_pduIn_registers {B : modbus_backend_t} {msg : List Byte}
    (hf : msg.getD B.header_length 0 = FC_WRITE_MULTIPLE_REGISTERS)
    (hlen : B.header_length + 6 ≤ msg.length) (behind : Nat → Byte) :
    Op.ofRequest (pduIn B msg behind) = some (.ok (.writeRegisters
      (wordIn msg (B.header_length + 1))
      (wordsFrom (pduIn B msg behind) 6 (wordIn msg (B.header_length + 3)).toNat))) := by
  have hget := pduIn_head hlen behind
  rw [ofRequest_writeRegisters ((hget 0 (by decide)).trans hf), hget 1 (by decide),
    hget 2 (by decide), hget 3 (by decide), hget 4 (by decide)]
  rfl

section
variable {B : modbus_backend_t} {slave : Int} {s : Store} {msg : List Byte}

/-- When the request is not filtered, the next tables are those after its operation. -/
theorem modbus_reply_carry (hB : IsBackend B) (hlen : B.header_length + 1 ≤ msg.length)
    (hf : B.filter_request slave (msg.getD (B.header_length - 1) 0) = false)
    {behind : Nat → Byte} {op : Op} (hop : Op.ofRequest (pduIn B msg behind) = some (.ok op)) :
    (modbus_reply ⟨slave, B⟩ (overlay msg behind) msg.length s.mapping).2 =
      (op.carry s).mapping := by
  have hpos := hB.pdu_room
  rw [modbus_reply_eq]
  simp only
  rw [overlay_before (by omega), if_neg (by rw [hf]; decide)]
  unfold pduIn at hop
  simp only [hop]

/-- A short write stores other bytes when others stand behind it. -/
theorem short_write_differs (hB : IsBackend B)
    (hf : B.filter_request slave (msg.getD (B.header_length - 1) 0) = false)
    (hlen : B.header_length + 6 ≤ msg.length) (h : ShortWrite B s msg) :
    modbus_reply ⟨slave, B⟩ (overlay msg fun _ => 0) msg.length s.mapping ≠
      modbus_reply ⟨slave, B⟩ (overlay msg fun _ => 0xFF) msg.length s.mapping := by
  intro heq
  rcases h with ⟨hfun, ⟨h1, hmax, htab⟩, hshort⟩ | ⟨hfun, ⟨h1, hmax, htab⟩, hshort⟩
  · generalize hn : (wordIn msg (B.header_length + 3)).toNat = n at h1 hmax htab hshort
    have hcarry : ∀ behind, (modbus_reply ⟨slave, B⟩ (overlay msg behind) msg.length
        s.mapping).2.tab_bits = (patch s.bits (wordIn msg (B.header_length + 1)).toNat
          (bitsFrom (pduIn B msg behind) 6 n)).map flag := by
      intro behind
      rw [modbus_reply_carry hB (by omega) hf (ofRequest_pduIn_bits hfun hlen behind), hn,
        Op.carry_of_ok (Op.serve_writeBits (by simpa) (by simpa) (by simpa))]
      rfl
    have hbits := hcarry fun _ => 0
    rw [heq, hcarry fun _ => 0xFF] at hbits
    have hbits := patch_inj (by simp) (by simpa) (List.map_injective_iff.mpr flag_injective hbits)
    have hlast := congrArg (fun l => l[n - 1]?) hbits
    have hbyte : msg.length ≤ B.header_length + (6 + (n - 1) / 8) := by
      unfold byteCount at hshort
      split at hshort <;> omega
    simp [bitsFrom, pduIn, overlay_behind hbyte, show n - 1 < n by omega] at hlast
    have hff : ∀ k < 8, (255#8).getLsbD k = true := by decide
    rw [hff _ (Nat.mod_lt _ (by decide))] at hlast
    cases hlast
  · generalize hn : (wordIn msg (B.header_length + 3)).toNat = n at h1 hmax htab hshort
    have hcarry : ∀ behind, (modbus_reply ⟨slave, B⟩ (overlay msg behind) msg.length
        s.mapping).2.tab_registers = patch s.registers (wordIn msg (B.header_length + 1)).toNat
          (wordsFrom (pduIn B msg behind) 6 n) := by
      intro behind
      rw [modbus_reply_carry hB (by omega) hf (ofRequest_pduIn_registers hfun hlen behind), hn,
        Op.carry_of_ok (Op.serve_writeRegisters (by simpa) (by simpa) (by simpa))]
      rfl
    have hwords := hcarry fun _ => 0
    rw [heq, hcarry fun _ => 0xFF] at hwords
    have hwords := patch_inj (by simp) (by simpa) hwords
    have hlast := congrArg (fun l => (l[n - 1]?).map lo) hwords
    have hbyte : msg.length ≤ B.header_length + (6 + 2 * (n - 1) + 1) := by omega
    simp [wordsFrom, pduIn, overlay_behind hbyte, show n - 1 < n by omega] at hlast

/-- A write that is refused for its range is refused whatever it writes. -/
theorem refused_same (hlen : B.header_length + 6 ≤ msg.length)
    (hfun : msg.getD B.header_length 0 = FC_WRITE_MULTIPLE_COILS ∨
      msg.getD B.header_length 0 = FC_WRITE_MULTIPLE_REGISTERS) (hB : IsBackend B) {r : Refusal}
    (hr : ∀ behind op, Op.ofRequest (pduIn B msg behind) = some (.ok op) → op.serve s = .error r)
    (b₁ b₂ : Nat → Byte) : modbus_reply ⟨slave, B⟩ (overlay msg b₁) msg.length s.mapping =
      modbus_reply ⟨slave, B⟩ (overlay msg b₂) msg.length s.mapping := by
  have hop : ∀ behind, ∃ op, Op.ofRequest (pduIn B msg behind) = some (.ok op) := by
    intro behind
    rcases hfun with hf | hf
    · exact ⟨_, ofRequest_pduIn_bits hf hlen behind⟩
    · exact ⟨_, ofRequest_pduIn_registers hf hlen behind⟩
  have hreply : ∀ behind, modbus_reply ⟨slave, B⟩ (overlay msg behind) msg.length s.mapping =
      if B.filter_request slave (msg.getD (B.header_length - 1) 0) then (.filtered, s.mapping)
      else (.sent (B.send_msg_pre (response_exception B ⟨msg.getD (B.header_length - 1) 0,
        msg.getD B.header_length 0,
        (B.prepare_response_tid (overlay msg b₁) msg.length).1⟩ r.code)), s.mapping) := by
    intro behind
    obtain ⟨op, hop⟩ := hop behind
    have hserve := hr behind op hop
    have hprep := prepare_congr hB (fun i hi => (overlay_before hi behind).trans
      (overlay_before hi b₁).symm) (show B.header_length + 1 ≤ msg.length by omega)
    unfold pduIn at hop
    rw [modbus_reply_eq]
    simp only [hop, hprep, served, hserve, Op.carry]
    rw [overlay_before (by omega), overlay_before (by omega)]
  rw [hreply b₁, hreply b₂]

end

theorem write_meta {f : Byte} (h : f = FC_WRITE_MULTIPLE_COILS ∨ f = FC_WRITE_MULTIPLE_REGISTERS) :
    compute_meta_length_after_function f .MSG_INDICATION = 5 := by
  rcases h with rfl | rfl <;> decide

/-- Only a write of several entries is read past the end of the message. -/
theorem reach_le {B : modbus_backend_t} {msg : List Byte}
    (h : (messages B .MSG_INDICATION).Accepts msg)
    (hfun : ¬ (msg.getD B.header_length 0 = FC_WRITE_MULTIPLE_COILS ∨
      msg.getD B.header_length 0 = FC_WRITE_MULTIPLE_REGISTERS)) (behind : Nat → Byte) :
    B.header_length + reach (pduIn B msg behind) ≤ msg.length := by
  have hlen := length_of_accepts h
  have hf : pduIn B msg behind 0 = msg.getD B.header_length 0 :=
    overlay_before (by omega) behind
  rw [not_or] at hfun
  unfold reach
  rw [hf, if_neg hfun.1, if_neg hfun.2]
  split
  · rename_i hboth
    have hmeta : compute_meta_length_after_function (msg.getD B.header_length 0)
        .MSG_INDICATION = 9 := by
      rw [hboth]
      decide
    have hdata : compute_data_length_after_meta B msg .MSG_INDICATION =
        (msg.getD (B.header_length + 9) 0).toNat + B.checksum_length := by
      simp only [compute_data_length_after_meta, hboth]
      rfl
    have h9 : pduIn B msg behind 9 = msg.getD (B.header_length + 9) 0 :=
      overlay_before (by omega) behind
    rw [h9]
    omega
  · split
    · rename_i hshort
      have hmeta : compute_meta_length_after_function (msg.getD B.header_length 0)
          .MSG_INDICATION = 4 := by
        rw [compute_meta_length_after_function, if_pos hshort]
      omega
    · omega

/-- The reply to a request depends on what stands behind it in the buffer exactly when it is a
write with too few bytes. -/
theorem a_reply_uses_the_bytes_behind_iff (B : modbus_backend_t) (hB : IsBackend B) (slave : Int)
    (s : Store) (msg : List Byte) (h : (messages B .MSG_INDICATION).Accepts msg)
    (hf : B.filter_request slave (msg.getD (B.header_length - 1) 0) = false) :
    (∃ b₁ b₂ : Nat → Byte, modbus_reply ⟨slave, B⟩ (overlay msg b₁) msg.length s.mapping ≠
      modbus_reply ⟨slave, B⟩ (overlay msg b₂) msg.length s.mapping) ↔ ShortWrite B s msg := by
  have hlen := length_of_accepts h
  constructor
  · contrapose!
    intro hshort b₁ b₂
    by_cases hreach : B.header_length + reach (pduIn B msg b₁) ≤ msg.length
    · apply modbus_reply_congr hB slave s (fun i hi => (overlay_before hi b₁).trans
        (overlay_before hi b₂).symm) (by omega) ?_ hreach
      rcases reach_cases (pduIn B msg b₁) with h1 | h5
      · exact Or.inl h1
      · exact Or.inr (by omega)
    · have hfun := not_not.mp fun hfun => hreach (reach_le h hfun b₁)
      rw [write_meta hfun] at hlen
      have hsix : B.header_length + 6 ≤ msg.length := by omega
      have hget : ∀ k < 6, pduIn B msg b₁ k = msg.getD (B.header_length + k) 0 := by
        intro k hk
        exact overlay_before (by omega) b₁
      have hnb : word (pduIn B msg b₁ 3) (pduIn B msg b₁ 4) = wordIn msg (B.header_length + 3) := by
        rw [hget 3 (by decide), hget 4 (by decide)]
        rfl
      have h0 : pduIn B msg b₁ 0 = msg.getD B.header_length 0 := hget 0 (by decide)
      rw [reach, h0, hnb] at hreach
      rcases hfun with hfun | hfun
      · rw [if_pos hfun] at hreach
        obtain ⟨r, hr⟩ := writeRange_refused fun hin => hshort (Or.inl ⟨hfun, hin, by omega⟩)
        apply refused_same hsix (Or.inl hfun) hB (r := r)
        intro behind op hop
        rw [ofRequest_pduIn_bits hfun hsix] at hop
        cases hop
        simp only [Op.serve, hr _ (length_bitsFrom _ _ _)]
        rfl
      · rw [hfun, if_neg (by decide), if_pos rfl] at hreach
        obtain ⟨r, hr⟩ := writeRange_refused fun hin => hshort (Or.inr ⟨hfun, hin, by omega⟩)
        apply refused_same hsix (Or.inr hfun) hB (r := r)
        intro behind op hop
        rw [ofRequest_pduIn_registers hfun hsix] at hop
        cases hop
        simp only [Op.serve, hr _ (length_wordsFrom _ _ _)]
        rfl
  · intro hshort
    have hfun : msg.getD B.header_length 0 = FC_WRITE_MULTIPLE_COILS ∨
        msg.getD B.header_length 0 = FC_WRITE_MULTIPLE_REGISTERS :=
      hshort.imp And.left And.left
    rw [write_meta hfun] at hlen
    exact ⟨_, _, short_write_differs hB hf (by omega) hshort⟩

/-- A request to write one register, with no byte for its value. -/
theorem a_write_of_nothing_uses_the_bytes_behind :
    (∃ b₁ b₂ : Nat → Byte,
      modbus_reply ⟨255, modbus_tcp_backend⟩
          (overlay [0, 1, 0, 0, 0, 7, 255, 16, 0, 0, 0, 1, 0] b₁) 13
          (Store.mapping ⟨[], [], [], [0]⟩) ≠
        modbus_reply ⟨255, modbus_tcp_backend⟩
          (overlay [0, 1, 0, 0, 0, 7, 255, 16, 0, 0, 0, 1, 0] b₂) 13
          (Store.mapping ⟨[], [], [], [0]⟩)) ↔
      ShortWrite modbus_tcp_backend ⟨[], [], [], [0]⟩ [0, 1, 0, 0, 0, 7, 255, 16, 0, 0, 0, 1, 0] :=
  a_reply_uses_the_bytes_behind_iff modbus_tcp_backend (Or.inl rfl) 255 ⟨[], [], [], [0]⟩ _ rfl rfl

end robotchess
