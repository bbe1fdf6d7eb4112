-- The server of the Modbus library: the four tables, `modbus_reply` in modbus.c, and
-- the functions of modbus-data.c that it uses. A request is read from the buffer
-- that it was received into, and nothing stops the server from reading behind it.
import RobotChess.Adu
import RobotChess.Store

open bytes tables

namespace robotchess

/-! ## The tables -/

/-- `modbus_mapping_t`. The counts `nb_bits` and so on are the lengths of the tables, as
`modbus_mapping_new` allocates them. -/
structure modbus_mapping_t where
  tab_bits : List Byte
  tab_input_bits : List Byte
  tab_input_registers : List Word
  tab_registers : List Word
  deriving DecidableEq, Repr

/-! ## modbus-data.c -/

/-- The loop of `modbus_set_bits_from_bytes`, with `left` bits to go. -/
def set_bits_loop (index : Nat) (tab_byte : Nat → Byte) :
    (left i shift : Nat) → (dest : List Byte) → List Byte
  | 0, _, _, dest => dest
  | left + 1, i, shift, dest =>
    set_bits_loop index tab_byte left (i + 1) ((shift + 1) % 8)
      (dest.set i (if tab_byte ((i - index) / 8) &&& 1#8 <<< shift ≠ 0 then 1 else 0))

def modbus_set_bits_from_bytes (dest : List Byte) (index nb_bits : Nat) (tab_byte : Nat → Byte) :
    List Byte :=
  set_bits_loop index tab_byte nb_bits index 0 dest

/-- `modbus_set_bits_from_byte`. -/
def modbus_set_bits_from_byte (dest : List Byte) (index : Nat) (value : Byte) : List Byte :=
  (List.range 8).foldl
    (fun dest i => dest.set (index + i) (if value &&& 1#8 <<< i ≠ 0 then 1 else 0)) dest

/-- `modbus_get_byte_from_bits` with NDEBUG, where more than 8 bits are cut to 8. Without it the
assertion ends the program there. -/
def modbus_get_byte_from_bits (src : List Byte) (index nb_bits : Nat) : Byte :=
  (List.range (if 8 < nb_bits then 8 else nb_bits)).foldl
    (fun value i => value ||| src.getD (index + i) 0 <<< i) 0

/-! ## The responses -/

/-- The loop of `response_io_status`, on the bits from `address` on. -/
def io_status_loop : (shift : Nat) → (byte : Byte) → (bits : List Byte) → List Byte
  | shift, byte, [] => if shift ≠ 0 then [byte] else []
  | shift, byte, b :: bits =>
    let byte := byte ||| b <<< shift
    if shift = 7 then byte :: io_status_loop 0 0 bits else io_status_loop (shift + 1) byte bits

def response_io_status (address nb : Nat) (tab_io_status : List Byte) : List Byte :=
  io_status_loop 0 0 ((tab_io_status.drop address).take nb)

def response_exception (B : modbus_backend_t) (sft : sft_t) (exception_code : Byte) : List Byte :=
  B.build_response_basis { sft with function := sft.function + 0x80 } ++ [exception_code]

/-- The loop over `i` and `j` that stores `left` words of the request. -/
def store_words (req : Nat → Byte) : (left i j : Nat) → (tab : List Word) → List Word
  | 0, _, _, tab => tab
  | left + 1, i, j, tab =>
    store_words req left (i + 1) (j + 2) (tab.set i (word (req j) (req (j + 1))))

/-- The answer to `_FC_REPORT_SLAVE_ID`: the id, the run indicator, and "LMB3.0.6". -/
def slave_id : List Byte := [180, 0xFF, 0x4C, 0x4D, 0x42, 0x33, 0x2E, 0x30, 0x2E, 0x36]

/-- What `modbus_reply` comes to: a request of another slave, a response for `send_msg`, or -1. -/
inductive Reply
  | filtered
  | sent (rsp : List Byte)
  | failed (e : Errno)
  deriving DecidableEq, Repr

/-- `_FC_READ_COILS` and `_FC_READ_DISCRETE_INPUTS`. -/
def reply_bits (B : modbus_backend_t) (sft : sft_t) (address nb : Nat) (tab : List Byte) :
    List Byte :=
  if nb < 1 ∨ MODBUS_MAX_READ_BITS < nb then
    response_exception B sft MODBUS_EXCEPTION_ILLEGAL_DATA_VALUE
  else if tab.length < address + nb then
    response_exception B sft MODBUS_EXCEPTION_ILLEGAL_DATA_ADDRESS
  else
    B.build_response_basis sft ++ [BitVec.ofNat 8 (byteCount nb)] ++
      response_io_status address nb tab

/-- `_FC_READ_HOLDING_REGISTERS` and `_FC_READ_INPUT_REGISTERS`. -/
def reply_registers (B : modbus_backend_t) (sft : sft_t) (address nb : Nat) (tab : List Word) :
    List Byte :=
  if nb < 1 ∨ MODBUS_MAX_READ_REGISTERS < nb then
    response_exception B sft MODBUS_EXCEPTION_ILLEGAL_DATA_VALUE
  else if tab.length < address + nb then
    response_exception B sft MODBUS_EXCEPTION_ILLEGAL_DATA_ADDRESS
  else
    B.build_response_basis sft ++ [BitVec.ofNat 8 (nb <<< 1)] ++
      ofWords ((tab.drop address).take nb)

/-- The switch of `modbus_reply`: the response before `send_msg`, and the tables after it. -/
def reply_switch (B : modbus_backend_t) (sft : sft_t) (req : Nat → Byte) (req_length : Nat)
    (m : modbus_mapping_t) : Except Errno (List Byte × modbus_mapping_t) :=
  let offset := B.header_length
  let function := sft.function
  let address := (word (req (offset + 1)) (req (offset + 2))).toNat
  let nb := (word (req (offset + 3)) (req (offset + 4))).toNat
  let exception code : Except Errno (List Byte × modbus_mapping_t) :=
    .ok (response_exception B sft code, m)
  -- `memcpy(rsp, req, req_length)`
  let copy := (List.range req_length).map req
  let basis := B.build_response_basis sft
  -- `memcpy(rsp + rsp_length, req + rsp_length, 4)`
  let echo := basis ++ (List.range 4).map fun i => req (basis.length + i)
  if function = FC_READ_COILS then .ok (reply_bits B sft address nb m.tab_bits, m)
  else if function = FC_READ_DISCRETE_INPUTS then
    .ok (reply_bits B sft address nb m.tab_input_bits, m)
  else if function = FC_READ_HOLDING_REGISTERS then
    .ok (reply_registers B sft address nb m.tab_registers, m)
  else if function = FC_READ_INPUT_REGISTERS then
    .ok (reply_registers B sft address nb m.tab_input_registers, m)
  else if function = FC_WRITE_SINGLE_COIL then
    if m.tab_bits.length ≤ address then exception MODBUS_EXCEPTION_ILLEGAL_DATA_ADDRESS
    else if nb = 0xFF00 ∨ nb = 0 then
      .ok (copy, { m with tab_bits := m.tab_bits.set address (if nb ≠ 0 then 1 else 0) })
    else exception MODBUS_EXCEPTION_ILLEGAL_DATA_VALUE
  else if function = FC_WRITE_SINGLE_REGISTER then
    if m.tab_registers.length ≤ address then exception MODBUS_EXCEPTION_ILLEGAL_DATA_ADDRESS
    else .ok (copy, { m with tab_registers := m.tab_registers.set address (BitVec.ofNat 16 nb) })
  else if function = FC_WRITE_MULTIPLE_COILS then
    if nb < 1 ∨ MODBUS_MAX_WRITE_BITS < nb then exception MODBUS_EXCEPTION_ILLEGAL_DATA_VALUE
    else if m.tab_bits.length < address + nb then
      exception MODBUS_EXCEPTION_ILLEGAL_DATA_ADDRESS
    else
      .ok (echo, { m with
        tab_bits := modbus_set_bits_from_bytes m.tab_bits address nb
          fun i => req (offset + 6 + i) })
  else if function = FC_WRITE_MULTIPLE_REGISTERS then
    if nb < 1 ∨ MODBUS_MAX_WRITE_REGISTERS < nb then
      exception MODBUS_EXCEPTION_ILLEGAL_DATA_VALUE
    else if m.tab_registers.length < address + nb then
      exception MODBUS_EXCEPTION_ILLEGAL_DATA_ADDRESS
    else
      .ok (echo, { m with
        tab_registers := store_words (fun j => req (offset + j)) nb address 6 m.tab_registers })
  else if function = FC_REPORT_SLAVE_ID then
    .ok (basis ++ [BitVec.ofNat 8 slave_id.length] ++ slave_id, m)
  else if function = FC_READ_EXCEPTION_STATUS then .error .ENOPROTOOPT
  else if function = FC_WRITE_AND_READ_REGISTERS then
    let address_write := (word (req (offset + 5)) (req (offset + 6))).toNat
    let nb_write := (word (req (offset + 7)) (req (offset + 8))).toNat
    let nb_write_bytes := (req (offset + 9)).toNat
    if nb_write < 1 ∨ MODBUS_MAX_RW_WRITE_REGISTERS < nb_write ∨ nb < 1 ∨
        MODBUS_MAX_READ_REGISTERS < nb ∨ nb_write_bytes ≠ nb_write * 2 then
      exception MODBUS_EXCEPTION_ILLEGAL_DATA_VALUE
    else if m.tab_registers.length < address + nb ∨
        m.tab_registers.length < address_write + nb_write then
      exception MODBUS_EXCEPTION_ILLEGAL_DATA_ADDRESS
    else
      -- The words are written first.
      let tab := store_words (fun j => req (offset + j)) nb_write address_write 10 m.tab_registers
      .ok (basis ++ [BitVec.ofNat 8 (nb <<< 1)] ++ ofWords ((tab.drop address).take nb),
        { m with tab_registers := tab })
  else exception MODBUS_EXCEPTION_ILLEGAL_FUNCTION

/-- `modbus_reply`, on the buffer of the request. -/
def modbus_reply (ctx : modbus_t) (req : Nat → Byte) (req_length : Nat) (m : modbus_mapping_t) :
    Reply × modbus_mapping_t :=
  let B := ctx.backend
  let slave := req (B.header_length - 1)
  if B.filter_request ctx.slave slave then (.filtered, m)
  else
    let (t_id, req_length) := B.prepare_response_tid req req_length
    match reply_switch B ⟨slave, req B.header_length, t_id⟩ req req_length m with
    | .ok (rsp, m') => (.sent (B.send_msg_pre rsp), m')
    | .error e => (.failed e, m)

/-- A message received into a buffer: what stood behind it stays there. -/
def overlay (msg : List Byte) (buffer : Nat → Byte) : Nat → Byte := fun i => msg.getD i (buffer i)

/-! ## The loops -/

/-- A bit as it stands in a table. -/
def flag (b : Bool) : Byte := if b then 1 else 0

theorem flag_injective : Function.Injective flag := by
  intro a b h
  cases a <;> cases b <;> first | rfl | cases h

theorem getLsbD_flag_shiftLeft (b : Bool) {i k : Nat} (hk : k < 8) :
    (flag b <<< i).getLsbD k = (b && decide (k = i)) := by
  cases b with
  | false => simp [flag]
  | true =>
    have hone : (flag true <<< i : Byte) = BitVec.twoPow 8 i := by rw [BitVec.twoPow_eq]; rfl
    rw [hone, BitVec.getLsbD_twoPow, Bool.true_and]
    by_cases h : i = k
    · simp [h, hk]
    · simp [h, Ne.symm h]

/-- The words that stand in a request from byte `j` on. -/
def wordsFrom (req : Nat → Byte) (j n : Nat) : List Word :=
  (List.range n).map fun k => word (req (j + 2 * k)) (req (j + 2 * k + 1))

/-- The bits that stand in a request from byte `j` on. -/
def bitsFrom (req : Nat → Byte) (j n : Nat) : List Bool :=
  (List.range n).map fun k => (req (j + k / 8)).getLsbD (k % 8)

@[simp] theorem length_wordsFrom (req : Nat → Byte) (j n : Nat) :
    (wordsFrom req j n).length = n := by
  simp [wordsFrom]

@[simp] theorem length_bitsFrom (req : Nat → Byte) (j n : Nat) : (bitsFrom req j n).length = n := by
  simp [bitsFrom]

theorem wordsFrom_succ (req : Nat → Byte) (j n : Nat) :
    wordsFrom req j (n + 1) = word (req j) (req (j + 1)) :: wordsFrom req (j + 2) n := by
  unfold wordsFrom
  rw [List.range_succ_eq_map, List.map_cons, List.map_map]
  congr 1
  apply List.map_congr_left
  intro k _
  simp only [Function.comp_apply]
  rw [show j + 2 * (k + 1) = j + 2 + 2 * k by omega]

theorem bitsFrom_add (req : Nat → Byte) (i j n : Nat) :
    bitsFrom (fun k => req (i + k)) j n = bitsFrom req (i + j) n := by
  simp only [bitsFrom, Nat.add_assoc]

theorem store_words_eq (req : Nat → Byte) (left i j : Nat) (tab : List Word) :
    store_words req left i j tab = patch tab i (wordsFrom req j left) := by
  induction left generalizing i j tab with
  | zero => rfl
  | succ left ih => rw [store_words, ih, wordsFrom_succ, patch_cons]

theorem set_bits_loop_eq (index : Nat) (tab_byte : Nat → Byte) (left k : Nat) (dest : List Byte) :
    set_bits_loop index tab_byte left (index + k) (k % 8) dest = patch dest (index + k)
      ((List.range left).map fun n => flag ((tab_byte ((k + n) / 8)).getLsbD ((k + n) % 8))) := by
  induction left generalizing k dest with
  | zero => rfl
  | succ left ih =>
    have hbit : (if tab_byte ((index + k - index) / 8) &&& 1#8 <<< (k % 8) ≠ 0 then 1 else 0) =
        flag ((tab_byte (k / 8)).getLsbD (k % 8)) := by
      rw [Nat.add_sub_cancel_left, flag]
      simp only [and_bit_ne_zero _ (Nat.mod_lt k (by decide : 0 < 8))]
    rw [set_bits_loop, hbit, Nat.mod_add_mod, Nat.add_assoc, ih, List.range_succ_eq_map,
      List.map_cons, patch_cons, List.map_map, Nat.add_zero]
    congr 1
    apply List.map_congr_left
    intro n _
    simp only [Function.comp_apply]
    rw [show k + 1 + n = k + (n + 1) by omega]

theorem set_bits_from_bytes_eq (dest : List Byte) (index nb : Nat) (req : Nat → Byte) (j : Nat) :
    modbus_set_bits_from_bytes dest index nb (fun i => req (j + i)) =
      patch dest index ((bitsFrom req j nb).map flag) := by
  have h := set_bits_loop_eq index (fun i => req (j + i)) nb 0 dest
  simp only [Nat.add_zero, Nat.zero_mod, Nat.zero_add] at h
  rw [modbus_set_bits_from_bytes, h, bitsFrom, List.map_map]
  rfl

/-- All the bits of one byte: what `modbus_set_bits_from_bytes` sets from 8 bits of it. -/
theorem set_bits_from_byte_eq (dest : List Byte) (index : Nat) (value : Byte) :
    modbus_set_bits_from_byte dest index value =
      patch dest index ((List.range 8).map fun i => flag (value.getLsbD i)) := by
  have hset : modbus_set_bits_from_byte dest index value =
      modbus_set_bits_from_bytes dest index 8 fun _ => value := rfl
  have h := set_bits_from_bytes_eq dest index 8 (fun _ => value) 0
  rw [hset, h, bitsFrom, List.map_map]
  rfl

theorem getLsbD_get_byte_loop (src : List Bool) (index n : Nat) {k : Nat} (hk : k < 8) :
    ((List.range n).foldl
        (fun value i => value ||| (src.map flag).getD (index + i) 0 <<< i) (0 : Byte)).getLsbD k =
      (decide (k < n) && src.getD (index + k) false) := by
  induction n with
  | zero => simp
  | succ n ih =>
    have hsrc : (src.map flag).getD (index + n) 0 = flag (src.getD (index + n) false) := by
      change (src.map flag).getD (index + n) (flag false) = _
      rw [List.getD_eq_getElem?_getD, List.getElem?_map, Option.getD_map,
        List.getD_eq_getElem?_getD]
    rw [List.range_succ, List.foldl_append, List.foldl_cons, List.foldl_nil, BitVec.getLsbD_or,
      ih, hsrc, getLsbD_flag_shiftLeft _ hk]
    by_cases hkn : k = n
    · subst hkn
      simp
    · have hlt : k < n + 1 ↔ k < n := by omega
      simp [hkn, hlt]

/-- The byte of `nb` bits has these bits, and zeros above them. -/
theorem getLsbD_get_byte_from_bits (src : List Bool) (index nb : Nat) {k : Nat} (hk : k < 8) :
    (modbus_get_byte_from_bits (src.map flag) index nb).getLsbD k =
      (decide (k < nb) && src.getD (index + k) false) := by
  unfold modbus_get_byte_from_bits
  rw [getLsbD_get_byte_loop _ _ _ hk]
  split
  · rw [decide_eq_true hk, decide_eq_true (by omega)]
  · rfl

/-- The byte that was set is the byte that is read back. -/
theorem get_byte_of_set_bits {src : List Bool} {index : Nat} (h : index + 8 ≤ src.length)
    (value : Byte) :
    modbus_get_byte_from_bits (modbus_set_bits_from_byte (src.map flag) index value) index 8 =
      value := by
  have hset : modbus_set_bits_from_byte (src.map flag) index value =
      (patch src index ((List.range 8).map value.getLsbD)).map flag := by
    rw [set_bits_from_byte_eq, map_patch, List.map_map]
    rfl
  rw [hset]
  apply BitVec.eq_of_getLsbD_eq
  intro k hk
  rw [getLsbD_get_byte_from_bits _ _ _ hk, decide_eq_true hk, Bool.true_and,
    List.getD_eq_getElem?_getD, getElem?_patch _ _ _ (by omega), if_pos (by simpa using hk),
    Nat.add_sub_cancel_left]
  simp [hk]

/-- What the loop adds to the `shift` bits of `byte`. -/
theorem io_status_loop_packed (shift : Nat) (byte : Byte) (bits : List Bool) (hs : shift < 8)
    (hb : ∀ k, shift ≤ k → byte.getLsbD k = false) :
    Packed (shift + bits.length)
      (fun k => if k < shift then byte.getLsbD k else bits.getD (k - shift) false)
      (io_status_loop shift byte (bits.map flag)) := by
  induction bits generalizing shift byte with
  | nil =>
    rw [List.map_nil, io_status_loop, List.length_nil, Nat.add_zero]
    by_cases h0 : shift = 0
    · subst h0
      exact Packed.nil _
    · rw [if_pos h0]
      refine Packed.cons (by omega) (fun k _ hk => by rw [if_pos hk]) ?_
      rw [Nat.sub_eq_zero_of_le (by omega)]
      exact Packed.nil _
  | cons b bits ih =>
    have hbyte : ∀ k < 8, (byte ||| flag b <<< shift).getLsbD k =
        if k < shift then byte.getLsbD k else (decide (k = shift) && b) := by
      intro k hk
      rw [BitVec.getLsbD_or, getLsbD_flag_shiftLeft b hk]
      by_cases hks : k < shift
      · simp [hks, Nat.ne_of_lt hks]
      · simp [hks, hb k (by omega), Bool.and_comm]
    rw [List.map_cons, io_status_loop, List.length_cons]
    by_cases h7 : shift = 7
    · subst h7
      rw [if_pos rfl]
      refine Packed.cons (by omega) (fun k hk _ => ?_) ?_
      · rw [hbyte k hk]
        by_cases h : k < 7
        · simp [h]
        · obtain rfl : k = 7 := by omega
          simp
      · rw [show 7 + (bits.length + 1) - 8 = 0 + bits.length by omega]
        refine (ih 0 0 (by decide) (by simp)).congr fun k _ => ?_
        rw [if_neg (by omega), if_neg (by omega), show k + 8 - 7 = k + 1 by omega,
          List.getD_cons_succ, Nat.sub_zero]
    · rw [if_neg h7, show shift + (bits.length + 1) = shift + 1 + bits.length by omega]
      refine (ih (shift + 1) (byte ||| flag b <<< shift) (by omega) fun k hk => ?_).congr ?_
      · by_cases h8 : k < 8
        · rw [hbyte k h8, if_neg (by omega), decide_eq_false (by omega), Bool.false_and]
        · exact BitVec.getLsbD_of_ge _ _ (by omega)
      · intro k _
        by_cases hks : k < shift
        · rw [if_pos (by omega), if_pos hks, hbyte k (by omega), if_pos hks]
        · rw [if_neg hks]
          by_cases he : k = shift
          · subst he
            rw [if_pos (by omega), hbyte k hs, if_neg (by omega), Nat.sub_self]
            simp
          · rw [if_neg (by omega), show k - shift = k - (shift + 1) + 1 by omega,
              List.getD_cons_succ]

/-! ## The store behind the tables -/

def Store.mapping (s : Store) : modbus_mapping_t where
  tab_bits := s.bits.map flag
  tab_input_bits := s.input_bits.map flag
  tab_input_registers := s.input_registers
  tab_registers := s.registers

def Refusal.code : Refusal → Byte
  | .function => MODBUS_EXCEPTION_ILLEGAL_FUNCTION
  | .address => MODBUS_EXCEPTION_ILLEGAL_DATA_ADDRESS
  | .value => MODBUS_EXCEPTION_ILLEGAL_DATA_VALUE

/-- A word that turns a bit on or off. -/
def statusOf (data : Word) : Option Bool :=
  if data = 0xFF00 then some true else if data = 0 then some false else none

/-- The operation that a request asks for, from its PDU and what stands behind it. There is none
for the function that the server does not implement. -/
def Op.ofRequest (pdu : Nat → Byte) : Option (Except Refusal Op) :=
  let function := pdu 0
  let addr := word (pdu 1) (pdu 2)
  let count := word (pdu 3) (pdu 4)
  if function = FC_READ_COILS then some (.ok (.readBits addr count.toNat))
  else if function = FC_READ_DISCRETE_INPUTS then some (.ok (.readInputBits addr count.toNat))
  else if function = FC_READ_HOLDING_REGISTERS then some (.ok (.readRegisters addr count.toNat))
  else if function = FC_READ_INPUT_REGISTERS then
    some (.ok (.readInputRegisters addr count.toNat))
  else if function = FC_WRITE_SINGLE_COIL then some (.ok (.writeBit addr (statusOf count)))
  else if function = FC_WRITE_SINGLE_REGISTER then some (.ok (.writeRegister addr count))
  else if function = FC_WRITE_MULTIPLE_COILS then
    some (.ok (.writeBits addr (bitsFrom pdu 6 count.toNat)))
  else if function = FC_WRITE_MULTIPLE_REGISTERS then
    some (.ok (.writeRegisters addr (wordsFrom pdu 6 count.toNat)))
  else if function = FC_REPORT_SLAVE_ID then some (.ok .reportSlaveId)
  else if function = FC_READ_EXCEPTION_STATUS then none
  else if function = FC_WRITE_AND_READ_REGISTERS then
    let nb_write := (word (pdu 7) (pdu 8)).toNat
    if (pdu 9).toNat ≠ nb_write * 2 then some (.error .value)
    else
      some (.ok (.writeAndRead (word (pdu 5) (pdu 6)) (wordsFrom pdu 10 nb_write) addr count.toNat))
  else some (.error .function)

theorem ofRequest_writeBits {pdu : Nat → Byte} (h : pdu 0 = FC_WRITE_MULTIPLE_COILS) :
    Op.ofRequest pdu = some (.ok (.writeBits (word (pdu 1) (pdu 2))
      (bitsFrom pdu 6 (word (pdu 3) (pdu 4)).toNat))) := by
  unfold Op.ofRequest
  rw [h]
  rfl

theorem ofRequest_writeRegisters {pdu : Nat → Byte} (h : pdu 0 = FC_WRITE_MULTIPLE_REGISTERS) :
    Op.ofRequest pdu = some (.ok (.writeRegisters (word (pdu 1) (pdu 2))
      (wordsFrom pdu 6 (word (pdu 3) (pdu 4)).toNat))) := by
  unfold Op.ofRequest
  rw [h]
  rfl

theorem ofRequest_writeAndRead {pdu : Nat → Byte} (h : pdu 0 = FC_WRITE_AND_READ_REGISTERS) :
    Op.ofRequest pdu =
      if (pdu 9).toNat ≠ (word (pdu 7) (pdu 8)).toNat * 2 then some (.error .value)
      else some (.ok (.writeAndRead (word (pdu 5) (pdu 6))
        (wordsFrom pdu 10 (word (pdu 7) (pdu 8)).toNat) (word (pdu 1) (pdu 2))
          (word (pdu 3) (pdu 4)).toNat)) := by
  unfold Op.ofRequest
  rw [h]
  rfl

def Op.single : Op → Bool
  | .writeBit _ _ => true
  | .writeRegister _ _ => true
  | _ => false

/-- The response to an operation that was carried out. -/
def respond (B : modbus_backend_t) (sft : sft_t) (req : Nat → Byte) (req_length : Nat) (op : Op) :
    Answer → List Byte
  | .bits bs =>
    B.build_response_basis sft ++ [BitVec.ofNat 8 (byteCount bs.length)] ++
      io_status_loop 0 0 (bs.map flag)
  | .words ws =>
    B.build_response_basis sft ++ [BitVec.ofNat 8 (ws.length <<< 1)] ++ ofWords ws
  | .written =>
    if op.single then (List.range req_length).map req
    else B.build_response_basis sft ++
      (List.range 4).map fun i => req ((B.build_response_basis sft).length + i)
  | .id => B.build_response_basis sft ++ [BitVec.ofNat 8 slave_id.length] ++ slave_id

/-- What the server makes of a request: it reads it as an operation, serves that, and responds. -/
def served (B : modbus_backend_t) (sft : sft_t) (req : Nat → Byte) (req_length : Nat) (s : Store)
    (op : Op) : List Byte × Store :=
  match op.serve s with
  | .error r => (response_exception B sft r.code, s)
  | .ok (a, s') => (respond B sft req req_length op a, s')

section
variable (B : modbus_backend_t) (sft : sft_t) (req : Nat → Byte) (req_length : Nat) (s : Store)

theorem reply_bits_eq (addr : Word) (nb : Nat) (tab : List Bool) :
    reply_bits B sft addr.toNat nb (tab.map flag) = match readRange 2000 tab addr nb with
      | .error r => response_exception B sft r.code
      | .ok bs => B.build_response_basis sft ++ [BitVec.ofNat 8 (byteCount bs.length)] ++
        io_status_loop 0 0 (bs.map flag) := by
  unfold reply_bits readRange
  rw [List.length_map, show MODBUS_MAX_READ_BITS = 2000 from rfl]
  split
  · rfl
  · split
    · rfl
    · simp only
      rw [length_slice (by omega), map_slice]
      rfl

theorem reply_registers_eq (addr : Word) (nb : Nat) (tab : List Word) :
    reply_registers B sft addr.toNat nb tab = match readRange 125 tab addr nb with
      | .error r => response_exception B sft r.code
      | .ok ws => B.build_response_basis sft ++ [BitVec.ofNat 8 (ws.length <<< 1)] ++
        ofWords ws := by
  unfold reply_registers readRange
  rw [show MODBUS_MAX_READ_REGISTERS = 125 from rfl]
  split
  · rfl
  · split
    · rfl
    · simp only
      rw [length_slice (by omega)]
      rfl

end

/-- The three words that a single bit is written with. -/
theorem statusOf_cases (count : Word) :
    (count.toNat = 0xFF00 ∧ statusOf count = some true) ∨
      (count.toNat = 0 ∧ statusOf count = some false) ∨
      (count.toNat ≠ 0xFF00 ∧ count.toNat ≠ 0 ∧ statusOf count = none) := by
  have hon : count.toNat = 0xFF00 ↔ count = 0xFF00 := BitVec.toNat_inj (y := 0xFF00#16)
  have hoff : count.toNat = 0 ↔ count = 0 := BitVec.toNat_inj (y := 0#16)
  rw [ne_eq, ne_eq, hon, hoff, statusOf]
  by_cases h1 : count = 0xFF00
  · exact Or.inl ⟨h1, if_pos h1⟩
  · by_cases h0 : count = 0
    · exact Or.inr (Or.inl ⟨h0, by rw [if_neg h1, if_pos h0]⟩)
    · exact Or.inr (Or.inr ⟨h1, h0, by rw [if_neg h1, if_neg h0]⟩)

section
variable (B : modbus_backend_t) (sft : sft_t) (req : Nat → Byte) (req_length : Nat) (s : Store)

theorem reply_switch_coil (h : sft.function = FC_WRITE_SINGLE_COIL) :
    reply_switch B sft req req_length s.mapping =
      .ok (Prod.map id Store.mapping (served B sft req req_length s
        (.writeBit (word (req (B.header_length + 1)) (req (B.header_length + 2)))
          (statusOf (word (req (B.header_length + 3)) (req (B.header_length + 4))))))) := by
  unfold reply_switch
  simp only [h]
  rw [if_neg (by decide), if_neg (by decide), if_neg (by decide), if_neg (by decide),
    if_pos trivial]
  simp only [Store.mapping, served, Op.serve, writeOne, List.length_map]
  by_cases hl : s.bits.length ≤
      (word (req (B.header_length + 1)) (req (B.header_length + 2))).toNat
  · simp only [if_pos hl]
    rfl
  · simp only [if_neg hl]
    rcases statusOf_cases (word (req (B.header_length + 3)) (req (B.header_length + 4))) with
      ⟨hd, hs⟩ | ⟨hd, hs⟩ | ⟨hd, hd', hs⟩
    · rw [hs, if_pos (Or.inl hd), hd]
      simp [patch, List.map_set, flag, Store.mapping]
      rfl
    · rw [hs, if_pos (Or.inr hd), hd]
      simp [patch, List.map_set, flag, Store.mapping]
      rfl
    · rw [hs, if_neg (by omega)]
      rfl

theorem reply_switch_writeAndRead (h : sft.function = FC_WRITE_AND_READ_REGISTERS) :
    reply_switch B sft req req_length s.mapping =
      if (req (B.header_length + 9)).toNat ≠
          (word (req (B.header_length + 7)) (req (B.header_length + 8))).toNat * 2 then
        .ok (response_exception B sft Refusal.value.code, s.mapping)
      else .ok (Prod.map id Store.mapping (served B sft req req_length s
        (.writeAndRead (word (req (B.header_length + 5)) (req (B.header_length + 6)))
          (wordsFrom (fun k => req (B.header_length + k)) 10
            (word (req (B.header_length + 7)) (req (B.header_length + 8))).toNat)
          (word (req (B.header_length + 1)) (req (B.header_length + 2)))
          (word (req (B.header_length + 3)) (req (B.header_length + 4))).toNat))) := by
  unfold reply_switch
  simp only [h]
  rw [if_neg (by decide), if_neg (by decide), if_neg (by decide), if_neg (by decide),
    if_neg (by decide), if_neg (by decide), if_neg (by decide), if_neg (by decide),
    if_neg (by decide), if_neg (by decide), if_pos trivial]
  simp only [store_words_eq, MODBUS_MAX_RW_WRITE_REGISTERS, MODBUS_MAX_READ_REGISTERS]
  by_cases hb : (req (B.header_length + 9)).toNat ≠
      (word (req (B.header_length + 7)) (req (B.header_length + 8))).toNat * 2
  · rw [if_pos hb, if_pos (by omega)]
    rfl
  · rw [if_neg hb]
    have htab : s.mapping.tab_registers = s.registers := rfl
    simp only [served, Op.serve_writeAndRead, length_wordsFrom, hb, or_false, htab]
    split_ifs
    · rfl
    · rfl
    · simp only [respond]
      rw [length_slice (by rw [length_patch]; omega)]
      rfl

end

/-- The switch reads each request as an operation of the store, whatever bytes it has. -/
theorem reply_switch_eq (B : modbus_backend_t) (sft : sft_t) (req : Nat → Byte)
    (req_length : Nat) (s : Store) (hf : sft.function = req B.header_length) :
    reply_switch B sft req req_length s.mapping =
      match Op.ofRequest fun k => req (B.header_length + k) with
      | none => .error .ENOPROTOOPT
      | some (.error r) => .ok (response_exception B sft r.code, s.mapping)
      | some (.ok op) => .ok ((served B sft req req_length s op).1,
          (served B sft req req_length s op).2.mapping) := by
  by_cases h5 : req B.header_length = FC_WRITE_SINGLE_COIL
  · rw [reply_switch_coil _ _ _ _ _ (hf.trans h5)]
    unfold Op.ofRequest
    simp only [Nat.add_zero, h5]
    rfl
  by_cases h11 : req B.header_length = FC_WRITE_AND_READ_REGISTERS
  · rw [reply_switch_writeAndRead _ _ _ _ _ (hf.trans h11), ofRequest_writeAndRead h11]
    split_ifs <;> rfl
  unfold reply_switch Op.ofRequest
  simp only [hf, Nat.add_zero]
  by_cases h1 : req B.header_length = FC_READ_COILS
  · simp only [if_pos h1, Store.mapping, reply_bits_eq, served, Op.serve]
    cases readRange 2000 s.bits _ _ <;> rfl
  simp only [if_neg h1]
  by_cases h2 : req B.header_length = FC_READ_DISCRETE_INPUTS
  · simp only [if_pos h2, Store.mapping, reply_bits_eq, served, Op.serve]
    cases readRange 2000 s.input_bits _ _ <;> rfl
  simp only [if_neg h2]
  by_cases h3 : req B.header_length = FC_READ_HOLDING_REGISTERS
  · simp only [if_pos h3, Store.mapping, reply_registers_eq, served, Op.serve]
    cases readRange 125 s.registers _ _ <;> rfl
  simp only [if_neg h3]
  by_cases h4 : req B.header_length = FC_READ_INPUT_REGISTERS
  · simp only [if_pos h4, Store.mapping, reply_registers_eq, served, Op.serve]
    cases readRange 125 s.input_registers _ _ <;> rfl
  simp only [if_neg h4]
  simp only [if_neg h5]
  by_cases h6 : req B.header_length = FC_WRITE_SINGLE_REGISTER
  · simp only [if_pos h6, Store.mapping, served, Op.serve, writeOne, BitVec.ofNat_toNat,
      BitVec.setWidth_eq]
    split_ifs <;> rfl
  simp only [if_neg h6]
  by_cases h7 : req B.header_length = FC_WRITE_MULTIPLE_COILS
  · simp only [if_pos h7, Store.mapping, served, Op.serve, writeRange, List.length_map,
      length_bitsFrom, set_bits_from_bytes_eq, bitsFrom_add, MODBUS_MAX_WRITE_BITS, ← map_patch]
    split_ifs <;> rfl
  simp only [if_neg h7]
  by_cases h8 : req B.header_length = FC_WRITE_MULTIPLE_REGISTERS
  · simp only [if_pos h8, Store.mapping, served, Op.serve, writeRange, length_wordsFrom,
      store_words_eq, MODBUS_MAX_WRITE_REGISTERS]
    split_ifs <;> rfl
  simp only [if_neg h8]
  by_cases h9 : req B.header_length = FC_REPORT_SLAVE_ID
  · simp only [if_pos h9]
    rfl
  simp only [if_neg h9]
  by_cases h10 : req B.header_length = FC_READ_EXCEPTION_STATUS
  · simp only [if_pos h10]
  simp only [if_neg h10]
  simp only [if_neg h11]
  rfl

theorem served_snd (B : modbus_backend_t) (sft : sft_t) (req : Nat → Byte) (req_length : Nat)
    (s : Store) (op : Op) : (served B sft req req_length s op).2 = op.carry s := by
  unfold served Op.carry
  cases op.serve s <;> rfl

/-- The server filters a request, or serves the operation that it reads in it. -/
theorem modbus_reply_eq (ctx : modbus_t) (req : Nat → Byte) (n : Nat) (s : Store) :
    modbus_reply ctx req n s.mapping =
      if ctx.backend.filter_request ctx.slave (req (ctx.backend.header_length - 1)) then
        (.filtered, s.mapping)
      else
        let B := ctx.backend
        let n' := (B.prepare_response_tid req n).2
        let sft := ⟨req (B.header_length - 1), req B.header_length,
          (B.prepare_response_tid req n).1⟩
        match Op.ofRequest fun k => req (B.header_length + k) with
        | none => (.failed .ENOPROTOOPT, s.mapping)
        | some (.error r) =>
          (.sent (B.send_msg_pre (response_exception B sft r.code)), s.mapping)
        | some (.ok op) =>
          (.sent (B.send_msg_pre (served B sft req n' s op).1), (op.carry s).mapping) := by
  unfold modbus_reply
  simp only
  split
  · rfl
  · rw [reply_switch_eq _ _ _ _ _ rfl]
    rcases Op.ofRequest fun k => req (ctx.backend.header_length + k) with _ | _ | op
    · rfl
    · rfl
    · simp only [served_snd]

end robotchess
