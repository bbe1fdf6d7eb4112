-- The client of the Modbus library: the functions of modbus.c from
-- `check_confirmation` on. Each of them builds a request, sends it, receives a
-- response and looks at it. Between the two halves a call waits for the line.
import RobotChess.Server

open bytes

namespace robotchess

/-! ## Confirmations -/

/-- `compute_response_length_from_request`, with none for `MSG_LENGTH_UNDEFINED`. -/
def compute_response_length_from_request (B : modbus_backend_t) (req : List Byte) : Option Nat :=
  let offset := B.header_length
  let function := req.getD offset 0
  let nb := (wordIn req (offset + 3)).toNat
  if function = FC_READ_COILS ∨ function = FC_READ_DISCRETE_INPUTS then
    some (offset + (2 + byteCount nb) + B.checksum_length)
  else if function = FC_WRITE_AND_READ_REGISTERS ∨ function = FC_READ_HOLDING_REGISTERS ∨
      function = FC_READ_INPUT_REGISTERS then
    some (offset + (2 + 2 * nb) + B.checksum_length)
  else if function = FC_READ_EXCEPTION_STATUS then some (offset + 3 + B.checksum_length)
  else if function = FC_REPORT_SLAVE_ID then none
  else some (offset + 5 + B.checksum_length)

/-- The switch at line 519: how many values were asked for, and how many are there. -/
def nb_values (B : modbus_backend_t) (req rsp : List Byte) : Nat × Nat :=
  let offset := B.header_length
  let function := rsp.getD offset 0
  let req_nb := (wordIn req (offset + 3)).toNat
  let rsp_bytes := (rsp.getD (offset + 1) 0).toNat
  if function = FC_READ_COILS ∨ function = FC_READ_DISCRETE_INPUTS then
    (byteCount req_nb, rsp_bytes)
  else if function = FC_WRITE_AND_READ_REGISTERS ∨ function = FC_READ_HOLDING_REGISTERS ∨
      function = FC_READ_INPUT_REGISTERS then
    (req_nb, rsp_bytes / 2)
  else if function = FC_WRITE_MULTIPLE_COILS ∨ function = FC_WRITE_MULTIPLE_REGISTERS then
    (req_nb, (wordIn rsp (offset + 3)).toNat)
  else if function = FC_REPORT_SLAVE_ID then (rsp_bytes, rsp_bytes)
  else (1, 1)

def check_confirmation (B : modbus_backend_t) (req rsp : List Byte) : Except Errno Nat :=
  let offset := B.header_length
  if B.pre_check_confirmation req rsp = false then .error .EMBBADDATA
  else if compute_response_length_from_request B req = some rsp.length ∨
      compute_response_length_from_request B req = none then
    if rsp.getD offset 0 ≠ req.getD offset 0 then .error .EMBBADDATA
    else if (nb_values B req rsp).1 = (nb_values B req rsp).2 then .ok (nb_values B req rsp).2
    else .error .EMBBADDATA
  else if rsp.length = offset + 2 + B.checksum_length ∧
      (req.getD offset 0).toNat + 0x80 = (rsp.getD offset 0).toNat then
    let exception_code := (rsp.getD (offset + 1) 0).toNat
    if exception_code < MODBUS_EXCEPTION_MAX then .error (.exception exception_code)
    else .error .EMBBADEXC
  else .error .EMBBADDATA

/-! ## Rows of bits -/

/-- The inner loop of `read_io_status`, with `turns` bits of `temp` to go. -/
def unpack_byte (temp : Byte) (nb : Nat) : (turns shift : Nat) → (dest : List Byte) → List Byte
  | 0, _, dest => dest
  | turns + 1, shift, dest =>
    if dest.length < nb then
      unpack_byte temp nb turns (shift + 1) (dest ++ [if temp &&& 1#8 <<< shift ≠ 0 then 1 else 0])
    else dest

/-- The loop of `read_io_status` over the bytes of the response. -/
def unpack (nb : Nat) : (temps : List Byte) → (dest : List Byte) → List Byte
  | [], dest => dest
  | temp :: temps, dest => unpack nb temps (unpack_byte temp nb 8 0 dest)

/-- The inner loop of `modbus_write_bits`, on the bits of `src` that are left. -/
def pack_byte : (turns shift : Nat) → (byte : Byte) → (src : List Byte) → Byte × List Byte
  | 0, _, byte, src => (byte, src)
  | _ + 1, _, byte, [] => (byte, [])
  | turns + 1, shift, byte, b :: src =>
    pack_byte turns (shift + 1)
      (if b ≠ 0 then byte ||| 1#8 <<< shift else byte &&& ~~~(1#8 <<< shift)) src

/-- The loop of `modbus_write_bits` over the bytes of the request. -/
def pack : (byte_count : Nat) → (src : List Byte) → List Byte
  | 0, _ => []
  | byte_count + 1, src =>
    (pack_byte 8 0 0 src).1 :: pack byte_count (pack_byte 8 0 0 src).2

/-! ## Calls -/

/-- What a function of the client returns: the number of values, and what it stores in `dest`. -/
inductive Result
  | written (rc : Nat)
  | bits (rc : Nat) (dest : List Byte)
  | words (rc : Nat) (dest : List Word)
  | bytes (rc : Nat) (dest : List Byte)
  deriving DecidableEq, Repr

/-- A function of the client between `send_msg` and `receive_msg`: the message that was sent, and
what the function makes of the response. -/
structure Awaiting where
  req : List Byte
  confirm : List Byte → Except Errno Result

/-- `check_confirmation`, and what follows it when it does not fail. -/
def confirmed (B : modbus_backend_t) (req : List Byte) (finish : (rc : Nat) → List Byte → Result) :
    Awaiting where
  req := req
  confirm rsp := (check_confirmation B req rsp).map fun rc => finish rc rsp

section
variable (ctx : modbus_t) (t_id : Word)

def read_io_status (function : Byte) (addr : Int) (nb : Nat) : Awaiting :=
  let B := ctx.backend
  confirmed B (B.send_msg_pre (B.build_request_basis ctx.slave t_id function addr nb))
    fun rc rsp => .bits nb (unpack nb ((rsp.drop (B.header_length + 2)).take rc) [])

def modbus_read_bits (addr : Int) (nb : Nat) : Except Errno Awaiting :=
  if MODBUS_MAX_READ_BITS < nb then .error .EMBMDATA
  else .ok (read_io_status ctx t_id FC_READ_COILS addr nb)

def modbus_read_input_bits (addr : Int) (nb : Nat) : Except Errno Awaiting :=
  if MODBUS_MAX_READ_BITS < nb then .error .EMBMDATA
  else .ok (read_io_status ctx t_id FC_READ_DISCRETE_INPUTS addr nb)

/-- The loop that stores `rc` words of a response. -/
def words_of (B : modbus_backend_t) (rc : Nat) (rsp : List Byte) : List Word :=
  (List.range rc).map fun i => wordIn rsp (B.header_length + 2 + 2 * i)

def read_registers (function : Byte) (addr : Int) (nb : Nat) : Except Errno Awaiting :=
  let B := ctx.backend
  if MODBUS_MAX_READ_REGISTERS < nb then .error .EMBMDATA
  else .ok (confirmed B (B.send_msg_pre (B.build_request_basis ctx.slave t_id function addr nb))
    fun rc rsp => .words rc (words_of B rc rsp))

def modbus_read_registers (addr : Int) (nb : Nat) : Except Errno Awaiting :=
  if MODBUS_MAX_READ_REGISTERS < nb then .error .EMBMDATA
  else read_registers ctx t_id FC_READ_HOLDING_REGISTERS addr nb

def modbus_read_input_registers (addr : Int) (nb : Nat) : Except Errno Awaiting :=
  if MODBUS_MAX_READ_REGISTERS < nb then .error .EMBMDATA
  else read_registers ctx t_id FC_READ_INPUT_REGISTERS addr nb

def write_single (function : Byte) (addr value : Int) : Awaiting :=
  let B := ctx.backend
  confirmed B (B.send_msg_pre (B.build_request_basis ctx.slave t_id function addr value))
    fun rc _ => .written rc

def modbus_write_bit (addr status : Int) : Awaiting :=
  write_single ctx t_id FC_WRITE_SINGLE_COIL addr (if status ≠ 0 then 0xFF00 else 0)

def modbus_write_register (addr value : Int) : Awaiting :=
  write_single ctx t_id FC_WRITE_SINGLE_REGISTER addr value

/-- The count `nb` is the length of `src`. -/
def modbus_write_bits (addr : Int) (src : List Byte) : Except Errno Awaiting :=
  let B := ctx.backend
  let nb := src.length
  if MODBUS_MAX_WRITE_BITS < nb then .error .EMBMDATA
  else .ok (confirmed B (B.send_msg_pre
    (B.build_request_basis ctx.slave t_id FC_WRITE_MULTIPLE_COILS addr nb ++
      (BitVec.ofNat 8 (byteCount nb) :: pack (byteCount nb) src))) fun rc _ => .written rc)

def modbus_write_registers (addr : Int) (src : List Word) : Except Errno Awaiting :=
  let B := ctx.backend
  let nb := src.length
  if MODBUS_MAX_WRITE_REGISTERS < nb then .error .EMBMDATA
  else .ok (confirmed B (B.send_msg_pre
    (B.build_request_basis ctx.slave t_id FC_WRITE_MULTIPLE_REGISTERS addr nb ++
      (BitVec.ofNat 8 (nb * 2) :: ofWords src))) fun rc _ => .written rc)

def modbus_write_and_read_registers (write_addr : Int) (src : List Word) (read_addr : Int)
    (read_nb : Nat) : Except Errno Awaiting :=
  let B := ctx.backend
  let write_nb := src.length
  if MODBUS_MAX_RW_WRITE_REGISTERS < write_nb then .error .EMBMDATA
  else if MODBUS_MAX_READ_REGISTERS < read_nb then .error .EMBMDATA
  else .ok (confirmed B (B.send_msg_pre
    (B.build_request_basis ctx.slave t_id FC_WRITE_AND_READ_REGISTERS read_addr read_nb ++
      (intBytes write_addr ++ intBytes write_nb ++
        (BitVec.ofNat 8 (write_nb * 2) :: ofWords src))))
    fun rc rsp => .words rc (words_of B rc rsp))

/-- The last four bytes of the request are not sent. -/
def modbus_report_slave_id : Awaiting :=
  let B := ctx.backend
  let req := B.build_request_basis ctx.slave t_id FC_REPORT_SLAVE_ID 0 0
  confirmed B (B.send_msg_pre (req.take (req.length - 4)))
    fun rc rsp => .bytes rc ((rsp.drop (B.header_length + 2)).take rc)

end

/-! ## The loops -/

theorem unpack_byte_eq (temp : Byte) (nb turns shift : Nat) (dest : List Byte)
    (h8 : shift + turns ≤ 8) : unpack_byte temp nb turns shift dest = dest ++
      (List.range (min turns (nb - dest.length))).map fun k => flag (temp.getLsbD (shift + k)) := by
  induction turns generalizing shift dest with
  | zero => simp [unpack_byte]
  | succ turns ih =>
    rw [unpack_byte]
    by_cases hlt : dest.length < nb
    · have hbit : (if temp &&& 1#8 <<< shift ≠ 0 then 1 else 0) = flag (temp.getLsbD shift) := by
        simp only [flag, and_bit_ne_zero temp (show shift < 8 by omega)]
      have hmin : min (turns + 1) (nb - dest.length) = min turns (nb - (dest.length + 1)) + 1 := by
        omega
      rw [if_pos hlt, hbit, ih _ _ (by omega), List.length_append, List.length_singleton, hmin,
        List.range_succ_eq_map, List.map_cons, List.map_map, List.append_assoc]
      rw [List.singleton_append]
      congr 2
      apply List.map_congr_left
      intro k _
      simp only [Function.comp_apply]
      rw [show shift + 1 + k = shift + (k + 1) by omega]
    · rw [if_neg hlt, show nb - dest.length = 0 by omega]
      simp

/-- The bits of a response, when it has bytes for all of them. -/
theorem unpack_eq (nb : Nat) (temps dest : List Byte) (h : nb - dest.length ≤ 8 * temps.length) :
    unpack nb temps dest = dest ++ (bitsOf temps (nb - dest.length)).map flag := by
  induction temps generalizing dest with
  | nil =>
    rw [unpack, show nb - dest.length = 0 by simpa using h]
    simp [bitsOf]
  | cons temp temps ih =>
    rw [List.length_cons] at h
    rw [unpack, unpack_byte_eq _ _ _ _ _ (by decide), bitsOf_cons, List.map_append, List.map_map,
      ← List.append_assoc]
    have hlen : (dest ++ (List.range (min 8 (nb - dest.length))).map fun k =>
        flag (temp.getLsbD (0 + k))).length = dest.length + min 8 (nb - dest.length) := by
      simp
    rw [ih _ (by rw [hlen]; omega), hlen,
      show nb - (dest.length + min 8 (nb - dest.length)) = nb - dest.length - 8 by omega]
    simp only [Nat.zero_add]
    rfl

/-- One bit of a byte is set or cleared. -/
theorem getLsbD_set_bit (byte b : Byte) {shift k : Nat} (hk : k < 8) :
    (if b ≠ 0 then byte ||| 1#8 <<< shift else byte &&& ~~~(1#8 <<< shift)).getLsbD k =
      if k = shift then b != 0 else byte.getLsbD k := by
  rw [← BitVec.twoPow_eq]
  by_cases hb : b = 0
  · rw [if_neg (not_not.mpr hb), BitVec.getLsbD_and, BitVec.getLsbD_not, BitVec.getLsbD_twoPow]
    by_cases hks : k = shift
    · subst hks
      simp [hb]
    · rw [if_neg hks]
      simp [hk, Ne.symm hks]
  · rw [if_pos hb, BitVec.getLsbD_or, BitVec.getLsbD_twoPow]
    by_cases hks : k = shift
    · subst hks
      simpa [hk] using hb
    · rw [if_neg hks]
      simp [Ne.symm hks]

theorem pack_byte_eq (turns shift : Nat) (byte : Byte) (src : List Byte) (h8 : shift + turns = 8)
    (hb : ∀ k, shift ≤ k → byte.getLsbD k = false) :
    (∀ k < 8, (pack_byte turns shift byte src).1.getLsbD k =
      if k < shift then byte.getLsbD k else src.getD (k - shift) 0 != 0) ∧
    (pack_byte turns shift byte src).2 = src.drop turns := by
  induction turns generalizing shift byte src with
  | zero => exact ⟨fun k hk => by rw [if_pos (by omega)]; rfl, rfl⟩
  | succ turns ih =>
    cases src with
    | nil =>
      refine ⟨fun k hk => ?_, rfl⟩
      simp only [pack_byte]
      split
      · rfl
      · rw [hb k (by omega)]
        rfl
    | cons b src =>
      simp only [pack_byte]
      generalize hbyte : (if b ≠ 0 then byte ||| 1#8 <<< shift
        else byte &&& ~~~(1#8 <<< shift)) = byte'
      have hset : ∀ k < 8, byte'.getLsbD k = if k = shift then b != 0 else byte.getLsbD k := by
        intro k hk
        rw [← hbyte, getLsbD_set_bit _ _ hk]
      have hhigh : ∀ k, shift + 1 ≤ k → byte'.getLsbD k = false := by
        intro k hk
        by_cases h8 : k < 8
        · rw [hset k h8, if_neg (by omega), hb k (by omega)]
        · exact BitVec.getLsbD_of_ge _ _ (by omega)
      obtain ⟨hbits, hrest⟩ := ih (shift + 1) byte' src (by omega) hhigh
      refine ⟨fun k hk => ?_, by rw [hrest, List.drop_succ_cons]⟩
      rw [hbits k hk]
      by_cases hks : k < shift
      · rw [if_pos (by omega), if_pos hks, hset k hk, if_neg (by omega)]
      · rw [if_neg hks]
        by_cases he : k = shift
        · rw [if_pos (by omega), hset k hk, if_pos he, he, Nat.sub_self, List.getD_cons_zero]
        · rw [if_neg (by omega), show k - shift = k - (shift + 1) + 1 by omega,
            List.getD_cons_succ]

/-- The bytes of a request with some bits. -/
theorem pack_packed (src : List Byte) : Packed src.length (fun k => src.getD k 0 != 0)
    (pack (byteCount src.length) src) := by
  generalize hn : byteCount src.length = n
  induction n generalizing src with
  | zero =>
    have h0 : src.length = 0 := by
      unfold byteCount at hn
      split at hn <;> omega
    rw [h0]
    exact Packed.nil _
  | succ n ih =>
    have hpos : 0 < src.length := by
      by_contra h0
      rw [Nat.le_zero.mp (Nat.le_of_not_lt h0)] at hn
      cases hn
    have hnext : byteCount (src.drop 8).length = n := by
      rw [List.length_drop]
      unfold byteCount at hn ⊢
      split at hn <;> split <;> omega
    obtain ⟨hbits, hrest⟩ := pack_byte_eq 8 0 0 src rfl (by simp)
    rw [pack, hrest]
    refine Packed.cons hpos (fun k hk _ => ?_) ?_
    · rw [hbits k hk, if_neg (by omega), Nat.sub_zero]
    · have := ih _ hnext
      rw [List.length_drop] at this
      refine this.congr fun k _ => ?_
      simp [Nat.add_comm 8 k]

end robotchess
