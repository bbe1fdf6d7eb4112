-- The serial backend of the Modbus library, modbus-rtu.c: a message ends with a
-- checksum that is computed with two tables of 256 bytes. The tables are the cyclic
-- redundancy check with polynomial 0xA001, and a damaged message is refused.
import RobotChess.Crc
import RobotChess.Modbus

open bytes

namespace robotchess

/-! ## The checksum -/

def table_crc_hi : List Byte :=
  [0x00, 0xC1, 0x81, 0x40, 0x01, 0xC0, 0x80, 0x41, 0x01, 0xC0, 0x80, 0x41,
    0x00, 0xC1, 0x81, 0x40, 0x01, 0xC0, 0x80, 0x41, 0x00, 0xC1, 0x81, 0x40,
    0x00, 0xC1, 0x81, 0x40, 0x01, 0xC0, 0x80, 0x41, 0x01, 0xC0, 0x80, 0x41,
    0x00, 0xC1, 0x81, 0x40, 0x00, 0xC1, 0x81, 0x40, 0x01, 0xC0, 0x80, 0x41,
    0x00, 0xC1, 0x81, 0x40, 0x01, 0xC0, 0x80, 0x41, 0x01, 0xC0, 0x80, 0x41,
    0x00, 0xC1, 0x81, 0x40, 0x01, 0xC0, 0x80, 0x41, 0x00, 0xC1, 0x81, 0x40,
    0x00, 0xC1, 0x81, 0x40, 0x01, 0xC0, 0x80, 0x41, 0x00, 0xC1, 0x81, 0x40,
    0x01, 0xC0, 0x80, 0x41, 0x01, 0xC0, 0x80, 0x41, 0x00, 0xC1, 0x81, 0x40,
    0x00, 0xC1, 0x81, 0x40, 0x01, 0xC0, 0x80, 0x41, 0x01, 0xC0, 0x80, 0x41,
    0x00, 0xC1, 0x81, 0x40, 0x01, 0xC0, 0x80, 0x41, 0x00, 0xC1, 0x81, 0x40,
    0x00, 0xC1, 0x81, 0x40, 0x01, 0xC0, 0x80, 0x41, 0x01, 0xC0, 0x80, 0x41,
    0x00, 0xC1, 0x81, 0x40, 0x00, 0xC1, 0x81, 0x40, 0x01, 0xC0, 0x80, 0x41,
    0x00, 0xC1, 0x81, 0x40, 0x01, 0xC0, 0x80, 0x41, 0x01, 0xC0, 0x80, 0x41,
    0x00, 0xC1, 0x81, 0x40, 0x00, 0xC1, 0x81, 0x40, 0x01, 0xC0, 0x80, 0x41,
    0x01, 0xC0, 0x80, 0x41, 0x00, 0xC1, 0x81, 0x40, 0x01, 0xC0, 0x80, 0x41,
    0x00, 0xC1, 0x81, 0x40, 0x00, 0xC1, 0x81, 0x40, 0x01, 0xC0, 0x80, 0x41,
    0x00, 0xC1, 0x81, 0x40, 0x01, 0xC0, 0x80, 0x41, 0x01, 0xC0, 0x80, 0x41,
    0x00, 0xC1, 0x81, 0x40, 0x01, 0xC0, 0x80, 0x41, 0x00, 0xC1, 0x81, 0x40,
    0x00, 0xC1, 0x81, 0x40, 0x01, 0xC0, 0x80, 0x41, 0x01, 0xC0, 0x80, 0x41,
    0x00, 0xC1, 0x81, 0x40, 0x00, 0xC1, 0x81, 0x40, 0x01, 0xC0, 0x80, 0x41,
    0x00, 0xC1, 0x81, 0x40, 0x01, 0xC0, 0x80, 0x41, 0x01, 0xC0, 0x80, 0x41,
    0x00, 0xC1, 0x81, 0x40]

def table_crc_lo : List Byte :=
  [0x00, 0xC0, 0xC1, 0x01, 0xC3, 0x03, 0x02, 0xC2, 0xC6, 0x06, 0x07, 0xC7,
    0x05, 0xC5, 0xC4, 0x04, 0xCC, 0x0C, 0x0D, 0xCD, 0x0F, 0xCF, 0xCE, 0x0E,
    0x0A, 0xCA, 0xCB, 0x0B, 0xC9, 0x09, 0x08, 0xC8, 0xD8, 0x18, 0x19, 0xD9,
    0x1B, 0xDB, 0xDA, 0x1A, 0x1E, 0xDE, 0xDF, 0x1F, 0xDD, 0x1D, 0x1C, 0xDC,
    0x14, 0xD4, 0xD5, 0x15, 0xD7, 0x17, 0x16, 0xD6, 0xD2, 0x12, 0x13, 0xD3,
    0x11, 0xD1, 0xD0, 0x10, 0xF0, 0x30, 0x31, 0xF1, 0x33, 0xF3, 0xF2, 0x32,
    0x36, 0xF6, 0xF7, 0x37, 0xF5, 0x35, 0x34, 0xF4, 0x3C, 0xFC, 0xFD, 0x3D,
    0xFF, 0x3F, 0x3E, 0xFE, 0xFA, 0x3A, 0x3B, 0xFB, 0x39, 0xF9, 0xF8, 0x38,
    0x28, 0xE8, 0xE9, 0x29, 0xEB, 0x2B, 0x2A, 0xEA, 0xEE, 0x2E, 0x2F, 0xEF,
    0x2D, 0xED, 0xEC, 0x2C, 0xE4, 0x24, 0x25, 0xE5, 0x27, 0xE7, 0xE6, 0x26,
    0x22, 0xE2, 0xE3, 0x23, 0xE1, 0x21, 0x20, 0xE0, 0xA0, 0x60, 0x61, 0xA1,
    0x63, 0xA3, 0xA2, 0x62, 0x66, 0xA6, 0xA7, 0x67, 0xA5, 0x65, 0x64, 0xA4,
    0x6C, 0xAC, 0xAD, 0x6D, 0xAF, 0x6F, 0x6E, 0xAE, 0xAA, 0x6A, 0x6B, 0xAB,
    0x69, 0xA9, 0xA8, 0x68, 0x78, 0xB8, 0xB9, 0x79, 0xBB, 0x7B, 0x7A, 0xBA,
    0xBE, 0x7E, 0x7F, 0xBF, 0x7D, 0xBD, 0xBC, 0x7C, 0xB4, 0x74, 0x75, 0xB5,
    0x77, 0xB7, 0xB6, 0x76, 0x72, 0xB2, 0xB3, 0x73, 0xB1, 0x71, 0x70, 0xB0,
    0x50, 0x90, 0x91, 0x51, 0x93, 0x53, 0x52, 0x92, 0x96, 0x56, 0x57, 0x97,
    0x55, 0x95, 0x94, 0x54, 0x9C, 0x5C, 0x5D, 0x9D, 0x5F, 0x9F, 0x9E, 0x5E,
    0x5A, 0x9A, 0x9B, 0x5B, 0x99, 0x59, 0x58, 0x98, 0x88, 0x48, 0x49, 0x89,
    0x4B, 0x8B, 0x8A, 0x4A, 0x4E, 0x8E, 0x8F, 0x4F, 0x8D, 0x4D, 0x4C, 0x8C,
    0x44, 0x84, 0x85, 0x45, 0x87, 0x47, 0x46, 0x86, 0x82, 0x42, 0x43, 0x83,
    0x41, 0x81, 0x80, 0x40]

/-- One turn of the loop of `crc16`, on `crc_hi` and `crc_lo`. -/
def crc16_turn (crc : Byte × Byte) (b : Byte) : Byte × Byte :=
  let i := crc.1 ^^^ b
  (crc.2 ^^^ table_crc_hi.getD i.toNat 0, table_crc_lo.getD i.toNat 0)

def crc16 (buffer : List Byte) : Word :=
  let crc := buffer.foldl crc16_turn (0xFF, 0xFF)
  word crc.1 crc.2

/-! ## The backend -/

def modbus_rtu_build_request_basis (ctx_slave : Int) (function : Byte) (addr nb : Int) :
    List Byte :=
  [BitVec.ofInt 8 ctx_slave, function] ++ intBytes addr ++ intBytes nb

def modbus_rtu_build_response_basis (sft : sft_t) : List Byte := [sft.slave, sft.function]

def modbus_rtu_send_msg_pre (req : List Byte) : List Byte :=
  req ++ [hi (crc16 req), lo (crc16 req)]

def modbus_rtu_check_integrity (msg : List Byte) : Bool :=
  let crc_calculated := crc16 (msg.take (msg.length - 2))
  let crc_received := word (msg.getD (msg.length - 2) 0) (msg.getD (msg.length - 1) 0)
  crc_calculated == crc_received

def modbus_rtu_filter_request (ctx_slave : Int) (slave : Byte) : Bool :=
  (slave.toNat : Int) != ctx_slave && (slave.toNat : Int) != MODBUS_BROADCAST_ADDRESS

def modbus_rtu_backend : modbus_backend_t where
  header_length := 1
  checksum_length := 2
  max_adu_length := 256
  build_request_basis ctx_slave _ := modbus_rtu_build_request_basis ctx_slave
  build_response_basis := modbus_rtu_build_response_basis
  prepare_response_tid _ req_length := (0, req_length - 2)
  send_msg_pre := modbus_rtu_send_msg_pre
  check_integrity := modbus_rtu_check_integrity
  pre_check_confirmation _ _ := true
  filter_request := modbus_rtu_filter_request

/-- The backends of the library. The one of `modbus_new_tcp_pi` has the messages of TCP. -/
def IsBackend (B : modbus_backend_t) : Prop := B = modbus_tcp_backend ∨ B = modbus_rtu_backend

/-! ## The tables -/

/-- The bit-reversed form of x^16 + x^15 + x^2 + 1. -/
def crcPolynomial : Word := 0xA001

theorem table_crc_all : List.zipWith word table_crc_lo table_crc_hi =
    (List.range 256).map (fun i => crc.feedByte crcPolynomial 0 (BitVec.ofNat 8 i)) := by
  decide +kernel

theorem table_crc (i : Byte) :
    crc.feedByte crcPolynomial 0 i =
      word (table_crc_lo.getD i.toNat 0) (table_crc_hi.getD i.toNat 0) := by
  have hlo : table_crc_lo.length = 256 := by decide +kernel
  have hhi : table_crc_hi.length = 256 := by decide +kernel
  have h := congrArg (fun l => l[i.toNat]?) table_crc_all
  have hl : i.toNat < table_crc_lo.length := by rw [hlo]; exact i.isLt
  have hh : i.toNat < table_crc_hi.length := by rw [hhi]; exact i.isLt
  rw [List.getElem?_zipWith, List.getElem?_eq_getElem hl, List.getElem?_eq_getElem hh,
    List.getElem?_map, List.getElem?_range i.isLt] at h
  simpa [List.getElem?_eq_getElem hl, List.getElem?_eq_getElem hh] using h.symm

/-- `crc_hi` is the low half of the register. -/
theorem crc16_turn_eq (c : Byte × Byte) (b : Byte) :
    word (crc16_turn c b).2 (crc16_turn c b).1 =
      crc.feedByte crcPolynomial (word c.2 c.1) b := by
  rw [crc.feedByte_table, setWidth_word, word_shiftRight, table_crc, word_xor, crc.zero_xor]
  rfl

theorem crc16_eq (buffer : List Byte) : word (lo (crc16 buffer)) (hi (crc16 buffer)) =
    crc.feed crcPolynomial 0xFFFF (crc.bits buffer) := by
  rw [← crc.foldl_feedByte _ (by decide)]
  have hfold : ∀ c : Byte × Byte,
      word (buffer.foldl crc16_turn c).2 (buffer.foldl crc16_turn c).1 =
        buffer.foldl (crc.feedByte crcPolynomial) (word c.2 c.1) := by
    induction buffer with
    | nil => intro c; rfl
    | cons b buffer ih =>
      intro c
      rw [List.foldl_cons, ih, crc16_turn_eq, List.foldl_cons]
  rw [crc16, lo_word, hi_word]
  exact hfold (0xFF, 0xFF)

/-! ## Damaged messages -/

theorem crcPolynomial_top : crcPolynomial.getLsbD (16 - 1) = true := by decide

theorem crcPolynomial_odd : crc.parity crcPolynomial = true := by decide

/-- The register does not come back to 1 within the bits of the longest message. -/
theorem crcPolynomial_order {k : Nat} (h0 : 0 < k) (hk : k < 2048) :
    crc.shifts crcPolynomial k 1 ≠ 1 := by
  obtain ⟨j, rfl⟩ : ∃ j, k = j + 1 := ⟨k - 1, by omega⟩
  have hback : crc.comesBack crcPolynomial 1 (crc.shift crcPolynomial 1) 2047 = false := by
    decide +kernel
  rw [crc.shifts]
  exact crc.comesBack_false crcPolynomial hback (by omega)

theorem ofBits_word (a b : Byte) : crc.ofBits (crc.bits [a, b]) = word b a := by
  apply BitVec.eq_of_getLsbD_eq
  intro i hi
  rw [crc.getLsbD_ofBits, getLsbD_word]
  by_cases h8 : i < 8
  · simp [crc.bits, crc.byteBits, h8, hi]
  · simp [crc.bits, crc.byteBits, h8, hi, List.getElem_append]

/-- A whole message passes when it leaves the register at zero. -/
theorem check_integrity_iff (msg : List Byte) (h2 : 2 ≤ msg.length) :
    modbus_rtu_check_integrity msg = true ↔
      crc.feed crcPolynomial 0xFFFF (crc.bits msg) = 0 := by
  obtain ⟨m, a, b, rfl⟩ : ∃ m a b, msg = m ++ [a, b] := by
    refine ⟨msg.take (msg.length - 2), msg[msg.length - 2], msg[msg.length - 1], ?_⟩
    conv_lhs => rw [← List.take_append_drop (msg.length - 2) msg]
    rw [List.drop_eq_getElem_cons (by omega), List.drop_eq_getElem_cons (by omega),
      List.drop_of_length_le (by omega)]
    simp only [show msg.length - 2 + 1 = msg.length - 1 by omega]
  have hlen : (crc.bits [a, b]).length ≤ 16 := by simp [crc.length_bits]
  rw [crc.bits_append, crc.feed_append, ← crc16_eq, crc.feed_eq_zero crcPolynomial_top hlen,
    ofBits_word]
  have hcheck : modbus_rtu_check_integrity (m ++ [a, b]) = (crc16 m == word a b) := by
    simp [modbus_rtu_check_integrity]
  rw [hcheck, beq_iff_eq]
  constructor
  · intro h
    rw [h, lo_word, hi_word]
  · intro h
    rw [← word_hi_lo (crc16 m)]
    have hl := congrArg hi h
    have hh := congrArg lo h
    rw [hi_word, hi_word] at hl
    rw [lo_word, lo_word] at hh
    rw [hl, hh]

theorem check_integrity_send (req : List Byte) :
    modbus_rtu_check_integrity (modbus_rtu_send_msg_pre req) = true := by
  simp [modbus_rtu_check_integrity, modbus_rtu_send_msg_pre]

/-- The bits in which two messages differ. -/
def flipped (msg msg' : List Byte) : List Bool :=
  List.zipWith (· ^^ ·) (crc.bits msg) (crc.bits msg')

/-- One to three bits, or an odd number of bits, or some bits within 16 in a row. -/
def Caught (e : List Bool) : Prop :=
  (0 < e.count true ∧ e.count true ≤ 3) ∨ e.count true % 2 = 1 ∨
    ∃ i w j, e = List.replicate i false ++ w ++ List.replicate j false ∧ true ∈ w ∧ w.length ≤ 16

/-- The loop over the tables computes the bitwise check of the standard: the register starts with
ones, the polynomial is 0xA001, and the low byte goes first. -/
theorem the_tables_compute_the_bitwise_check (buffer : List Byte) :
    crc16 buffer = word (lo (crc.feed crcPolynomial 0xFFFF (crc.bits buffer)))
      (hi (crc.feed crcPolynomial 0xFFFF (crc.bits buffer))) := by
  rw [← crc16_eq, lo_word, hi_word, word_hi_lo]

/-- The check refuses a sent message of the serial line with one of these damages. It is given all
the bytes that were sent: when a damaged byte count makes `receive_msg` end the message early, the
check sees fewer of them, and the law says nothing. -/
theorem a_damaged_message_is_refused (req msg : List Byte)
    (hlen : msg.length = (modbus_rtu_send_msg_pre req).length) (hmax : msg.length ≤ 256)
    (hdamage : Caught (flipped (modbus_rtu_send_msg_pre req) msg)) :
    modbus_rtu_check_integrity msg = false := by
  have h2 : 2 ≤ (modbus_rtu_send_msg_pre req).length := by
    simp [modbus_rtu_send_msg_pre]
  have hsent := (check_integrity_iff _ h2).mp (check_integrity_send req)
  have hbits : (crc.bits (modbus_rtu_send_msg_pre req)).length = (crc.bits msg).length := by
    rw [crc.length_bits, crc.length_bits, hlen]
  have hxor := crc.feed_xor crcPolynomial 0xFFFF 0xFFFF _ _ hbits
  rw [hsent, crc.zero_xor, BitVec.xor_self] at hxor
  have hshort : (flipped (modbus_rtu_send_msg_pre req) msg).length ≤ 2048 := by
    rw [flipped, List.length_zipWith, hbits, Nat.min_self, crc.length_bits]
    omega
  rw [← Bool.not_eq_true, check_integrity_iff msg (by omega), hxor]
  change crc.feed crcPolynomial 0 (flipped (modbus_rtu_send_msg_pre req) msg) ≠ 0
  rcases hdamage with ⟨h0, h3⟩ | hodd | ⟨i, w, j, he, ht, hw⟩
  · exact crc.three_detected crcPolynomial_top crcPolynomial_odd h0 h3 fun k hk hlt =>
      crcPolynomial_order hk (by omega)
  · exact crc.odd_detected crcPolynomial_odd (by decide) hodd
  · rw [he]
    exact crc.burst_detected crcPolynomial_top hw ht i j

/-- A request to slave 1 with two flipped bits. -/
theorem a_request_with_two_flipped_bits_is_refused :
    modbus_rtu_check_integrity [0x01, 0x03, 0x04, 0x10, 0x00, 0x11, 0x85, 0xFF] = false :=
  a_damaged_message_is_refused [0x01, 0x03, 0x04, 0x10, 0x00, 0x01] _ (by decide) (by decide)
    (Or.inl (by decide +kernel))

end robotchess
