-- What the two backends have in common. A message is a header, a function code with
-- its data, and a checksum, and only the middle part, the PDU, says what it is about.
import RobotChess.Receive

open bytes framing

namespace robotchess

/-- The header of a PDU of some length, and the checksum of a header with its PDU. -/
structure Layout where
  head : (slave : Byte) → (t_id : Word) → (length : Nat) → List Byte
  tail : List Byte → List Byte

def Layout.adu (L : Layout) (slave : Byte) (t_id : Word) (pdu : List Byte) : List Byte :=
  L.head slave t_id pdu.length ++ pdu ++ L.tail (L.head slave t_id pdu.length ++ pdu)

/-- What the messages of a backend are, as PDUs in a layout. -/
structure Framed (B : modbus_backend_t) extends Layout where
  head_length : ∀ s t n, (head s t n).length = B.header_length
  tail_length : ∀ m, (tail m).length = B.checksum_length
  header_pos : 0 < B.header_length
  head_slave : ∀ s t n, (head s t n).getD (B.header_length - 1) 0 = s
  -- A PDU has at most 253 bytes.
  room : B.header_length + 253 + B.checksum_length = B.max_adu_length
  request : ∀ c t f a n data, B.send_msg_pre (B.build_request_basis c t f a n ++ data) =
    toLayout.adu (BitVec.ofInt 8 c) t (f :: (intBytes a ++ intBytes n ++ data))
  -- The request of `modbus_report_slave_id` is cut behind the function code.
  bare : ∀ c t f a n, B.send_msg_pre ((B.build_request_basis c t f a n).take
    ((B.build_request_basis c t f a n).length - 4)) = toLayout.adu (BitVec.ofInt 8 c) t [f]
  response : ∀ s f t data, B.send_msg_pre (B.build_response_basis ⟨s, f, t⟩ ++ data) =
    toLayout.adu s t (f :: data)
  -- A request that is sent back gets its length and checksum again.
  again : ∀ s t pdu, B.send_msg_pre (head s t pdu.length ++ pdu) = toLayout.adu s t pdu
  prepare : ∀ (req : Nat → Byte) len s t n,
    (∀ i < B.header_length, req i = (head s t n).getD i 0) →
    (B.prepare_response_tid req len).2 = len - B.checksum_length ∧
      ∀ s' pdu, toLayout.adu s' (B.prepare_response_tid req len).1 pdu = toLayout.adu s' t pdu
  integrity : ∀ s t pdu, B.check_integrity (toLayout.adu s t pdu) = true
  same_t_id : ∀ s t pdu s' pdu',
    B.pre_check_confirmation (toLayout.adu s t pdu) (toLayout.adu s' t pdu') = true

def tcpLayout : Layout where
  head s t n :=
    [hi t, lo t, 0, 0, hi (BitVec.ofNat 16 (n + 1)), lo (BitVec.ofNat 16 (n + 1)), s]
  tail _ := []

theorem tcp_send (s : Byte) (t : Word) (pdu : List Byte) :
    modbus_tcp_send_msg_pre ([hi t, lo t, 0, 0, 0, 0, s] ++ pdu) = tcpLayout.adu s t pdu := by
  simp [modbus_tcp_send_msg_pre, Layout.adu, tcpLayout]

def tcpFramed : Framed modbus_tcp_backend where
  toLayout := tcpLayout
  head_length _ _ _ := rfl
  tail_length _ := rfl
  header_pos := by decide
  head_slave _ _ _ := rfl
  room := rfl
  request c t f a n data := tcp_send _ t _
  bare c t f a n := tcp_send _ t [f]
  response s f t data := tcp_send s t _
  again s t pdu := by
    simp [modbus_tcp_backend, modbus_tcp_send_msg_pre, Layout.adu, tcpLayout]
  prepare req len s t n h := by
    have h0 := h 0 (by decide)
    have h1 := h 1 (by decide)
    simp only [tcpLayout, List.getD_cons_zero, List.getD_cons_succ] at h0 h1
    refine ⟨rfl, fun s' pdu => ?_⟩
    simp only [modbus_tcp_backend, modbus_tcp_prepare_response_tid, h0, h1, word_hi_lo]
  integrity _ _ _ := rfl
  same_t_id s t pdu s' pdu' := by
    simp [modbus_tcp_backend, modbus_tcp_pre_check_confirmation, Layout.adu, tcpLayout]

def rtuLayout : Layout where
  head s _ _ := [s]
  tail m := [hi (crc16 m), lo (crc16 m)]

def rtuFramed : Framed modbus_rtu_backend where
  toLayout := rtuLayout
  head_length _ _ _ := rfl
  tail_length _ := rfl
  header_pos := by decide
  head_slave _ _ _ := rfl
  room := rfl
  request c t f a n data := rfl
  bare c t f a n := rfl
  response s f t data := rfl
  again s t pdu := rfl
  prepare req len s t n h := ⟨rfl, fun _ _ => rfl⟩
  integrity s t pdu := check_integrity_send _
  same_t_id _ _ _ _ _ := rfl

theorem IsBackend.framed {B : modbus_backend_t} (hB : IsBackend B) : Nonempty (Framed B) := by
  rcases hB with rfl | rfl
  · exact ⟨tcpFramed⟩
  · exact ⟨rtuFramed⟩

/-- A response to another transaction is told apart over TCP. -/
theorem other_t_id {t t' : Word} (ht : t ≠ t') (s s' : Byte) (pdu pdu' : List Byte) :
    modbus_tcp_pre_check_confirmation (tcpLayout.adu s t pdu) (tcpLayout.adu s' t' pdu') =
      false := by
  have hne : ¬ (hi t = hi t' ∧ lo t = lo t') := by
    rintro ⟨hh, hl⟩
    apply ht
    rw [← word_hi_lo t, hh, hl, word_hi_lo]
  simpa [modbus_tcp_pre_check_confirmation, Layout.adu, tcpLayout] using hne

namespace Framed

variable {B : modbus_backend_t} (L : Framed B)

theorem length_adu (s : Byte) (t : Word) (pdu : List Byte) :
    (L.adu s t pdu).length = B.header_length + pdu.length + B.checksum_length := by
  simp only [Layout.adu, List.length_append, L.head_length, L.tail_length]

/-- The byte at `header_length + k` is byte `k` of the PDU. -/
theorem getD_adu (s : Byte) (t : Word) {pdu : List Byte} {k : Nat} (hk : k < pdu.length) :
    (L.adu s t pdu).getD (B.header_length + k) 0 = pdu.getD k 0 := by
  rw [Layout.adu, List.append_assoc, ← L.head_length s t pdu.length, getD_behind, getD_before hk]

/-- The `n` bytes from `header_length + k` on are those of the PDU from `k` on. -/
theorem take_drop_adu (s : Byte) (t : Word) {pdu : List Byte} {k n : Nat}
    (h : k + n ≤ pdu.length) :
    ((L.adu s t pdu).drop (B.header_length + k)).take n = (pdu.drop k).take n := by
  rw [Layout.adu, List.append_assoc, ← L.head_length s t pdu.length,
    List.drop_length_add_append, List.drop_append_of_le_length (by omega),
    List.take_append_of_le_length (by rw [List.length_drop]; omega)]

theorem getD_head (s : Byte) (t : Word) {pdu : List Byte} {k : Nat} (hk : k < B.header_length) :
    (L.adu s t pdu).getD k 0 = (L.head s t pdu.length).getD k 0 := by
  rw [Layout.adu, List.append_assoc, getD_before (by rwa [L.head_length])]

end Framed

/-! ## Whole messages -/

/-- What the PDU says about the length of its data. -/
def dataLength (pdu : List Byte) : msg_type_t → Nat
  | .MSG_INDICATION =>
    if pdu.getD 0 0 = FC_WRITE_MULTIPLE_COILS ∨ pdu.getD 0 0 = FC_WRITE_MULTIPLE_REGISTERS then
      (pdu.getD 5 0).toNat
    else if pdu.getD 0 0 = FC_WRITE_AND_READ_REGISTERS then (pdu.getD 9 0).toNat
    else 0
  | .MSG_CONFIRMATION =>
    if pdu.getD 0 0 ≤ FC_READ_INPUT_REGISTERS ∨ pdu.getD 0 0 = FC_REPORT_SLAVE_ID ∨
        pdu.getD 0 0 = FC_WRITE_AND_READ_REGISTERS then
      (pdu.getD 1 0).toNat
    else 0

/-- A PDU with as many bytes as its function code and its counts say. -/
structure WellFormed (t : msg_type_t) (pdu : List Byte) : Prop where
  length : pdu.length =
    1 + compute_meta_length_after_function (pdu.getD 0 0) t + dataLength pdu t
  short : pdu.length ≤ 253

namespace Framed

variable {B : modbus_backend_t} (L : Framed B)

/-- Once the counts are there, the data length is the one of the whole PDU. -/
theorem compute_data_length (t : msg_type_t) (s : Byte) (tid : Word) {pdu : List Byte} {k : Nat}
    (hmeta : 1 + compute_meta_length_after_function (pdu.getD 0 0) t ≤ k) (hk : k ≤ pdu.length) :
    compute_data_length_after_meta B (L.head s tid pdu.length ++ pdu.take k) t =
      dataLength pdu t + B.checksum_length := by
  have hget : ∀ i, (L.head s tid pdu.length ++ pdu).getD (B.header_length + i) 0 =
      pdu.getD i 0 := by
    intro i
    rw [← L.head_length s tid pdu.length, getD_behind]
  have hcut : (L.head s tid pdu.length ++ pdu.take k).getD B.header_length 0 = pdu.getD 0 0 := by
    have := getD_behind (L.head s tid pdu.length) (pdu.take k) 0
    rwa [L.head_length, Nat.add_zero, getD_take (by omega)] at this
  rw [← compute_data_length_append B t _ (pdu.drop k), List.append_assoc, List.take_append_drop]
  · have h0 := hget 0
    rw [Nat.add_zero] at h0
    unfold compute_data_length_after_meta dataLength
    cases t <;> simp only [h0, hget]
  · rw [hcut, List.length_append, L.head_length, List.length_take]
    omega

/-- When the counts are there, what is left to read is the data and the checksum. -/
theorem step_meta_adu (t : msg_type_t) (s : Byte) (tid : Word) {pdu : List Byte}
    (h : WellFormed t pdu) :
    step_meta B t (L.head s tid pdu.length ++
        pdu.take (1 + compute_meta_length_after_function (pdu.getD 0 0) t)) =
      .ok (.STEP_DATA, dataLength pdu t + B.checksum_length) := by
  have hlen := h.length
  have hshort := h.short
  have hroom := L.room
  generalize hm : compute_meta_length_after_function (pdu.getD 0 0) t = m at hlen
  have hcomp : compute_data_length_after_meta B (L.head s tid pdu.length ++ pdu.take (1 + m)) t =
      dataLength pdu t + B.checksum_length :=
    L.compute_data_length t s tid (by omega) (by omega)
  have hfit : ¬ B.max_adu_length < (L.head s tid pdu.length ++ pdu.take (1 + m)).length +
      (dataLength pdu t + B.checksum_length) := by
    rw [List.length_append, L.head_length, List.length_take]
    omega
  simp only [step_meta, hcomp, if_neg hfit]

/-- A well-formed PDU in the layout is a message that the receiver ends at its last byte. -/
theorem accepts_adu (t : msg_type_t) (s : Byte) (tid : Word) {pdu : List Byte}
    (h : WellFormed t pdu) : (messages B t).Accepts (L.adu s tid pdu) := by
  have hlen := h.length
  have hshort := h.short
  have hroom := L.room
  generalize hm : compute_meta_length_after_function (pdu.getD 0 0) t = m at hlen
  let head := L.head s tid pdu.length
  let tail := L.tail (head ++ pdu)
  have htail : tail.length = B.checksum_length := L.tail_length _
  have hhead : head.length = B.header_length := L.head_length _ _ _
  have hsplit : L.adu s tid pdu = (head ++ pdu.take 1) ++
      ((pdu.drop 1).take m ++ ((pdu.drop (1 + m) ++ tail) ++ [])) := by
    simp only [Layout.adu, head, tail, List.append_nil, List.append_assoc]
    rw [← List.append_assoc ((pdu.drop 1).take m), ← List.drop_drop, List.take_append_drop,
      ← List.append_assoc (pdu.take 1), List.take_append_drop]
  have hone : (head ++ pdu.take 1).length = B.header_length + 1 := by
    rw [List.length_append, hhead, List.length_take]
    omega
  have hfun : (head ++ pdu.take 1).getD B.header_length 0 = pdu.getD 0 0 := by
    have := getD_behind head (pdu.take 1) 0
    rwa [hhead, Nat.add_zero, getD_take (by decide)] at this
  have hdata : (pdu.drop (1 + m) ++ tail).length = dataLength pdu t + B.checksum_length := by
    rw [List.length_append, List.length_drop, htail]
    omega
  have hrest : step_meta B t (head ++ pdu.take (1 + m)) =
      .ok (.STEP_DATA, dataLength pdu t + B.checksum_length) := by
    rw [← hm]
    exact L.step_meta_adu t s tid h
  have hdone : (head ++ pdu.take (1 + m)) ++ (pdu.drop (1 + m) ++ tail) = L.adu s tid pdu := by
    rw [List.append_assoc, ← List.append_assoc (pdu.take (1 + m)), List.take_append_drop,
      ← List.append_assoc]
    rfl
  unfold Format.Accepts
  conv_lhs => rw [hsplit]
  change (messages B t).feed (.reading [] B.header_length .STEP_FUNCTION) _ = _
  rw [Format.feed_stage _ _ _ _ _ _ hone, List.nil_append, after_eq B t _ _ []]
  simp only [next_step, hfun, hm]
  by_cases hm0 : m = 0
  · subst hm0
    rw [if_neg (by simp), hrest]
    simp only [List.take_zero, List.nil_append]
    rw [feed_data t _ _ _ _ hdata, ← hdone]
  · have hmeta : ((pdu.drop 1).take m).length = m := by
      rw [List.length_take, List.length_drop]
      omega
    have htake : head ++ pdu.take 1 ++ (pdu.drop 1).take m = head ++ pdu.take (1 + m) := by
      rw [List.append_assoc, ← List.take_add]
    rw [if_pos hm0]
    simp only
    rw [reader_reading hm0]
    simp only
    rw [Format.feed_stage _ _ _ _ _ _ (by omega), after_eq B t _ _ [], htake]
    simp only [next_step, hrest]
    rw [feed_data t _ _ _ _ hdata, hdone]

end Framed

end robotchess
