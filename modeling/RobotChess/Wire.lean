-- One request and its response over the wire. The server reads the request as the
-- operation that the client was called for, and the client reads the response as the
-- answer of the store.
import RobotChess.Requests
import RobotChess.Serving

open bytes framing tables

namespace robotchess

namespace Request

/-- The operation that a function of the client is called for. -/
def op : Request → Op
  | readBits addr nb => .readBits (BitVec.ofInt 16 addr) nb
  | readInputBits addr nb => .readInputBits (BitVec.ofInt 16 addr) nb
  | readRegisters addr nb => .readRegisters (BitVec.ofInt 16 addr) nb
  | readInputRegisters addr nb => .readInputRegisters (BitVec.ofInt 16 addr) nb
  | writeBit addr status => .writeBit (BitVec.ofInt 16 addr) (some (status != 0))
  | writeRegister addr value => .writeRegister (BitVec.ofInt 16 addr) (BitVec.ofInt 16 value)
  | writeBits addr src => .writeBits (BitVec.ofInt 16 addr) (src.map (· != 0))
  | writeRegisters addr src => .writeRegisters (BitVec.ofInt 16 addr) src
  | writeAndRead write_addr src read_addr read_nb =>
    .writeAndRead (BitVec.ofInt 16 write_addr) src (BitVec.ofInt 16 read_addr) read_nb
  | reportSlaveId => .reportSlaveId

/-! ## The request -/

theorem pack_length (src : List Byte) :
    (pack (byteCount src.length) src).length = byteCount src.length :=
  (pack_packed src).length

theorem toNat_ofNat_byte {n : Nat} (h : n < 256) : (BitVec.ofNat 8 n).toNat = n := by
  rw [BitVec.toNat_ofNat, Nat.mod_eq_of_lt (by simpa using h)]

theorem wellFormed {r : Request} (hr : r.Allowed) : WellFormed .MSG_INDICATION r.pdu := by
  cases r with
  | writeBits addr src =>
    have hb := byteCount_le (show src.length ≤ 8 * 246 from hr)
    have hlen : (writeBits addr src).pdu.length = 6 + byteCount src.length := by
      simp only [pdu, data, intBytes, List.length_cons, List.length_append, List.length_nil,
        pack_length]
      omega
    have hdata : dataLength (writeBits addr src).pdu .MSG_INDICATION = byteCount src.length :=
      toNat_ofNat_byte (by omega)
    exact ⟨by rw [hlen, hdata]; rfl, by omega⟩
  | writeRegisters addr src =>
    have hmax : src.length ≤ 123 := hr
    have hlen : (writeRegisters addr src).pdu.length = 6 + src.length * 2 := by
      simp only [pdu, data, intBytes, List.length_cons, List.length_append, List.length_nil,
        length_ofWords]
      omega
    have hdata : dataLength (writeRegisters addr src).pdu .MSG_INDICATION = src.length * 2 :=
      toNat_ofNat_byte (by omega)
    exact ⟨by rw [hlen, hdata]; rfl, by omega⟩
  | writeAndRead write_addr src read_addr read_nb =>
    have hmax : src.length ≤ 121 := hr.1
    have hlen : (writeAndRead write_addr src read_addr read_nb).pdu.length =
        10 + src.length * 2 := by
      simp only [pdu, data, intBytes, List.length_cons, List.length_append, List.length_nil,
        length_ofWords]
      omega
    have hdata : dataLength (writeAndRead write_addr src read_addr read_nb).pdu
        .MSG_INDICATION = src.length * 2 := toNat_ofNat_byte (by omega)
    exact ⟨by rw [hlen, hdata]; rfl, by omega⟩
  | reportSlaveId => exact ⟨rfl, by decide⟩
  | _ => exact ⟨rfl, (by decide : 5 ≤ 253)⟩

theorem pduIn_adu {B : modbus_backend_t} (L : Framed B) (s : Byte) (t : Word) (behind : Nat → Byte)
    {pdu : List Byte} {k : Nat} (hk : k < pdu.length) :
    pduIn B (L.adu s t pdu) behind k = pdu.getD k 0 := by
  rw [pduIn, overlay_before (by rw [L.length_adu]; omega), L.getD_adu s t hk]

theorem bitsFrom_pack {p : Nat → Byte} {j : Nat} {src : List Byte}
    (h : ∀ i < byteCount src.length, p (j + i) = (pack (byteCount src.length) src).getD i 0) :
    bitsFrom p j src.length = src.map (· != 0) := by
  apply List.ext_getElem?
  intro k
  by_cases hk : k < src.length
  · have hbyte : k / 8 < byteCount src.length := by
      unfold byteCount
      split <;> omega
    have hbit := (pack_packed src).bit k hk
    rw [← h _ hbyte] at hbit
    simp [bitsFrom, hk, hbit]
  · rw [List.getElem?_eq_none (by simpa using hk), List.getElem?_eq_none (by simpa using hk)]

theorem wordsFrom_ofWords {p : Nat → Byte} {j : Nat} {src : List Word}
    (h : ∀ i < 2 * src.length, p (j + i) = (ofWords src).getD i 0) :
    wordsFrom p j src.length = src := by
  apply List.ext_getElem?
  intro k
  by_cases hk : k < src.length
  · have hw := wordIn_ofWords hk []
    rw [List.append_nil, wordIn, ← h _ (by omega), ← h _ (by omega)] at hw
    simp [wordsFrom, hk, ← hw, Nat.add_assoc]
  · rw [List.getElem?_eq_none (by simpa using hk), List.getElem?_eq_none (by simpa using hk)]

section
variable {p : Nat → Byte}

/-- What the server reads at the head of a request. -/
theorem head_of_pdu {pdu rest : List Byte} {f : Byte} {a n : Int}
    (hget : ∀ k < pdu.length, p k = pdu.getD k 0)
    (hpdu : pdu = f :: (intBytes a ++ intBytes n ++ rest)) :
    p 0 = f ∧ word (p 1) (p 2) = BitVec.ofInt 16 a ∧ word (p 3) (p 4) = BitVec.ofInt 16 n := by
  have hlen : 5 ≤ pdu.length := by simp [hpdu, intBytes]
  rw [hget 0 (by omega), hget 1 (by omega), hget 2 (by omega), hget 3 (by omega),
    hget 4 (by omega), hpdu]
  exact ⟨rfl, word_hi_lo _, word_hi_lo _⟩

theorem statusOf_ofInt (status : Int) :
    statusOf (BitVec.ofInt 16 (if status ≠ 0 then 0xFF00 else 0)) = some (status != 0) := by
  by_cases hs : status = 0
  · subst hs
    decide
  · rw [if_pos hs, bne_iff_ne.mpr hs]
    decide

theorem ofRequest_of_writeBits {addr : Int} {src : List Byte} (hmax : src.length ≤ 1968)
    (hget : ∀ k < (writeBits addr src).pdu.length, p k = (writeBits addr src).pdu.getD k 0) :
    Op.ofRequest p = some (.ok (writeBits addr src).op) := by
  obtain ⟨h0, ha, hn⟩ := head_of_pdu (f := FC_WRITE_MULTIPLE_COILS) (n := src.length) hget rfl
  have hbits : bitsFrom p 6 src.length = src.map (· != 0) := by
    apply bitsFrom_pack
    intro i hi
    rw [hget _ (by simp [pdu, data, intBytes, pack_length]; omega)]
    simp [pdu, data, intBytes, Nat.add_comm 6 i]
  rw [ofRequest_writeBits h0, ha, hn, toNat_ofInt_count (by omega), hbits]
  rfl

theorem ofRequest_of_writeRegisters {addr : Int} {src : List Word} (hmax : src.length ≤ 123)
    (hget : ∀ k < (writeRegisters addr src).pdu.length,
      p k = (writeRegisters addr src).pdu.getD k 0) :
    Op.ofRequest p = some (.ok (writeRegisters addr src).op) := by
  obtain ⟨h0, ha, hn⟩ :=
    head_of_pdu (f := FC_WRITE_MULTIPLE_REGISTERS) (n := src.length) hget rfl
  have hwords : wordsFrom p 6 src.length = src := by
    apply wordsFrom_ofWords
    intro i hi
    rw [hget _ (by simp [pdu, data, intBytes]; omega)]
    simp [pdu, data, intBytes, Nat.add_comm 6 i]
  rw [ofRequest_writeRegisters h0, ha, hn, toNat_ofInt_count (by omega), hwords]
  rfl

theorem ofRequest_of_writeAndRead {write_addr read_addr : Int} {src : List Word} {read_nb : Nat}
    (hmax : src.length ≤ 121) (hread : read_nb ≤ 125)
    (hget : ∀ k < (writeAndRead write_addr src read_addr read_nb).pdu.length,
      p k = (writeAndRead write_addr src read_addr read_nb).pdu.getD k 0) :
    Op.ofRequest p = some (.ok (writeAndRead write_addr src read_addr read_nb).op) := by
  obtain ⟨h0, ha, hn⟩ := head_of_pdu (f := FC_WRITE_AND_READ_REGISTERS) (n := read_nb) hget rfl
  have hlen : (writeAndRead write_addr src read_addr read_nb).pdu.length =
      10 + 2 * src.length := by
    simp [pdu, data, intBytes]
    omega
  have hw : word (p 5) (p 6) = BitVec.ofInt 16 write_addr := by
    rw [hget 5 (by omega), hget 6 (by omega)]
    exact word_hi_lo _
  have hwn : word (p 7) (p 8) = BitVec.ofInt 16 src.length := by
    rw [hget 7 (by omega), hget 8 (by omega)]
    exact word_hi_lo _
  have hcount : (p 9).toNat = src.length * 2 := by
    rw [hget 9 (by omega)]
    exact toNat_ofNat_byte (by omega)
  have hwords : wordsFrom p 10 src.length = src := by
    apply wordsFrom_ofWords
    intro i hi
    rw [hget _ (by omega)]
    simp [pdu, data, intBytes, Nat.add_comm 10 i]
  rw [ofRequest_writeAndRead h0, hw, hwn, ha, hn, toNat_ofInt_count (by omega),
    toNat_ofInt_count (by omega), hcount, hwords, if_neg (not_not_intro rfl)]
  rfl

end

/-- The server reads the operation that the client was called for. -/
theorem ofRequest_adu {B : modbus_backend_t} (L : Framed B) (s : Byte) (t : Word)
    (behind : Nat → Byte) {r : Request} (hr : r.Allowed) :
    Op.ofRequest (pduIn B (L.adu s t r.pdu) behind) = some (.ok r.op) := by
  have hget : ∀ k < r.pdu.length, pduIn B (L.adu s t r.pdu) behind k = r.pdu.getD k 0 :=
    fun k hk => pduIn_adu L s t behind hk
  generalize pduIn B (L.adu s t r.pdu) behind = p at hget
  cases r with
  | readBits addr nb =>
    obtain ⟨h0, ha, hn⟩ := head_of_pdu (a := addr) (n := nb) hget rfl
    have hmax : nb ≤ 2000 := hr
    simp only [Op.ofRequest, h0, ha, hn, toNat_ofInt_count (show nb < 65536 by omega)]
    rfl
  | readInputBits addr nb =>
    obtain ⟨h0, ha, hn⟩ := head_of_pdu (a := addr) (n := nb) hget rfl
    have hmax : nb ≤ 2000 := hr
    simp only [Op.ofRequest, h0, ha, hn, toNat_ofInt_count (show nb < 65536 by omega)]
    rfl
  | readRegisters addr nb =>
    obtain ⟨h0, ha, hn⟩ := head_of_pdu (a := addr) (n := nb) hget rfl
    have hmax : nb ≤ 125 := hr
    simp only [Op.ofRequest, h0, ha, hn, toNat_ofInt_count (show nb < 65536 by omega)]
    rfl
  | readInputRegisters addr nb =>
    obtain ⟨h0, ha, hn⟩ := head_of_pdu (a := addr) (n := nb) hget rfl
    have hmax : nb ≤ 125 := hr
    simp only [Op.ofRequest, h0, ha, hn, toNat_ofInt_count (show nb < 65536 by omega)]
    rfl
  | writeBit addr status =>
    obtain ⟨h0, ha, hn⟩ :=
      head_of_pdu (a := addr) (n := if status ≠ 0 then 0xFF00 else 0) hget rfl
    simp only [Op.ofRequest, h0, ha, hn, statusOf_ofInt]
    rfl
  | writeRegister addr value =>
    obtain ⟨h0, ha, hn⟩ := head_of_pdu (a := addr) (n := value) hget rfl
    simp only [Op.ofRequest, h0, ha, hn]
    rfl
  | writeBits addr src => exact ofRequest_of_writeBits hr hget
  | writeRegisters addr src => exact ofRequest_of_writeRegisters hr hget
  | writeAndRead write_addr src read_addr read_nb =>
    exact ofRequest_of_writeAndRead hr.1 hr.2 hget
  | reportSlaveId =>
    have h0 : p 0 = FC_REPORT_SLAVE_ID := hget 0 (by decide)
    simp only [Op.ofRequest, h0]
    rfl

/-! ## The response -/

/-- The PDU of the response to a request that is carried out. A write is echoed up to its count. -/
def answerPdu (r : Request) : Answer → List Byte
  | .bits bs =>
    r.function :: (BitVec.ofNat 8 (byteCount bs.length) :: io_status_loop 0 0 (bs.map flag))
  | .words ws => r.function :: (BitVec.ofNat 8 (ws.length <<< 1) :: ofWords ws)
  | .written => r.pdu.take 5
  | .id => r.function :: (BitVec.ofNat 8 slave_id.length :: slave_id)

/-- The answers that a request can get. -/
inductive Answered (r : Request) : Answer → Prop
  | bits {bs : List Bool} : ReadsBits r.function → bs.length = r.count → bs.length ≤ 2000 →
      Answered r (.bits bs)
  | words {ws : List Word} : ReadsWords r.function → ws.length = r.count → ws.length ≤ 125 →
      Answered r (.words ws)
  | written {a : Int} {n : Nat} {rest : List Byte} : WritesMany r.function →
      r.data = intBytes a ++ intBytes n ++ rest → r.op.single = false → Answered r .written
  | writtenOne {a n : Int} : WritesOne r.function → r.data = intBytes a ++ intBytes n →
      r.op.single = true → Answered r .written
  | id : r = reportSlaveId → Answered r .id

theorem answered {r : Request} {s s' : Store} {a : Answer} (h : r.op.serve s = .ok (a, s')) :
    r.Answered a := by
  have hs := Op.serves h
  cases r with
  | readBits addr nb =>
    cases hs with
    | readBits hmax hlen =>
      exact .bits (Or.inl rfl) (length_slice hlen) (by rwa [length_slice hlen])
  | readInputBits addr nb =>
    cases hs with
    | readInputBits hmax hlen =>
      exact .bits (Or.inr rfl) (length_slice hlen) (by rwa [length_slice hlen])
  | readRegisters addr nb =>
    cases hs with
    | readRegisters hmax hlen =>
      exact .words (Or.inr (Or.inl rfl)) (length_slice hlen) (by rwa [length_slice hlen])
  | readInputRegisters addr nb =>
    cases hs with
    | readInputRegisters hmax hlen =>
      exact .words (Or.inr (Or.inr rfl)) (length_slice hlen) (by rwa [length_slice hlen])
  | writeBit addr status =>
    cases hs
    exact .writtenOne (Or.inl rfl) rfl rfl
  | writeRegister addr value =>
    cases hs
    exact .writtenOne (Or.inr rfl) rfl rfl
  | writeBits addr src =>
    cases hs
    exact .written (Or.inl rfl) rfl rfl
  | writeRegisters addr src =>
    cases hs
    exact .written (Or.inr rfl) rfl rfl
  | writeAndRead write_addr src read_addr read_nb =>
    cases hs with
    | writeAndRead hmax _ hread =>
      have hread' : (BitVec.ofInt 16 read_addr).toNat + read_nb ≤
          (patch s.registers (BitVec.ofInt 16 write_addr).toNat src).length := by
        rwa [length_patch]
      have hlen := length_slice hread'
      exact .words (Or.inl rfl) hlen (by rwa [hlen])
  | reportSlaveId =>
    cases hs
    exact .id rfl

theorem map_overlay {msg : List Byte} {n : Nat} (h : n ≤ msg.length) (behind : Nat → Byte) :
    (List.range n).map (overlay msg behind) = msg.take n := by
  apply List.ext_getElem?
  intro k
  by_cases hk : k < n
  · have := overlay_before (Nat.lt_of_lt_of_le hk h) behind
    simp [hk, this, List.getElem?_eq_getElem (Nat.lt_of_lt_of_le hk h)]
  · rw [List.getElem?_eq_none (by simpa using hk), List.getElem?_eq_none (by simp; omega)]

/-- What the server sends for an answer is the PDU of the answer, in the frame of the request. -/
theorem respond_adu {B : modbus_backend_t} (hB : IsBackend B) (L : Framed B) (s : Byte)
    (t t' : Word) (behind : Nat → Byte) {r : Request} {a : Answer} (ha : r.Answered a)
    (ht : ∀ s pdu, L.adu s t' pdu = L.adu s t pdu) :
    B.send_msg_pre (respond B ⟨s, r.function, t'⟩ (overlay (L.adu s t r.pdu) behind)
      ((L.adu s t r.pdu).length - B.checksum_length) r.op a) = L.adu s t (r.answerPdu a) := by
  have hrsp := fun data => (L.response s r.function t' data).trans (ht s (r.function :: data))
  cases ha with
  | bits =>
    rw [respond, List.append_assoc, hrsp]
    rfl
  | words =>
    rw [respond, List.append_assoc, hrsp]
    rfl
  | id hr =>
    subst hr
    rw [respond, List.append_assoc, hrsp]
    rfl
  | writtenOne _ hdata hsingle =>
    have hcopy : (List.range ((L.adu s t r.pdu).length - B.checksum_length)).map
        (overlay (L.adu s t r.pdu) behind) = L.head s t r.pdu.length ++ r.pdu := by
      rw [map_overlay (Nat.sub_le _ _), L.length_adu, Nat.add_sub_cancel]
      exact List.take_left' (by rw [List.length_append, L.head_length])
    have htake : r.answerPdu .written = r.pdu := by
      rw [answerPdu, pdu, hdata]
      rfl
    rw [respond, if_pos hsingle, hcopy, L.again, htake]
  | written _ hdata hsingle =>
    have hecho : ((List.range 4).map fun i => overlay (L.adu s t r.pdu) behind
        ((B.build_response_basis ⟨s, r.function, t'⟩).length + i)) = (r.pdu.drop 1).take 4 := by
      have hlen : 5 ≤ r.pdu.length := by simp [pdu, hdata, intBytes]
      have hbyte : ∀ i < 4, overlay (L.adu s t r.pdu) behind
          ((B.build_response_basis ⟨s, r.function, t'⟩).length + i) = r.pdu.getD (1 + i) 0 := by
        intro i hi
        rw [length_build_response_basis hB, Nat.add_assoc]
        exact pduIn_adu L s t behind (by omega)
      rw [List.map_congr_left fun i hi => hbyte i (List.mem_range.mp hi), pdu, hdata]
      rfl
    rw [respond, if_neg (by rw [hsingle]; decide), hecho, hrsp]
    rfl

theorem length_answer_bits (r : Request) (bs : List Bool) :
    (r.answerPdu (.bits bs)).length = 2 + byteCount bs.length := by
  simp only [answerPdu, List.length_cons, io_status_loop_length]
  omega

theorem length_answer_words (r : Request) (ws : List Word) :
    (r.answerPdu (.words ws)).length = 2 + ws.length <<< 1 := by
  simp only [answerPdu, List.length_cons, length_ofWords, Nat.shiftLeft_eq]
  omega

theorem length_answer_written {r : Request} {a n : Int} {rest : List Byte}
    (hdata : r.data = intBytes a ++ intBytes n ++ rest) : (r.answerPdu .written).length = 5 := by
  rw [answerPdu, pdu, hdata]
  rfl

theorem answer_wellFormed {r : Request} {a : Answer} (ha : r.Answered a) :
    WellFormed .MSG_CONFIRMATION (r.answerPdu a) := by
  cases ha with
  | @bits bs hg _ hmax =>
    have hb := byteCount_le (show bs.length ≤ 8 * 250 from hmax)
    have hlen := r.length_answer_bits bs
    have hdata : (BitVec.ofNat 8 (byteCount bs.length)).toNat = byteCount bs.length :=
      toNat_ofNat_byte (by omega)
    refine ⟨?_, by omega⟩
    rw [hlen, ← hdata, answerPdu]
    rcases hg with hf | hf <;> rw [hf] <;> rfl
  | @words ws hg _ hmax =>
    have hlen := r.length_answer_words ws
    have hdata : (BitVec.ofNat 8 (ws.length <<< 1)).toNat = ws.length <<< 1 :=
      toNat_ofNat_byte (by simp only [Nat.shiftLeft_eq]; omega)
    refine ⟨?_, by simp only [hlen, Nat.shiftLeft_eq]; omega⟩
    rw [hlen, ← hdata, answerPdu]
    rcases hg with hf | hf | hf <;> rw [hf] <;> rfl
  | written hg hdata =>
    rw [answerPdu, pdu, hdata]
    rcases hg with hf | hf <;> rw [hf] <;> exact ⟨rfl, (by decide : 5 ≤ 253)⟩
  | writtenOne hg hdata =>
    rw [answerPdu, pdu, hdata]
    rcases hg with hf | hf <;> rw [hf] <;> exact ⟨rfl, (by decide : 5 ≤ 253)⟩
  | id hr =>
    subst hr
    exact ⟨rfl, by decide⟩

theorem exception_wellFormed (r : Request) (code : Byte) :
    WellFormed .MSG_CONFIRMATION [r.function + 0x80, code] := by
  have hmeta : compute_meta_length_after_function (r.function + 0x80) .MSG_CONFIRMATION = 1 := by
    cases r <;> simp only [function] <;> decide
  have hdata : ¬ (r.function + 0x80 ≤ FC_READ_INPUT_REGISTERS ∨
      r.function + 0x80 = FC_REPORT_SLAVE_ID ∨
        r.function + 0x80 = FC_WRITE_AND_READ_REGISTERS) := by
    cases r <;> simp only [function] <;> decide
  constructor
  · simp only [dataLength, List.getD_cons_zero, hmeta, if_neg hdata]
    rfl
  · exact (by decide : 2 ≤ 253)

/-! ## The confirmation -/

/-- What a function returns for an answer. -/
def result (r : Request) : Answer → Result
  | .bits bs => .bits bs.length (bs.map flag)
  | .words ws => .words ws.length ws
  | .written => .written r.count
  | .id => .bytes slave_id.length slave_id

theorem finish_of_bits {B : modbus_backend_t} {r : Request} (hg : ReadsBits r.function) (rc : Nat)
    (rsp : List Byte) : r.finish B rc rsp =
      .bits r.count (unpack r.count ((rsp.drop (B.header_length + 2)).take rc) []) := by
  cases r with
  | readBits addr nb => rfl
  | readInputBits addr nb => rfl
  | _ =>
    simp only [function] at hg
    exact absurd hg (by decide)

theorem finish_of_words {B : modbus_backend_t} {r : Request} (hg : ReadsWords r.function)
    (rc : Nat) (rsp : List Byte) : r.finish B rc rsp = .words rc (words_of B rc rsp) := by
  cases r with
  | readRegisters addr nb => rfl
  | readInputRegisters addr nb => rfl
  | writeAndRead write_addr src read_addr read_nb => rfl
  | _ =>
    simp only [function] at hg
    exact absurd hg (by decide)

theorem finish_of_many {B : modbus_backend_t} {r : Request} (hg : WritesMany r.function)
    (rc : Nat) (rsp : List Byte) : r.finish B rc rsp = .written rc := by
  cases r with
  | writeBits addr src => rfl
  | writeRegisters addr src => rfl
  | _ =>
    simp only [function] at hg
    exact absurd hg (by decide)

theorem finish_of_one {B : modbus_backend_t} {r : Request} (hg : WritesOne r.function)
    (rc : Nat) (rsp : List Byte) : r.finish B rc rsp = .written rc ∧ r.count = 1 := by
  cases r with
  | writeBit addr status => exact ⟨rfl, rfl⟩
  | writeRegister addr value => exact ⟨rfl, rfl⟩
  | _ =>
    simp only [function] at hg
    exact absurd hg (by decide)

theorem bitsOf_io_status (bs : List Bool) :
    bitsOf (io_status_loop 0 0 (bs.map flag)) bs.length = bs := by
  have h := io_status_loop_packed 0 0 bs (by decide) (by simp)
  rw [Nat.zero_add] at h
  rw [h.bitsOf]
  apply List.ext_getElem?
  intro k
  by_cases hk : k < bs.length
  · simp [hk]
  · rw [List.getElem?_eq_none (by simpa using hk), List.getElem?_eq_none (by omega)]

theorem words_of_adu {B : modbus_backend_t} (L : Framed B) (s : Byte) (t : Word) (f c : Byte)
    (ws : List Word) : words_of B ws.length (L.adu s t (f :: c :: ofWords ws)) = ws := by
  apply List.ext_getElem?
  intro k
  by_cases hk : k < ws.length
  · have hat : wordIn (L.adu s t (f :: c :: ofWords ws)) (B.header_length + 2 + 2 * k) =
        wordIn (ofWords ws) (2 * k) := by
      rw [Nat.add_assoc, wordIn_adu L s t (by simp; omega), wordIn, wordIn,
        show 2 + 2 * k + 1 = 2 * k + 1 + 1 + 1 by omega, show 2 + 2 * k = 2 * k + 1 + 1 by omega]
      rfl
    have hword := wordIn_ofWords hk []
    rw [List.append_nil] at hword
    simp [words_of, hk, hat, hword]
  · rw [List.getElem?_eq_none (by simpa [words_of] using hk),
      List.getElem?_eq_none (by omega)]

theorem confirm_of_check {B : modbus_backend_t} {req rsp : List Byte}
    {finish : (rc : Nat) → List Byte → Result} {rc : Nat}
    (h : check_confirmation B req rsp = .ok rc) :
    (confirmed B req finish).confirm rsp = .ok (finish rc rsp) := by
  simp only [confirmed, h]
  rfl

section
variable {B : modbus_backend_t} (L : Framed B) (s : Byte) (t : Word) {r : Request}

theorem function_answer {a : Answer} (ha : r.Answered a) :
    (L.adu s t (r.answerPdu a)).getD B.header_length 0 = r.function := by
  have hlen : 0 < (r.answerPdu a).length := by
    rw [(answer_wellFormed ha).length]
    omega
  have h0 := L.getD_adu s t hlen
  rw [Nat.add_zero] at h0
  rw [h0]
  cases a <;> rfl

theorem check_bits (hr : r.Allowed) {bs : List Bool} (hg : ReadsBits r.function)
    (hlen : bs.length = r.count) (hmax : bs.length ≤ 2000) :
    check_confirmation B (L.adu s t r.pdu) (L.adu s t (r.answerPdu (.bits bs))) =
      .ok (byteCount bs.length) := by
  have hreq := function_adu L s t r
  have hfun := function_answer L s t (.bits hg hlen hmax)
  have hb := byteCount_le (show bs.length ≤ 8 * 250 from hmax)
  have hpdu := r.length_answer_bits bs
  have hbytes : ((L.adu s t (r.answerPdu (.bits bs))).getD (B.header_length + 1) 0).toNat =
      byteCount bs.length := by
    rw [L.getD_adu s t (by omega)]
    exact toNat_ofNat_byte (by omega)
  rw [check_iff (length_of_bits (hreq ▸ hg)) fun _ => nb_values_of_bits (hfun ▸ hg),
    count_adu L s t hr (Or.inl hg), ← hlen]
  exact ⟨L.same_t_id .., by rw [L.length_adu, hpdu], hfun.trans hreq.symm, rfl, hbytes⟩

theorem check_words (hr : r.Allowed) {ws : List Word} (hg : ReadsWords r.function)
    (hlen : ws.length = r.count) (hmax : ws.length ≤ 125) :
    check_confirmation B (L.adu s t r.pdu) (L.adu s t (r.answerPdu (.words ws))) =
      .ok ws.length := by
  have hreq := function_adu L s t r
  have hfun := function_answer L s t (.words hg hlen hmax)
  have hpdu := r.length_answer_words ws
  rw [Nat.shiftLeft_eq] at hpdu
  have hbytes : ((L.adu s t (r.answerPdu (.words ws))).getD (B.header_length + 1) 0).toNat / 2 =
      ws.length := by
    rw [L.getD_adu s t (by omega)]
    have := toNat_ofNat_byte (show ws.length <<< 1 < 256 by simp only [Nat.shiftLeft_eq]; omega)
    change (BitVec.ofNat 8 (ws.length <<< 1)).toNat / 2 = ws.length
    rw [this, Nat.shiftLeft_eq]
    omega
  rw [check_iff (length_of_words (hreq ▸ hg)) fun _ => nb_values_of_words (hfun ▸ hg),
    count_adu L s t hr (Or.inr (Or.inl hg)), ← hlen]
  refine ⟨L.same_t_id .., ?_, hfun.trans hreq.symm, rfl, hbytes⟩
  rw [L.length_adu, hpdu, Nat.mul_comm]

theorem check_written (hr : r.Allowed) {addr : Int} {n : Nat} {rest : List Byte}
    (hg : WritesMany r.function) (hdata : r.data = intBytes addr ++ intBytes n ++ rest)
    (hsingle : r.op.single = false) :
    check_confirmation B (L.adu s t r.pdu) (L.adu s t (r.answerPdu .written)) = .ok r.count := by
  have hreq := function_adu L s t r
  have hfun := function_answer L s t (.written hg hdata hsingle)
  have hpdu := length_answer_written hdata
  have hcount := count_adu L s t hr (Or.inr (Or.inr hg))
  have hnb : (wordIn (L.adu s t (r.answerPdu .written)) (B.header_length + 3)).toNat =
      r.count := by
    rw [← hcount, wordIn_adu L s t (by omega), wordIn_adu L s t (by simp [pdu, hdata, intBytes]),
      answerPdu, pdu, hdata]
    rfl
  rw [check_iff (length_of_writes (Or.inl (hreq ▸ hg))) fun _ => nb_values_of_many (hfun ▸ hg),
    hcount]
  exact ⟨L.same_t_id .., by rw [L.length_adu, hpdu], hfun.trans hreq.symm, rfl, hnb⟩

theorem check_writtenOne {addr n : Int} (hg : WritesOne r.function)
    (hdata : r.data = intBytes addr ++ intBytes n) (hsingle : r.op.single = true) :
    check_confirmation B (L.adu s t r.pdu) (L.adu s t (r.answerPdu .written)) = .ok 1 := by
  have hreq := function_adu L s t r
  have hfun := function_answer L s t (.writtenOne hg hdata hsingle)
  have hpdu : (r.answerPdu .written).length = 5 :=
    length_answer_written (hdata.trans (List.append_nil _).symm)
  rw [check_iff (length_of_writes (Or.inr (hreq ▸ hg))) fun _ => nb_values_of_one (hfun ▸ hg)]
  exact ⟨L.same_t_id .., by rw [L.length_adu, hpdu], hfun.trans hreq.symm, rfl, rfl⟩

theorem check_id : check_confirmation B (L.adu s t reportSlaveId.pdu)
    (L.adu s t (reportSlaveId.answerPdu .id)) = .ok 10 := by
  have hreq := function_adu L s t reportSlaveId
  have hfun := function_answer L s t (.id rfl)
  have hbytes : (L.adu s t (reportSlaveId.answerPdu .id)).getD (B.header_length + 1) 0 = 10 :=
    L.getD_adu s t (by decide)
  rw [check_ok_iff]
  refine ⟨L.same_t_id .., Or.inr ?_, hfun.trans hreq.symm, ?_⟩
  · rw [compute_response_length_from_request, hreq]
    rfl
  · rw [nb_values, hfun, hbytes]
    rfl

/-- The client takes the answer out of its response. -/
theorem confirm_answer (hr : r.Allowed) {a : Answer} (ha : r.Answered a) :
    (confirmed B (L.adu s t r.pdu) (r.finish B)).confirm (L.adu s t (r.answerPdu a)) =
      .ok (r.result a) := by
  cases ha with
  | @bits bs hg hlen hmax =>
    have hpdu := r.length_answer_bits bs
    have hadu : (L.adu s t (r.answerPdu (.bits bs))).length =
        B.header_length + (2 + byteCount bs.length) + B.checksum_length := by
      rw [L.length_adu, hpdu]
    have hdata : ((r.answerPdu (.bits bs)).drop 2).take (byteCount bs.length) =
        io_status_loop 0 0 (bs.map flag) := List.take_of_length_le (by
      simp only [answerPdu, List.drop_succ_cons, List.drop_zero, io_status_loop_length,
        Nat.le_refl])
    rw [confirm_of_check (check_bits L s t hr hg hlen hmax), finish_of_bits hg, ← hlen,
      unpack_response rfl hadu, L.take_drop_adu s t (by omega), result, hdata, bitsOf_io_status]
  | @words ws hg hlen hmax =>
    rw [confirm_of_check (check_words L s t hr hg hlen hmax), finish_of_words hg, answerPdu,
      words_of_adu, result]
  | written hg hdata hsingle =>
    rw [confirm_of_check (check_written L s t hr hg hdata hsingle), finish_of_many hg, result]
  | writtenOne hg hdata hsingle =>
    obtain ⟨hfinish, hone⟩ := finish_of_one (B := B) hg 1 (L.adu s t (r.answerPdu .written))
    rw [confirm_of_check (check_writtenOne L s t hg hdata hsingle), hfinish, result, hone]
  | id hr =>
    subst hr
    have hdata := L.take_drop_adu s t (show 2 + 10 ≤ (reportSlaveId.answerPdu .id).length by decide)
    rw [confirm_of_check (check_id L s t), finish]
    simp only [hdata]
    rfl

end

/-! ## Refusals -/

/-- A request to read nothing. -/
def ReadsNothing (r : Request) : Prop :=
  (ReadsBits r.function ∨ ReadsWords r.function) ∧ r.count = 0

instance (r : Request) : Decidable r.ReadsNothing := inferInstanceAs (Decidable (_ ∧ _))

/-- The `errno` of a function whose operation is refused. A response that is as long as an answer
to nothing is not taken for an exception. -/
def errno (r : Request) (why : Refusal) : Errno :=
  if r.ReadsNothing then .EMBBADDATA else .exception why.code.toNat

theorem kind (r : Request) : ReadsBits r.function ∨ ReadsWords r.function ∨
    WritesMany r.function ∨ WritesOne r.function ∨ r.function = FC_REPORT_SLAVE_ID := by
  cases r <;> simp only [function] <;> decide

theorem not_report {r : Request} {s : Store} {why : Refusal} (h : r.op.serve s = .error why) :
    r.function ≠ FC_REPORT_SLAVE_ID := by
  cases r with
  | reportSlaveId => cases h
  | _ => simp only [function]; decide

section
variable {B : modbus_backend_t} (L : Framed B) (s : Byte) (t : Word) {r : Request}

theorem check_exception (why : Refusal) {n : Nat}
    (hn : compute_response_length_from_request B (L.adu s t r.pdu) = some n) :
    check_confirmation B (L.adu s t r.pdu) (L.adu s t [r.function + 0x80, why.code]) =
      .error (if n = B.header_length + 2 + B.checksum_length then .EMBBADDATA
        else .exception why.code.toNat) := by
  have hpre := L.same_t_id s t r.pdu s [r.function + 0x80, why.code]
  have hreq := function_adu L s t r
  have hfun : (L.adu s t [r.function + 0x80, why.code]).getD B.header_length 0 =
      r.function + 0x80 :=
    L.getD_adu s t (show 0 < [r.function + 0x80, why.code].length from Nat.zero_lt_two)
  have hcode : (L.adu s t [r.function + 0x80, why.code]).getD (B.header_length + 1) 0 = why.code :=
    L.getD_adu s t (show 1 < [r.function + 0x80, why.code].length from Nat.one_lt_two)
  have hlen : (L.adu s t [r.function + 0x80, why.code]).length =
      B.header_length + 2 + B.checksum_length := L.length_adu s t _
  have hmarked : r.function.toNat + 0x80 = (r.function + 0x80).toNat := by
    cases r <;> rfl
  have hsmall : why.code.toNat < MODBUS_EXCEPTION_MAX := by
    cases why <;> decide
  simp only [check_confirmation, hpre, hn, hlen, hreq, hfun, hcode, hmarked, hsmall]
  by_cases h : n = B.header_length + 2 + B.checksum_length
  · simp [h]
  · simp [h]

theorem confirm_of_refused (why : Refusal) {n : Nat}
    (hn : compute_response_length_from_request B (L.adu s t r.pdu) = some n)
    (hiff : n = B.header_length + 2 + B.checksum_length ↔ r.ReadsNothing) :
    (confirmed B (L.adu s t r.pdu) (r.finish B)).confirm
      (L.adu s t [r.function + 0x80, why.code]) = .error (r.errno why) := by
  unfold errno
  simp only [confirmed, check_exception L s t why hn]
  by_cases h : r.ReadsNothing
  · rw [if_pos h, if_pos (hiff.mpr h)]
    rfl
  · rw [if_neg h, if_neg (mt hiff.mp h)]
    rfl

/-- The client takes the refusal out of its response. -/
theorem confirm_exception (hr : r.Allowed) (hid : r.function ≠ FC_REPORT_SLAVE_ID)
    (why : Refusal) :
    (confirmed B (L.adu s t r.pdu) (r.finish B)).confirm
      (L.adu s t [r.function + 0x80, why.code]) = .error (r.errno why) := by
  have hreq := function_adu L s t r
  have hcount := count_adu L s t hr
  have hwrites : ¬ (ReadsBits r.function ∨ ReadsWords r.function) →
      (B.header_length + 5 + B.checksum_length = B.header_length + 2 + B.checksum_length ↔
        r.ReadsNothing) := fun hreads => ⟨fun h => by omega, fun h => absurd h.1 hreads⟩
  rcases r.kind with hg | hg | hg | hg | hg
  · apply confirm_of_refused L s t why (length_of_bits (hreq ▸ hg))
    rw [hcount (Or.inl hg), ReadsNothing, and_iff_right (Or.inl hg), ← byteCount_eq_zero]
    omega
  · apply confirm_of_refused L s t why (length_of_words (hreq ▸ hg))
    rw [hcount (Or.inr (Or.inl hg)), ReadsNothing, and_iff_right (Or.inr hg)]
    omega
  · apply confirm_of_refused L s t why (length_of_writes (Or.inl (hreq ▸ hg)))
    apply hwrites
    rcases hg with hf | hf <;> rw [hf] <;> decide
  · apply confirm_of_refused L s t why (length_of_writes (Or.inr (hreq ▸ hg)))
    apply hwrites
    rcases hg with hf | hf <;> rw [hf] <;> decide
  · exact absurd hg hid

end

/-- What a function of the client returns when its operation is served by `s`. -/
def outcome (r : Request) (s : Store) : Except Errno Result :=
  match r.op.serve s with
  | .ok (a, _) => .ok (r.result a)
  | .error why => .error (r.errno why)

/-- The PDU of the response of a server with the tables of `s`. -/
def responsePdu (r : Request) (s : Store) : List Byte :=
  match r.op.serve s with
  | .ok (a, _) => r.answerPdu a
  | .error why => [r.function + 0x80, why.code]

theorem response_wellFormed (r : Request) (s : Store) :
    WellFormed .MSG_CONFIRMATION (r.responsePdu s) := by
  unfold responsePdu
  cases h : r.op.serve s with
  | ok p => exact answer_wellFormed (answered h)
  | error why => exact exception_wellFormed r why.code

theorem confirm_response {B : modbus_backend_t} (L : Framed B) (s : Byte) (t : Word) {r : Request}
    (hr : r.Allowed) (st : Store) :
    (confirmed B (L.adu s t r.pdu) (r.finish B)).confirm (L.adu s t (r.responsePdu st)) =
      r.outcome st := by
  unfold responsePdu outcome
  cases h : r.op.serve st with
  | ok p => exact confirm_answer L s t hr (answered h)
  | error why => exact confirm_exception L s t hr (not_report h) why

/-- A request that the server does not filter is served. -/
theorem reply_adu {B : modbus_backend_t} (hB : IsBackend B) (L : Framed B) {server : Int} {s : Byte}
    (t : Word) (hf : B.filter_request server s = false) (behind : Nat → Byte) {r : Request}
    (hr : r.Allowed) (st : Store) :
    modbus_reply ⟨server, B⟩ (overlay (L.adu s t r.pdu) behind) (L.adu s t r.pdu).length
      st.mapping = (.sent (L.adu s t (r.responsePdu st)), (r.op.carry st).mapping) := by
  have hlen := L.length_adu s t r.pdu
  have hpos := L.header_pos
  have hpdu : 0 < r.pdu.length := Nat.succ_pos _
  have hslave : overlay (L.adu s t r.pdu) behind (B.header_length - 1) = s := by
    rw [overlay_before (by omega), L.getD_head s t (by omega), L.head_slave]
  have hfunction : overlay (L.adu s t r.pdu) behind B.header_length = r.function := by
    rw [overlay_before (by omega), function_adu]
  obtain ⟨hn, ht⟩ := L.prepare (overlay (L.adu s t r.pdu) behind) (L.adu s t r.pdu).length s t
    r.pdu.length fun i hi => by rw [overlay_before (by omega), L.getD_head s t hi]
  have hop := ofRequest_adu L s t behind hr
  unfold pduIn at hop
  rw [modbus_reply_eq]
  simp only [hslave, hf, hfunction, hn, hop, served, responsePdu]
  rw [if_neg (by decide)]
  cases hserve : r.op.serve st with
  | ok p => rw [respond_adu hB L s t _ behind (answered hserve) ht]
  | error why =>
    have hexc := L.response s (r.function + 0x80)
      (B.prepare_response_tid (overlay (L.adu s t r.pdu) behind) (L.adu s t r.pdu).length).1
      [why.code]
    simp only [response_exception, hexc, ht]

end Request

/-! ## The law -/

/-- A call over the wire is an operation of the store. The server takes exactly the request off the
stream, whatever stands behind it on the stream and in its buffer, and the client takes exactly
the response off its stream and returns what the operation gave. -/
theorem one_call_is_one_operation (B : modbus_backend_t) (hB : IsBackend B) (client server : Int)
    (t_id : Word) (r : Request) (c : Awaiting) (hc : r.call ⟨client, B⟩ t_id = .ok c)
    (hf : B.filter_request server (BitVec.ofInt 8 client) = false) (s : Store) :
    (∀ (more : List Byte) (ns : List Nat), c.req.length ≤ ns.length →
      receive_msg B .MSG_INDICATION (ns.map .gives) (c.req ++ more) = some (.ok c.req, more)) ∧
    ∃ rsp, (∀ behind, modbus_reply ⟨server, B⟩ (overlay c.req behind) c.req.length s.mapping =
        (.sent rsp, (r.op.carry s).mapping)) ∧
      (∀ (more : List Byte) (ns : List Nat), rsp.length ≤ ns.length →
        receive_msg B .MSG_CONFIRMATION (ns.map .gives) (rsp ++ more) = some (.ok rsp, more)) ∧
      c.confirm rsp = r.outcome s := by
  obtain ⟨L⟩ := hB.framed
  obtain ⟨hr, rfl⟩ := (r.call_iff L client t_id c).mp hc
  refine ⟨fun more ns hn => receive_of_accepts (L.accepts_adu _ _ t_id (Request.wellFormed hr))
    (L.integrity _ t_id _) more hn, _, fun behind => Request.reply_adu hB L t_id hf behind hr s,
    fun more ns hn => receive_of_accepts (L.accepts_adu _ _ t_id (r.response_wellFormed s))
      (L.integrity _ t_id _) more hn, Request.confirm_response L _ t_id hr s⟩

/-- A word is written to the second of two registers. -/
theorem one_write_is_one_operation :
    (∀ (more : List Byte) (ns : List Nat), 12 ≤ ns.length →
      receive_msg modbus_tcp_backend .MSG_INDICATION (ns.map .gives)
          ([0, 1, 0, 0, 0, 6, 255, 6, 0, 1, 83, 83] ++ more) =
        some (.ok [0, 1, 0, 0, 0, 6, 255, 6, 0, 1, 83, 83], more)) ∧
    ∃ rsp, (∀ behind, modbus_reply ⟨255, modbus_tcp_backend⟩
          (overlay [0, 1, 0, 0, 0, 6, 255, 6, 0, 1, 83, 83] behind) 12
          (Store.mapping ⟨[], [], [], [0, 0]⟩) =
        (.sent rsp, (Op.carry ⟨[], [], [], [0, 0]⟩ (.writeRegister 1 0x5353)).mapping)) ∧
      (∀ (more : List Byte) (ns : List Nat), rsp.length ≤ ns.length →
        receive_msg modbus_tcp_backend .MSG_CONFIRMATION (ns.map .gives) (rsp ++ more) =
          some (.ok rsp, more)) ∧
      (modbus_write_register ⟨255, modbus_tcp_backend⟩ 1 1 0x5353).confirm rsp =
        .ok (.written 1) :=
  one_call_is_one_operation modbus_tcp_backend (Or.inl rfl) 255 255 1 (.writeRegister 1 0x5353) _
    rfl rfl ⟨[], [], [], [0, 0]⟩

end robotchess
