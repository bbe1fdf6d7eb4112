-- The functions of the client as one type of requests. What a success of any of them
-- says, whatever the peer is that sends the response.
import RobotChess.Client

open bytes

namespace robotchess

/-- A function of the client with its arguments. A count that is given as an int is not negative
here, and the count of a write is the length of its array. -/
inductive Request
  | readBits (addr : Int) (nb : Nat)
  | readInputBits (addr : Int) (nb : Nat)
  | readRegisters (addr : Int) (nb : Nat)
  | readInputRegisters (addr : Int) (nb : Nat)
  | writeBit (addr status : Int)
  | writeRegister (addr value : Int)
  | writeBits (addr : Int) (src : List Byte)
  | writeRegisters (addr : Int) (src : List Word)
  | writeAndRead (write_addr : Int) (src : List Word) (read_addr : Int) (read_nb : Nat)
  | reportSlaveId
  deriving DecidableEq, Repr

namespace Request

def call (ctx : modbus_t) (t_id : Word) : Request → Except Errno Awaiting
  | readBits addr nb => modbus_read_bits ctx t_id addr nb
  | readInputBits addr nb => modbus_read_input_bits ctx t_id addr nb
  | readRegisters addr nb => modbus_read_registers ctx t_id addr nb
  | readInputRegisters addr nb => modbus_read_input_registers ctx t_id addr nb
  | writeBit addr status => .ok (modbus_write_bit ctx t_id addr status)
  | writeRegister addr value => .ok (modbus_write_register ctx t_id addr value)
  | writeBits addr src => modbus_write_bits ctx t_id addr src
  | writeRegisters addr src => modbus_write_registers ctx t_id addr src
  | writeAndRead write_addr src read_addr read_nb =>
    modbus_write_and_read_registers ctx t_id write_addr src read_addr read_nb
  | reportSlaveId => .ok (modbus_report_slave_id ctx t_id)

def function : Request → Byte
  | readBits _ _ => FC_READ_COILS
  | readInputBits _ _ => FC_READ_DISCRETE_INPUTS
  | readRegisters _ _ => FC_READ_HOLDING_REGISTERS
  | readInputRegisters _ _ => FC_READ_INPUT_REGISTERS
  | writeBit _ _ => FC_WRITE_SINGLE_COIL
  | writeRegister _ _ => FC_WRITE_SINGLE_REGISTER
  | writeBits _ _ => FC_WRITE_MULTIPLE_COILS
  | writeRegisters _ _ => FC_WRITE_MULTIPLE_REGISTERS
  | writeAndRead _ _ _ _ => FC_WRITE_AND_READ_REGISTERS
  | reportSlaveId => FC_REPORT_SLAVE_ID

/-- How many entries are read, or written when none are read. One of one needs no count. -/
def count : Request → Nat
  | readBits _ nb => nb
  | readInputBits _ nb => nb
  | readRegisters _ nb => nb
  | readInputRegisters _ nb => nb
  | writeBits _ src => src.length
  | writeRegisters _ src => src.length
  | writeAndRead _ _ _ read_nb => read_nb
  | _ => 1

/-- What follows the function code. -/
def data : Request → List Byte
  | readBits addr nb => intBytes addr ++ intBytes nb
  | readInputBits addr nb => intBytes addr ++ intBytes nb
  | readRegisters addr nb => intBytes addr ++ intBytes nb
  | readInputRegisters addr nb => intBytes addr ++ intBytes nb
  | writeBit addr status => intBytes addr ++ intBytes (if status ≠ 0 then 0xFF00 else 0)
  | writeRegister addr value => intBytes addr ++ intBytes value
  | writeBits addr src => intBytes addr ++ intBytes src.length ++
    (BitVec.ofNat 8 (byteCount src.length) :: pack (byteCount src.length) src)
  | writeRegisters addr src => intBytes addr ++ intBytes src.length ++
    (BitVec.ofNat 8 (src.length * 2) :: ofWords src)
  | writeAndRead write_addr src read_addr read_nb => intBytes read_addr ++ intBytes read_nb ++
    (intBytes write_addr ++ intBytes src.length ++ (BitVec.ofNat 8 (src.length * 2) :: ofWords src))
  | reportSlaveId => []

def pdu (r : Request) : List Byte := r.function :: r.data

/-- The counts that the functions let through. -/
def Allowed : Request → Prop
  | readBits _ nb => nb ≤ 2000
  | readInputBits _ nb => nb ≤ 2000
  | readRegisters _ nb => nb ≤ 125
  | readInputRegisters _ nb => nb ≤ 125
  | writeBits _ src => src.length ≤ 1968
  | writeRegisters _ src => src.length ≤ 123
  | writeAndRead _ src _ read_nb => src.length ≤ 121 ∧ read_nb ≤ 125
  | _ => True

instance (r : Request) : Decidable r.Allowed :=
  match r with
  | readBits _ nb => inferInstanceAs (Decidable (nb ≤ 2000))
  | readInputBits _ nb => inferInstanceAs (Decidable (nb ≤ 2000))
  | readRegisters _ nb => inferInstanceAs (Decidable (nb ≤ 125))
  | readInputRegisters _ nb => inferInstanceAs (Decidable (nb ≤ 125))
  | writeBits _ src => inferInstanceAs (Decidable (src.length ≤ 1968))
  | writeRegisters _ src => inferInstanceAs (Decidable (src.length ≤ 123))
  | writeAndRead _ src _ read_nb =>
    inferInstanceAs (Decidable (src.length ≤ 121 ∧ read_nb ≤ 125))
  | writeBit _ _ => inferInstanceAs (Decidable True)
  | writeRegister _ _ => inferInstanceAs (Decidable True)
  | reportSlaveId => inferInstanceAs (Decidable True)

/-- What a function makes of a confirmed response. -/
def finish (B : modbus_backend_t) : Request → (rc : Nat) → List Byte → Result
  | readBits _ nb =>
    fun rc rsp => .bits nb (unpack nb ((rsp.drop (B.header_length + 2)).take rc) [])
  | readInputBits _ nb =>
    fun rc rsp => .bits nb (unpack nb ((rsp.drop (B.header_length + 2)).take rc) [])
  | readRegisters _ _ => fun rc rsp => .words rc (words_of B rc rsp)
  | readInputRegisters _ _ => fun rc rsp => .words rc (words_of B rc rsp)
  | writeAndRead _ _ _ _ => fun rc rsp => .words rc (words_of B rc rsp)
  | reportSlaveId => fun rc rsp => .bytes rc ((rsp.drop (B.header_length + 2)).take rc)
  | _ => fun rc _ => .written rc

theorem within_iff {n max : Nat} {c c' : Awaiting} :
    (if max < n then .error .EMBMDATA else .ok c' : Except Errno Awaiting) = .ok c ↔
      n ≤ max ∧ c = c' := by
  split
  · simp
    omega
  · simp only [Except.ok.injEq, eq_comm (a := c'), iff_and_self]
    omega

/-- `modbus_read_registers` and its sibling check a count that is checked again. -/
theorem read_registers_twice (ctx : modbus_t) (t_id : Word) (f : Byte) (addr : Int) (nb : Nat) :
    (if MODBUS_MAX_READ_REGISTERS < nb then .error .EMBMDATA
      else read_registers ctx t_id f addr nb) = read_registers ctx t_id f addr nb := by
  unfold read_registers
  split <;> rfl

/-- A call that sends something sends the PDU of its request, and no call sends another one. -/
theorem call_iff {B : modbus_backend_t} (L : Framed B) (slave : Int) (t_id : Word) (r : Request)
    (c : Awaiting) : r.call ⟨slave, B⟩ t_id = .ok c ↔
      r.Allowed ∧ c = confirmed B (L.adu (BitVec.ofInt 8 slave) t_id r.pdu) (r.finish B) := by
  have hreq := L.request slave t_id
  have hplain : ∀ f (a n : Int), B.send_msg_pre (B.build_request_basis slave t_id f a n) =
      L.adu (BitVec.ofInt 8 slave) t_id (f :: (intBytes a ++ intBytes n)) := by
    intro f a n
    have h := hreq f a n []
    rwa [List.append_nil, List.append_nil] at h
  cases r with
  | readBits addr nb =>
    simp only [call, modbus_read_bits, within_iff, read_io_status, hplain]
    rfl
  | readInputBits addr nb =>
    simp only [call, modbus_read_input_bits, within_iff, read_io_status, hplain]
    rfl
  | readRegisters addr nb =>
    simp only [call, modbus_read_registers, read_registers_twice]
    simp only [read_registers, within_iff, hplain]
    rfl
  | readInputRegisters addr nb =>
    simp only [call, modbus_read_input_registers, read_registers_twice]
    simp only [read_registers, within_iff, hplain]
    rfl
  | writeBit addr status =>
    simp only [call, modbus_write_bit, write_single, hplain, Except.ok.injEq, Allowed, true_and]
    exact eq_comm
  | writeRegister addr value =>
    simp only [call, modbus_write_register, write_single, hplain, Except.ok.injEq, Allowed,
      true_and]
    exact eq_comm
  | writeBits addr src =>
    simp only [call, modbus_write_bits, within_iff, hreq]
    rfl
  | writeRegisters addr src =>
    simp only [call, modbus_write_registers, within_iff, hreq]
    rfl
  | writeAndRead write_addr src read_addr read_nb =>
    simp only [call, modbus_write_and_read_registers, Allowed]
    by_cases hw : MODBUS_MAX_RW_WRITE_REGISTERS < src.length
    · rw [if_pos hw]
      have : ¬ src.length ≤ 121 := Nat.not_le_of_lt hw
      simp [this]
    · have : src.length ≤ 121 := Nat.le_of_not_lt hw
      simp only [if_neg hw, within_iff, hreq, this, true_and]
      rfl
  | reportSlaveId =>
    simp only [call, modbus_report_slave_id, L.bare, Except.ok.injEq, Allowed, true_and]
    exact eq_comm

/-! ## What a success says -/

/-- What a function returns for a response of the right length. -/
def Fits (B : modbus_backend_t) (rsp : List Byte) (res : Result) : Request → Prop
  | readBits _ nb => rsp.length = B.header_length + (2 + byteCount nb) + B.checksum_length ∧
    res = .bits nb ((bitsOf ((rsp.drop (B.header_length + 2)).take (byteCount nb)) nb).map flag)
  | readInputBits _ nb => rsp.length = B.header_length + (2 + byteCount nb) + B.checksum_length ∧
    res = .bits nb ((bitsOf ((rsp.drop (B.header_length + 2)).take (byteCount nb)) nb).map flag)
  | readRegisters _ nb => rsp.length = B.header_length + (2 + 2 * nb) + B.checksum_length ∧
    res = .words nb (words_of B nb rsp)
  | readInputRegisters _ nb => rsp.length = B.header_length + (2 + 2 * nb) + B.checksum_length ∧
    res = .words nb (words_of B nb rsp)
  | writeAndRead _ _ _ nb => rsp.length = B.header_length + (2 + 2 * nb) + B.checksum_length ∧
    res = .words nb (words_of B nb rsp)
  | writeBit _ _ => rsp.length = B.header_length + 5 + B.checksum_length ∧ res = .written 1
  | writeRegister _ _ => rsp.length = B.header_length + 5 + B.checksum_length ∧ res = .written 1
  | writeBits _ src => rsp.length = B.header_length + 5 + B.checksum_length ∧
    (wordIn rsp (B.header_length + 3)).toNat = src.length ∧ res = .written src.length
  | writeRegisters _ src => rsp.length = B.header_length + 5 + B.checksum_length ∧
    (wordIn rsp (B.header_length + 3)).toNat = src.length ∧ res = .written src.length
  | reportSlaveId => rsp.length =
      B.header_length + (2 + (rsp.getD (B.header_length + 1) 0).toNat) + B.checksum_length ∧
    res = .bytes (rsp.getD (B.header_length + 1) 0).toNat ((rsp.drop (B.header_length + 2)).take
      (rsp.getD (B.header_length + 1) 0).toNat)

theorem wordIn_adu {B : modbus_backend_t} (L : Framed B) (s : Byte) (t : Word) {pdu : List Byte}
    {k : Nat} (hk : k + 1 < pdu.length) :
    wordIn (L.adu s t pdu) (B.header_length + k) = wordIn pdu k := by
  rw [wordIn, wordIn, Nat.add_assoc, L.getD_adu s t (by omega), L.getD_adu s t hk]

theorem check_ok_iff {B : modbus_backend_t} {req rsp : List Byte} {rc : Nat} :
    check_confirmation B req rsp = .ok rc ↔ B.pre_check_confirmation req rsp = true ∧
      (compute_response_length_from_request B req = some rsp.length ∨
        compute_response_length_from_request B req = none) ∧
      rsp.getD B.header_length 0 = req.getD B.header_length 0 ∧
      nb_values B req rsp = (rc, rc) := by
  unfold check_confirmation
  simp only
  by_cases hpre : B.pre_check_confirmation req rsp = false
  · simp [hpre]
  · rw [if_neg hpre]
    split
    · rename_i hlen
      by_cases hfun : rsp.getD B.header_length 0 = req.getD B.header_length 0
      · rw [if_neg (not_not.mpr hfun)]
        by_cases hnb : (nb_values B req rsp).1 = (nb_values B req rsp).2
        · rw [if_pos hnb]
          simp only [Bool.not_eq_false] at hpre
          simp only [hpre, hlen, hfun, Prod.ext_iff, hnb, true_and, and_self, Except.ok.injEq]
        · rw [if_neg hnb]
          simp only [reduceCtorEq, Prod.ext_iff, false_iff, not_and]
          intro _ _ _ h1 h2
          exact hnb (h1.trans h2.symm)
      · rw [if_pos hfun]
        simp only [hfun, reduceCtorEq, false_and, and_false]
    · rename_i hlen
      simp only [hlen, false_and, and_false, iff_false]
      split
      · split <;> simp
      · simp

/-- The functions whose response is checked in the same way. -/
def ReadsBits (f : Byte) : Prop := f = FC_READ_COILS ∨ f = FC_READ_DISCRETE_INPUTS

def ReadsWords (f : Byte) : Prop :=
  f = FC_WRITE_AND_READ_REGISTERS ∨ f = FC_READ_HOLDING_REGISTERS ∨ f = FC_READ_INPUT_REGISTERS

def WritesMany (f : Byte) : Prop := f = FC_WRITE_MULTIPLE_COILS ∨ f = FC_WRITE_MULTIPLE_REGISTERS

def WritesOne (f : Byte) : Prop := f = FC_WRITE_SINGLE_COIL ∨ f = FC_WRITE_SINGLE_REGISTER

instance (f : Byte) : Decidable (ReadsBits f) := inferInstanceAs (Decidable (_ ∨ _))
instance (f : Byte) : Decidable (ReadsWords f) := inferInstanceAs (Decidable (_ ∨ _ ∨ _))
instance (f : Byte) : Decidable (WritesMany f) := inferInstanceAs (Decidable (_ ∨ _))
instance (f : Byte) : Decidable (WritesOne f) := inferInstanceAs (Decidable (_ ∨ _))

section
variable {B : modbus_backend_t} {req rsp : List Byte} {rc : Nat}

/-- The check when the request says how long the response is. -/
theorem check_iff {n a b : Nat} (hlen : compute_response_length_from_request B req = some n)
    (hval : rsp.getD B.header_length 0 = req.getD B.header_length 0 →
      nb_values B req rsp = (a, b)) :
    check_confirmation B req rsp = .ok rc ↔ B.pre_check_confirmation req rsp = true ∧
      rsp.length = n ∧ rsp.getD B.header_length 0 = req.getD B.header_length 0 ∧
      a = rc ∧ b = rc := by
  rw [check_ok_iff, hlen]
  constructor
  · rintro ⟨hpre, hl, hfun, hv⟩
    rw [hval hfun, Prod.mk.injEq] at hv
    exact ⟨hpre, by simpa [eq_comm] using hl, hfun, hv⟩
  · rintro ⟨hpre, hl, hfun, hv⟩
    exact ⟨hpre, Or.inl (by rw [hl]), hfun, by rw [hval hfun, Prod.mk.injEq]; exact hv⟩

theorem length_of_bits (hf : ReadsBits (req.getD B.header_length 0)) :
    compute_response_length_from_request B req = some (B.header_length +
      (2 + byteCount (wordIn req (B.header_length + 3)).toNat) + B.checksum_length) := by
  rw [compute_response_length_from_request]
  exact if_pos hf

theorem nb_values_of_bits (hf : ReadsBits (rsp.getD B.header_length 0)) :
    nb_values B req rsp = (byteCount (wordIn req (B.header_length + 3)).toNat,
      (rsp.getD (B.header_length + 1) 0).toNat) := by
  rw [nb_values]
  exact if_pos hf

theorem length_of_words (hf : ReadsWords (req.getD B.header_length 0)) :
    compute_response_length_from_request B req = some (B.header_length +
      (2 + 2 * (wordIn req (B.header_length + 3)).toNat) + B.checksum_length) := by
  rw [compute_response_length_from_request]
  rcases hf with hf | hf | hf <;> simp only [hf] <;> rfl

theorem nb_values_of_words (hf : ReadsWords (rsp.getD B.header_length 0)) :
    nb_values B req rsp = ((wordIn req (B.header_length + 3)).toNat,
      (rsp.getD (B.header_length + 1) 0).toNat / 2) := by
  rw [nb_values]
  rcases hf with hf | hf | hf <;> simp only [hf] <;> rfl

theorem length_of_writes (hf : WritesMany (req.getD B.header_length 0) ∨
      WritesOne (req.getD B.header_length 0)) :
    compute_response_length_from_request B req =
      some (B.header_length + 5 + B.checksum_length) := by
  rw [compute_response_length_from_request]
  rcases hf with (hf | hf) | (hf | hf) <;> simp only [hf] <;> rfl

theorem nb_values_of_many (hf : WritesMany (rsp.getD B.header_length 0)) :
    nb_values B req rsp = ((wordIn req (B.header_length + 3)).toNat,
      (wordIn rsp (B.header_length + 3)).toNat) := by
  rw [nb_values]
  rcases hf with hf | hf <;> simp only [hf] <;> rfl

theorem nb_values_of_one (hf : WritesOne (rsp.getD B.header_length 0)) :
    nb_values B req rsp = (1, 1) := by
  rw [nb_values]
  rcases hf with hf | hf <;> simp only [hf] <;> rfl

end

theorem toNat_ofInt_count {n : Nat} (h : n < 65536) : (BitVec.ofInt 16 (n : Int)).toNat = n := by
  rw [BitVec.ofInt_natCast, BitVec.toNat_ofNat, Nat.mod_eq_of_lt (by simpa using h)]

theorem count_adu {B : modbus_backend_t} (L : Framed B) (s : Byte) (t : Word) {r : Request}
    (hr : r.Allowed)
    (hg : ReadsBits r.function ∨ ReadsWords r.function ∨ WritesMany r.function) :
    (wordIn (L.adu s t r.pdu) (B.header_length + 3)).toNat = r.count := by
  have hword : ∀ f a (n : Nat) rest, r.pdu = f :: (intBytes a ++ intBytes n ++ rest) →
      n < 65536 → (wordIn (L.adu s t r.pdu) (B.header_length + 3)).toNat = n := by
    intro f a n rest hpdu hn
    rw [wordIn_adu L s t (by simp [hpdu, intBytes]), hpdu]
    change (word (hi (BitVec.ofInt 16 n)) (lo (BitVec.ofInt 16 n))).toNat = n
    rw [word_hi_lo, toNat_ofInt_count hn]
  cases r with
  | readBits addr nb => exact hword _ addr nb [] rfl (Nat.lt_of_le_of_lt hr (by decide))
  | readInputBits addr nb => exact hword _ addr nb [] rfl (Nat.lt_of_le_of_lt hr (by decide))
  | readRegisters addr nb => exact hword _ addr nb [] rfl (Nat.lt_of_le_of_lt hr (by decide))
  | readInputRegisters addr nb => exact hword _ addr nb [] rfl (Nat.lt_of_le_of_lt hr (by decide))
  | writeBits addr src => exact hword _ addr _ _ rfl (Nat.lt_of_le_of_lt hr (by decide))
  | writeRegisters addr src => exact hword _ addr _ _ rfl (Nat.lt_of_le_of_lt hr (by decide))
  | writeAndRead write_addr src read_addr read_nb =>
    exact hword _ read_addr _ _ rfl (Nat.lt_of_le_of_lt hr.2 (by decide))
  | _ =>
    simp only [function] at hg
    exact absurd hg (by decide)

theorem function_adu {B : modbus_backend_t} (L : Framed B) (s : Byte) (t : Word) (r : Request) :
    (L.adu s t r.pdu).getD B.header_length 0 = r.function := by
  rw [← Nat.add_zero B.header_length, L.getD_adu s t (by simp [pdu])]
  rfl

/-- The bits that a function stores for a response with enough bytes. -/
theorem unpack_response {B : modbus_backend_t} {rsp : List Byte} {nb rc : Nat}
    (hrc : rc = byteCount nb)
    (hlen : rsp.length = B.header_length + (2 + byteCount nb) + B.checksum_length) :
    unpack nb ((rsp.drop (B.header_length + 2)).take rc) [] =
      (bitsOf ((rsp.drop (B.header_length + 2)).take (byteCount nb)) nb).map flag := by
  subst hrc
  have hbytes : ((rsp.drop (B.header_length + 2)).take (byteCount nb)).length = byteCount nb := by
    rw [List.length_take, List.length_drop]
    omega
  have hle : nb ≤ 8 * byteCount nb := by
    unfold byteCount
    split <;> omega
  rw [unpack_eq _ _ _ (by rw [hbytes]; exact hle)]
  rfl

section
variable {B : modbus_backend_t} (L : Framed B) {s : Byte} {t : Word} {r : Request}
  {rsp : List Byte} {rc : Nat}

theorem function_of_check (h : check_confirmation B (L.adu s t r.pdu) rsp = .ok rc) :
    rsp.getD B.header_length 0 = r.function := by
  rw [(check_ok_iff.mp h).2.2.1, function_adu]

theorem bits_of_check (hr : r.Allowed)
    (h : check_confirmation B (L.adu s t r.pdu) rsp = .ok rc) (hg : ReadsBits r.function) :
    rsp.length = B.header_length + (2 + byteCount r.count) + B.checksum_length ∧
      rc = byteCount r.count := by
  have hf := function_adu L s t r
  have hfun := function_of_check L h
  obtain ⟨-, hl, -, hrc, -⟩ := (check_iff (length_of_bits (hf ▸ hg))
    fun _ => nb_values_of_bits (hfun ▸ hg)).mp h
  rw [count_adu L s t hr (Or.inl hg)] at hl hrc
  exact ⟨hl, hrc.symm⟩

theorem words_of_check (hr : r.Allowed)
    (h : check_confirmation B (L.adu s t r.pdu) rsp = .ok rc) (hg : ReadsWords r.function) :
    rsp.length = B.header_length + (2 + 2 * r.count) + B.checksum_length ∧
      Result.words rc (words_of B rc rsp) = .words r.count (words_of B r.count rsp) := by
  have hf := function_adu L s t r
  have hfun := function_of_check L h
  obtain ⟨-, hl, -, hrc, -⟩ := (check_iff (length_of_words (hf ▸ hg))
    fun _ => nb_values_of_words (hfun ▸ hg)).mp h
  rw [count_adu L s t hr (Or.inr (Or.inl hg))] at hl hrc
  exact ⟨hl, by rw [hrc]⟩

theorem many_of_check (hr : r.Allowed)
    (h : check_confirmation B (L.adu s t r.pdu) rsp = .ok rc) (hg : WritesMany r.function) :
    rsp.length = B.header_length + 5 + B.checksum_length ∧
      (wordIn rsp (B.header_length + 3)).toNat = r.count ∧
        Result.written rc = .written r.count := by
  have hf := function_adu L s t r
  have hfun := function_of_check L h
  obtain ⟨-, hl, -, hrc, hrc'⟩ := (check_iff (length_of_writes (Or.inl (hf ▸ hg)))
    fun _ => nb_values_of_many (hfun ▸ hg)).mp h
  rw [count_adu L s t hr (Or.inr (Or.inr hg))] at hrc
  exact ⟨hl, hrc'.trans hrc.symm, by rw [hrc]⟩

theorem one_of_check (h : check_confirmation B (L.adu s t r.pdu) rsp = .ok rc)
    (hg : WritesOne r.function) :
    rsp.length = B.header_length + 5 + B.checksum_length ∧ Result.written rc = .written 1 := by
  have hf := function_adu L s t r
  have hfun := function_of_check L h
  obtain ⟨-, hl, -, hrc, -⟩ := (check_iff (length_of_writes (Or.inr (hf ▸ hg)))
    fun _ => nb_values_of_one (hfun ▸ hg)).mp h
  exact ⟨hl, by rw [hrc]⟩

/-- A response that passes the check is one that fits the request. -/
theorem fits (hr : r.Allowed) (hlen : rsp.length = B.header_length + 1 +
      compute_meta_length_after_function (rsp.getD B.header_length 0) .MSG_CONFIRMATION +
        compute_data_length_after_meta B rsp .MSG_CONFIRMATION)
    (h : check_confirmation B (L.adu s t r.pdu) rsp = .ok rc) :
    r.Fits B rsp (r.finish B rc rsp) := by
  cases r with
  | readBits addr nb =>
    obtain ⟨hl, hrc⟩ := bits_of_check L hr h (Or.inl rfl)
    exact ⟨hl, congrArg (Result.bits nb) (unpack_response hrc hl)⟩
  | readInputBits addr nb =>
    obtain ⟨hl, hrc⟩ := bits_of_check L hr h (Or.inr rfl)
    exact ⟨hl, congrArg (Result.bits nb) (unpack_response hrc hl)⟩
  | readRegisters addr nb => exact words_of_check L hr h (Or.inr (Or.inl rfl))
  | readInputRegisters addr nb => exact words_of_check L hr h (Or.inr (Or.inr rfl))
  | writeBit addr status => exact one_of_check L h (Or.inl rfl)
  | writeRegister addr value => exact one_of_check L h (Or.inr rfl)
  | writeBits addr src => exact many_of_check L hr h (Or.inl rfl)
  | writeRegisters addr src => exact many_of_check L hr h (Or.inr rfl)
  | writeAndRead write_addr src read_addr read_nb => exact words_of_check L hr h (Or.inl rfl)
  | reportSlaveId =>
    have hfun := function_of_check L h
    have hv := (check_ok_iff.mp h).2.2.2
    unfold nb_values at hv
    unfold compute_data_length_after_meta at hlen
    simp only [hfun] at hv hlen
    obtain ⟨rfl, -⟩ := Prod.mk.inj hv
    have hmeta : compute_meta_length_after_function reportSlaveId.function
        .MSG_CONFIRMATION = 1 := rfl
    have hcounted : reportSlaveId.function ≤ FC_READ_INPUT_REGISTERS ∨
        reportSlaveId.function = FC_REPORT_SLAVE_ID ∨
          reportSlaveId.function = FC_WRITE_AND_READ_REGISTERS := Or.inr (Or.inl rfl)
    rw [hmeta, if_pos hcounted] at hlen
    exact ⟨by omega, rfl⟩

end

end Request

/-! ## The law -/

/-- A success of any function of the client comes from a response at the head of the stream that
matches its request, and what it stores is what stands in that response, whoever sent it. -/
theorem a_success_is_a_matching_response (B : modbus_backend_t) (hB : IsBackend B) (slave : Int)
    (t_id : Word) (r : Request) (c : Awaiting) (hc : r.call ⟨slave, B⟩ t_id = .ok c)
    (polls : List Poll) (socket rsp rest : List Byte) (res : Result)
    (hrecv : receive_msg B .MSG_CONFIRMATION polls socket = some (.ok rsp, rest))
    (hok : c.confirm rsp = .ok res) :
    socket = rsp ++ rest ∧ B.pre_check_confirmation c.req rsp = true ∧
      rsp.getD B.header_length 0 = r.function ∧ r.Fits B rsp res := by
  obtain ⟨L⟩ := hB.framed
  obtain ⟨hr, rfl⟩ := (r.call_iff L slave t_id c).mp hc
  obtain ⟨hacc, -, hsplit⟩ := accepts_of_receive hrecv
  cases hx : check_confirmation B (L.adu (BitVec.ofInt 8 slave) t_id r.pdu) rsp with
  | error e =>
    simp only [confirmed, hx] at hok
    cases hok
  | ok rc =>
    simp only [confirmed, hx] at hok
    cases hok
    obtain ⟨hpre, -, hfun, -⟩ := Request.check_ok_iff.mp hx
    rw [Request.function_adu] at hfun
    exact ⟨hsplit, hpre, hfun, Request.fits L hr (length_of_accepts hacc) hx⟩

/-- Register 1040 is read, and the next response is already behind the answer. -/
theorem a_ready_word_is_a_matching_response :
    ([0, 1, 0, 0, 0, 5, 255, 3, 2, 83, 83, 0, 2] : List Byte) =
        [0, 1, 0, 0, 0, 5, 255, 3, 2, 83, 83] ++ [0, 2] ∧
      modbus_tcp_backend.pre_check_confirmation [0, 1, 0, 0, 0, 6, 255, 3, 4, 16, 0, 1]
        [0, 1, 0, 0, 0, 5, 255, 3, 2, 83, 83] = true ∧
      ([0, 1, 0, 0, 0, 5, 255, 3, 2, 83, 83] : List Byte).getD 7 0 = FC_READ_HOLDING_REGISTERS ∧
      (Request.readRegisters 1040 1).Fits modbus_tcp_backend
        [0, 1, 0, 0, 0, 5, 255, 3, 2, 83, 83] (.words 1 [0x5353]) :=
  a_success_is_a_matching_response modbus_tcp_backend (Or.inl rfl) 255 1 (.readRegisters 1040 1)
    _ rfl [.gives 300, .gives 300, .gives 300] _ _ _ (.words 1 [0x5353]) (by decide) (by decide)

end robotchess
