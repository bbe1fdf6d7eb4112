-- What the Modbus library is for, seen from the client: a store of four tables, and
-- the operations that read and write ranges of them. An operation that the store
-- refuses changes nothing.
import RobotChess.Bytes
import RobotChess.Tables

open bytes tables

namespace robotchess

/-! ## Operations -/

/-- Bits that a client reads and writes, bits and registers that it can only read, and registers
that it reads and writes. -/
structure Store where
  bits : List Bool
  input_bits : List Bool
  input_registers : List Word
  registers : List Word
  deriving DecidableEq, Repr

inductive Op
  | readBits (addr : Word) (nb : Nat)
  | readInputBits (addr : Word) (nb : Nat)
  | readRegisters (addr : Word) (nb : Nat)
  | readInputRegisters (addr : Word) (nb : Nat)
  -- no status is a word that means neither on nor off
  | writeBit (addr : Word) (status : Option Bool)
  | writeRegister (addr value : Word)
  | writeBits (addr : Word) (src : List Bool)
  | writeRegisters (addr : Word) (src : List Word)
  -- the registers are written first
  | writeAndRead (write_addr : Word) (src : List Word) (read_addr : Word) (read_nb : Nat)
  | reportSlaveId
  deriving DecidableEq, Repr

inductive Answer
  | bits (bs : List Bool)
  | words (ws : List Word)
  | written
  | id
  deriving DecidableEq, Repr

/-- Why an operation is refused. -/
inductive Refusal
  | function
  | address
  | value
  deriving DecidableEq, Repr

section
variable {α : Type}

/-- From 1 to `max` entries, all of them in the table. -/
def readRange (max : Nat) (tab : List α) (addr : Word) (nb : Nat) : Except Refusal (List α) :=
  if nb < 1 ∨ max < nb then .error .value
  else if tab.length < addr.toNat + nb then .error .address
  else .ok (slice tab addr.toNat nb)

def writeRange (max : Nat) (tab : List α) (addr : Word) (src : List α) :
    Except Refusal (List α) :=
  if src.length < 1 ∨ max < src.length then .error .value
  else if tab.length < addr.toNat + src.length then .error .address
  else .ok (patch tab addr.toNat src)

/-- One entry, whose value is looked at after the address. -/
def writeOne (tab : List α) (addr : Word) (x : Option α) : Except Refusal (List α) :=
  if tab.length ≤ addr.toNat then .error .address
  else match x with
    | none => .error .value
    | some x => .ok (patch tab addr.toNat [x])

theorem readRange_ok {max : Nat} {tab xs : List α} {addr : Word} {nb : Nat}
    (h : readRange max tab addr nb = .ok xs) : xs = slice tab addr.toNat nb ∧
      1 ≤ nb ∧ nb ≤ max ∧ addr.toNat + nb ≤ tab.length := by
  unfold readRange at h
  split at h
  · cases h
  · split at h
    · cases h
    · cases h
      exact ⟨rfl, by omega, by omega, by omega⟩

theorem writeRange_ok {max : Nat} {tab tab' src : List α} {addr : Word}
    (h : writeRange max tab addr src = .ok tab') : tab' = patch tab addr.toNat src ∧
      1 ≤ src.length ∧ src.length ≤ max ∧ addr.toNat + src.length ≤ tab.length := by
  unfold writeRange at h
  split at h
  · cases h
  · split at h
    · cases h
    · cases h
      exact ⟨rfl, by omega, by omega, by omega⟩

theorem writeRange_of {max : Nat} {tab src : List α} {addr : Word} (h1 : 1 ≤ src.length)
    (hmax : src.length ≤ max) (hlen : addr.toNat + src.length ≤ tab.length) :
    writeRange max tab addr src = .ok (patch tab addr.toNat src) := by
  rw [writeRange, if_neg (by omega), if_neg (by omega)]

/-- Whether a range is refused depends on its length only. -/
theorem writeRange_refused {max n : Nat} {tab : List α} {addr : Word}
    (h : ¬ (1 ≤ n ∧ n ≤ max ∧ addr.toNat + n ≤ tab.length)) :
    ∃ r, ∀ src : List α, src.length = n → writeRange max tab addr src = .error r := by
  by_cases hv : n < 1 ∨ max < n
  · exact ⟨.value, fun src hs => by rw [writeRange, hs, if_pos hv]⟩
  · exact ⟨.address, fun src hs => by rw [writeRange, hs, if_neg hv, if_pos (by omega)]⟩

theorem writeOne_ok {tab tab' : List α} {addr : Word} {x : Option α}
    (h : writeOne tab addr x = .ok tab') : addr.toNat < tab.length ∧
      ∃ y, x = some y ∧ tab' = patch tab addr.toNat [y] := by
  unfold writeOne at h
  split at h
  · cases h
  · split at h
    · cases h
    · cases h
      exact ⟨by omega, _, rfl, rfl⟩

end

namespace Op

/-- What the store does with an operation. -/
def serve (s : Store) : Op → Except Refusal (Answer × Store)
  | readBits addr nb => do
    let bs ← readRange 2000 s.bits addr nb
    return (.bits bs, s)
  | readInputBits addr nb => do
    let bs ← readRange 2000 s.input_bits addr nb
    return (.bits bs, s)
  | readRegisters addr nb => do
    let ws ← readRange 125 s.registers addr nb
    return (.words ws, s)
  | readInputRegisters addr nb => do
    let ws ← readRange 125 s.input_registers addr nb
    return (.words ws, s)
  | writeBit addr status => do
    let bits ← writeOne s.bits addr status
    return (.written, { s with bits })
  | writeRegister addr value => do
    let registers ← writeOne s.registers addr (some value)
    return (.written, { s with registers })
  | writeBits addr src => do
    let bits ← writeRange 1968 s.bits addr src
    return (.written, { s with bits })
  | writeRegisters addr src => do
    let registers ← writeRange 123 s.registers addr src
    return (.written, { s with registers })
  | writeAndRead write_addr src read_addr read_nb =>
    -- All the counts are looked at before the addresses.
    if src.length < 1 ∨ 121 < src.length ∨ read_nb < 1 ∨ 125 < read_nb then .error .value
    else do
      let registers ← writeRange 121 s.registers write_addr src
      let ws ← readRange 125 registers read_addr read_nb
      return (.words ws, { s with registers })
  | reportSlaveId => .ok (.id, s)

theorem serve_writeAndRead (s : Store) (write_addr : Word) (src : List Word) (read_addr : Word)
    (read_nb : Nat) : (writeAndRead write_addr src read_addr read_nb).serve s =
      if src.length < 1 ∨ 121 < src.length ∨ read_nb < 1 ∨ 125 < read_nb then .error .value
      else if s.registers.length < read_addr.toNat + read_nb ∨
          s.registers.length < write_addr.toNat + src.length then .error .address
      else
        let registers := patch s.registers write_addr.toNat src
        .ok (.words (slice registers read_addr.toNat read_nb), { s with registers }) := by
  simp only [serve, writeRange, readRange]
  by_cases hv : src.length < 1 ∨ 121 < src.length ∨ read_nb < 1 ∨ 125 < read_nb
  · rw [if_pos hv, if_pos hv]
  · have hn : ¬ (read_nb < 1 ∨ 125 < read_nb) := by omega
    rw [if_neg hv, if_neg hv, if_neg (by omega)]
    simp only [if_neg hn]
    by_cases hw : s.registers.length < write_addr.toNat + src.length
    · rw [if_pos hw, if_pos (Or.inr hw)]
      rfl
    · have hlen := length_patch s.registers write_addr.toNat src
      rw [if_neg hw]
      simp only [Except.bind, bind, hlen]
      by_cases hr : s.registers.length < read_addr.toNat + read_nb
      · rw [if_pos hr, if_pos (Or.inl hr)]
      · rw [if_neg hr, if_neg (by omega)]
        rfl

/-- The operations that are carried out, with their answers and the next store. -/
inductive Serves (s : Store) : Op → Answer → Store → Prop
  | readBits {addr : Word} {nb : Nat} : nb ≤ 2000 → addr.toNat + nb ≤ s.bits.length →
      Serves s (readBits addr nb) (.bits (slice s.bits addr.toNat nb)) s
  | readInputBits {addr : Word} {nb : Nat} : nb ≤ 2000 → addr.toNat + nb ≤ s.input_bits.length →
      Serves s (readInputBits addr nb) (.bits (slice s.input_bits addr.toNat nb)) s
  | readRegisters {addr : Word} {nb : Nat} : nb ≤ 125 → addr.toNat + nb ≤ s.registers.length →
      Serves s (readRegisters addr nb) (.words (slice s.registers addr.toNat nb)) s
  | readInputRegisters {addr : Word} {nb : Nat} : nb ≤ 125 →
      addr.toNat + nb ≤ s.input_registers.length →
      Serves s (readInputRegisters addr nb) (.words (slice s.input_registers addr.toNat nb)) s
  | writeBit {addr : Word} {b : Bool} : addr.toNat < s.bits.length →
      Serves s (writeBit addr (some b)) .written { s with bits := patch s.bits addr.toNat [b] }
  | writeRegister {addr value : Word} : addr.toNat < s.registers.length →
      Serves s (writeRegister addr value) .written
        { s with registers := patch s.registers addr.toNat [value] }
  | writeBits {addr : Word} {src : List Bool} : addr.toNat + src.length ≤ s.bits.length →
      Serves s (writeBits addr src) .written { s with bits := patch s.bits addr.toNat src }
  | writeRegisters {addr : Word} {src : List Word} :
      addr.toNat + src.length ≤ s.registers.length →
      Serves s (writeRegisters addr src) .written
        { s with registers := patch s.registers addr.toNat src }
  | writeAndRead {write_addr read_addr : Word} {src : List Word} {read_nb : Nat} :
      read_nb ≤ 125 → write_addr.toNat + src.length ≤ s.registers.length →
      read_addr.toNat + read_nb ≤ s.registers.length →
      Serves s (writeAndRead write_addr src read_addr read_nb)
        (.words (slice (patch s.registers write_addr.toNat src) read_addr.toNat read_nb))
        { s with registers := patch s.registers write_addr.toNat src }
  | reportSlaveId : Serves s reportSlaveId .id s

theorem bind_ok {α β : Type} {x : Except Refusal α} {f : α → Except Refusal β} {b : β}
    (h : x >>= f = .ok b) : ∃ a, x = .ok a ∧ f a = .ok b := by
  cases x with
  | error e => cases h
  | ok a => exact ⟨a, rfl, h⟩

theorem serves {s s' : Store} {op : Op} {a : Answer} (h : op.serve s = .ok (a, s')) :
    Serves s op a s' := by
  cases op with
  | readBits addr nb =>
    obtain ⟨bs, hr, hx⟩ := bind_ok h
    obtain ⟨rfl, -, hmax, hlen⟩ := readRange_ok hr
    cases hx
    exact .readBits hmax hlen
  | readInputBits addr nb =>
    obtain ⟨bs, hr, hx⟩ := bind_ok h
    obtain ⟨rfl, -, hmax, hlen⟩ := readRange_ok hr
    cases hx
    exact .readInputBits hmax hlen
  | readRegisters addr nb =>
    obtain ⟨ws, hr, hx⟩ := bind_ok h
    obtain ⟨rfl, -, hmax, hlen⟩ := readRange_ok hr
    cases hx
    exact .readRegisters hmax hlen
  | readInputRegisters addr nb =>
    obtain ⟨ws, hr, hx⟩ := bind_ok h
    obtain ⟨rfl, -, hmax, hlen⟩ := readRange_ok hr
    cases hx
    exact .readInputRegisters hmax hlen
  | writeBit addr status =>
    obtain ⟨tab, hw, hx⟩ := bind_ok h
    obtain ⟨hlen, b, rfl, rfl⟩ := writeOne_ok hw
    cases hx
    exact .writeBit hlen
  | writeRegister addr value =>
    obtain ⟨tab, hw, hx⟩ := bind_ok h
    obtain ⟨hlen, w, hv, rfl⟩ := writeOne_ok hw
    cases hv
    cases hx
    exact .writeRegister hlen
  | writeBits addr src =>
    obtain ⟨tab, hw, hx⟩ := bind_ok h
    obtain ⟨rfl, -, -, hlen⟩ := writeRange_ok hw
    cases hx
    exact .writeBits hlen
  | writeRegisters addr src =>
    obtain ⟨tab, hw, hx⟩ := bind_ok h
    obtain ⟨rfl, -, -, hlen⟩ := writeRange_ok hw
    cases hx
    exact .writeRegisters hlen
  | writeAndRead write_addr src read_addr read_nb =>
    rw [serve_writeAndRead] at h
    split at h
    · cases h
    · split at h
      · cases h
      · cases h
        exact .writeAndRead (by omega) (by omega) (by omega)
  | reportSlaveId =>
    cases h
    exact .reportSlaveId

theorem serve_writeBits {s : Store} {addr : Word} {src : List Bool} (h1 : 1 ≤ src.length)
    (hmax : src.length ≤ 1968) (hlen : addr.toNat + src.length ≤ s.bits.length) :
    (writeBits addr src).serve s =
      .ok (.written, { s with bits := patch s.bits addr.toNat src }) := by
  simp only [serve, writeRange_of h1 hmax hlen]
  rfl

theorem serve_writeRegisters {s : Store} {addr : Word} {src : List Word} (h1 : 1 ≤ src.length)
    (hmax : src.length ≤ 123) (hlen : addr.toNat + src.length ≤ s.registers.length) :
    (writeRegisters addr src).serve s =
      .ok (.written, { s with registers := patch s.registers addr.toNat src }) := by
  simp only [serve, writeRange_of h1 hmax hlen]
  rfl

/-- The store after an operation, which is the one before it when it is refused. -/
def carry (s : Store) (op : Op) : Store :=
  match op.serve s with
  | .ok (_, s') => s'
  | .error _ => s

theorem carry_of_ok {s s' : Store} {op : Op} {a : Answer} (h : op.serve s = .ok (a, s')) :
    op.carry s = s' := by
  rw [carry, h]

end Op

/-- The tables that a client cannot write are the same, and the others have the same size. -/
structure Store.Keeps (s s' : Store) : Prop where
  bits : s'.bits.length = s.bits.length
  registers : s'.registers.length = s.registers.length
  input_bits : s'.input_bits = s.input_bits
  input_registers : s'.input_registers = s.input_registers

theorem Store.Keeps.rfl {s : Store} : s.Keeps s := ⟨Eq.refl _, Eq.refl _, Eq.refl _, Eq.refl _⟩

theorem Store.Keeps.trans {s t u : Store} (h : s.Keeps t) (h' : t.Keeps u) : s.Keeps u :=
  ⟨h'.bits.trans h.bits, h'.registers.trans h.registers, h'.input_bits.trans h.input_bits,
    h'.input_registers.trans h.input_registers⟩

theorem Op.Serves.keeps {s s' : Store} {op : Op} {a : Answer} (h : op.Serves s a s') :
    s.Keeps s' := by
  cases h <;> exact ⟨by simp, by simp, rfl, rfl⟩

theorem Op.carry_keeps (s : Store) (op : Op) : s.Keeps (op.carry s) := by
  unfold Op.carry
  split
  · rename_i h
    exact (Op.serves h).keeps
  · exact .rfl

end robotchess
