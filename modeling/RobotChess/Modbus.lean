-- The messages of the Modbus library, modbus.c, and the backend that carries them
-- over TCP, modbus-tcp.c. A message is the bytes of `req`, `rsp` or `msg` so far.
-- What a C function stores in a `uint8_t` is a byte here. An address or a value
-- that the interface takes as an int is an `Int`, and a count is a `Nat`. Negative
-- counts, which pass the tests `nb > MAX` of the source, are left out.
import RobotChess.Words
import RobotChess.Bytes

open bytes

namespace robotchess

/-! ## Constants -/

def FC_READ_COILS : Byte := 0x01
def FC_READ_DISCRETE_INPUTS : Byte := 0x02
def FC_READ_HOLDING_REGISTERS : Byte := 0x03
def FC_READ_INPUT_REGISTERS : Byte := 0x04
def FC_WRITE_SINGLE_COIL : Byte := 0x05
def FC_WRITE_SINGLE_REGISTER : Byte := 0x06
def FC_READ_EXCEPTION_STATUS : Byte := 0x07
def FC_WRITE_MULTIPLE_COILS : Byte := 0x0F
def FC_WRITE_MULTIPLE_REGISTERS : Byte := 0x10
def FC_REPORT_SLAVE_ID : Byte := 0x11
def FC_WRITE_AND_READ_REGISTERS : Byte := 0x17

def MODBUS_MAX_READ_BITS : Nat := 2000
def MODBUS_MAX_WRITE_BITS : Nat := 1968
def MODBUS_MAX_READ_REGISTERS : Nat := 125
def MODBUS_MAX_WRITE_REGISTERS : Nat := 123
def MODBUS_MAX_RW_WRITE_REGISTERS : Nat := 121

def MODBUS_EXCEPTION_ILLEGAL_FUNCTION : Byte := 0x01
def MODBUS_EXCEPTION_ILLEGAL_DATA_ADDRESS : Byte := 0x02
def MODBUS_EXCEPTION_ILLEGAL_DATA_VALUE : Byte := 0x03
def MODBUS_EXCEPTION_MAX : Nat := 12

def MODBUS_BROADCAST_ADDRESS : Int := 0
def MODBUS_TCP_SLAVE : Int := 0xFF

def MAX_MESSAGE_LENGTH : Nat := 260

/-- `errno` after a function of the library returned -1. -/
inductive Errno
  -- `MODBUS_ENOBASE + code`
  | exception (code : Nat)
  | EMBBADCRC
  | EMBBADDATA
  | EMBBADEXC
  | EMBMDATA
  | ENOPROTOOPT
  | ECONNRESET
  -- what `select`, `send` or `recv` left there, ETIMEDOUT among them
  | system (code : Nat)
  deriving DecidableEq, Repr

/-! ## Backends -/

/-- `sft_t`. -/
structure sft_t where
  slave : Byte
  function : Byte
  t_id : Word
  deriving DecidableEq, Repr

/-- `modbus_backend_t`, without the functions of the socket. A context is seen by its `slave`. The
static `t_id` of the TCP requests is an argument, already counted up. -/
structure modbus_backend_t where
  header_length : Nat
  checksum_length : Nat
  max_adu_length : Nat
  build_request_basis : (ctx_slave : Int) → (t_id : Word) → (function : Byte) → (addr nb : Int) →
    List Byte
  build_response_basis : sft_t → List Byte
  -- the transaction, and the length of the request without its checksum
  prepare_response_tid : (req : Nat → Byte) → (req_length : Nat) → Word × Nat
  send_msg_pre : List Byte → List Byte
  check_integrity : List Byte → Bool
  pre_check_confirmation : (req rsp : List Byte) → Bool
  filter_request : (ctx_slave : Int) → (slave : Byte) → Bool

/-- `modbus_t`: what the messages depend on. -/
structure modbus_t where
  slave : Int
  backend : modbus_backend_t

/-- `x >> 8` and `x & 0x00ff` for an int `x`. -/
def intBytes (x : Int) : List Byte := [hi (BitVec.ofInt 16 x), lo (BitVec.ofInt 16 x)]

/-! ## TCP -/

/-- Lines 109 to 115 of modbus-tcp.c: after 65535 the count goes on with 0. -/
def next_t_id (t_id : Word) : Word := t_id + 1

def modbus_tcp_build_request_basis (ctx_slave : Int) (t_id : Word) (function : Byte)
    (addr nb : Int) : List Byte :=
  [hi t_id, lo t_id, 0, 0, 0, 0, BitVec.ofInt 8 ctx_slave, function] ++ intBytes addr ++
    intBytes nb

def modbus_tcp_build_response_basis (sft : sft_t) : List Byte :=
  [hi sft.t_id, lo sft.t_id, 0, 0, 0, 0, sft.slave, sft.function]

def modbus_tcp_prepare_response_tid (req : Nat → Byte) (req_length : Nat) : Word × Nat :=
  (word (req 0) (req 1), req_length)

/-- The length behind byte 6 goes to bytes 4 and 5. -/
def modbus_tcp_send_msg_pre (req : List Byte) : List Byte :=
  let mbap_length : Word := BitVec.ofNat 16 (req.length - 6)
  (req.set 4 (hi mbap_length)).set 5 (lo mbap_length)

def modbus_tcp_pre_check_confirmation (req rsp : List Byte) : Bool :=
  req.getD 0 0 == rsp.getD 0 0 && req.getD 1 0 == rsp.getD 1 0

def modbus_tcp_backend : modbus_backend_t where
  header_length := 7
  checksum_length := 0
  max_adu_length := 260
  build_request_basis := modbus_tcp_build_request_basis
  build_response_basis := modbus_tcp_build_response_basis
  prepare_response_tid := modbus_tcp_prepare_response_tid
  send_msg_pre := modbus_tcp_send_msg_pre
  check_integrity _ := true
  pre_check_confirmation := modbus_tcp_pre_check_confirmation
  filter_request _ _ := false

end robotchess
