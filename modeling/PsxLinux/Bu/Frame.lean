import Mathlib.Data.Vector.Basic
import Mathlib.Tactic.Linarith

/-!
# The memory-card frame FSM (`bu.c`, `bu.h`)

One block transfer is a frame of bytes exchanged with the card. `bu_rd_routine` is called
once per byte; it dispatches through the table `bu_rd_states` on `bu->state` and adds the
handler's return value to the state. Entries 0..12 are the read frame, 16..26 the write
frame, 13..15 are `NULL` and the table ends at 27.

A handler that returns `-1` is modelled by the status `none`, one that returns `k` by
`some k`. Calling a `NULL` or absent entry and indexing the 128-byte buffer out of bounds
are the two `Fault`s. Writes to `BU_CONTROL`, delays and debug output are left out: no
modelled function reads them back.
-/

namespace PsxLinux.Bu

/-- `BU_BLK_SIZE`: bytes in a card block. -/
def buBlkSize : ℕ := 128

/-- `BU_FIRST_BLOCKS`: blocks at the start of a card that the device does not expose. -/
def buFirstBlocks : ℕ := 8

/-- `BU_MINORS`: memory-card slots. -/
def buMinors : ℕ := 2

/-- `N_CHECKS`: attempts at one block, and at the driver lock. -/
def nChecks : ℕ := 10

/-- `BU_ID`: the id in the first block of a formatted card. -/
def buId : UInt32 := 0x1234

def modeR : ℕ := 0x52

def modeW : ℕ := 0x57

/-- `bu_request_t`: the parameters of one block transfer. -/
structure BuRequest where
  floor : ℕ
  block : UInt16
  card : ℕ
  buffer : Vector UInt8 128
  mode : ℕ

/-- `bu_t`: the state of one block transfer, with the request it points to. -/
structure BuT where
  request : BuRequest
  cs : UInt8
  cnt : ℕ
  state : ℕ
  stop : Bool
  hwState : UInt8
  byte : UInt8

/-- What the controller answers during one call of `bu_rd_routine`: the successive reads of
`BU_DATA` and of `BU_STATUS`. -/
structure Port where
  data : ℕ → UInt8
  status : ℕ → UInt16

/-- A bad dispatch: a `NULL` or absent table entry, or a buffer index past the block. -/
inductive Fault where
  | nullHandler (state : ℕ)
  | overrun (cnt : ℕ)
deriving DecidableEq

/-- What one handler leaves: the transfer state, the bytes written to `BU_DATA`, the data
byte it moved between the block buffer and the card (if it is one of the two data handlers)
and the returned status. -/
structure Answer where
  bu : BuT
  sent : List UInt8
  moved : List UInt8
  status : Option ℕ

abbrev Handler := BuT → Port → Except Fault Answer

/-! ## Initialisation -/

def hiByte (b : UInt16) : UInt8 := (b >>> 8).toUInt8

def loByte (b : UInt16) : UInt8 := b.toUInt8

/-- `bu_sw_init`: reset the counter, seed the checksum with the block number and point the
FSM at the read or the write frame; `none` is the `-1` for an unknown mode (the fields
written before that test keep their new values). -/
def buSwInit (bu : BuT) : BuT × Option Unit :=
  let bu := { bu with
    cnt := 0
    stop := false
    cs := loByte bu.request.block ^^^ hiByte bu.request.block }
  if bu.request.mode = modeR then ({ bu with state := 0 }, some ())
  else if bu.request.mode = modeW then ({ bu with state := 0x10 }, some ())
  else (bu, none)

/-! ## The handlers

Most of them read one byte, send one byte and either always go on or go on only when the
byte read is the expected one. -/

/-- Read a byte into `bu->byte`, send `out`, and return 1 if `test` accepts the byte read. -/
def exchange (out : BuT → UInt8) (test : BuT → UInt8 → Bool) : Handler := fun bu p =>
  let byte := p.data 0
  .ok {
    bu := { bu with byte := byte }
    sent := [out bu]
    moved := []
    status := if test bu byte then some 1 else none }

def anyByte (_ : BuT) (_ : UInt8) : Bool := true

def buRdState0 : Handler := exchange (fun bu => UInt8.ofNat (0x81 + bu.request.floor)) anyByte

def buRdState1 : Handler := exchange (fun bu => UInt8.ofNat bu.request.mode) anyByte

/-- `bu_rd_state2` also keeps the byte as the card's status. -/
def buRdState2 : Handler := fun bu p =>
  let byte := p.data 0
  .ok {
    bu := { bu with byte := byte, hwState := byte }
    sent := [0]
    moved := []
    status := some 1 }

def buRdState3 : Handler := exchange (fun _ => 0) fun _ b => b == 0x5a

def buRdState4 : Handler := exchange (fun bu => hiByte bu.request.block) fun _ b => b == 0x5d

def buRdState5 : Handler := exchange (fun bu => loByte bu.request.block) anyByte

def buRdState6 : Handler := exchange (fun _ => 0) anyByte

def buRdState7 : Handler := exchange (fun _ => 0) fun _ b => b == 0x5c

def buRdState8 : Handler := exchange (fun _ => 0) fun _ b => b == 0x5d

def buRdState9 : Handler := exchange (fun _ => 0) fun bu b => b == hiByte bu.request.block

def buRdState10 : Handler := exchange (fun _ => 0) fun bu b => b == loByte bu.request.block

/-- `while ((inw (BU_STATUS) & 7) != 7) if (timeout++ > 10000) return -1;` -/
def waitStatus (status : ℕ → UInt16) : (fuel timeout : ℕ) → Bool
  | 0, _ => false
  | fuel + 1, timeout =>
    if status timeout &&& 7 = 7 then true
    else if timeout > 10000 then false
    else waitStatus status fuel (timeout + 1)

/-- `bu_rd_state12`: in a read the checksum byte must match; then wait for the status and
take the final byte, which must be `0x47`. -/
def buRdState12 : Handler := fun bu p =>
  let byte := p.data 0
  let bu' := { bu with byte := byte }
  if bu.request.mode = modeR ∧ byte ≠ bu.cs then
    .ok { bu := bu', sent := [0], moved := [], status := none }
  else if waitStatus p.status 10002 0 = false then
    .ok { bu := bu', sent := [0], moved := [], status := none }
  else
    let byte := p.data 1
    if byte = 0x47 then
      .ok { bu := { bu' with byte := byte, stop := true }, sent := [0, 0], moved := [],
            status := some 1 }
    else
      .ok { bu := { bu' with byte := byte }, sent := [0, 0], moved := [], status := none }

/-- `bu_wr_state7`: the byte read is dropped, the checksum is sent. -/
def buWrState7 : Handler := fun bu _ =>
  .ok { bu := bu, sent := [bu.cs], moved := [], status := some 1 }

/-- `bu_rd_data`: store the byte read at `buffer[cnt]` and fold it into the checksum. -/
def buRdData : Handler := fun bu p =>
  if h : bu.cnt < 128 then
    let byte := p.data 0
    .ok {
      bu := { bu with
        request := { bu.request with buffer := bu.request.buffer.set bu.cnt byte h }
        cs := bu.cs ^^^ byte
        cnt := bu.cnt + 1 }
      sent := [0]
      moved := [byte]
      status := some (if bu.cnt + 1 = buBlkSize then 1 else 0) }
  else .error (.overrun bu.cnt)

/-- `bu_wr_data`: send `buffer[cnt]` and fold it into the checksum. -/
def buWrData : Handler := fun bu _ =>
  if h : bu.cnt < 128 then
    let byte := bu.request.buffer[bu.cnt]
    .ok {
      bu := { bu with cs := bu.cs ^^^ byte, cnt := bu.cnt + 1 }
      sent := [byte]
      moved := [byte]
      status := some (if bu.cnt + 1 = buBlkSize then 1 else 0) }
  else .error (.overrun bu.cnt)

/-! ## The dispatch table -/

/-- `bu_rd_states`: `none` for the `NULL` entries and past the end of the table. -/
def buRdStates : ℕ → Option Handler
  | 0 => some buRdState0
  | 1 => some buRdState1
  | 2 => some buRdState2
  | 3 => some buRdState3
  | 4 => some buRdState4
  | 5 => some buRdState5
  | 6 => some buRdState6
  | 7 => some buRdState7
  | 8 => some buRdState8
  | 9 => some buRdState9
  | 10 => some buRdState10
  | 11 => some buRdData
  | 12 => some buRdState12
  | 16 => some buRdState0
  | 17 => some buRdState1
  | 18 => some buRdState2
  | 19 => some buRdState3
  | 20 => some buRdState4
  | 21 => some buRdState5
  | 22 => some buWrData
  | 23 => some buWrState7
  | 24 => some buRdState6
  | 25 => some buRdState7
  | 26 => some buRdState12
  | _ => none

/-- `bu_rd_routine`: dispatch on the state; unless the handler failed, add its return value
to the state. The status of the answer is `some` exactly when the routine returns 0. -/
def buRdRoutine (bu : BuT) (p : Port) : Except Fault Answer :=
  match buRdStates bu.state with
  | none => .error (.nullHandler bu.state)
  | some handler =>
    match handler bu p with
    | .error f => .error f
    | .ok ans =>
      match ans.status with
      | none => .ok ans
      | some k => .ok { ans with bu := { ans.bu with state := ans.bu.state + k } }

end PsxLinux.Bu
