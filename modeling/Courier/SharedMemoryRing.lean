import Courier.Library.Json
import Courier.Library.Lines
import Courier.Library.Memory

/-!
# The shared-memory ring

A ring is a segment of shared memory: a header with the capacity, the two ends and a sequence number, and a circular
region of frames, each a length and its bytes.  `slack` is by how much the platform makes a segment larger than it is
asked to be.
-/

namespace Courier.SharedMemoryRing

open Memory Text

def MAGIC : Bytes := [67, 83, 82, 66]

def VERSION : Nat := 1

def HEADER_RAW_SIZE : Nat := 26

def HEADER_SIZE : Nat := 32

/-- What is raised. -/
inductive RingBufferError where
  | bufferFull (message : Str)
  | messageTooLarge (message : Str)
  | corrupt (message : Str)
  | valueError
  | structError
  deriving DecidableEq

/-- The numbers in the header. -/
structure Header where
  capacity : Nat
  head : Nat
  tail : Nat
  seq : Nat
  deriving DecidableEq

/-! ### The header -/

/-- `struct.pack` of an unsigned number of `k` bytes. -/
def pack (k : Nat) : Int → Except RingBufferError Bytes
  | .ofNat n => if n < 256 ^ k then .ok (bigEndian k n) else .error .structError
  | .negSucc _ => .error .structError

/-- `_init_header`, of the segment as it was. -/
def initHeader (buf : Bytes) (capacity : Int) : Except RingBufferError Bytes := do
  let size ← pack 4 capacity
  let header := MAGIC ++ bigEndian 2 VERSION ++ size ++ bigEndian 4 0 ++ bigEndian 4 0 ++ bigEndian 8 0
  return splice (splice buf 0 header) HEADER_RAW_SIZE
    (List.replicate (HEADER_SIZE - HEADER_RAW_SIZE) 0)

/-- `create`: the segment with its header. -/
def create (capacity : Int) (slack : Nat) : Except RingBufferError Bytes :=
  if HEADER_SIZE + capacity ≤ 0 then .error .valueError
  else initHeader (List.replicate ((HEADER_SIZE + capacity).toNat + slack) 0) capacity

/-- A byte as it stands in the `repr` of a byte string. -/
def reprByte (quote : Nat) (b : UInt8) : Str :=
  if b.toNat = quote ∨ b = 92 then [92, b.toNat]
  else if b = 9 then text "\\t"
  else if b = 10 then text "\\n"
  else if b = 13 then text "\\r"
  else if 32 ≤ b ∧ b < 127 then [b.toNat]
  else text "\\x" ++ [Json.hexDigit (b.toNat / 16), Json.hexDigit (b.toNat % 16)]

/-- `repr` of a byte string. -/
def reprBytes (bytes : Bytes) : Str :=
  let quote := if 39 ∈ bytes ∧ 34 ∉ bytes then 34 else 39
  text "b" ++ [quote] ++ bytes.flatMap (reprByte quote) ++ [quote]

def validateHeader (buf : Bytes) : Except RingBufferError Unit :=
  if buf.length < HEADER_SIZE then
    .error (.corrupt (text "Shared memory segment too small for ring header"))
  else if slice buf 0 4 ≠ MAGIC then
    .error (.corrupt (text "Invalid magic: " ++ reprBytes (slice buf 0 4) ++ text " != " ++
      reprBytes MAGIC))
  else if ofBytes (slice buf 4 2) ≠ VERSION then
    .error (.corrupt (text "Unsupported version: " ++ natDecimal (ofBytes (slice buf 4 2))))
  else .ok ()

def readHeader (buf : Bytes) : Header where
  capacity := ofBytes (slice buf 6 4)
  head := ofBytes (slice buf 10 4)
  tail := ofBytes (slice buf 14 4)
  seq := ofBytes (slice buf 18 8)

/-- `_update_head`: the answer, and the segment also where it fails. -/
def updateHead (buf : Bytes) (head seq : Nat) : Except RingBufferError Unit × Bytes :=
  match pack 4 head with
  | .error e => (.error e, buf)
  | .ok headBytes =>
      match pack 8 seq with
      | .error e => (.error e, splice buf 10 headBytes)
      | .ok seqBytes => (.ok (), splice (splice buf 10 headBytes) 18 seqBytes)

def updateTail (buf : Bytes) (tail : Nat) : Except RingBufferError Unit × Bytes :=
  match pack 4 tail with
  | .error e => (.error e, buf)
  | .ok tailBytes => (.ok (), splice buf 14 tailBytes)

def availableReadBytes (buf : Bytes) : Int :=
  let h := readHeader buf
  if h.tail ≤ h.head then h.head - h.tail else h.capacity - (h.tail - h.head)

def availableWriteBytes (buf : Bytes) : Int :=
  max 0 (((readHeader buf).capacity - 1) - availableReadBytes buf)

/-! ### Messages -/

def tooLarge (totalFrameSize capacity : Nat) : RingBufferError :=
  .messageTooLarge (text "Message size " ++ natDecimal totalFrameSize ++
    text " exceeds maximum capacity " ++ decimal (capacity - 1))

/-- The error about a message for which there is no room. -/
def full (totalFrameSize : Nat) (available : Int) : RingBufferError :=
  .bufferFull (text "Buffer full: needed " ++ natDecimal totalFrameSize ++
    text " bytes, available " ++ decimal available)

/-- `write`: the sequence number, and the segment. -/
def write (buf data : Bytes) : Except RingBufferError Nat × Bytes :=
  let h := readHeader buf
  let totalFrameSize := 4 + data.length
  if (h.capacity : Int) - 1 < totalFrameSize then (.error (tooLarge totalFrameSize h.capacity), buf)
  else if availableWriteBytes buf < totalFrameSize then
    (.error (full totalFrameSize (availableWriteBytes buf)), buf)
  else
    match pack 4 data.length with
    | .error e => (.error e, buf)
    | .ok lengthBytes =>
        let written := writeCircular buf HEADER_SIZE h.capacity h.head (lengthBytes ++ data)
        let newHead := (h.head + totalFrameSize) % h.capacity
        let newSeq := h.seq + 1
        let updated := updateHead written newHead newSeq
        (updated.1.map fun _ => newSeq, updated.2)

def readBytesCircular (buf : Bytes) (offset length capacity : Nat) : Bytes :=
  readCircular buf HEADER_SIZE capacity offset length

/-- `read`: the next message, if there is one, and the segment. -/
def read (buf : Bytes) : Except RingBufferError (Option Bytes) × Bytes :=
  let h := readHeader buf
  if h.head = h.tail then (.ok none, buf)
  else
    let msgLen := ofBytes (readBytesCircular buf h.tail 4 h.capacity)
    let msgOffset := (h.tail + 4) % h.capacity
    let payload := readBytesCircular buf msgOffset msgLen h.capacity
    let newTail := (h.tail + 4 + msgLen) % h.capacity
    let updated := updateTail buf newTail
    (updated.1.map fun _ => some payload, updated.2)

/-! ### Calls -/

inductive Call where
  | write (data : Bytes)
  | read
  deriving DecidableEq

/-- The answer to a call. -/
inductive Answer where
  | wrote (outcome : Except RingBufferError Nat)
  | got (outcome : Except RingBufferError (Option Bytes))

/-- The answer to a call, and the segment after it. -/
def step (buf : Bytes) : Call → Answer × Bytes
  | .write data => (.wrote (write buf data).1, (write buf data).2)
  | .read => (.got (read buf).1, (read buf).2)

/-- The calls with their answers, and the segment after them. -/
def run (buf : Bytes) : List Call → List (Call × Answer) × Bytes
  | [] => ([], buf)
  | call :: calls =>
      let (answer, buf') := step buf call
      let (trace, last) := run buf' calls
      ((call, answer) :: trace, last)

end Courier.SharedMemoryRing
