import PulseCoap.Codec.Types
import PulseCoap.Lib.Word

/-!
# PulseCoAP — `Message`

`PulseCoAPMessage.h` and `.cpp`: the message record, its mutators and
accessors, `encode()` and `decode()`.

Pointers are modelled by the bytes behind them: an option's `value` is `none`
for `nullptr` and otherwise the readable bytes at the address, of which the
message uses the first `length`; the same holds of the payload. The scratch
row `addOptionUint()` points into is private to the option's own index, so it
is modelled by the bytes it holds.

The output buffer of `encode()` is written front to back. Its state is the
list of bytes written so far, and a `return 0` is an `error` that carries what
had been written by then. The input of `decode()` is the list of bytes not yet
consumed, so `pos + k > inLength` is "fewer than `k` bytes are left"; `size_t`
is taken wide enough for `pos` plus a 16-bit length, which the 16-bit boards
do not give.
-/

namespace PulseCoap

/-- `struct Option`. The bytes at `value` are the application's or those of the datagram the
message was decoded from; the message keeps no copy. -/
structure CoapOption where
  number : UInt16 := 0
  length : UInt16 := 0
  value  : Option Bytes := none
deriving DecidableEq, Repr

/-- `enum class DecodeError`. Each value but the first is one exit of `decode()`. -/
inductive DecodeError where
  | none
  | tooShort
  | badVersion
  | badTokenLength
  | badOption
  | tooManyOptions
  | emptyPayloadMarker
deriving DecidableEq, Repr

/-- `class Message`; the default value is what `reset()` leaves. Of the operations only
`addOption` raises `lastOptionNumber`, so a decoded message has it at 0 whatever options it
holds. -/
structure Message where
  type             : MessageType := .confirmable
  code             : Code := Code.empty
  messageId        : UInt16 := 0
  token            : Bytes := []
  options          : List CoapOption := []
  lastOptionNumber : UInt16 := 0
  payload          : Option Bytes := none
  payloadLength    : Nat := 0
deriving DecidableEq, Repr

/-- The bytes an option stands for: `length` of them, from the address it points to. -/
def CoapOption.bytes (o : CoapOption) : Bytes := (o.value.getD []).take o.length.toNat

namespace Message

/-- `Message::reset`. -/
def reset : Message := {}

/-- The bytes the payload stands for; a null or empty payload is none. `encode()` writes the
marker for exactly the messages that have some. -/
def payloadBytes (m : Message) : Bytes := (m.payload.getD []).take m.payloadLength

/-! ## Mutators -/

def setType (m : Message) (t : MessageType) : Message := { m with type := t }
def setCode (m : Message) (c : Code) : Message := { m with code := c }
def setMessageId (m : Message) (id : UInt16) : Message := { m with messageId := id }

/-- `Message::setToken`. A token that is too long leaves the one that was set before. -/
def setToken (m : Message) (token : Bytes) : Message × Bool :=
  if token.length > kMaxTokenLen then (m, false)
  else ({ m with token := token }, true)

/-- `Message::addOption`. A refusal leaves the message as it was; the check of the order reads
the number of the last option *added*, which a decoded message does not have. -/
def addOption (cfg : Config) (m : Message) (number : UInt16) (value : Option Bytes)
    (length : UInt16) : Message × Bool :=
  if m.options.length ≥ cfg.maxOptions then (m, false)
  -- options are delta-encoded, so they come in ascending numeric order
  else if m.options.length > 0 ∧ number < m.lastOptionNumber then (m, false)
  else
    ({ m with
        options := m.options ++ [⟨number, length, if length > 0 then value else none⟩]
        lastOptionNumber := number }, true)

/-- `Message::addOptionString`; `none` is a null string. The length is a 16-bit number, and
`strlen` is cut down to it without a check. -/
def addOptionString (cfg : Config) (m : Message) (number : UInt16) (value : Option Bytes) :
    Message × Bool :=
  let len := match value with
    | some s => s.length
    | none => 0
  addOption cfg m number value (UInt16.ofNat len)

/-- The minimal big-endian form of an integer: the `while` loop collects its
bytes lowest first and the `for` loop turns them round. Zero takes no byte. -/
def uintBytes (v : UInt32) : Bytes := (Word.littleBytes 4 v).reverse

/-- `Message::addOptionUint`. The room is looked at twice, here and in `addOption`, since the
bytes go into the row of the scratch array that belongs to the new option. -/
def addOptionUint (cfg : Config) (m : Message) (number : UInt16) (value : UInt32) :
    Message × Bool :=
  if m.options.length ≥ cfg.maxOptions then (m, false)
  else
    let scratch := uintBytes value
    let n := UInt16.ofNat scratch.length
    addOption cfg m number (if n > 0 then some scratch else none) n

/-- `Message::addOptionEmpty`. -/
def addOptionEmpty (cfg : Config) (m : Message) (number : UInt16) : Message × Bool :=
  addOption cfg m number none 0

/-- `Message::setPayload`. Nothing is checked or copied; the caller's bytes are read when the
message is encoded. -/
def setPayload (m : Message) (data : Option Bytes) (length : Nat) : Message :=
  { m with payload := data, payloadLength := length }

/-! ## Accessors -/

/-- `Message::optionAt`. -/
def optionAt (m : Message) (index : Nat) : Option CoapOption := m.options[index]?

/-- `Message::findOption`: the first option with this number. Later ones are reached by
`optionAt` alone. -/
def findOption (m : Message) (number : UInt16) : Option CoapOption :=
  m.options.find? (·.number == number)

/-- `Message::optionAsUint`. Only the first four bytes of a longer value count. -/
def optionAsUint (opt : CoapOption) : UInt32 :=
  Word.shiftIn 0 ((opt.value.getD []).take (min opt.length.toNat 4))

/-! ## Encoding -/

/-- `put`: one byte at the write position, if there is room. The error is the `return 0`, with
what is in the buffer by then. -/
def put (cap : Nat) (b : UInt8) (out : Bytes) : Except Bytes Bytes :=
  if out.length ≥ cap then .error out else .ok (out ++ [b])

/-- `putBytes`: all of `data` at the write position, or nothing. The empty string fits
everywhere. -/
def putBytes (cap : Nat) (data out : Bytes) : Except Bytes Bytes :=
  if data.length = 0 then .ok out
  else if out.length + data.length > cap then .error out
  else .ok (out ++ data)

/-- `encodeOptionField`: the nibble and the extra bytes. The nibble 15 is never written, and 16
bits need no third form. -/
def encodeOptionField (value : UInt16) : UInt8 × Bytes :=
  if value < 13 then (value.toUInt8, [])
  else if value < 269 then (13, [(value - 13).toUInt8])
  else
    let v := value - 269
    (14, [(v >>> 8).toUInt8, (v &&& 0xFF).toUInt8])

/-- The body of the option loop after the head byte and the extra bytes. An empty value writes
nothing, so its address is never read. -/
def putOptionValue (cap : Nat) (opt : CoapOption) (out : Bytes) : Except Bytes Bytes :=
  if opt.length > 0 then
    match opt.value with
    | none => .error out  -- programmer error: non-zero length, null buffer
    | some value => putBytes cap (value.take opt.length.toNat) out
  else .ok out

/-- The option loop of `Message::encode`. `lastNumber` starts at 0 and follows the options, so
each delta is relative to the one before; nothing here checks that it is not negative. -/
def encodeOptions (cap : Nat) : (lastNumber : UInt16) → List CoapOption → Bytes →
    Except Bytes Bytes
  | _, [], out => .ok out
  | lastNumber, opt :: rest, out => do
    let delta := encodeOptionField (opt.number - lastNumber)
    let length := encodeOptionField opt.length
    let out ← put cap ((delta.1 <<< 4) ||| length.1) out
    let out ← putBytes cap delta.2 out
    let out ← putBytes cap length.2 out
    let out ← putOptionValue cap opt out
    encodeOptions cap opt.number rest out

/-- The payload marker and the payload. No marker stands before nothing. -/
def encodePayload (cap : Nat) (m : Message) (out : Bytes) : Except Bytes Bytes :=
  match m.payload with
  | none => .ok out
  | some data =>
    if m.payloadLength > 0 then do
      let out ← put cap 0xFF out
      putBytes cap (data.take m.payloadLength) out
    else .ok out

/-- Version, type and token length, as RFC 7252 packs them in the first byte. -/
def byte0 (m : Message) : UInt8 :=
  (kVersion <<< 6) ||| ((m.type.toBits &&& 0x03) <<< 4) |||
    (UInt8.ofNat m.token.length &&& 0x0F)

/-- `Message::encode`, with the bytes it left in the buffer. Every write is checked against the
capacity on its own, so a message that does not fit is given up where it first fails. -/
def encode (m : Message) (outCapacity : Nat) : Except Bytes Bytes := do
  if outCapacity < 4 then .error []
  else
    let out ← put outCapacity m.byte0 []
    let out ← put outCapacity m.code.raw out
    let out ← put outCapacity (m.messageId >>> 8).toUInt8 out
    let out ← put outCapacity (m.messageId &&& 0xFF).toUInt8 out
    let out ← putBytes outCapacity m.token out
    let out ← encodeOptions outCapacity 0 m.options out
    encodePayload outCapacity m out

/-- The length `encode()` returns; 0 says it did not fit. No message has length 0, since the
header alone takes four bytes. -/
def encodedLength : Except Bytes Bytes → Nat
  | .ok out => out.length
  | .error _ => 0

/-! ## Decoding -/

/-- The value behind a delta or length nibble, in 16-bit arithmetic, and the
bytes after it; `none` is the `TooShort` exit. -/
def decodeOptionField (nibble : UInt8) (rest : Bytes) : Option (UInt16 × Bytes) :=
  if nibble < 13 then some (nibble.toUInt16, rest)
  else if nibble = 13 then
    match rest with
    | b :: rest => some ((13 : UInt16) + b.toUInt16, rest)
    | [] => none
  else
    match rest with
    | hi :: lo :: rest => some ((269 : UInt16) + ((hi.toUInt16 <<< 8) ||| lo.toUInt16), rest)
    | _ => none

/-- The option loop of `Message::decode`. Each pass consumes at least one
byte, so a `fuel` above the number of bytes left never runs out. -/
def decodeOptions (cfg : Config) : (fuel : Nat) → (lastNumber : UInt16) → Message → Bytes →
    DecodeError × Message
  | 0, _, m, _ => (.none, m)
  | _ + 1, _, m, [] => (.none, m)
  | fuel + 1, lastNumber, m, byte :: rest =>
    if byte = 0xFF then
      if rest.length = 0 then (.emptyPayloadMarker, reset)
      else (.none, { m with payload := some rest, payloadLength := rest.length })
    else
      let deltaNibble := byte >>> 4
      let lengthNibble := byte &&& 0x0F
      -- nibble 15 is only legal as part of the payload marker
      if deltaNibble = 15 ∨ lengthNibble = 15 then (.badOption, reset)
      else
        match decodeOptionField deltaNibble rest with
        | none => (.tooShort, reset)
        | some (delta, rest) =>
          match decodeOptionField lengthNibble rest with
          | none => (.tooShort, reset)
          | some (length, rest) =>
            let optionNumber := lastNumber + delta
            if rest.length < length.toNat then (.tooShort, reset)
            else if m.options.length ≥ cfg.maxOptions then (.tooManyOptions, reset)
            else
              let value := if length > 0 then some (rest.take length.toNat) else none
              decodeOptions cfg fuel optionNumber
                { m with options := m.options ++ [⟨optionNumber, length, value⟩] }
                (rest.drop length.toNat)

/-- `Message::decode`: the error and what the message holds afterwards. Every exit but one goes
through `reset()`; the one of a token length above 8 comes after the type is stored and does
not. -/
def decode (cfg : Config) (input : Bytes) : DecodeError × Message :=
  match input with
  | byte0 :: byte1 :: byte2 :: byte3 :: rest =>
    if byte0 >>> 6 ≠ kVersion then (.badVersion, reset)
    else
      let m := { reset with type := MessageType.ofBits ((byte0 >>> 4) &&& 0x03) }
      let tkl := byte0 &&& 0x0F
      -- this exit leaves the type it has just stored
      if tkl.toNat > kMaxTokenLen then (.badTokenLength, m)
      else if rest.length < tkl.toNat then (.tooShort, reset)
      else
        decodeOptions cfg (rest.length + 1) 0
          { m with
            code := ⟨byte1⟩
            messageId := (byte2.toUInt16 <<< 8) ||| byte3.toUInt16
            token := rest.take tkl.toNat }
          (rest.drop tkl.toNat)
  | _ => (.tooShort, reset)

end Message

end PulseCoap
