import PulseCoap.Codec.Message

/-!
# PulseCoAP — `uri`

`PulseCoAPUri.h`: a path string to Uri-Path options and back. A C string is
its bytes before the terminator.
-/

namespace PulseCoap.Uri

/-- `'/'`. -/
def slash : UInt8 := 0x2F

/-- The segments the outer loop of `addUriPathOptions` comes to, with the part of a segment read
so far. A slash ends one; several in a row, or one at either end, give no empty segment. -/
def segmentsFrom : (segment : Bytes) → Bytes → List Bytes
  | segment, [] => if segment = [] then [] else [segment]
  | segment, c :: path =>
    if c = slash then
      if segment = [] then segmentsFrom [] path else segment :: segmentsFrom [] path
    else segmentsFrom (segment ++ [c]) path

/-- The non-empty segments of a path. `"/a//b/"` and `"a/b"` have the same ones. -/
def segments (path : Bytes) : List Bytes := segmentsFrom [] path

/-- `addUriPathOptions` from the segments on; it stops at the first refusal. What it has added
by then stays in the message. -/
def addSegments (cfg : Config) (msg : Message) : List Bytes → Message × Bool
  | [] => (msg, true)
  | segment :: rest =>
    let r := msg.addOption cfg OptionNumber.uriPath (some segment) (UInt16.ofNat segment.length)
    if r.2 then addSegments cfg r.1 rest else (r.1, false)

/-- `uri::addUriPathOptions`. -/
def addUriPathOptions (cfg : Config) (msg : Message) (path : Bytes) : Message × Bool :=
  addSegments cfg msg (segments path)

/-- The loop of `joinUriPath` over the options that are left. Each room check keeps one byte for
the terminator. -/
def joinOptions (outCapacity : Nat) : List CoapOption → Bytes → Option Bytes
  | [], out => some out
  | opt :: rest, out =>
    if opt.number ≠ OptionNumber.uriPath then joinOptions outCapacity rest out
    else if out.length + 1 ≥ outCapacity then none
    else
      let out := out ++ [slash]
      if out.length + opt.length.toNat ≥ outCapacity then none
      else joinOptions outCapacity rest (out ++ opt.bytes)

/-- `uri::joinUriPath`: the bytes written before the terminator. A message without Uri-Path
options asks for the root. -/
def joinUriPath (msg : Message) (outCapacity : Nat) : Option Bytes :=
  if outCapacity < 2 then none
  else
    match joinOptions outCapacity msg.options [] with
    | none => none
    | some out => if out.length = 0 then some [slash] else some out

/-- What `strcmp` and `strlen` see of a buffer: the bytes before the first
zero. -/
def cString (buffer : Bytes) : Bytes := buffer.takeWhile (· ≠ 0)

/-- `"/.well-known/core"`, which the server registers and `discover` asks for. -/
def wellKnownCore : Bytes :=
  [0x2F, 0x2E, 0x77, 0x65, 0x6C, 0x6C, 0x2D, 0x6B, 0x6E, 0x6F, 0x77, 0x6E, 0x2F, 0x63, 0x6F,
    0x72, 0x65]

end PulseCoap.Uri
