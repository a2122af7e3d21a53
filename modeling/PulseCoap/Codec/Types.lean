import PulseCoap.Config

/-!
# PulseCoAP — wire constants

The constants of `PulseCoAPTypes.h`: message types, codes, option numbers,
content formats and the Observe values.

A `Code` is a byte with names for some of its values: `decode()` casts any
byte to it, so it is not an enumeration of the named codes.
-/

namespace PulseCoap

/-- `kVersion`. -/
def kVersion : UInt8 := 1

/-- Message type (RFC 7252 §3). -/
inductive MessageType where
  | confirmable
  | nonConfirmable
  | acknowledgement
  | reset
deriving DecidableEq, Repr

/-- The two type bits of the header. -/
def MessageType.toBits : MessageType → UInt8
  | .confirmable => 0
  | .nonConfirmable => 1
  | .acknowledgement => 2
  | .reset => 3

/-- `static_cast<MessageType>` of a two-bit value. -/
def MessageType.ofBits (b : UInt8) : MessageType :=
  if b = 0 then .confirmable
  else if b = 1 then .nonConfirmable
  else if b = 2 then .acknowledgement
  else .reset

/-- Code (RFC 7252 §3, §12.1): class in the top three bits, detail below. -/
structure Code where
  raw : UInt8
deriving DecidableEq, Repr

def makeCode (cls detail : UInt8) : Code :=
  ⟨((cls &&& 0x07) <<< 5) ||| (detail &&& 0x1F)⟩

def codeClass (code : Code) : UInt8 := code.raw >>> 5

namespace Code

def empty : Code := makeCode 0 0
def get : Code := makeCode 0 1
def post : Code := makeCode 0 2
def put : Code := makeCode 0 3
def delete : Code := makeCode 0 4

def changed : Code := makeCode 2 4
def content : Code := makeCode 2 5
def «continue» : Code := makeCode 2 31

def badRequest : Code := makeCode 4 0
def badOption : Code := makeCode 4 2
def notFound : Code := makeCode 4 4
def methodNotAllowed : Code := makeCode 4 5
def requestEntityIncomplete : Code := makeCode 4 8
def requestEntityTooLarge : Code := makeCode 4 13

def notImplemented : Code := makeCode 5 1
def serviceUnavailable : Code := makeCode 5 3

end Code

def isMethodCode (code : Code) : Bool := codeClass code == 0 && code.raw != 0

-- Option numbers (RFC 7252 §12.2, RFC 7641 §2, RFC 7959 §2).
namespace OptionNumber

def observe : UInt16 := 6
def uriPath : UInt16 := 11
def contentFormat : UInt16 := 12
def block2 : UInt16 := 23
def block1 : UInt16 := 27

end OptionNumber

/-- Content-Format identifiers (RFC 7252 §12.3); any 16-bit value can be cast
to one. -/
structure ContentFormat where
  raw : UInt16
deriving DecidableEq, Repr

def ContentFormat.textPlain : ContentFormat := ⟨0⟩
def ContentFormat.linkFormat : ContentFormat := ⟨40⟩
def ContentFormat.octetStream : ContentFormat := ⟨42⟩

def kObserveRegister : UInt32 := 0
def kObserveDeregister : UInt32 := 1

@[simp] theorem MessageType.ofBits_toBits (t : MessageType) : ofBits t.toBits = t := by
  cases t <;> rfl

theorem MessageType.toBits_ofBits {b : UInt8} (h : b.toNat < 4) : (ofBits b).toBits = b := by
  have hb : b = 0 ∨ b = 1 ∨ b = 2 ∨ b = 3 := by
    have : b.toNat = 0 ∨ b.toNat = 1 ∨ b.toNat = 2 ∨ b.toNat = 3 := by omega
    simpa [← UInt8.toNat_inj] using this
  rcases hb with rfl | rfl | rfl | rfl <;> rfl

end PulseCoap
