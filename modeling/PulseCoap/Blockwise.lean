import PulseCoap.Codec.Message
import PulseCoap.Transport.Endpoint

/-!
# PulseCoAP — block-wise helpers

`PulseCoAPBlockwise.h`: the Block option and the three transfer states.

A reassembly buffer is modelled by its first `assembledLen` bytes, the only
ones the code reads, so `assembledLen` is the length of `buffer`.

The exponent of a block size is three bits on the wire, and its value 7 is
reserved; `blockSize` gives 2048 for it, as the shift in the source does.
-/

namespace PulseCoap

/-- `struct BlockOption`: number, more-bit and size exponent of a Block1 or Block2 option. -/
structure BlockOption where
  num : UInt32
  m   : Bool
  szx : UInt8
deriving DecidableEq, Repr

namespace BlockOption

/-- `BlockOption::fromOption`; `none` is the malformed option. Shorter options are read as if
they had leading zeros, so the empty one is block 0. -/
def fromOption (opt : CoapOption) : Option BlockOption :=
  if opt.length > 3 then none
  else
    let v := Message.optionAsUint opt
    some { num := v >>> 4, m := (v >>> 3) &&& 1 ≠ 0, szx := (v &&& 0x07).toUInt8 }

/-- `BlockOption::toOptionValue`. A number of more than 28 bits loses its top; the exponent is
masked and the more-bit is not disturbed. -/
def toOptionValue (num : UInt32) (m : Bool) (szx : UInt8) : UInt32 :=
  (num <<< 4) ||| (if m then 0x08 else 0) ||| (szx &&& 0x07).toUInt32

/-- The number of an option of at most three bytes has at most twenty bits. -/
theorem fromOption_num {opt : CoapOption} {b : BlockOption} (h : fromOption opt = some b) :
    b.num.toNat < 2 ^ 20 := by
  unfold fromOption at h
  split at h
  · cases h
  · rename_i hlen
    obtain rfl := Option.some.inj h
    have hshort : opt.length.toNat ≤ 3 := UInt16.le_iff_toNat_le.1 (UInt16.not_lt.1 hlen)
    have hbytes : ((opt.value.getD []).take (min opt.length.toNat 4)).length ≤ 3 := by
      rw [List.length_take]
      omega
    have hv : (Message.optionAsUint opt).toNat < 2 ^ 24 :=
      calc (Message.optionAsUint opt).toNat
          < 256 ^ ((opt.value.getD []).take (min opt.length.toNat 4)).length :=
            Word.shiftIn_lt (by omega)
        _ ≤ 256 ^ 3 := Nat.pow_le_pow_right (by omega) hbytes
    -- the number is the value without its four low bits
    show (Message.optionAsUint opt >>> 4).toNat < _
    have h4 : (4 : UInt32).toNat % 32 = 4 := rfl
    rw [UInt32.toNat_shiftRight, Nat.shiftRight_eq_div_pow, h4]
    omega

end BlockOption

/-- `static_cast<uint16_t>(1u << (szx + 4))`. -/
def blockSize (szx : UInt8) : Nat := 2 ^ (szx.toNat + 4) % 65536

/-- The three bits of an option never make the shift overflow. -/
theorem blockSize_eq {szx : UInt8} (h : szx.toNat < 8) : blockSize szx = 2 ^ (szx.toNat + 4) := by
  have hpow : 2 ^ (szx.toNat + 4) ≤ 2 ^ 11 := Nat.pow_le_pow_right (by omega) (by omega)
  exact Nat.mod_eq_of_lt (by omega)

/-- `struct Block1UploadState`; `fullPayload` and `fullLen` are the bytes of the caller's
buffer, which has to stay valid for the whole upload. One token is used for all of its blocks. -/
structure Block1UploadState where
  active             : Bool := false
  fullPayload        : Bytes := []
  nextNum            : UInt32 := 0
  szx                : UInt8 := 0
  contentFormat      : ContentFormat := .textPlain
  method             : Code := Code.put
  server             : Endpoint := default
  path               : Bytes := []
  token              : UInt8 := 0
  waitingForContinue : Bool := false
deriving DecidableEq, Repr

/-- `struct Block2RecvState`. It belongs to a pending slot of the client, and is of use while
that slot waits for the next block. -/
structure Block2RecvState where
  active        : Bool := false
  nextNum       : UInt32 := 0
  szx           : UInt8 := 0
  contentFormat : ContentFormat := .textPlain
  server        : Endpoint := default
  path          : Bytes := []
  buffer        : Bytes := []
deriving DecidableEq, Repr

/-- `struct Block1Session`. It is found by remote and token, as the blocks of one upload share
both. -/
structure Block1Session where
  active          : Bool := false
  remote          : Endpoint := default
  token           : Bytes := []
  nextExpectedNum : UInt32 := 0
  buffer          : Bytes := []
deriving DecidableEq, Repr

end PulseCoap
