import PulseCoap.Codec.Types

/-!
# PulseCoAP — `Endpoint`

`struct Endpoint` of `PulseCoAPTransport.h`. The source keeps an IPv4 and an
IPv6 array side by side and `operator==` compares the one `isV6` selects; here
an endpoint holds only that one, so `operator==` is equality.

The address is therefore an inductive type with a case for each family.
-/

namespace PulseCoap

/-- The address `isV6` selects, most significant byte first. -/
inductive Address where
  | v4 (a b c d : UInt8)
  | v6 (addr : BitVec 128)
deriving DecidableEq, Repr

/-- `struct Endpoint`; the default is 0.0.0.0:0. -/
structure Endpoint where
  address : Address := .v4 0 0 0 0
  port    : UInt16 := 0
deriving DecidableEq, Repr

instance : Inhabited Endpoint := ⟨{}⟩

end PulseCoap
