import Mathlib.Algebra.Ring.Nat
import Mathlib.Tactic.Common

/-!
# PulseCoAP — compile-time configuration

`PulseCoAPConfig.h` sizes every table and buffer of the library with a
macro the application may override. `Config` is one choice of those macros;
every definition of the model takes it as its first argument, so the results
hold for each build and not only for the defaults.

`PULSECOAP_MAX_TOKEN_LEN` is fixed by RFC 7252 ("not really a tuning knob"),
so it is the constant `kMaxTokenLen`. Bounds the C++ relies on without checking
them are fields: counts that have to fit a `uint8_t`, and the range the header
states for the block size exponent.
-/

namespace PulseCoap

/-- A byte buffer, from its first byte. -/
abbrev Bytes := List UInt8

/-- `PULSECOAP_MAX_TOKEN_LEN`. -/
def kMaxTokenLen : Nat := 8

/-- The macros of `PulseCoAPConfig.h` that the modelled code reads. -/
structure Config where
  maxMsgSize        : Nat := 256
  maxOptions        : Nat := 16
  maxTransactions   : Nat := 4
  ackTimeoutMs      : UInt32 := 2000
  ackRandomNum      : UInt32 := 3
  ackRandomDen      : UInt32 := 2
  maxRetransmit     : Nat := 4
  maxResources      : Nat := 8
  maxObservers      : Nat := 8
  maxUriPathLen     : Nat := 64
  maxDeferred       : Nat := 2
  maxLinkFormatLen  : Nat := 256
  enableBlockwise   : Bool := false
  blockSzx          : UInt8 := 4
  maxBlock1Sessions : Nat := 2
  block1MaxBody     : Nat := 1024
  block2MaxBody     : Nat := 1024
  maxPathParams     : Nat := 4
  maxPathParamLen   : Nat := 16
  maxDiscovers      : Nat := 2
  discoverTimeoutMs : UInt32 := 5000
  /-- `optionCount_` is a `uint8_t`. -/
  options_lt        : maxOptions < 256 := by decide
  /-- The slot loops of the client and of the pool count in `uint8_t`. -/
  transactions_lt   : maxTransactions < 256 := by decide
  /-- So do the loops over resources, observers and deferred requests. -/
  resources_lt      : maxResources < 256 := by decide
  observers_lt      : maxObservers < 256 := by decide
  deferred_lt       : maxDeferred < 256 := by decide
  /-- `matchTemplate` takes it as a `uint8_t`. -/
  params_lt         : maxPathParams < 256 := by decide
  /-- `retriesSent` is a `uint8_t`. -/
  retransmit_lt     : maxRetransmit < 256 := by decide
  /-- "Must be 0-6." -/
  szx_le            : blockSzx ≤ 6 := by decide

/-- The build with no macro overridden. -/
def Config.default : Config := {}

/-- The build `test_blockwise.cpp` uses. -/
def Config.blockwise : Config :=
  { enableBlockwise := true, blockSzx := 2, maxMsgSize := 512 }

end PulseCoap
