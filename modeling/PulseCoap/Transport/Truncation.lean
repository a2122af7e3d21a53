import PulseCoap.Codec.Cut
import PulseCoap.Client.Dispatch
import PulseCoap.Server.Dispatch
import PulseCoap.Transport.Adapters

/-!
# PulseCoAP — datagrams longer than the buffer

Each transport hands `poll()` at most `PULSECOAP_MAX_MSG_SIZE` bytes of a longer
datagram and says nothing of the rest. `decode()` takes the end of what it gets
for the end of the payload, so a cut at a `CutPoint` makes a message with a
shorter payload, and `poll()` goes on with it: the README's "no silent
truncation" does not hold.

`leavesMessage_iff` is about the bytes alone and comes from `Codec.Cut`. The
rest follows the shortened message through `poll()` on both sides: whether a
handler sees it depends on its code, on the resource and, for a client, on the
token, just as for any other message.

* `leavesMessage_iff` — where the cut goes unnoticed.
* `no_truncated_body_iff` — no handler sees a truncated body exactly when the
  cut falls elsewhere, or the message is not one for a handler.
* `not_no_truncated_body` — a PUT of 300 bytes.
-/

namespace PulseCoap

/-- What is left of a datagram is a message with less of its payload: the cut is
at a cut point. A short `pbuf_copy_partial` leaves old bytes of the slot behind
the front of the datagram; then it is for `decode` to tell. -/
def LeavesMessage (cfg : Config) (data left : Bytes) : Prop :=
  ∃ w, Message.real data = some w ∧
    if left <+: data then w.CutPoint cfg.maxOptions left.length
    else ∃ m, Message.decode cfg left = (.none, m) ∧ m.payloadBytes <+: w.payload ∧
      m.payloadBytes ≠ w.payload

/-- A datagram that was cut leaves a message if it decodes to less of its payload. -/
theorem leavesMessage_iff {cfg : Config} {data left : Bytes} (hdata : data.length < 2 ^ 16)
    (hlen : left.length < data.length) :
    LeavesMessage cfg data left ↔ ∃ m, Message.decode cfg left = (.none, m) ∧
      Message.Truncates data m.payloadBytes := by
  have hswap : (∃ m, Message.decode cfg left = (.none, m) ∧
        Message.Truncates data m.payloadBytes) ↔
      ∃ w, Message.real data = some w ∧ ∃ m, Message.decode cfg left = (.none, m) ∧
        m.payloadBytes <+: w.payload ∧ m.payloadBytes ≠ w.payload := by
    constructor
    · rintro ⟨m, hdec, w, hw, hpre, hne⟩
      exact ⟨w, hw, m, hdec, hpre, hne⟩
    · rintro ⟨w, hw, m, hdec, hpre, hne⟩
      exact ⟨m, hdec, w, hw, hpre, hne⟩
  rw [hswap, LeavesMessage]
  refine exists_congr fun w => and_congr_right fun hw => ?_
  split
  · rename_i hpre
    rw [← Message.truncates_take_iff hdata hw hlen, ← List.prefix_iff_eq_take.1 hpre]
  · exact Iff.rfl

namespace Server

variable {cfg : Config}

/-- No handler is called with a truncated body of `data`. -/
def NoTruncatedCall (data : Bytes) (events : List ServerEvent) : Prop :=
  ∀ index handler req ctx, .handled index handler req ctx ∈ events →
    ¬ Message.Truncates data req.message.payloadBytes

/-- The server calls no handler with a truncated body exactly when no message with less of it is one
it would call a handler for. -/
theorem noTruncatedCall_iff (s : Server cfg) (nowMs : UInt32) (sender : Endpoint)
    (data left : Bytes) :
    NoTruncatedCall data (s.poll nowMs (some (sender, left))).2 ↔
      ∀ msg, Message.decode cfg left = (.none, msg) → s.Invokes msg sender →
        ¬ Message.Truncates data msg.payloadBytes := by
  rcases s.poll_calls nowMs sender left with ⟨hsends, hnot⟩ |
    ⟨msg, ticks, rest, hdec, hinv, hticks, ⟨body, t, _, req, tail, hrest, -, hmsg, -, -, htail⟩, heq⟩
  · refine iff_of_true (fun index handler req ctx hmem => ?_) fun msg hdec hinv => ?_
    · exact absurd hmem hsends.not_handled
    · exact absurd hinv (hnot msg hdec)
  rw [heq, hrest]
  constructor
  · intro h msg' hdec' _
    rw [hdec] at hdec'
    cases hdec'
    rw [← hmsg]
    exact h _ _ req _ (List.mem_append_right _ (List.mem_cons_self ..))
  · intro h index handler req' ctx hmem
    rcases List.mem_append.1 hmem with hmem | hmem
    · exact absurd hmem hticks.not_handled
    rcases List.mem_cons.1 hmem with hcall | hmem
    · cases hcall
      rw [hmsg]
      exact h msg hdec hinv
    · exact absurd hmem htail.not_handled

end Server

/-- No response handler runs with a truncated body of `data` in the poll that gets
`left`. -/
def Client.NoTruncatedResponse {cfg : Config} (data : Bytes) (c : Client cfg) (nowMs : UInt32)
    (sender : Endpoint) (left : Bytes) : Prop :=
  c.PollFires nowMs (some (sender, left)) →
    ¬ Message.Truncates data (Message.decode cfg left).2.payloadBytes

/-! ## No silent truncation -/

/-- **No truncated body is processed** of a datagram longer than the buffer, whichever transport
delivers it, exactly when what is left of it is no message with less of its payload, or one that
gets to no handler. The state of either party is arbitrary. -/
theorem no_truncated_body_iff {cfg : Config} {copy : Nat → Bytes → Bytes}
    (hcopy : CopiesAtMost copy) {d : UdpDatagram} (hlong : cfg.maxMsgSize < d.bytes.length)
    {rx : Endpoint × Bytes} (hrx : Delivers copy cfg d rx) (s : Server cfg) (c : Client cfg)
    (nowMs : UInt32) :
    (Server.NoTruncatedCall d.bytes (s.poll nowMs (some rx)).2 ↔
        ¬ (LeavesMessage cfg d.bytes rx.2 ∧ s.Invokes (Message.decode cfg rx.2).2 rx.1)) ∧
      (Client.NoTruncatedResponse d.bytes c nowMs rx.1 rx.2 ↔
        ¬ (LeavesMessage cfg d.bytes rx.2 ∧ c.Fires (Message.decode cfg rx.2).2)) := by
  obtain ⟨sender, left⟩ := rx
  obtain ⟨-, hfits, -⟩ := hrx.spec hcopy
  have hleaves : LeavesMessage cfg d.bytes left ↔ ∃ m, Message.decode cfg left = (.none, m) ∧
      Message.Truncates d.bytes m.payloadBytes :=
    leavesMessage_iff d.length_lt (Nat.lt_of_le_of_lt hfits hlong)
  dsimp only
  rw [hleaves]
  constructor
  · -- for either party, `LeavesMessage` names the message that `poll` decodes
    rw [s.noTruncatedCall_iff]
    constructor
    · rintro h ⟨⟨msg, hdec, htrunc⟩, hinv⟩
      rw [hdec] at hinv
      exact h msg hdec hinv htrunc
    · intro h msg hdec hinv htrunc
      refine h ⟨⟨msg, hdec, htrunc⟩, ?_⟩
      rw [hdec]
      exact hinv
  · unfold Client.NoTruncatedResponse
    rw [c.poll_fires_iff]
    constructor
    · rintro h ⟨⟨msg, hdec, htrunc⟩, hfires⟩
      rw [hdec] at h hfires
      exact h ⟨msg, rfl, hfires⟩ htrunc
    · rintro h ⟨msg, hdec, hfires⟩ htrunc
      rw [hdec] at htrunc
      refine h ⟨⟨msg, hdec, htrunc⟩, ?_⟩
      rw [hdec]
      exact hfires

/-- A network stack that copies all it is asked for. -/
theorem copiesAtMost_take : CopiesAtMost fun n data => data.take n where
  bounded _ _ := List.length_take_le _ _

/-- A PUT of 300 bytes to `a`. -/
def longPut : UdpDatagram where
  source := { address := .v4 10 0 0 9, port := 5683 }
  bytes := [0x40, 0x03, 0x00, 0x01, 0xB1, 0x61, 0xFF] ++ List.replicate 300 0x2A
  length_lt := by decide +kernel

/-- What a socket with the default buffer delivers of it. -/
def longPutLeft : Endpoint × Bytes := (longPut.source, longPut.bytes.take 256)

theorem longPut_delivered : Delivers (fun n data => data.take n) .default longPut longPutLeft :=
  .posix (t := { fd := 3 }) (by decide +kernel)

/-- A server with the resource `a`. -/
def serverA : Server .default :=
  (({} : Server .default).addResource (some [0x2F, 0x61]) methodPut (some (.app 1)) none false).1

theorem no_truncated_body_iff_longPut :
    (Server.NoTruncatedCall longPut.bytes (serverA.poll 0 (some longPutLeft)).2 ↔
        ¬ (LeavesMessage .default longPut.bytes longPutLeft.2 ∧
          serverA.Invokes (Message.decode .default longPutLeft.2).2 longPutLeft.1)) ∧
      (Client.NoTruncatedResponse longPut.bytes ({} : Client .default) 0 longPutLeft.1
          longPutLeft.2 ↔
        ¬ (LeavesMessage .default longPut.bytes longPutLeft.2 ∧
          ({} : Client .default).Fires (Message.decode .default longPutLeft.2).2)) :=
  no_truncated_body_iff copiesAtMost_take (by decide +kernel) longPut_delivered serverA {} 0

/-- **A truncated body is processed**: the handler of `a` gets 249 bytes of 300. What is left of
the payload is a payload. -/
theorem not_no_truncated_body :
    ¬ ∀ (cfg : Config) (copy : Nat → Bytes → Bytes), CopiesAtMost copy → ∀ d : UdpDatagram,
      cfg.maxMsgSize < d.bytes.length → ∀ rx, Delivers copy cfg d rx →
      ∀ (s : Server cfg) (c : Client cfg) (nowMs : UInt32),
        Server.NoTruncatedCall d.bytes (s.poll nowMs (some rx)).2 ∧
          Client.NoTruncatedResponse d.bytes c nowMs rx.1 rx.2 := by
  intro hall
  have hserver := (hall .default _ copiesAtMost_take longPut (by decide +kernel) longPutLeft
    longPut_delivered serverA {} 0).1
  have hdec : Message.decode .default longPutLeft.2 =
      (.none, (Message.decode .default longPutLeft.2).2) := by decide +kernel
  have hinv : serverA.Invokes (Message.decode .default longPutLeft.2).2 longPutLeft.1 := by
    refine ⟨by decide +kernel, by decide +kernel, fun opt hopt => ?_⟩
    -- the default build has no Block1 branch
    have hnone : Server.block1Option .default (Message.decode .default longPutLeft.2).2 = none :=
      if_neg (by decide)
    rw [hnone] at hopt
    cases hopt
  refine (serverA.noTruncatedCall_iff 0 longPutLeft.1 longPut.bytes longPutLeft.2).1 hserver _ hdec
    hinv ?_
  have hreal : Message.real longPut.bytes = some
      { type := 0, code := 3, messageId := 1, token := [], options := [(11, [0x61])]
        payload := List.replicate 300 0x2A } := by decide +kernel
  exact ⟨_, hreal, by decide +kernel, by decide +kernel⟩

end PulseCoap
