import PulseCoap.Codec.Strict
import PulseCoap.Lib.CutStream

/-!
# PulseCoAP — a datagram, cut short

The payload of a message has no length field: it is what follows the marker up
to the end of the datagram. So what `decode()` makes of the first bytes of a
datagram is again a message wherever the cut falls behind an option or inside
the payload.

A transport that hands over the front of a datagram makes such a cut, and
nothing in the message says so. `real` is the message the whole datagram is,
without the limit on its options that the build has: a datagram with more
options than the table holds is refused as a whole, and its front may be
accepted.

* `truncates_take_iff` — the cut datagrams that `decode()` takes for messages
  with a shorter payload than the real one are those cut at a `CutPoint`.
* `wrap16_value` — in a datagram of less than 65536 bytes no length is reduced.
-/

namespace PulseCoap

/-- Behind the token, at a cut point of the option stream of a message that has
a payload. -/
def WireMessage.CutPoint (maxOptions : Nat) (w : WireMessage) (k : Nat) : Prop :=
  w.payload ≠ [] ∧ 4 + w.token.length ≤ k ∧
    OptionStream.CutPoint maxOptions 0 w.options (k - (4 + w.token.length))

namespace Message

/-- The message a datagram really is: its options are as many as it has. -/
def real (data : Bytes) : Option WireMessage := readMessage data.length data

/-- `payload` is a proper prefix of the real payload of `data`. -/
def Truncates (data payload : Bytes) : Prop :=
  ∃ w, real data = some w ∧ payload <+: w.payload ∧ payload ≠ w.payload

/-- The header of a valid message as `decode` reads it. -/
theorem wireHeader {maxOptions : Nat} {w : WireMessage} (hw : w.Valid maxOptions) :
    (UInt8.ofNat (64 + w.type * 16 + w.token.length)) >>> 6 = kVersion ∧
      (UInt8.ofNat (64 + w.type * 16 + w.token.length) &&& 0x0F).toNat = w.token.length := by
  have htype := hw.type
  have htoken := hw.token
  have hnat : (UInt8.ofNat (64 + w.type * 16 + w.token.length)).toNat =
      64 + w.type * 16 + w.token.length := by
    rw [UInt8.toNat_ofNat', Nat.mod_eq_of_lt (by omega)]
  constructor
  · rw [version_eq, hnat]
    omega
  · rw [loNibble_toNat, hnat]
    omega

/-- No length in a message of less than 65536 bytes wraps. -/
theorem wrap16_value {w : WireMessage} (hlen : w.bytes.length < 2 ^ 16) :
    ∀ e ∈ w.options, wrap16 e.2.length = e.2.length := by
  -- a value is part of the entry that holds it, and the entry of the stream
  have hwrite : ∀ (es : List OptionStream.Entry) (last : Nat), ∀ e ∈ es,
      e.2.length ≤ (OptionStream.writeEntries last es).length := by
    intro es
    induction es with
    | nil => exact fun _ _ he => nomatch he
    | cons x es ih =>
      intro last e he
      rw [OptionStream.writeEntries, List.length_append]
      rcases List.mem_cons.1 he with rfl | he
      · have : e.2.length ≤ (OptionStream.writeEntry last e).length := by
          simp only [OptionStream.writeEntry, List.length_cons, List.length_append]
          omega
        omega
      · have := ih x.1 e he
        omega
  intro e he
  have hle := hwrite w.options 0 e he
  -- so it is shorter than the datagram, which a 16-bit length can count
  have htotal : w.bytes.length =
      4 + (w.token.length + (OptionStream.write 0 w.options w.payload).length) := by
    simp only [WireMessage.bytes, List.length_cons, List.length_append]
    omega
  have hstream : (OptionStream.write 0 w.options w.payload).length =
      (OptionStream.writeEntries 0 w.options).length +
        (OptionStream.writePayload w.payload).length := by
    rw [OptionStream.write, List.length_append]
  exact Nat.mod_eq_of_lt (by omega)

/-- The first bytes of a message that reach behind its token. -/
theorem wire_take {w : WireMessage} {k : Nat} (hk : 4 + w.token.length ≤ k) :
    w.bytes.take k = UInt8.ofNat (64 + w.type * 16 + w.token.length) :: UInt8.ofNat w.code ::
      UInt8.ofNat (w.messageId / 256) :: UInt8.ofNat (w.messageId % 256) ::
      (w.token ++ (OptionStream.write 0 w.options w.payload).take
        (k - (4 + w.token.length))) := by
  obtain ⟨n, rfl⟩ : ∃ n, k = w.token.length + n + 4 := ⟨k - (4 + w.token.length), by omega⟩
  have hn : w.token.length + n + 4 - (4 + w.token.length) = n := by omega
  rw [hn, WireMessage.bytes]
  simp only [List.take_succ_cons, List.take_length_add_append]

/-- **Where a cut goes unnoticed.** What is left decodes to a message with less of the payload
exactly at the cut points of its options and payload: between two options, in front of the
marker, or inside the payload. -/
theorem truncates_take_iff {cfg : Config} {data : Bytes} (hdata : data.length < 2 ^ 16)
    {w : WireMessage} (hw : real data = some w) {k : Nat} (hk : k < data.length) :
    (∃ m, decode cfg (data.take k) = (.none, m) ∧ m.payloadBytes <+: w.payload ∧
        m.payloadBytes ≠ w.payload) ↔ w.CutPoint cfg.maxOptions k := by
  obtain ⟨hvalid, rfl⟩ := readMessage_iff.1 hw
  obtain ⟨hversion, htkl⟩ := wireHeader hvalid
  have htoken := hvalid.token
  have hlen : w.bytes.length =
      4 + w.token.length + (OptionStream.write 0 w.options w.payload).length := by
    simp only [WireMessage.bytes, List.length_cons, List.length_append]
    omega
  -- what the stream reader makes of the part of the cut behind the token
  have hread : 4 + w.token.length ≤ k →
      (¬ OptionStream.CutPoint cfg.maxOptions 0 w.options (k - (4 + w.token.length)) →
        OptionStream.readWith wrap16 65535 cfg.maxOptions 0
          ((OptionStream.write 0 w.options w.payload).take (k - (4 + w.token.length))) = none) ∧
      (OptionStream.CutPoint cfg.maxOptions 0 w.options (k - (4 + w.token.length)) → ∃ es,
        OptionStream.readWith wrap16 65535 cfg.maxOptions 0
          ((OptionStream.write 0 w.options w.payload).take (k - (4 + w.token.length))) =
          some (es, w.payload.take (k - (4 + w.token.length) -
            (OptionStream.writeEntries 0 w.options).length - 1))) := fun hin =>
    OptionStream.readWith_take (by decide) (fun n hn => Nat.mod_eq_of_lt (by omega)) w.payload
      w.options hvalid.options (wrap16_value hdata) (by omega)
  constructor
  · rintro ⟨m, hdec, hpre, hne⟩
    have hpay : w.payload ≠ [] := by
      intro hnil
      rw [hnil] at hpre hne
      exact hne (List.prefix_nil.1 hpre)
    obtain ⟨b0, b1, b2, b3, rest, es, p, hbytes, -, -, hrest, hes, -⟩ := decode_inv hdec
    -- the cut leaves the header, and the token with it
    have hfour : 4 ≤ k := by
      have := congrArg List.length hbytes
      rw [List.length_take] at this
      simp only [List.length_cons] at this
      omega
    obtain ⟨n, rfl⟩ : ∃ n, k = n + 4 := ⟨k - 4, by omega⟩
    have hhead : b0 = UInt8.ofNat (64 + w.type * 16 + w.token.length) ∧
        rest = (w.token ++ OptionStream.write 0 w.options w.payload).take n := by
      rw [WireMessage.bytes] at hbytes
      simp only [List.take_succ_cons] at hbytes
      simp only [List.cons.injEq] at hbytes
      exact ⟨hbytes.1.symm, hbytes.2.2.2.2.symm⟩
    obtain ⟨rfl, rfl⟩ := hhead
    rw [htkl, List.length_take] at hrest
    have hin : 4 + w.token.length ≤ n + 4 := by omega
    refine ⟨hpay, hin, ?_⟩
    by_contra hcut
    have hnone := (hread hin).1 hcut
    have hdrop : ((w.token ++ OptionStream.write 0 w.options w.payload).take n).drop
        w.token.length =
          (OptionStream.write 0 w.options w.payload).take (n + 4 - (4 + w.token.length)) := by
      rw [List.drop_take, List.drop_left]
      congr 1
      omega
    rw [htkl, hdrop, hnone] at hes
    cases hes
  · rintro ⟨hpay, hin, hcut⟩
    obtain ⟨es, hes⟩ := (hread hin).2 hcut
    obtain ⟨e, -, hdec⟩ := decode_eq cfg _ (UInt8.ofNat w.code) (UInt8.ofNat (w.messageId / 256))
      (UInt8.ofNat (w.messageId % 256))
      (w.token ++ (OptionStream.write 0 w.options w.payload).take (k - (4 + w.token.length)))
      hversion (by rw [htkl]; exact htoken) (by rw [htkl, List.length_append]; omega)
    rw [htkl, List.drop_left, hes] at hdec
    refine ⟨_, (congrArg (decode cfg) (wire_take hin)).trans hdec, ?_⟩
    generalize hp : w.payload.take _ = p
    have hbytes : (((if p = [] then none else some p : Option Bytes).getD []).take p.length) = p := by
      split
      · simp [*]
      · simp
    show (((if p = [] then none else some p : Option Bytes).getD []).take p.length) <+: _ ∧
      (((if p = [] then none else some p : Option Bytes).getD []).take p.length) ≠ _
    rw [hbytes, ← hp]
    refine ⟨List.take_prefix _ _, fun heq => ?_⟩
    -- a whole payload would need every byte of the datagram
    have hwhole := congrArg List.length heq
    rw [List.length_take] at hwhole
    have hpos := List.length_pos_of_ne_nil hpay
    rw [OptionStream.write, List.length_append, OptionStream.writePayload, if_neg hpay,
      List.length_cons] at hlen
    omega

end Message

end PulseCoap
