import PulseCoap.Exchange.Block
import PulseCoap.Lib.Slices
import PulseCoap.Server.Matching
import PulseCoap.Server.Registration

/-!
# PulseCoAP — which bytes of a payload a reply has

A payload longer than a block, or any payload of which the request names a block, is
sent one block at a time. `handleRequest` computes the offset and the flag that more
follows, `sendBlock2Response` computes the offset again and cuts the bytes. Both are
right for every length and every number and size a client can name. What can be missing
is the option: `addOptionUint` refuses it where the table of options is full, and its
result is not looked at.

`Sliced` states what is due without the code: with the number and the size a
client asks for, or the default size, the reply has that slice and an option
that says which slice it is and whether there are more; past the end it is an
error; and a payload that needs no block is sent whole. The number of a block is
at most 2^28 and the size at most 2048, so the offset does not wrap in 32 bits.

* `Sliced` — the reply that is due.
* `SliceRoom` — the block-wise code is compiled in, and the table has room for the options
  of a block.
* `replyInline_sliced` — the branches of the source, one by one.
* `sliced_iff` — the reply is the one that is due exactly when there is room, and then the
  blocks tile the payload.
* `not_sliced` — a table of one option.
* `tiles` — the slices of a payload make it up.
-/

namespace PulseCoap

open Slices (slice more)

namespace Server

variable {cfg : Config}

-- ===========================================================================
-- The reply that is due
-- ===========================================================================

/-- The block a request asks for: what its Block2 option says, or the first of the size the
server is built with. -/
def numDue (msg : Message) : UInt32 := ((block2Requested msg).map (·.num)).getD 0
def szxDue (cfg : Config) (msg : Message) : UInt8 :=
  ((block2Requested msg).map (·.szx)).getD cfg.blockSzx

/-- The bytes of a whole block. -/
def sizeDue (cfg : Config) (msg : Message) : Nat := 2 ^ ((szxDue cfg msg).toNat + 4)

/-- The payload goes out in blocks. -/
def InBlocks (cfg : Config) (msg : Message) (payload : Bytes) : Prop :=
  (block2Requested msg).isSome = true ∨ sizeDue cfg msg < payload.length

/-- The block begins inside the payload. -/
def Inside (cfg : Config) (msg : Message) (payload : Bytes) : Prop :=
  (numDue msg).toNat * sizeDue cfg msg < payload.length

/-- **The reply that is due** for this result of the handler. -/
structure Sliced (cfg : Config) (msg : Message) (res : Response) (reply : Message) : Prop where
  whole : ¬ InBlocks cfg msg res.payload → reply.code = res.code ∧
    reply.payloadBytes = res.payload ∧ reply.findOption OptionNumber.block2 = none
  block : InBlocks cfg msg res.payload → Inside cfg msg res.payload → reply.code = res.code ∧
    reply.payloadBytes = slice res.payload (sizeDue cfg msg) (numDue msg).toNat ∧
      block2Requested reply = some
        { num := numDue msg, m := more res.payload (sizeDue cfg msg) (numDue msg).toNat
          szx := szxDue cfg msg }
  past  : InBlocks cfg msg res.payload → ¬ Inside cfg msg res.payload →
    reply.code = Code.badRequest ∧ reply.payloadBytes = []

/-- One datagram goes out, to this address, and it says so. -/
def SendsOne (cfg : Config) (dest : Endpoint) (P : Message → Prop)
    (events : List ServerEvent) : Prop :=
  ∃ buf reply, datagrams events = [(dest, buf)] ∧ Message.decode cfg buf = (.none, reply) ∧ P reply

/-- The blocks of a payload make it up, each of them begins inside it, and only the last one has
nothing behind it. -/
def Tiles (payload : Bytes) (size : Nat) : Prop :=
  (List.range (Slices.count payload.length size)).flatMap (slice payload size) = payload ∧
    ∀ k, k < Slices.count payload.length size → k * size < payload.length ∧
      (more payload size k = false ↔ k + 1 = Slices.count payload.length size)

/-- The reply to a registration has the Observe option, unless the sequence number does not fit
the `int32_t`. -/
def ObserveDue (t : Target) (msg : Message) : Prop :=
  Registers t msg ∧ t.resource.observeSequence.toNat < 2 ^ 31

instance (t : Target) (msg : Message) : Decidable (ObserveDue t msg) :=
  inferInstanceAs (Decidable (_ ∧ _))

/-- **There is room for the block**: the build is block-wise, and its option table holds
Content-Format and Block2, behind Observe where that is due. -/
def SliceRoom (cfg : Config) (t : Target) (msg : Message) (payload : Bytes) : Prop :=
  InBlocks cfg msg payload → cfg.enableBlockwise = true ∧
    (Inside cfg msg payload → (if ObserveDue t msg then 1 else 0) + 2 ≤ cfg.maxOptions)

-- ===========================================================================
-- Sizes and options
-- ===========================================================================

/-- The exponent of a block has three bits. -/
theorem szxDue_lt (cfg : Config) (msg : Message) : (szxDue cfg msg).toNat < 8 := by
  have hszx : cfg.blockSzx.toNat ≤ 6 := UInt8.le_iff_toNat_le.1 cfg.szx_le
  unfold szxDue block2Requested
  cases msg.findOption OptionNumber.block2 with
  | none =>
    show cfg.blockSzx.toNat < 8
    omega
  | some opt =>
    cases hb : BlockOption.fromOption opt with
    | none =>
      simp only [hb, Option.map_none, Option.getD_none]
      omega
    | some b =>
      have hread := BlockOption.fromOption_szx hb
      simp only [hb, Option.map_some, Option.getD_some]
      omega

/-- The number of a block has twenty bits. -/
theorem numDue_lt (msg : Message) : (numDue msg).toNat < 2 ^ 20 := by
  unfold numDue block2Requested
  cases msg.findOption OptionNumber.block2 with
  | none => exact Nat.two_pow_pos 20
  | some opt =>
    cases hb : BlockOption.fromOption opt with
    | none =>
      simp only [hb]
      exact Nat.two_pow_pos 20
    | some b =>
      simp only [hb]
      exact BlockOption.fromOption_num hb

/-- The size the source computes. -/
theorem blockSize_due (cfg : Config) (msg : Message) :
    blockSize (szxDue cfg msg) = sizeDue cfg msg := blockSize_eq (szxDue_lt cfg msg)

theorem sizeDue_pos (cfg : Config) (msg : Message) : 0 < sizeDue cfg msg := Nat.two_pow_pos _

/-- The flag of the source, for a block that begins inside. -/
theorem more_eq {payload : Bytes} {size num : Nat} (hin : num * size < payload.length) :
    decide (payload.length - num * size > size) = more payload size num := by
  unfold more
  rw [decide_eq_decide, Nat.succ_mul]
  omega

/-- The options of a block. -/
def blockUints (ov : Option UInt32) (format value : UInt32) : List (UInt16 × UInt32) :=
  observeUint ov ++ [(OptionNumber.contentFormat, format)] ++ [(OptionNumber.block2, value)]

/-- Block2 is the last of them. -/
theorem blockUints_found (ov : Option UInt32) (format value : UInt32) (n : Nat) :
    ((blockUints ov format value).take n).find? (fun u => u.1 == OptionNumber.block2) =
      if (observeUint ov).length + 2 ≤ n then some (OptionNumber.block2, value) else none := by
  have hformat : (OptionNumber.contentFormat == OptionNumber.block2) = false := by decide
  have hobserve : (OptionNumber.observe == OptionNumber.block2) = false := by decide
  cases ov with
  | none =>
    rcases n with _ | _ | n <;> simp [blockUints, observeUint, hformat]
  | some v =>
    rcases n with _ | _ | _ | n <;> simp [blockUints, observeUint, hformat, hobserve]

/-- A response in one piece has none. -/
theorem wholeUints_other (ov : Option UInt32) {payload : Bytes} {contentFormat : ContentFormat} :
    ∀ u ∈ observeUint ov ++ contentUint payload contentFormat, u.1 ≠ OptionNumber.block2 := by
  intro u hu
  rcases List.mem_append.1 hu with hu | hu
  · cases ov with
    | none => cases hu
    | some v =>
      rw [List.mem_singleton.1 hu]
      exact (by decide : OptionNumber.observe ≠ OptionNumber.block2)
  · unfold contentUint at hu
    split at hu
    · rw [List.mem_singleton.1 hu]
      exact (by decide : OptionNumber.contentFormat ≠ OptionNumber.block2)
    · cases hu

/-- What the other end reads as the Block2 option. -/
theorem Carries.block2 {m : Message} {hd : ReplyHeader} {ov : Option UInt32} {format : UInt32}
    {payload : Bytes} {num : UInt32} {flag : Bool} {szx : UInt8}
    (h : Carries cfg m hd (blockUints ov format (BlockOption.toOptionValue num flag szx)) payload)
    (hnum : num.toNat < 2 ^ 20) (hszx : szx.toNat < 8) :
    block2Requested (Message.decode cfg m.wire).2 =
      if (observeUint ov).length + 2 ≤ cfg.maxOptions then some { num, m := flag, szx }
      else none := by
  unfold block2Requested
  rw [h.found, blockUints_found]
  by_cases hroom : (observeUint ov).length + 2 ≤ cfg.maxOptions
  · rw [if_pos hroom, if_pos hroom]
    exact BlockOption.fromOption_uint (Message.uintOption_entry _ _) hnum hszx
  · rw [if_neg hroom, if_neg hroom]
    rfl

/-- A message that fits is the one datagram. -/
theorem Carries.sendsOne {m : Message} {hd : ReplyHeader} {uints : List (UInt16 × UInt32)}
    {payload : Bytes} (h : Carries cfg m hd uints payload) (dest : Endpoint)
    (hfits : replySize cfg hd.token.length uints payload.length ≤ cfg.maxMsgSize)
    (P : Message → Prop) :
    SendsOne cfg dest P (sendIfEncoded cfg m dest) ↔ P (Message.decode cfg m.wire).2 := by
  obtain ⟨reply, hdec, -⟩ := h.decodes
  rw [← h.size] at hfits
  rw [sendIfEncoded_fits h.built dest hfits, hdec]
  constructor
  · rintro ⟨buf, reply', hsent, hdec', hp⟩
    cases hsent
    rw [hdec] at hdec'
    cases hdec'
    exact hp
  · exact fun hp => ⟨_, _, rfl, hdec, hp⟩

-- ===========================================================================
-- The branches
-- ===========================================================================

section

variable (s : Server cfg) (h : Handling cfg) (res : Response)

/-- The offset the source computes. -/
theorem offset_due (cfg : Config) (msg : Message) :
    (((block2Requested msg).map BlockOption.num).getD 0).toNat *
        blockSize (((block2Requested msg).map BlockOption.szx).getD cfg.blockSzx) =
      (numDue msg).toNat * sizeDue cfg msg := by
  rw [← blockSize_due]
  rfl

/-- The question the source asks. -/
theorem inBlocks_iff (cfg : Config) (msg : Message) (payload : Bytes) :
    (payload.length > blockSize (((block2Requested msg).map BlockOption.szx).getD cfg.blockSzx) ∨
      (block2Requested msg).isSome = true) ↔ InBlocks cfg msg payload := by
  unfold InBlocks
  rw [← blockSize_due, or_comm]
  rfl

/-- In one piece. -/
theorem replyInline_whole (hnot : ¬ (cfg.enableBlockwise = true ∧ InBlocks cfg h.msg res.payload)) :
    s.replyInline h res = s.sendPiggybackedResponse h.msg h.sender res.code res.payload
        res.contentFormat h.observeValue ∧
      inlineSize cfg h.msg h.observeValue res = contentSize cfg h.msg h.observeValue res := by
  have hiff := inBlocks_iff cfg h.msg res.payload
  unfold replyInline inlineSize
  dsimp only
  by_cases hblock : cfg.enableBlockwise = true ∧ res.payload.length > 0
  · have hone := fun hin => hnot ⟨hblock.1, hiff.1 hin⟩
    rw [if_pos hblock, if_neg hone, if_neg fun hboth => hone hboth.2]
    exact ⟨rfl, rfl⟩
  · rw [if_neg hblock, if_neg fun hboth => hblock hboth.1]
    exact ⟨rfl, rfl⟩

section

variable (hen : cfg.enableBlockwise = true) (hpay : 0 < res.payload.length)
  (hin : InBlocks cfg h.msg res.payload)

include hen hpay hin

/-- Behind the end. -/
theorem replyInline_past (hpast : ¬ Inside cfg h.msg res.payload) :
    s.replyInline h res = s.sendError h.msg h.sender Code.badRequest ∧
      inlineSize cfg h.msg h.observeValue res = codeSize cfg h.msg := by
  have hfrag := (inBlocks_iff cfg h.msg res.payload).2 hin
  have hoff := Nat.le_of_not_lt hpast
  rw [← offset_due] at hoff
  unfold replyInline inlineSize
  dsimp only
  rw [if_pos ⟨hen, hpay⟩, if_pos hfrag, if_pos hoff, if_pos ⟨⟨hen, hpay⟩, hfrag⟩, if_pos hoff]
  exact ⟨rfl, rfl⟩

/-- A block. -/
theorem replyInline_block (hinside : Inside cfg h.msg res.payload) :
    (s.replyInline h res = s.sendBlock2Response h.msg h.sender res.code res.payload
        res.contentFormat h.observeValue (numDue h.msg)
        (more res.payload (sizeDue cfg h.msg) (numDue h.msg).toNat) (szxDue cfg h.msg)) ∧
      inlineSize cfg h.msg h.observeValue res = replySize cfg h.msg.token.length
        (blockUints h.observeValue res.contentFormat.raw.toUInt32
          (BlockOption.toOptionValue (numDue h.msg)
            (more res.payload (sizeDue cfg h.msg) (numDue h.msg).toNat) (szxDue cfg h.msg)))
        (slice res.payload (sizeDue cfg h.msg) (numDue h.msg).toNat).length := by
  have hfrag := (inBlocks_iff cfg h.msg res.payload).2 hin
  have hoff := Nat.not_le_of_lt hinside
  have hcut : (slice res.payload (sizeDue cfg h.msg) (numDue h.msg).toNat).length =
      min (res.payload.length - (numDue h.msg).toNat * sizeDue cfg h.msg) (sizeDue cfg h.msg) := by
    rw [Slices.slice_eq, List.length_take, List.length_drop, Nat.min_comm]
  rw [hcut, ← more_eq hinside, ← blockSize_due]
  rw [← offset_due] at hoff
  unfold replyInline inlineSize
  dsimp only
  rw [if_pos ⟨hen, hpay⟩, if_pos hfrag, if_neg hoff, if_pos ⟨⟨hen, hpay⟩, hfrag⟩, if_neg hoff]
  exact ⟨rfl, rfl⟩

end

/-- What `sendBlock2Response` puts into the message. -/
theorem sendBlock2_carries (ht : h.msg.token.length ≤ kMaxTokenLen)
    (hinside : Inside cfg h.msg res.payload) (flag : Bool) :
    ∃ m, Carries cfg m (s.replyHeader h.msg res.code)
        (blockUints h.observeValue res.contentFormat.raw.toUInt32
          (BlockOption.toOptionValue (numDue h.msg) flag (szxDue cfg h.msg)))
        (slice res.payload (sizeDue cfg h.msg) (numDue h.msg).toNat) ∧
      (s.sendBlock2Response h.msg h.sender res.code res.payload res.contentFormat h.observeValue
        (numDue h.msg) flag (szxDue cfg h.msg)).2 = sendIfEncoded cfg m h.sender := by
  have hoff : ¬ (numDue h.msg).toNat * sizeDue cfg h.msg ≥ res.payload.length :=
    Nat.not_le_of_lt hinside
  have hrest : (res.payload.drop ((numDue h.msg).toNat * sizeDue cfg h.msg)).length =
      res.payload.length - (numDue h.msg).toNat * sizeDue cfg h.msg := List.length_drop
  unfold sendBlock2Response
  simp only [blockSize_due, hoff, if_false]
  generalize hn : (if res.payload.length - (numDue h.msg).toNat * sizeDue cfg h.msg >
      sizeDue cfg h.msg then sizeDue cfg h.msg
      else res.payload.length - (numDue h.msg).toNat * sizeDue cfg h.msg) = n
  have hle : n ≤ (res.payload.drop ((numDue h.msg).toNat * sizeDue cfg h.msg)).length := by
    rw [hrest, ← hn]
    split <;> omega
  -- the bytes the source cuts out
  have hcut : (res.payload.drop ((numDue h.msg).toNat * sizeDue cfg h.msg)).take n =
      slice res.payload (sizeDue cfg h.msg) (numDue h.msg).toNat := by
    rw [Slices.slice_eq, ← hn]
    split
    · rfl
    · rw [List.take_of_length_le (by omega), List.take_of_length_le (by omega)]
  have hcarries := s.carries_block2 res.code res.contentFormat h.observeValue
    (BlockOption.toOptionValue (numDue h.msg) flag (szxDue cfg h.msg)) hle ht
  rw [hcut] at hcarries
  exact ⟨_, hcarries, rfl⟩

/-- **The reply to a result that is not deferred** is the one that is due exactly when there is
room for its options. Which reply that is depends on the Block2 option and on the length. -/
theorem replyInline_sliced (ht : h.msg.token.length ≤ kMaxTokenLen)
    (hpay : 0 < res.payload.length)
    (hfits : inlineSize cfg h.msg h.observeValue res ≤ cfg.maxMsgSize) :
    SendsOne cfg h.sender (Sliced cfg h.msg res) (s.replyInline h res).2 ↔
      (InBlocks cfg h.msg res.payload → cfg.enableBlockwise = true ∧
        (Inside cfg h.msg res.payload →
          (observeUint h.observeValue).length + 2 ≤ cfg.maxOptions)) := by
  have hhd := s.replyHeader_names h.msg
  -- block-wise transfer applies, and then the offset is inside the payload or past it
  by_cases hblock : cfg.enableBlockwise = true ∧ InBlocks cfg h.msg res.payload
  · obtain ⟨hen, hin⟩ := hblock
    by_cases hinside : Inside cfg h.msg res.payload
    · -- a block, with its option if there is room
      obtain ⟨heq, hsize⟩ := s.replyInline_block h res hen hpay hin hinside
      obtain ⟨m, hm, hsent⟩ := s.sendBlock2_carries h res ht hinside
        (more res.payload (sizeDue cfg h.msg) (numDue h.msg).toNat)
      rw [hsize, ← (hhd res.code).1] at hfits
      rw [heq, hsent, hm.sendsOne h.sender hfits]
      obtain ⟨reply, hdec, -, -, -, hcode, -, hbytes⟩ := hm.decodes
      have hopt := hm.block2 (numDue_lt h.msg) (szxDue_lt cfg h.msg)
      rw [hdec] at hopt ⊢
      constructor
      · intro hsliced _
        obtain ⟨-, -, hasked⟩ := hsliced.block hin hinside
        refine ⟨hen, fun _ => ?_⟩
        by_contra hroom
        rw [hopt, if_neg hroom] at hasked
        cases hasked
      · intro hroom
        rw [if_pos ((hroom hin).2 hinside)] at hopt
        exact ⟨fun hnot => absurd hin hnot,
          fun _ _ => ⟨hcode.trans (hhd res.code).2, hbytes, hopt⟩,
          fun _ hpast => absurd hinside hpast⟩
    · -- 4.00
      obtain ⟨heq, hsize⟩ := s.replyInline_past h res hen hpay hin hinside
      have hm := s.carries_content Code.badRequest [] .textPlain none ht
      rw [hsize] at hfits
      have hfits' : replySize cfg (s.replyHeader h.msg Code.badRequest).token.length [] 0 ≤
          cfg.maxMsgSize := by rwa [(hhd Code.badRequest).1]
      have hone := hm.sendsOne h.sender hfits' (Sliced cfg h.msg res)
      obtain ⟨reply, hdec, -, -, -, hcode, -, hbytes⟩ := hm.decodes
      rw [hdec] at hone
      rw [heq]
      refine iff_of_true (hone.2 ?_) fun _ => ⟨hen, fun hin' => absurd hin' hinside⟩
      exact ⟨fun hnot => absurd hin hnot, fun _ hin' => absurd hin' hinside,
        fun _ _ => ⟨hcode.trans (hhd Code.badRequest).2, hbytes⟩⟩
  · -- the whole payload, due or not
    obtain ⟨heq, hsize⟩ := s.replyInline_whole h res hblock
    have hm := s.carries_content res.code res.payload res.contentFormat h.observeValue ht
    rw [hsize] at hfits
    have hfits' : replySize cfg (s.replyHeader h.msg res.code).token.length
        (observeUint h.observeValue ++ contentUint res.payload res.contentFormat)
          res.payload.length ≤ cfg.maxMsgSize := by rwa [(hhd res.code).1]
    have hone := hm.sendsOne h.sender hfits' (Sliced cfg h.msg res)
    have hother : ∀ u ∈ observeUint h.observeValue ++ contentUint res.payload res.contentFormat,
        u.1 ≠ OptionNumber.block2 := wholeUints_other h.observeValue
    have hlacks := hm.lacks hother
    obtain ⟨reply, hdec, -, -, -, hcode, -, hbytes⟩ := hm.decodes
    rw [hdec] at hone hlacks
    rw [heq]
    -- one piece is right only when no block is due
    refine Iff.trans hone ⟨fun hsliced hin => ?_, fun hroom => ?_⟩
    · exfalso
      by_cases hinside : Inside cfg h.msg res.payload
      · obtain ⟨-, -, hasked⟩ := hsliced.block hin hinside
        unfold block2Requested at hasked
        rw [hlacks] at hasked
        cases hasked
      · obtain ⟨-, hempty⟩ := hsliced.past hin hinside
        rw [hbytes] at hempty
        rw [hempty] at hpay
        cases hpay
    · have hnot : ¬ InBlocks cfg h.msg res.payload := fun hin => hblock ⟨(hroom hin).1, hin⟩
      exact ⟨fun _ => ⟨hcode.trans (hhd res.code).2, hbytes, hlacks⟩,
        fun hin => absurd hin hnot, fun hin => absurd hin hnot⟩

end

-- ===========================================================================
-- The request
-- ===========================================================================

/-- The Observe option takes an entry of the table when it is due. -/
theorem observeUint_length (s : Server cfg) (t : Target) (msg : Message) (sender : Endpoint) :
    (observeUint (s.handleObserve t msg sender).2).length = if ObserveDue t msg then 1 else 0 := by
  rcases s.handleObserve_cases t msg sender with ⟨hreg, heq⟩ | ⟨hdereg, heq⟩ | ⟨hnot, -, heq⟩
  · -- registers
    rw [heq]
    dsimp only
    unfold observeValueOf
    by_cases hseq : t.resource.observeSequence.toNat < 2 ^ 31
    · rw [if_pos hseq, if_pos ⟨hreg, hseq⟩]
      rfl
    · rw [if_neg hseq, if_neg fun hdue => hseq hdue.2]
      rfl
  · -- deregisters
    rw [heq, if_neg fun hdue => hdereg.not_registers hdue.1]
    rfl
  · rw [heq, if_neg fun hdue => hnot hdue.1]
    rfl

/-- The scan of the poll does not change what the handler returns. -/
theorem resultOf_scanned (s : Server cfg) (nowMs : UInt32) (t : Target) (res : Response) :
    (s.scanned nowMs).resultOf t res = s.resultOf t res := by
  obtain ⟨pool, obs, hs⟩ := s.scanned_spec nowMs
  unfold resultOf
  rw [hs]
  rfl

/-- **The blocks tile the payload**, whatever the size. -/
theorem tiles (payload : Bytes) {size : Nat} (hsize : 0 < size) : Tiles payload size :=
  ⟨Slices.slices_tile hsize,
    fun _ hk => ⟨(Slices.slice_inside hsize).2 hk, Slices.slice_more hsize hk⟩⟩

/-- **The reply has the right slice**, and the slices tile the payload, exactly when the reply
has room for its options. The state, the payload and the option are arbitrary. -/
theorem sliced_iff (s : Server cfg) (nowMs : UInt32) (sender : Endpoint) {data : Bytes}
    {msg : Message} {t : Target} (res : Response) (ans : Answer) (hidle : s.control = .idle)
    (hdec : Message.decode cfg data = (.none, msg)) (hreq : IsRequest msg)
    (had : (s.scanned nowMs).admitted msg = some t) (hplain : block1Option cfg msg = none)
    (hinline : (s.resultOf t res).deferred = false) (hpay : 0 < (s.resultOf t res).payload.length)
    (hfits : s.answerSize msg sender res ≤ cfg.maxMsgSize) :
    (SendsOne cfg sender (Sliced cfg msg (s.resultOf t res)) (s.turn nowMs sender data res ans).2 ∧
        Tiles (s.resultOf t res).payload (sizeDue cfg msg)) ↔
      SliceRoom cfg t msg (s.resultOf t res).payload := by
  rw [and_iff_left (tiles _ (sizeDue_pos cfg msg))]
  obtain ⟨s', h, call, rfl, rfl, hov, hsession, -, -, hcall, hturn⟩ :=
    s.turn_admitted nowMs sender hidle hdec hreq had hplain res ans
  have hsize : inlineSize cfg h.msg h.observeValue (s.resultOf t res) ≤ cfg.maxMsgSize := by
    rw [← answerSize_scanned s nowMs] at hfits
    unfold answerSize handlerSize resultSize at hfits
    simp only [had, hplain, resultOf_scanned, hinline] at hfits
    rw [hov]
    simpa using hfits
  -- the handler call is no datagram
  have hevents : datagrams (s.turn nowMs h.sender data res ans).2 =
      datagrams (s'.turnFrom h (s.resultOf t res) ans).2 := by
    rw [hturn]
    cases call with
    | sent dest data => exact absurd rfl (hcall dest data)
    | _ => rfl
  have hreply : s'.turnFrom h (s.resultOf t res) ans =
      (s'.freeDeferred? h.deferIdx).replyInline h (s.resultOf t res) := by
    rw [turnFrom_inline _ _ ans hinline]
    unfold finish
    rw [hsession, if_neg (by rw [hinline]; simp)]
    rfl
  have hiff := (s'.freeDeferred? h.deferIdx).replyInline_sliced h (s.resultOf t res)
    (Message.decode_token hdec) hpay hsize
  rw [← hreply, hov, observeUint_length] at hiff
  unfold SendsOne at hiff ⊢
  rw [hevents]
  exact hiff

-- ===========================================================================
-- A table of one option
-- ===========================================================================

/-- A Confirmable GET for the root with this Block2 value. -/
def getBlock (value : UInt8) : Bytes := [0x40, 0x01, 0x00, 0x01, 0xD1, 0x0A, value]

/-- The message in it. -/
def getBlockMessage (cfg : Config) (value : UInt8) : Message :=
  (Message.decode cfg (getBlock value)).2

/-- A server with a resource at the root. -/
def rootOf (cfg : Config) : Server cfg :=
  (step {} (.call (.addResource (some [Uri.slash]) methodGet (some 0) none false))).1

/-- The resource. -/
def sliceTarget : Target where
  index := 0
  resource :=
    { path := [Uri.slash], methods := methodGet, handler := .app 0, userContext := none
      observable := false, isTemplate := false }
  params := []
  paramCount := 0

/-- Twenty bytes: a block of sixteen and one of four. -/
def twentyBytes : Response := { payload := List.replicate 20 0x78 }

/-- The second block of sixteen bytes. -/
theorem sliced_iff_second :
    (SendsOne Config.blockwise default
        (Sliced Config.blockwise (getBlockMessage Config.blockwise 0x10)
          ((rootOf Config.blockwise).resultOf sliceTarget twentyBytes))
        ((rootOf Config.blockwise).turn 0 default (getBlock 0x10) twentyBytes noAnswer).2 ∧
      Tiles ((rootOf Config.blockwise).resultOf sliceTarget twentyBytes).payload
        (sizeDue Config.blockwise (getBlockMessage Config.blockwise 0x10))) ↔
      SliceRoom Config.blockwise sliceTarget (getBlockMessage Config.blockwise 0x10)
        ((rootOf Config.blockwise).resultOf sliceTarget twentyBytes).payload :=
  (rootOf Config.blockwise).sliced_iff 0 default twentyBytes noAnswer rfl
    (Prod.ext (by decide +kernel) rfl) (by decide +kernel)
    (show _ = some sliceTarget by decide +kernel) (by decide +kernel) rfl (by decide)
    (by decide +kernel)

/-- A block-wise build whose messages have one option. -/
def narrowBuild : Config :=
  { Config.default with enableBlockwise := true, maxOptions := 1, options_lt := by decide }

/-- **The option is lost**: the reply to a GET for the first sixteen bytes has them, and nothing
says that they are a block. The table of the build has one entry. -/
theorem not_sliced :
    ((rootOf narrowBuild).turn 0 default (getBlock 0x00) twentyBytes noAnswer).2.getLast? =
        some (.sent default ([0x60, 0x45, 0x00, 0x01, 0xC0, 0xFF] ++ List.replicate 16 0x78)) ∧
      ¬ SendsOne narrowBuild default
        (Sliced narrowBuild (getBlockMessage narrowBuild 0x00)
          ((rootOf narrowBuild).resultOf sliceTarget twentyBytes))
        ((rootOf narrowBuild).turn 0 default (getBlock 0x00) twentyBytes noAnswer).2 := by
  have hsent : datagrams
      ((rootOf narrowBuild).turn 0 default (getBlock 0x00) twentyBytes noAnswer).2 =
        [(default, [0x60, 0x45, 0x00, 0x01, 0xC0, 0xFF] ++ List.replicate 16 0x78)] := by
    decide +kernel
  refine ⟨by decide +kernel, ?_⟩
  rintro ⟨buf, reply, hone, hdec, hsliced⟩
  rw [hsent] at hone
  cases hone
  obtain ⟨-, -, hopt⟩ := hsliced.block (.inl (by decide +kernel))
    (show _ < _ by decide +kernel)
  have hnone : block2Requested (Message.decode narrowBuild
      ([0x60, 0x45, 0x00, 0x01, 0xC0, 0xFF] ++ List.replicate 16 0x78)).2 = none := by
    decide +kernel
  rw [hdec, hopt] at hnone
  cases hnone

end Server

end PulseCoap
