import PulseCoap.Exchange.Room
import PulseCoap.Exchange.Turn
import PulseCoap.Lib.Slices
import PulseCoap.Server.Matching

/-!
# PulseCoAP — a block of an upload

One round of a Block1 upload when nothing is late. The client sends the block that
is due and its options have their place in the message; the server appends it to the
session and answers 2.31, or has the body and calls the handler; the client takes
the 2.31 and sends the block behind.

`Collecting` is a condition on the whole table of sessions, relative to a table `t`
that has no session for this upload: before the first block the sessions are `t`,
and later they are `t` with one slot written. So the sessions of other uploads stay
in sight, and when the upload is over its slot can be compared with what it was.

* `Brings`, `block1_brings` — the datagram of a block.
* `turn_continue` — a poll of the client that reads a 2.31.
* `Collecting` — the sessions of the server, with this upload among them.
* `Collecting.handleBlock1` — what the server makes of a block.
-/

namespace PulseCoap

variable {cfg : Config}

/-- The bytes of the block an upload is at. -/
def Block1UploadState.piece (up : Block1UploadState) : Bytes :=
  Slices.slice up.fullPayload (blockSize up.szx) up.nextNum.toNat

/-- The upload at another block. -/
def Block1UploadState.at' (up : Block1UploadState) (num : UInt32) : Block1UploadState :=
  { up with nextNum := num }

namespace Client

open Pool (TimersFit)

-- ===========================================================================
-- The datagram
-- ===========================================================================

/-- A block has room for its options, and for their bytes and its own. -/
def BlockFits (cfg : Config) (segs : List Bytes) (szx : UInt8) : Prop :=
  segs.length + 2 ≤ cfg.maxOptions ∧
    18 + Message.optionsSize 0 (segs.map Uri.segmentOption) + blockSize szx ≤ cfg.maxMsgSize

instance (cfg : Config) (segs : List Bytes) (szx : UInt8) : Decidable (BlockFits cfg segs szx) :=
  inferInstanceAs (Decidable (_ ∧ _))

/-- The message is the block this upload is at. -/
structure Brings (cfg : Config) (up : Block1UploadState) (msg : Message) : Prop where
  type    : msg.type = .confirmable
  code    : msg.code = up.method
  token   : msg.token = [up.token]
  path    : Uri.joinUriPath msg cfg.maxUriPathLen = some up.path
  option  : ∃ opt, msg.findOption OptionNumber.block1 = some opt ∧
    BlockOption.fromOption opt = some { num := up.nextNum, m := moreAfter up, szx := up.szx }
  payload : msg.payloadBytes = up.piece

/-- **The datagram of a block** goes out, and brings the block. The conditions are the room for
its options, its size and its number; with them `sendBlock1` loses nothing. -/
theorem block1_brings {up : Block1UploadState} {segs : List Bytes}
    (hpath : Uri.NormalForm up.path segs) (hshort : up.path.length < cfg.maxUriPathLen)
    (hfits : BlockFits cfg segs up.szx) (hnum : up.nextNum.toNat < 2 ^ 20)
    (hszx : up.szx.toNat < 8) (messageId : UInt16) :
    ∃ buf msg, transmit cfg (buildBlock1 cfg up messageId) true = some buf ∧
      Message.decode cfg buf = (.none, msg) ∧ Brings cfg up msg := by
  obtain ⟨hroom, hsize⟩ := hfits
  have hsegs : segs.length ≤ cfg.maxOptions := by omega
  obtain ⟨hok, hp⟩ := Uri.addressed hpath hsegs .confirmable messageId up.token up.method
  generalize hv : BlockOption.toOptionValue up.nextNum (moreAfter up) up.szx = v
  generalize hreq : (Uri.addUriPathOptions cfg (opened .confirmable messageId [up.token] up.method)
    up.path).1 = p at hp
  have hplen : p.options.length = segs.length := by
    rw [hp.options, List.length_map]
  -- Content-Format, and the block option behind it
  have hformat := Message.adds_room hp.built OptionNumber.contentFormat
    (fun o ho => by
      rw [hp.number o ho]
      exact (by decide : OptionNumber.uriPath ≤ OptionNumber.contentFormat))
    (by omega) up.contentFormat.raw.toUInt32
  generalize hq : (p.addOptionUint cfg OptionNumber.contentFormat
    up.contentFormat.raw.toUInt32).1 = q at hformat
  obtain ⟨o₁, hqopts, hentry₁⟩ := hformat.option
  have hnum₁ : o₁.number = OptionNumber.contentFormat :=
    UInt16.toNat_inj.1 (congrArg Prod.fst hentry₁)
  have hqnumber : ∀ o ∈ q.options, o.number = OptionNumber.uriPath ∨
      o.number = OptionNumber.contentFormat := by
    intro o ho
    rw [hqopts] at ho
    rcases List.mem_append.1 ho with ho | ho
    · exact .inl (hp.number o ho)
    · rw [List.mem_singleton.1 ho]
      exact .inr hnum₁
  have hblock := Message.adds_room hformat.built OptionNumber.block1
    (fun o ho => by
      rcases hqnumber o ho with h | h <;> rw [h]
      · exact (by decide : OptionNumber.uriPath ≤ OptionNumber.block1)
      · exact (by decide : OptionNumber.contentFormat ≤ OptionNumber.block1))
    (by rw [hqopts, List.length_append, hplen, List.length_singleton]; omega) v
  generalize hr : (q.addOptionUint cfg OptionNumber.block1 v).1 = r at hblock
  obtain ⟨o₂, hfound, hentry₂⟩ := hblock.found fun o ho => by
    rcases hqnumber o ho with h | h <;> rw [h] <;> decide
  -- the payload
  let offset := up.nextNum.toNat * blockSize up.szx
  let remaining := up.fullPayload.length - offset
  let n := if remaining > blockSize up.szx then blockSize up.szx else remaining
  have hn : n ≤ (up.fullPayload.drop offset).length := by
    rw [List.length_drop]
    show (if remaining > blockSize up.szx then blockSize up.szx else remaining) ≤ remaining
    split <;> omega
  have hbuild : buildBlock1 cfg up messageId =
      some (r.setPayload (some (up.fullPayload.drop offset)) n) := by
    have hunfold : buildBlock1 cfg up messageId =
        let path := Uri.addUriPathOptions cfg (opened .confirmable messageId [up.token] up.method)
          up.path
        if !path.2 then none
        else some (((path.1.addOptionUint cfg OptionNumber.contentFormat
          up.contentFormat.raw.toUInt32).1.addOptionUint cfg OptionNumber.block1
            (BlockOption.toOptionValue up.nextNum (moreAfter up) up.szx)).1.setPayload
              (some (up.fullPayload.drop offset)) n) := rfl
    rw [hunfold]
    dsimp only
    rw [hok, hreq, hq, hv, hr]
    rfl
  have hm : Message.Built cfg (r.setPayload (some (up.fullPayload.drop offset)) n) :=
    hblock.built.run (.setPayload (some (up.fullPayload.drop offset)) n fun b hb => by
      rw [← Option.some.inj hb]
      exact hn)
  have hbytes : (r.setPayload (some (up.fullPayload.drop offset)) n).payloadBytes = up.piece := by
    show (up.fullPayload.drop offset).take n = _
    rw [Block1UploadState.piece, Slices.slice_eq]
    show (up.fullPayload.drop offset).take (if remaining > blockSize up.szx then blockSize up.szx
      else remaining) = (up.fullPayload.drop offset).take (blockSize up.szx)
    split
    · rfl
    · next hle =>
      rw [List.take_of_length_le (by rw [List.length_drop]), List.take_of_length_le]
      rw [List.length_drop]
      exact Nat.le_of_not_lt hle
  have hheader := hformat.header.trans hblock.header
  have hwire : (r.setPayload (some (up.fullPayload.drop offset)) n).wire.length ≤
      cfg.maxMsgSize := by
    have hrsize := hblock.size (by decide)
    have hqsize := hformat.size (by decide)
    have hpiece : up.piece.length ≤ blockSize up.szx := by
      rw [Block1UploadState.piece, Slices.slice_eq, List.length_take]
      exact Nat.min_le_left _ _
    have hempty : r.wireSize = 4 + r.token.length + Message.optionsSize 0 r.options := by
      rw [Message.wireSize, hblock.payload, hformat.payload, hp.payload, if_pos rfl, Nat.add_zero]
    rw [hp.size] at hqsize
    rw [Message.wire_length hm.toWellFormed, Message.wireSize, hbytes]
    show 4 + r.token.length + Message.optionsSize 0 r.options + _ ≤ _
    rw [← hempty]
    split <;> omega
  have hsame := Message.sameContent_decode hm.toWellFormed
  have hopts := Message.sameOptions_decode hm.toWellFormed
  refine ⟨_, _, ?_, Message.decodes_wire hm.toWellFormed, ?_, ?_, ?_, ?_, ?_, ?_⟩
  · rw [hbuild, transmit, (Message.encode_spec hm.toWellFormed cfg.maxMsgSize).1 hwire]
    rfl
  · rw [hsame.type]
    exact hheader.type.trans hp.type
  · rw [hsame.code]
    exact hheader.code.trans hp.code
  · rw [hsame.token]
    exact hheader.token.trans hp.token
  · -- the path is that of the first options
    rw [hopts.joinUriPath]
    obtain ⟨o₃, hropts, hentry₃⟩ := hblock.option
    have hnum₃ : o₃.number = OptionNumber.block1 :=
      UInt16.toNat_inj.1 (congrArg Prod.fst hentry₃)
    rw [hqopts, hp.options, List.append_assoc] at hropts
    refine Uri.joinUriPath_segments hpath hshort
      (fun o ho => Message.bytes_length (hm.readable o ho)) hropts fun o ho => ?_
    rcases List.mem_pair.1 ho with rfl | rfl
    · rw [hnum₁]
      decide
    · rw [hnum₃]
      decide
  · refine ⟨Message.ofEntry (Message.entry o₂), ?_, ?_⟩
    · rw [Message.findOption_decode hm.toWellFormed]
      show (r.findOption OptionNumber.block1).map _ = _
      rw [hfound]
      rfl
    · rw [hentry₂, ← hv]
      exact BlockOption.fromOption_uint (Message.uintOption_entry _ _) hnum hszx
  · rw [hsame.payload]
    exact hbytes

-- ===========================================================================
-- The client
-- ===========================================================================

/-- **A 2.31 Continue** is followed by the next block. The client goes on by its own count and
not by the number in the Continue. -/
theorem turn_continue {c : Client cfg} {nowMs : UInt32} {sender : Endpoint} {data : Bytes}
    {msg : Message} {i : Fin cfg.maxTransactions} (fit : TimersFit cfg) (hidle : c.control = .idle)
    (hdec : Message.decode cfg data = (.none, msg)) (hresp : IsResponse msg)
    (hdisc : c.findDiscover msg.token = none) (hfind : c.findPendingByToken msg.token = some i)
    (hb : cfg.enableBlockwise = true) (hcode : msg.code = Code.«continue»)
    (hup : (c.slots i).upload.active = true) {buf : Bytes}
    (hbuf : c.block1Datagram ((c.slots i).upload.at' ((c.slots i).upload.nextNum + 1)) true =
      some buf) (hdue : c.NoneDue nowMs) :
    (machine cfg).exec [] c (wholePoll cfg nowMs (sender, data)) =
      (ackEvents cfg sender msg true ++ [.sent (c.slots i).upload.server buf],
        (((c.heard nowMs sender msg).handleContinue i).block1Sent i buf).settled) := by
  have hslot : ((c.heard nowMs sender msg).handleContinue i).slots i = { c.slots i with
      upload := { (c.slots i).upload with
        nextNum := (c.slots i).upload.nextNum + 1, waitingForContinue := false } } :=
    Table.set_self _ _ _
  generalize hc' : (c.heard nowMs sender msg).handleContinue i = c' at hslot
  have hpending : (c.heard nowMs sender msg).dispatchPending i sender msg =
      (c'.goto (.block1 i), []) := by
    rw [dispatchPending, if_pos hb, if_pos ⟨hcode, hup⟩, hc']
  have hid : c'.nextMessageId = c.nextMessageId := by rw [← hc']; rfl
  have hdatagram : (c'.goto (.block1 i)).block1Datagram
      ((c'.goto (.block1 i)).slots i).upload true = some buf := by
    rw [← hbuf]
    show (c'.goto (.block1 i)).block1Datagram (c'.slots i).upload true = _
    rw [hslot]
    unfold block1Datagram
    rw [show (c'.goto (.block1 i)).nextMessageId = c.nextMessageId from hid]
    rfl
  have hstep : (c'.goto (.block1 i)).step (.resume true) =
      (((c'.goto (.block1 i)).block1Sent i buf).at' .expire false,
        [.sent (c.slots i).upload.server buf]) := by
    rw [step_resume (c := c'.goto (.block1 i)) rfl]
    rcases (c'.goto (.block1 i)).continueUpload_cases i true with ⟨hnone, -⟩ | ⟨buf', hbuf', heq⟩
    · rw [hdatagram] at hnone
      cases hnone
    · rw [hdatagram] at hbuf'
      cases hbuf'
      show (c'.goto (.block1 i)).continueUpload i true = _
      rw [heq]
      show (_, [ClientEvent.sent (c'.slots i).upload.server buf]) = _
      rw [hslot]
  have hquiet : (((c'.goto (.block1 i)).block1Sent i buf).at' .expire false).NoneDue
      (((c'.goto (.block1 i)).block1Sent i buf).at' .expire false).lastNowMs := by
    refine TransactionPool.noneDue_start fit ?_ _ _ _ _ _
    rw [← hc']
    exact noneDue_heard hdue sender msg
  rw [exec_pending hidle hdec hresp hdisc hfind, hpending,
    exec_last _ hstep rfl hquiet (Nat.le_refl _), List.append_nil]
  rfl

end Client

namespace Server

open Client (Brings moreAfter)

-- ===========================================================================
-- The sessions
-- ===========================================================================

/-- The server with these sessions. -/
def withSessions (s : Server cfg) (block1sessions : Table cfg.maxBlock1Sessions Block1Session) :
    Server cfg :=
  { s with block1sessions }

/-- The session that has collected this body and expects block `num`. -/
def collected (remote : Endpoint) (token : Bytes) (num : UInt32) (body : Bytes) :
    Block1Session where
  active := true
  remote := remote
  token := token
  nextExpectedNum := num
  buffer := body

/-- The sessions `t`, among which none is for this token, and the one that has collected the body
so far: there is a free one for it before the first block. -/
structure Collecting (t : Table cfg.maxBlock1Sessions Block1Session) (remote : Endpoint)
    (token : Bytes) (num : UInt32) (body : Bytes) (s : Server cfg) : Prop where
  fresh    : t.find? (fun b => b.active && b.remote == remote && b.token == token) = none
  sessions : (num = 0 ∧ body = [] ∧ s.block1sessions = t ∧ ∃ i, (t i).active = false) ∨
    ∃ i, (t i).active = false ∧ s.block1sessions = t.set i (collected remote token num body)

variable {t : Table cfg.maxBlock1Sessions Block1Session} {remote : Endpoint} {token : Bytes}
  {num : UInt32} {body : Bytes} {s : Server cfg}

/-- **The session of the block** that is due is the one that collects for this remote and token,
or a free one if the block is the first. -/
theorem Collecting.sessionFor (h : Collecting t remote token num body s) {b1 : BlockOption}
    (hnum : b1.num = num) :
    ∃ i, (t i).active = false ∧ s.sessionFor b1 remote token = .ok
      (s.withSessions (t.set i (collected remote token num body)), i) := by
  have htest : ∀ i, (t.set i (collected remote token num body)).find?
      (fun b => b.active && b.remote == remote && b.token == token) = some i := by
    intro i
    refine Table.find?_set_new h.fresh ?_
    simp [collected]
  rcases h.sessions with ⟨rfl, rfl, hsess, i, hfree⟩ | ⟨i, hfree, hsess⟩
  · have hfind : s.findBlock1Session remote token = none := by
      unfold findBlock1Session
      rw [hsess]
      exact h.fresh
    obtain ⟨j, hj⟩ := Table.find?_isSome (p := fun b : Block1Session => !b.active) (t := t) (i := i)
      (by rw [hfree]; rfl)
    refine ⟨j, by simpa using Table.find?_spec hj, ?_⟩
    unfold Server.sessionFor allocateBlock1Session
    rw [hfind, hsess]
    dsimp only
    rw [if_neg (by rw [hnum]; exact fun hne => hne rfl), hj]
    rfl
  · have hfind : s.findBlock1Session remote token = some i := by
      unfold findBlock1Session
      rw [hsess]
      exact htest i
    refine ⟨i, hfree, ?_⟩
    unfold Server.sessionFor
    rw [hfind, ← hsess]
    rfl

/-- **A block that is due** is appended; the last one is followed by the handler. The session
waits for the next number after that, or is held by the handler until it returns. -/
theorem Collecting.handleBlock1 {sender : Endpoint} {msg : Message}
    (h : Collecting t sender msg.token num body s) {opt : CoapOption} {b1 : BlockOption}
    (hopt : BlockOption.fromOption opt = some b1) (hnum : b1.num = num)
    (hroom : body.length + msg.payloadBytes.length ≤ cfg.block1MaxBody) (tg : Target) :
    ∃ i, (t i).active = false ∧ s.handleBlock1 opt tg msg sender none =
      let s' := s.withSessions
        (t.set i (collected sender msg.token (num + 1) (body ++ msg.payloadBytes)))
      if b1.m then s'.sendContinue msg sender num false b1.szx
      else s'.runHandler tg msg sender none (some i) := by
  obtain ⟨i, hfree, hsession⟩ := h.sessionFor hnum
  refine ⟨i, hfree, ?_⟩
  -- the option is a Block option and the session is found, so this is `handleBlock`
  have hblock : s.handleBlock1 opt tg msg sender none =
      (s.withSessions (t.set i (collected sender msg.token num body))).handleBlock i b1 tg msg
        sender none := by
    unfold Server.handleBlock1
    rw [hopt]
    dsimp only
    rw [hsession]
  have hslot : (t.set i (collected sender msg.token num body)) i =
      collected sender msg.token num body := Table.set_self _ _ _
  have hsess : (s.withSessions (t.set i (collected sender msg.token num body))).block1sessions i =
      collected sender msg.token num body := hslot
  -- the append writes the session in place, and the number goes up with it
  have happend : (s.withSessions (t.set i (collected sender msg.token num body))).appendBlock i
      msg.payloadBytes = s.withSessions
        (t.set i (collected sender msg.token (num + 1) (body ++ msg.payloadBytes))) := by
    unfold appendBlock
    dsimp only
    rw [hsess]
    exact congrArg s.withSessions (Table.set_set ..)
  -- in order and within the buffer: neither 4.08 nor 4.13, and the flag decides
  rw [hblock, handleBlock, happend]
  dsimp only
  rw [hsess, if_neg (by rw [hnum]; exact fun hne => hne rfl),
    if_neg (by exact Nat.not_lt.2 hroom), hnum]

/-- The session after a block that is not the last. -/
theorem Collecting.append {i : Fin cfg.maxBlock1Sessions}
    (h : Collecting t remote token num body s) (hfree : (t i).active = false) {num' : UInt32}
    {body' : Bytes} {s' : Server cfg}
    (hs : s'.block1sessions = t.set i (collected remote token num' body')) :
    Collecting t remote token num' body' s' :=
  ⟨h.fresh, .inr ⟨i, hfree, hs⟩⟩

end Server

end PulseCoap
