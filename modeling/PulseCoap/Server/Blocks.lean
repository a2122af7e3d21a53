import PulseCoap.Server.Sends
import PulseCoap.Server.Tables
import PulseCoap.Server.Isolation

/-!
# PulseCoAP — one datagram and the upload sessions

What `poll()` does with a datagram, seen from the Block1 branch: the session it
touches and the Continue it answers with.

The outcomes say what became of the table of sessions as a whole, who is
answered and what a Continue names, and whether a handler runs. A result about
uploads needs no more of a datagram than which of them it was.

* `Received` — the six outcomes.
* `received` — one of them is the case for every datagram.
-/

namespace PulseCoap

namespace Server

variable {cfg : Config}

/-- The block that a message names in its Block1 option. -/
def namedBlock (msg : Message) : Option UInt32 :=
  ((msg.findOption OptionNumber.block1).bind BlockOption.fromOption).map (·.num)

/-- The number of a block has twenty bits. -/
theorem namedBlock_lt {msg : Message} {num : UInt32} (h : namedBlock msg = some num) :
    num.toNat < 2 ^ 20 := by
  obtain ⟨b, hbind, rfl⟩ := Option.map_eq_some_iff.1 h
  obtain ⟨o, -, hfrom⟩ := Option.bind_eq_some_iff.1 hbind
  exact BlockOption.fromOption_num hfrom

/-- A datagram for `dest` that is no RST, and names block `num` if it names one. -/
def Names (cfg : Config) (dest : Endpoint) (num : UInt32) (dest' : Endpoint) (data : Bytes) :
    Prop :=
  dest' = dest ∧ ∀ msg, Message.decode cfg data = (.none, msg) →
    msg.type ≠ .reset ∧ ∀ num' ∈ namedBlock msg, num' = num

/-- What is read from a datagram that brings a block for a resource of the server. -/
structure BringsBlock (s : Server cfg) (data : Bytes) (msg : Message) (b1 : BlockOption) :
    Prop where
  decode   : Message.decode cfg data = (.none, msg)
  request  : IsRequest msg
  admitted : ∃ t, s.admitted msg = some t
  block    : ∃ opt, block1Option cfg msg = some opt ∧ BlockOption.fromOption opt = some b1

/-- The outcomes of a datagram, with the sessions, the control and the replies after it. A block
calls no handler but as the last one. -/
inductive Received (s : Server cfg) (sender : Endpoint) (data : Bytes)
    (r : Server cfg × List ServerEvent) : Prop
  /-- No session is touched, and no Continue sent. -/
  | other (hsess : r.1.block1sessions = s.block1sessions) (hsends : Sends (Lacking cfg) r.2)
      (hctl : ∀ h, r.1.control = .handling h →
        h.session = none ∧ h.msg.token.length ≤ kMaxTokenLen)
      (hquiet : ∀ msg opt, Message.decode cfg data = (.none, msg) →
        block1Option cfg msg = some opt → OnlySends r.2)
  /-- Duplicate or out of order. -/
  | echo {msg : Message} {b1 : BlockOption} {i : Fin cfg.maxBlock1Sessions}
      (hblock : BringsBlock s data msg b1)
      (hfind : s.findBlock1Session sender msg.token = some i)
      (hnum : b1.num ≠ (s.block1sessions i).nextExpectedNum)
      (hsess : r.1.block1sessions = s.block1sessions)
      (hsends : Sends (Names cfg sender ((s.block1sessions i).nextExpectedNum - 1)) r.2)
      (hctl : r.1.control = .idle) (hquiet : OnlySends r.2)
  /-- Too much for the buffer, and the session is closed. -/
  | tooLarge {msg : Message} {b1 : BlockOption} {i : Fin cfg.maxBlock1Sessions}
      {b : Block1Session} (hblock : BringsBlock s data msg b1)
      (hmeets : s.Meets i sender msg.token b) (hnum : b1.num = b.nextExpectedNum)
      (hsess : r.1.block1sessions = s.block1sessions.set i { b with active := false })
      (hsends : Sends (Lacking cfg) r.2) (hctl : r.1.control = .idle) (hquiet : OnlySends r.2)
  /-- One of several. -/
  | more {msg : Message} {b1 : BlockOption} {i : Fin cfg.maxBlock1Sessions} {b : Block1Session}
      (hblock : BringsBlock s data msg b1) (hmeets : s.Meets i sender msg.token b)
      (hnum : b1.num = b.nextExpectedNum) (hm : b1.m = true)
      (hsess : r.1.block1sessions = s.block1sessions.set i (appended b msg.payloadBytes))
      (hsends : Sends (Names cfg sender b1.num) r.2) (hctl : r.1.control = .idle)
      (hquiet : OnlySends r.2)
  /-- The last one, and the handler runs. -/
  | last {msg : Message} {b1 : BlockOption} {i : Fin cfg.maxBlock1Sessions} {b : Block1Session}
      (hblock : BringsBlock s data msg b1) (hmeets : s.Meets i sender msg.token b)
      (hnum : b1.num = b.nextExpectedNum) (hm : b1.m = false)
      (hsess : r.1.block1sessions = s.block1sessions.set i (appended b msg.payloadBytes))
      (hsends : Sends (Lacking cfg) r.2)
      (hctl : ∃ h, r.1.control = .handling h ∧ h.session = some i ∧
        h.msg.token.length ≤ kMaxTokenLen)
  /-- The last one, and the handler was the server's own. -/
  | done {msg : Message} {b1 : BlockOption} {i : Fin cfg.maxBlock1Sessions} {b : Block1Session}
      (hblock : BringsBlock s data msg b1) (hmeets : s.Meets i sender msg.token b)
      (hnum : b1.num = b.nextExpectedNum) (hm : b1.m = false)
      (hsess : r.1.block1sessions = s.block1sessions.set i
        { appended b msg.payloadBytes with active := false })
      (hsends : Sends (Lacking cfg) r.2) (hctl : r.1.control = .idle)

/-- What a Continue names, for a number that fits the option. -/
theorem names_continue (s : Server cfg) {request : Message}
    (ht : request.token.length ≤ kMaxTokenLen) (dest : Endpoint) {num : UInt32}
    (hnum : num.toNat < 2 ^ 28) (m : Bool) (szx : UInt8) :
    Sends (Names cfg dest num) (s.sendContinue request dest num m szx).2 := by
  refine (s.continue_decode ht dest num m szx).mono fun dest' data ⟨hdest, hvalue⟩ => ?_
  refine ⟨hdest, fun msg hdec => ⟨(hvalue msg hdec).1, fun num' hnum' => ?_⟩⟩
  obtain ⟨b, hb, rfl⟩ := Option.map_eq_some_iff.1 hnum'
  obtain ⟨o, ho, hb⟩ := Option.bind_eq_some_iff.1 hb
  exact (BlockOption.fromOption_value hnum ((hvalue msg hdec).2 o ho) hb).1

/-- A reply touches no session. -/
theorem JustReplies.sessions {s : Server cfg} {r : Server cfg × List ServerEvent}
    (h : s.JustReplies r) : r.1.block1sessions = s.block1sessions := by
  obtain ⟨⟨id, hid⟩, -⟩ := h
  rw [hid]
  rfl

/-- The sessions after the handler was called, or after it has run. -/
theorem runHandler_outcome {s : Server cfg} (hidle : s.control = .idle) (t : Target) (msg : Message)
    (sender : Endpoint) (ov : Option UInt32) (session : Option (Fin cfg.maxBlock1Sessions)) :
    ((s.runHandler t msg sender ov session).1.block1sessions = s.block1sessions ∧
        ∃ h, (s.runHandler t msg sender ov session).1.control = .handling h ∧
          h.session = session ∧ h.msg = msg) ∨
      ((s.runHandler t msg sender ov session).1.block1sessions =
          (s.freeBlock1Session? session).block1sessions ∧
        (s.runHandler t msg sender ov session).1.control = .idle) := by
  obtain ⟨d, hd⟩ := s.fillDeferred_spec s.allocateDeferred msg sender
  rcases s.runHandler_cases t msg sender ov session with ⟨f, -, heq⟩ | ⟨-, heq⟩
  · rw [heq, hd]
    exact .inl ⟨rfl, _, rfl, rfl, rfl⟩
  · rw [heq, hd]
    dsimp only
    rw [finish_control]
    refine .inr ⟨?_, hidle⟩
    obtain ⟨⟨id, hid⟩, -⟩ := finish_spec { s with deferred := d }
      (s.handlingFor msg sender ov session)
      ({ s with deferred := d } : Server cfg).wellKnownCoreHandler
    rw [hid]
    cases session with
    | none => rfl
    | some i => rfl

/-- A block that is answered with an error ran no handler. -/
theorem Received.of_error {s s' : Server cfg} (hidle : s'.control = .idle)
    (hsess : s'.block1sessions = s.block1sessions) {msg : Message}
    (ht : msg.token.length ≤ kMaxTokenLen) (sender : Endpoint) (data : Bytes) (code : Code) :
    Received s sender data (s'.sendError msg sender code) := by
  have hr := s'.justReplies_error msg sender code
  refine .other (hr.sessions.trans hsess) (s'.lacks_error ht sender code) (fun h hh => ?_)
    fun _ _ _ _ => hr.2
  rw [hr.control, hidle] at hh
  cases hh

/-- A block that has come to its session `i`: `b` is the session, or the new one. -/
theorem received_block {s s' : Server cfg} {sender : Endpoint} {data : Bytes} {msg : Message}
    {b1 : BlockOption} (hblock : BringsBlock s data msg b1) {i : Fin cfg.maxBlock1Sessions}
    {b : Block1Session} (hmeets : s.Meets i sender msg.token b) (hidle : s'.control = .idle)
    (hset : s'.block1sessions = s.block1sessions.set i b)
    (hecho : b1.num ≠ b.nextExpectedNum → s.findBlock1Session sender msg.token = some i ∧
      s'.block1sessions = s.block1sessions ∧ 1 ≤ b.nextExpectedNum.toNat ∧
        b.nextExpectedNum.toNat ≤ 2 ^ 20) (t : Target) (ov : Option UInt32) :
    Received s sender data (s'.handleBlock i b1 t msg sender ov) := by
  obtain ⟨opt, -, hb1⟩ := hblock.block
  have hlt := BlockOption.fromOption_num hb1
  have ht := Message.decode_token hblock.decode
  have hi : s'.block1sessions i = b := by rw [hset, Table.set_self]
  have happended : ∀ b', (s'.withSession i b').block1sessions = s.block1sessions.set i b' := by
    intro b'
    show s'.block1sessions.set i b' = _
    rw [hset]
    exact Table.set_set _ _ _ _
  have hcases := s'.handleBlock_cases i b1 t msg sender ov
  rw [hi] at hcases
  -- not the expected block, no room for it, one of more, or the last
  rcases hcases with ⟨hnum, heq⟩ | ⟨hnum, -, heq⟩ | ⟨hnum, -, hm, heq⟩ | ⟨hnum, -, hm, heq⟩ <;>
    rw [heq]
  · -- a new session expects block 0, so this one was there before
    obtain ⟨hfind, hsame, hpos, hle⟩ := hecho hnum
    have hcur : s.block1sessions i = b := by rw [← hi, hsame]
    have hr := s'.justReplies_continue msg sender (b.nextExpectedNum - 1) true b1.szx
    have hpred : (b.nextExpectedNum - 1).toNat < 2 ^ 28 := by
      have h1 : (1 : UInt32) ≤ b.nextExpectedNum := UInt32.le_iff_toNat_le.2 hpos
      rw [UInt32.toNat_sub_of_le _ _ h1]
      omega
    refine .echo hblock hfind (by rw [hcur]; exact hnum) (hr.sessions.trans hsame) ?_
      (hr.control.trans hidle) hr.2
    rw [hcur]
    exact s'.names_continue ht sender hpred true b1.szx
  · have hr := (s'.freeBlock1Session i).justReplies_error msg sender Code.requestEntityTooLarge
    refine .tooLarge hblock hmeets hnum (hr.sessions.trans ?_)
      ((s'.freeBlock1Session i).lacks_error ht sender _) (hr.control.trans hidle) hr.2
    show s'.block1sessions.set i { s'.block1sessions i with active := false } = _
    rw [hi]
    exact happended _
  · have hr := (s'.withSession i (appended b msg.payloadBytes)).justReplies_continue msg sender
      b1.num false b1.szx
    exact .more hblock hmeets hnum hm (hr.sessions.trans (happended _))
      (names_continue _ ht sender (by omega) false b1.szx) (hr.control.trans hidle) hr.2
  · have hsends := (s'.withSession i (appended b msg.payloadBytes)).lacks_runHandler t ht sender ov
      (some i)
    -- the session stays open while the application's handler runs
    rcases runHandler_outcome (s := s'.withSession i (appended b msg.payloadBytes)) hidle t msg
      sender ov (some i) with ⟨hsess, h, hh, hsession, hmsg⟩ | ⟨hsess, hctl⟩
    · exact .last hblock hmeets hnum hm (hsess.trans (happended _)) hsends
        ⟨h, hh, hsession, by rw [hmsg]; exact ht⟩
    · refine .done hblock hmeets hnum hm (hsess.trans ?_) hsends hctl
      show ((s'.withSession i (appended b msg.payloadBytes)).block1sessions.set i
        { (s'.withSession i (appended b msg.payloadBytes)).block1sessions i with
          active := false }) = _
      rw [happended, Table.set_self, Table.set_set]

/-- **A request** runs a handler once at most, and then its block is the last one of a session.
Without a Block1 option it touches no session. -/
theorem received_request {s : Server cfg} (hup : s.Uploading) (hidle : s.control = .idle)
    (sender : Endpoint) {data : Bytes} {msg : Message}
    (hdec : Message.decode cfg data = (.none, msg)) (hreq : IsRequest msg) :
    Received s sender data (s.handleRequest msg sender) := by
  have ht := Message.decode_token hdec
  -- refused, a request without a Block1 option, or a block
  rcases s.handleRequest_cases msg sender with ⟨-, code, heq⟩ | ⟨t, had, heq⟩
  · rw [heq]
    exact .of_error hidle rfl ht sender data code
  · rw [heq]
    rcases s.handleTarget_cases t msg sender with ⟨hplain, obs, heq⟩ | ⟨opt, hopt, heq⟩
    · -- not a block
      have hnot : ∀ msg' opt, Message.decode cfg data = (.none, msg') →
          block1Option cfg msg' = some opt →
            OnlySends (((s.withObservers obs).runHandler t msg sender
              (s.handleObserve t msg sender).2 none).2) := by
        intro msg' opt hdec' hopt
        obtain rfl : msg = msg' := congrArg Prod.snd (hdec.symm.trans hdec')
        rw [hplain] at hopt
        cases hopt
      rw [heq]
      have hsends := (s.withObservers obs).lacks_runHandler t ht sender
        (s.handleObserve t msg sender).2 none
      rcases runHandler_outcome (s := s.withObservers obs) hidle t msg sender
        (s.handleObserve t msg sender).2 none with ⟨hsess, h, hh, hnone, hmsg⟩ |
        ⟨hsess, hctl⟩
      · refine .other hsess hsends (fun h' hh' => ?_) hnot
        rw [hh] at hh'
        cases hh'
        exact ⟨hnone, by rw [hmsg]; exact ht⟩
      · refine .other hsess hsends (fun h' hh' => ?_) hnot
        rw [hctl] at hh'
        cases hh'
    · rw [heq]
      unfold handleBlock1
      cases hb1 : BlockOption.fromOption opt with
      -- the option is none of a Block1 that the code reads: 4.00
      | none => exact .of_error hidle rfl ht sender data _
      | some b1 =>
        have hblock : BringsBlock s data msg b1 := ⟨hdec, hreq, ⟨t, had⟩, opt, hopt, hb1⟩
        dsimp only
        -- a block out of order, one that a session expects, or the first of an upload
        rcases s.sessionFor_cases b1 sender msg.token with ⟨code, hs⟩ | ⟨i, hf, hs⟩ |
          ⟨i, hf, hnum, hfree, hs⟩ <;> rw [hs]
        · exact .of_error hidle rfl ht sender data code
        · refine received_block hblock (.inl ⟨hf, rfl⟩) hidle (Table.set_eq_self _ _).symm
            (fun _ => ⟨hf, rfl, ?_⟩) t none
          exact hup.expected i (findBlock1Session_spec hf).1
        · -- a new session expects the block that opens it
          refine received_block hblock (.inr ⟨hf, hfree, rfl⟩) ?_ ?_
            (fun hne => absurd hnum hne) t none
          · exact hidle
          · rfl

/-- **One datagram** has one of the six outcomes. What does not decode, or is no request, is the
quiet one. -/
theorem received {s : Server cfg} (hup : s.Uploading) (hidle : s.control = .idle)
    (sender : Endpoint) (data : Bytes) :
    Received s sender data (s.receive (some (sender, data))) := by
  have hquiet : ∀ {s' : Server cfg}, s'.block1sessions = s.block1sessions → s'.control = .idle →
      Received s sender data (s', []) := by
    intro s' hsess hctl
    refine .other hsess (sends_nil _) (fun h hh => ?_) fun _ _ _ _ => onlySends_nil
    rw [hctl] at hh
    cases hh
  rcases s.receive_cases (some (sender, data)) with heq | ⟨_, _, msg, hrx, -, -, heq⟩ |
    ⟨_, _, msg, hrx, -, -, heq⟩ | ⟨_, _, msg, hrx, hdec, hreq, heq⟩ <;> rw [heq]
  · exact hquiet rfl hidle
  · obtain ⟨obs, hobs⟩ := s.handleReset_spec _ msg.messageId
    rw [hobs]
    exact hquiet rfl hidle
  · exact hquiet rfl hidle
  · cases hrx
    exact received_request hup hidle _ hdec hreq

end Server

end PulseCoap
