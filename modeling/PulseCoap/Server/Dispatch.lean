import PulseCoap.Server.Spec

/-!
# PulseCoAP — which datagrams call a resource handler

`Invokes` is what a message has to be, and the server's tables with it, for
`poll()` to call a resource handler: a request that passes the checks and, in
the Block1 branch, the block that completes its upload.

A datagram that calls no handler is dropped, refused, or a block with more to
come. The handler gets the message of the datagram that completes its request,
so for an upload that of its last block, with the body from the session.

* `poll_calls` — a datagram calls a handler exactly when it decodes to such a
  message, and the handler gets that message.
-/

namespace PulseCoap

namespace Server

variable {cfg : Config}

/-- The block is the last one its session waits for, and the body fits. -/
def Completes (s : Server cfg) (b1 : BlockOption) (msg : Message) (sender : Endpoint) : Prop :=
  ∃ i b, s.Meets i sender msg.token b ∧ b1.num = b.nextExpectedNum ∧
    b.buffer.length + msg.payloadBytes.length ≤ cfg.block1MaxBody ∧ b1.m = false

/-- A message that gets to a resource handler: a request that passes the checks
and, in the Block1 branch, completes its upload. -/
def Invokes (s : Server cfg) (msg : Message) (sender : Endpoint) : Prop :=
  IsRequest msg ∧ (s.admitted msg).isSome ∧
    ∀ opt, block1Option cfg msg = some opt →
      ∃ b1, BlockOption.fromOption opt = some b1 ∧ s.Completes b1 msg sender

/-- Some handler is called, and each call is with `msg`. -/
def CallsOn (msg : Message) (events : List ServerEvent) : Prop :=
  ∃ body t sender, CallsWith body t msg sender events

theorem callsWith_runHandler (s : Server cfg) (t : Target) (msg : Message) (sender : Endpoint)
    (ov : Option UInt32) (session : Option (Fin cfg.maxBlock1Sessions)) :
    CallsOn msg (s.runHandler t msg sender ov session).2 :=
  ⟨_, t, sender, (s.runHandler_sessions t msg sender ov session).2⟩

theorem Meets.unique {s : Server cfg} {sender : Endpoint} {token : Bytes}
    {i j : Fin cfg.maxBlock1Sessions} {b b' : Block1Session} (h : s.Meets i sender token b)
    (h' : s.Meets j sender token b') : b = b' := by
  rcases h with ⟨hf, rfl⟩ | ⟨hf, -, rfl⟩
  · rcases h' with ⟨hf', rfl⟩ | ⟨hf', -, -⟩
    · rw [hf] at hf'
      rw [Option.some.inj hf']
    · rw [hf] at hf'
      cases hf'
  · rcases h' with ⟨hf', -⟩ | ⟨-, -, rfl⟩
    · rw [hf] at hf'
      cases hf'
    · rfl

/-- A block that gets no session completes nothing. -/
theorem not_completes_of_error {s : Server cfg} {b1 : BlockOption} {msg : Message}
    {sender : Endpoint} {code : Code} (h : s.sessionFor b1 sender msg.token = .error code) :
    ¬ s.Completes b1 msg sender := by
  rintro ⟨i, b, ⟨hf, -⟩ | ⟨hf, hidle, rfl⟩, hnum, -⟩
  · rw [sessionFor, hf] at h
    cases h
  · -- a first block, and slot `i` is free for it
    have hzero : b1.num = 0 := hnum
    obtain ⟨j, hj⟩ : ∃ j, (s.block1sessions.find? fun b => !b.active) = some j :=
      Table.find?_isSome (i := i) (by simp [hidle])
    rw [sessionFor, hf] at h
    simp only [hzero, ne_eq, not_true_eq_false, if_false, allocateBlock1Session, hj] at h
    cases h

/-- A block calls the handler when it completes its upload, and else is only
answered. -/
theorem handleBlock1_calls (s : Server cfg) (opt : CoapOption) (t : Target) (msg : Message)
    (sender : Endpoint) (ov : Option UInt32) :
    (OnlySends (s.handleBlock1 opt t msg sender ov).2 ∧
        ¬ ∃ b1, BlockOption.fromOption opt = some b1 ∧ s.Completes b1 msg sender) ∨
      (CallsOn msg (s.handleBlock1 opt t msg sender ov).2 ∧
        ∃ b1, BlockOption.fromOption opt = some b1 ∧ s.Completes b1 msg sender) := by
  unfold handleBlock1
  cases hopt : BlockOption.fromOption opt with
  | none => exact .inl ⟨(s.justReplies_error ..).2, fun ⟨b1, hb1, _⟩ => nomatch hb1⟩
  | some b1 =>
    dsimp only
    simp only [Option.some.injEq, exists_eq_left']
    -- a block that meets a session
    suffices hblock : ∀ (s' : Server cfg) i, s.Meets i sender msg.token (s'.block1sessions i) →
        (OnlySends (s'.handleBlock i b1 t msg sender ov).2 ∧ ¬ s.Completes b1 msg sender) ∨
          (CallsOn msg (s'.handleBlock i b1 t msg sender ov).2 ∧ s.Completes b1 msg sender) by
      rcases s.sessionFor_cases b1 sender msg.token with ⟨code, hs⟩ | ⟨i, hf, hs⟩ |
        ⟨i, hf, hnum, hidle, hs⟩
      · rw [hs]
        exact .inl ⟨(s.justReplies_error ..).2, not_completes_of_error hs⟩
      · rw [hs]
        exact hblock s i (.inl ⟨hf, rfl⟩)
      · rw [hs]
        refine hblock _ i (.inr ⟨hf, hidle, ?_⟩)
        exact Table.set_self _ _ _
    intro s' i hmeets
    have honly : s.Completes b1 msg sender → b1.num = (s'.block1sessions i).nextExpectedNum ∧
        (s'.block1sessions i).buffer.length + msg.payloadBytes.length ≤ cfg.block1MaxBody ∧
          b1.m = false := by
      rintro ⟨j, b, hb, hnum, hfits, hm⟩
      rw [hmeets.unique hb]
      exact ⟨hnum, hfits, hm⟩
    rcases s'.handleBlock_cases i b1 t msg sender ov with ⟨hnum, heq⟩ | ⟨hnum, hbig, heq⟩ |
      ⟨hnum, hfits, hm, heq⟩ | ⟨hnum, hfits, hm, heq⟩
    · rw [heq]
      exact .inl ⟨(s'.justReplies_continue ..).2, fun h => hnum (honly h).1⟩
    · rw [heq]
      refine .inl ⟨(justReplies_error ..).2, fun h => ?_⟩
      have := (honly h).2.1
      omega
    · rw [heq]
      refine .inl ⟨(justReplies_continue ..).2, fun h => ?_⟩
      rw [(honly h).2.2] at hm
      cases hm
    · rw [heq]
      exact .inr ⟨callsWith_runHandler .., i, _, hmeets, hnum, hfits, hm⟩

/-- A request calls its handler when it gets there, and else is only answered. -/
theorem handleRequest_calls (s : Server cfg) (msg : Message) (sender : Endpoint)
    (hreq : IsRequest msg) :
    (OnlySends (s.handleRequest msg sender).2 ∧ ¬ s.Invokes msg sender) ∨
      (CallsOn msg (s.handleRequest msg sender).2 ∧ s.Invokes msg sender) := by
  rcases s.handleRequest_cases msg sender with ⟨hadm, code, heq⟩ | ⟨t, hadm, heq⟩
  · rw [heq]
    refine .inl ⟨(s.justReplies_error ..).2, fun h => ?_⟩
    have hsome := h.2.1
    rw [hadm] at hsome
    cases hsome
  rw [heq]
  rcases s.handleTarget_cases t msg sender with ⟨hopt, obs, ht⟩ | ⟨opt, hopt, ht⟩
  · rw [ht]
    refine .inr ⟨callsWith_runHandler .., hreq, by rw [hadm]; rfl, fun opt h => ?_⟩
    rw [hopt] at h
    cases h
  · rw [ht]
    rcases s.handleBlock1_calls opt t msg sender none with ⟨hsends, hnot⟩ | ⟨hcalls, hcompletes⟩
    · exact .inl ⟨hsends, fun h => hnot (h.2.2 opt hopt)⟩
    · refine .inr ⟨hcalls, hreq, by rw [hadm]; rfl, fun opt' h => ?_⟩
      rw [hopt] at h
      cases h
      exact hcompletes

/-- The pool scan has no say in where a request goes. -/
theorem invokes_scanned (s : Server cfg) (nowMs : UInt32) (msg : Message) (sender : Endpoint) :
    (s.scanned nowMs).Invokes msg sender ↔ s.Invokes msg sender := by
  obtain ⟨pool, obs, h⟩ := s.scanned_spec nowMs
  rw [h]
  exact Iff.rfl

/-- **What a datagram calls.** A handler is called when the datagram decodes to a message that
gets to one, and with that message. Everything before the call is the retransmissions of the
scan. -/
theorem poll_calls (s : Server cfg) (nowMs : UInt32) (sender : Endpoint) (data : Bytes) :
    (OnlySends (s.poll nowMs (some (sender, data))).2 ∧
        ∀ msg, Message.decode cfg data = (.none, msg) → ¬ s.Invokes msg sender) ∨
      ∃ msg ticks rest, Message.decode cfg data = (.none, msg) ∧ s.Invokes msg sender ∧
        OnlySends ticks ∧ CallsOn msg rest ∧
        (s.poll nowMs (some (sender, data))).2 = ticks ++ rest := by
  obtain ⟨ticks, hticks, heq⟩ := s.poll_eq nowMs (some (sender, data))
  rw [heq]
  -- not decoded or no request, an RST, an ACK, or a request
  rcases (s.scanned nowMs).receive_cases (some (sender, data)) with h | ⟨_, _, msg, hrx, hdec, hk, h⟩ |
    ⟨_, _, msg, hrx, hdec, hk, h⟩ | ⟨_, _, msg, hrx, hdec, hreq, h⟩
  · -- dropped: it does not decode, or is no request
    refine .inl ⟨by rw [h]; exact hticks.append onlySends_nil, fun msg hdec hinv => ?_⟩
    have hhandle : (s.scanned nowMs).receive (some (sender, data)) =
        (s.scanned nowMs).handleRequest msg sender := by
      have hlen := Message.decode_length hdec
      unfold receive
      simp only [hdec, hlen, if_true]
      rw [handleMessage, if_neg hinv.1.1, if_neg hinv.1.2.1, if_pos hinv.1.2.2]
    rcases (s.scanned nowMs).handleRequest_calls msg sender hinv.1 with ⟨-, hnot⟩ |
      ⟨⟨body, t, _, req, rest, hcall, -⟩, -⟩
    · exact hnot ((s.invokes_scanned nowMs msg sender).2 hinv)
    · rw [← hhandle, h] at hcall
      cases hcall
  · cases hrx
    refine .inl ⟨by rw [h]; exact hticks.append onlySends_nil, fun msg' hdec' hinv => ?_⟩
    rw [hdec] at hdec'
    cases hdec'
    exact hinv.1.1 hk
  · cases hrx
    refine .inl ⟨by rw [h]; exact hticks.append onlySends_nil, fun msg' hdec' hinv => ?_⟩
    rw [hdec] at hdec'
    cases hdec'
    exact hinv.1.2.1 hk
  · cases hrx
    rw [h]
    rcases (s.scanned nowMs).handleRequest_calls msg sender hreq with ⟨hsends, hnot⟩ |
      ⟨hcalls, hinv⟩
    · refine .inl ⟨hticks.append hsends, fun msg' hdec' hinv => ?_⟩
      rw [hdec] at hdec'
      cases hdec'
      exact hnot ((s.invokes_scanned nowMs msg sender).2 hinv)
    · exact .inr ⟨msg, ticks, _, hdec, (s.invokes_scanned nowMs msg sender).1 hinv, hticks, hcalls,
        rfl⟩

end Server

end PulseCoap
