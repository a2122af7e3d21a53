import PulseCoap.Server.Registration
import PulseCoap.Server.Blocks
import PulseCoap.Server.Upload

/-!
# PulseCoAP — when an upload gives its slot back

The server has no timer for the sessions of the Block1 branch. `freeBlock1Session`
is called in two places: for a block that is too much for the buffer, and behind the
handler call for the last block. Until then a session keeps its slot, and with all
slots taken a new upload is answered 5.03.

There are two halves. `step_frees_iff` goes through all steps to see which of
them free a slot: the list is short, and no step in it depends on the time.
`refused_iff` is about one datagram, the first block of an upload without a
session. Together they say for how long a new upload is refused.

* `afterBlock`, `Brings.sessions`, `receive_other` — what a datagram makes of the
  sessions.
* `EndsUpload` — the steps that free a slot.
* `held_until_end` — a session is held until one of them, and a new upload is
  refused exactly when all slots are held.
* `not_reclaimed` — two uploads that nobody goes on with, one of them opened by a
  late duplicate of a first block, hold their slots for any length of time.
* `silence_keeps` — polls alone free no slot.
-/

namespace PulseCoap

namespace Server

variable {cfg : Config}

-- ===========================================================================
-- The sessions after a block
-- ===========================================================================

/-- The session a block has come to, after it. -/
def afterBlock (cfg : Config) (b : Block1Session) (b1 : BlockOption) (t : Target)
    (msg : Message) : Block1Session :=
  if b1.num ≠ b.nextExpectedNum then b
  else if cfg.block1MaxBody < b.buffer.length + msg.payloadBytes.length then
    { b with active := false }
  else if b1.m = false ∧ t.resource.handler = .wellKnownCore then
    { appended b msg.payloadBytes with active := false }
  else appended b msg.payloadBytes

/-- A block ends its session: it is too much, or the handler has returned with it. -/
def LastBlock (cfg : Config) (b : Block1Session) (b1 : BlockOption) (t : Target)
    (msg : Message) : Prop :=
  b1.num = b.nextExpectedNum ∧
    (cfg.block1MaxBody < b.buffer.length + msg.payloadBytes.length ∨
      b1.m = false ∧ t.resource.handler = .wellKnownCore)

/-- It is closed exactly by such a block. -/
theorem afterBlock_active {b : Block1Session} (hb : b.active = true) (b1 : BlockOption)
    (t : Target) (msg : Message) :
    (afterBlock cfg b b1 t msg).active = false ↔ LastBlock cfg b b1 t msg := by
  unfold afterBlock LastBlock
  split
  · rename_i hnum
    simp [hb, hnum]
  · rename_i hnum
    rw [not_not] at hnum
    split
    · rename_i hover
      simp [hnum, hover]
    · rename_i hover
      split
      · rename_i hlast
        simp [hnum, hlast]
      · rename_i hlast
        simp [hnum, hover, hlast, appended, hb]

/-- A handler call frees the session when it has returned, as the server's own has at once. -/
theorem runHandler_freed (s : Server cfg) (t : Target) (msg : Message) (sender : Endpoint)
    (ov : Option UInt32) (session : Option (Fin cfg.maxBlock1Sessions)) :
    (s.runHandler t msg sender ov session).1.block1sessions =
      if t.resource.handler = .wellKnownCore then (s.freeBlock1Session? session).block1sessions
      else s.block1sessions := by
  obtain ⟨d, hd⟩ := s.fillDeferred_spec s.allocateDeferred msg sender
  rcases s.runHandler_cases t msg sender ov session with ⟨f, hf, heq⟩ | ⟨hwk, heq⟩
  · rw [heq, if_neg (by simp [hf])]
    dsimp only
    rw [hd]
  · obtain ⟨⟨id, hstate⟩, -⟩ := finish_spec (s.fillDeferred s.allocateDeferred msg sender)
      (s.handlingFor msg sender ov session)
      (s.fillDeferred s.allocateDeferred msg sender).wellKnownCoreHandler
    rw [heq, if_pos hwk]
    dsimp only
    rw [hstate, hd]
    cases session <;> rfl

/-- **What a block does to the sessions**: it changes its own, as `afterBlock` says, and no
other. -/
theorem handleBlock_sessions (s : Server cfg) (i : Fin cfg.maxBlock1Sessions) (b1 : BlockOption)
    (t : Target) (msg : Message) (sender : Endpoint) (ov : Option UInt32) :
    (s.handleBlock i b1 t msg sender ov).1.block1sessions =
      s.block1sessions.set i (afterBlock cfg (s.block1sessions i) b1 t msg) := by
  rcases s.handleBlock_cases i b1 t msg sender ov with ⟨hnum, heq⟩ | ⟨hnum, hover, heq⟩ |
    ⟨hnum, hfits, hm, heq⟩ | ⟨hnum, hfits, hm, heq⟩
  · rw [heq, afterBlock, if_pos hnum, Table.set_eq_self]
    exact (s.justReplies_continue ..).sessions
  · rw [heq, afterBlock, if_neg (not_not.2 hnum), if_pos hover]
    exact ((s.freeBlock1Session i).justReplies_error ..).sessions
  · rw [heq, afterBlock, if_neg (not_not.2 hnum), if_neg (Nat.not_lt.2 hfits),
      if_neg (by simp [hm])]
    exact (justReplies_continue ..).sessions
  · rw [heq, afterBlock, if_neg (not_not.2 hnum), if_neg (Nat.not_lt.2 hfits), runHandler_freed]
    split
    · rename_i hwk
      rw [if_pos ⟨hm, hwk⟩]
      show Table.set (s.block1sessions.set i _) i { (s.block1sessions.set i _) i with
        active := false } = _
      rw [Table.set_self, Table.set_set]
    · rename_i happ
      rw [if_neg (fun h => happ h.2)]
      rfl

/-- A datagram brings a block for a session. -/
structure Brings (s : Server cfg) (i : Fin cfg.maxBlock1Sessions) (sender : Endpoint)
    (data : Bytes) (msg : Message) (b1 : BlockOption) (t : Target) : Prop where
  decode   : Message.decode cfg data = (.none, msg)
  request  : IsRequest msg
  admitted : s.admitted msg = some t
  block    : ∃ opt, block1Option cfg msg = some opt ∧ BlockOption.fromOption opt = some b1
  session  : s.findBlock1Session sender msg.token = some i

/-- A block that finds its session. -/
theorem Brings.sessions {s : Server cfg} {i : Fin cfg.maxBlock1Sessions} {sender : Endpoint}
    {data : Bytes} {msg : Message} {b1 : BlockOption} {t : Target}
    (h : s.Brings i sender data msg b1 t) :
    (s.receive (some (sender, data))).1.block1sessions =
      s.block1sessions.set i (afterBlock cfg (s.block1sessions i) b1 t msg) := by
  obtain ⟨opt, hopt, hb1⟩ := h.block
  rw [receive_request s sender h.decode h.request]
  rcases s.handleRequest_cases msg sender with ⟨hnone, -⟩ | ⟨t', had, heq⟩
  · rw [h.admitted] at hnone
    cases hnone
  obtain rfl : t = t' := Option.some.inj (h.admitted.symm.trans had)
  rw [heq]
  rcases s.handleTarget_cases t msg sender with ⟨hnone, -⟩ | ⟨opt', hopt', heq⟩
  · rw [hopt] at hnone
    cases hnone
  obtain rfl : opt = opt' := Option.some.inj (hopt.symm.trans hopt')
  rw [heq]
  unfold handleBlock1
  rw [hb1]
  dsimp only
  rw [sessionFor, h.session]
  exact handleBlock_sessions ..

/-- Nothing else in a datagram matters to a session. -/
theorem receive_other {s : Server cfg} {i : Fin cfg.maxBlock1Sessions}
    (hi : (s.block1sessions i).active = true) {rx : Option (Endpoint × Bytes)}
    (h : ∀ sender data msg b1 t, rx = some (sender, data) → ¬ s.Brings i sender data msg b1 t) :
    (s.receive rx).1.block1sessions i = s.block1sessions i := by
  have hquiet : ∀ {r : Server cfg × List ServerEvent}, s.JustReplies r →
      r.1.block1sessions i = s.block1sessions i := fun hr => by rw [hr.sessions]
  rcases s.receive_cases rx with heq | ⟨sender, data, msg, -, -, -, heq⟩ |
    ⟨sender, data, msg, -, -, -, heq⟩ | ⟨sender, data, msg, hrx, hdec, hreq, heq⟩
  · rw [heq]
  · obtain ⟨obs, hobs⟩ := s.handleReset_spec sender msg.messageId
    rw [heq, hobs]
    rfl
  · rw [heq]
  · rw [heq]
    -- only a block of the session's own peer and token could touch it
    rcases s.handleRequest_cases msg sender with ⟨-, code, heq⟩ | ⟨t, had, heq⟩
    · rw [heq]
      exact hquiet (s.justReplies_error ..)
    rw [heq]
    rcases s.handleTarget_cases t msg sender with ⟨-, obs, heq⟩ | ⟨opt, hopt, heq⟩
    · -- a handler without a session
      rw [heq, runHandler_freed]
      split <;> rfl
    rw [heq]
    unfold handleBlock1
    cases hb1 : BlockOption.fromOption opt with
    | none => exact hquiet (s.justReplies_error ..)
    | some b1 =>
      dsimp only
      -- refused, a session that is there, or one in a free slot
      rcases s.sessionFor_cases b1 sender msg.token with ⟨code, hs⟩ | ⟨j, hf, hs⟩ |
        ⟨j, -, -, hfree, hs⟩ <;> rw [hs]
      · exact hquiet (s.justReplies_error ..)
      · -- the session of another upload
        have hji : i ≠ j := by
          rintro rfl
          exact h sender data msg b1 t hrx ⟨hdec, hreq, had, ⟨opt, hopt, hb1⟩, hf⟩
        dsimp only
        rw [handleBlock_sessions, Table.set_ne _ _ hji]
      · -- a slot that was free
        have hji : i ≠ j := by
          rintro rfl
          rw [hi] at hfree
          cases hfree
        dsimp only
        rw [handleBlock_sessions, Table.set_ne _ _ hji]
        exact Table.set_ne _ _ hji

-- ===========================================================================
-- The end of an upload
-- ===========================================================================

/-- **The steps that free a slot**: the return of the handler that was called with the last block,
and a block of the upload itself that is too much, or the last one for the server's own handler. -/
def EndsUpload (s : Server cfg) (i : Fin cfg.maxBlock1Sessions) : Action → Prop
  | .handlerReturns _ => ∃ h, s.control = .handling h ∧ h.session = some i
  | .poll nowMs rx => s.control = .idle ∧ ∃ sender data msg b1 t, rx = some (sender, data) ∧
      (s.scanned nowMs).Brings i sender data msg b1 t ∧
      LastBlock cfg (s.block1sessions i) b1 t msg
  | .call _ => False

/-- **A step frees the slot of an upload exactly when it ends the upload.** No step looks at the
time. -/
theorem step_frees_iff {s : Server cfg} {i : Fin cfg.maxBlock1Sessions}
    (hi : (s.block1sessions i).active = true) (a : Action) :
    ((s.step a).1.block1sessions i).active = false ↔ s.EndsUpload i a := by
  have hkept : ∀ {s' : Server cfg}, s'.block1sessions i = s.block1sessions i →
      ¬ (s'.block1sessions i).active = false := by
    intro s' hsame hfree
    rw [hsame, hi] at hfree
    cases hfree
  -- of the three actions only `poll` and the return of a handler free a session
  cases a with
  | call call =>
    refine ⟨fun h => absurd h (hkept ?_), ?_⟩
    · rw [step, (s.call_keeps call).sessions]
    · rintro ⟨⟩
  | poll nowMs rx =>
    cases hctl : s.control with
    | handling hd =>
      rw [step_poll_busy hctl]
      refine ⟨fun h => absurd h (hkept rfl), fun h => ?_⟩
      rw [EndsUpload, hctl] at h
      cases h.1
    | idle =>
      have hsess := s.scanned_sessions nowMs
      have hi' : ((s.scanned nowMs).block1sessions i).active = true := by rw [hsess]; exact hi
      rw [step_poll_state hctl]
      -- the datagram has the block that ends the session, or another effect on it, or none
      by_cases hbrings : ∃ sender data msg b1 t, rx = some (sender, data) ∧
          (s.scanned nowMs).Brings i sender data msg b1 t
      · obtain ⟨sender, data, msg, b1, t, rfl, hb⟩ := hbrings
        rw [hb.sessions, Table.set_self, hsess, afterBlock_active hi]
        refine ⟨fun hlast => ⟨hctl, sender, data, msg, b1, t, rfl, hb, hlast⟩, ?_⟩
        rintro ⟨-, sender', data', msg', b1', t', hrx, hb', hlast⟩
        -- it is the same datagram
        cases hrx
        obtain rfl : msg = msg' := congrArg Prod.snd (hb.decode.symm.trans hb'.decode)
        obtain rfl : t = t' := Option.some.inj (hb.admitted.symm.trans hb'.admitted)
        obtain ⟨opt, hopt, hb1⟩ := hb.block
        obtain ⟨opt', hopt', hb1'⟩ := hb'.block
        obtain rfl : opt = opt' := Option.some.inj (hopt.symm.trans hopt')
        obtain rfl : b1 = b1' := Option.some.inj (hb1.symm.trans hb1')
        exact hlast
      · have hother := receive_other hi' fun sender data msg b1 t hrx hb =>
          hbrings ⟨sender, data, msg, b1, t, hrx, hb⟩
        rw [hsess] at hother
        refine ⟨fun h => absurd h (hkept hother), ?_⟩
        rintro ⟨-, sender, data, msg, b1, t, hrx, hb, -⟩
        exact absurd ⟨sender, data, msg, b1, t, hrx, hb⟩ hbrings
  | handlerReturns res =>
    cases hctl : s.control with
    | idle =>
      rw [step_returns_idle hctl]
      refine ⟨fun h => absurd h (hkept rfl), ?_⟩
      rintro ⟨h, hh, -⟩
      rw [hctl] at hh
      cases hh
    | handling h =>
      obtain ⟨⟨id, hfinish⟩, -⟩ := ({ s with control := .idle } : Server cfg).finish_spec h res
      rw [step_returns hctl, hfinish]
      have hends : s.EndsUpload i (.handlerReturns res) ↔ h.session = some i := by
        constructor
        · rintro ⟨h', hh', hsession⟩
          rw [hctl] at hh'
          cases hh'
          exact hsession
        · exact fun hsession => ⟨h, hctl, hsession⟩
      rw [hends]
      -- the session of the handler that returns, or another one
      cases hsession : h.session with
      | none => exact iff_of_false (hkept rfl) (Option.some_ne_none i).symm
      | some j =>
        show (s.block1sessions.set j { s.block1sessions j with active := false } i).active =
          false ↔ _
        by_cases hji : i = j
        · subst hji
          rw [Table.set_self]
          exact ⟨fun _ => rfl, fun _ => rfl⟩
        · rw [Table.set_ne _ _ hji, hi]
          exact iff_of_false Bool.false_ne_true.symm fun hsome =>
            hji (Option.some.inj hsome).symm

/-- **A session is held until its upload ends**, over any steps, however many of other peers or
uploads are among them. -/
theorem held_iff (i : Fin cfg.maxBlock1Sessions) (as : List Action) : ∀ {s : Server cfg},
    (s.block1sessions i).active = true →
      ((machine cfg).Meets (fun s a => ((s.step a).1.block1sessions i).active = true) s as ↔
        (machine cfg).Meets (fun s a => ¬ s.EndsUpload i a) s as) := by
  induction as with
  | nil => exact fun _ => Iff.rfl
  | cons a as ih =>
    intro s hi
    have hone : ((s.step a).1.block1sessions i).active = true ↔ ¬ s.EndsUpload i a := by
      rw [← step_frees_iff hi a, Bool.not_eq_false]
    constructor
    · rintro ⟨hact, hrest⟩
      exact ⟨hone.1 hact, (ih hact).1 hrest⟩
    · rintro ⟨hnot, hrest⟩
      exact ⟨hone.2 hnot, (ih (hone.2 hnot)).2 hrest⟩

-- ===========================================================================
-- A new upload
-- ===========================================================================

/-- One of these datagrams is a 5.03. -/
def Refused (cfg : Config) (dest : Endpoint) (events : List ServerEvent) : Prop :=
  Responds cfg dest (fun code _ => code = Code.serviceUnavailable) events

/-- A response with another code is none. -/
theorem piggybacked_not_refused (s : Server cfg) {msg : Message}
    (ht : msg.token.length ≤ kMaxTokenLen) (sender : Endpoint) {code : Code}
    (hcode : code ≠ Code.serviceUnavailable) (payload : Bytes) (contentFormat : ContentFormat)
    (ov : Option UInt32) : ¬ Refused cfg sender
      (s.sendPiggybackedResponse msg sender code payload contentFormat ov).2 := by
  intro h
  have hcarries := s.carries_content code payload contentFormat ov ht
  have hsame := ((hcarries.responds sender _).1 h).2
  rw [(s.replyHeader_names msg code).2] at hsame
  exact hcode hsame

/-- A handler that is called does not refuse. -/
theorem runHandler_not_refused (s : Server cfg) (t : Target) {msg : Message}
    (ht : msg.token.length ≤ kMaxTokenLen) (sender : Endpoint) (ov : Option UInt32)
    (i : Fin cfg.maxBlock1Sessions) :
    ¬ Refused cfg sender (s.runHandler t msg sender ov (some i)).2 := by
  have hcall : ∀ dest data, s.handlerCall t msg sender (some i) ≠ .sent dest data :=
    fun _ _ h => nomatch (show ServerEvent.handled _ _ _ _ = _ from h)
  rcases s.runHandler_cases t msg sender ov (some i) with ⟨f, -, heq⟩ | ⟨-, heq⟩
  · rw [heq]
    exact fun h => not_responds_nil sender _ ((responds_cons hcall).1 h)
  · -- the answer of the server's own handler is 2.05
    rw [heq]
    dsimp only
    intro h
    have hreply := (responds_cons hcall).1 h
    unfold finish at hreply
    simp only [handlingFor, wellKnownCoreHandler, Bool.false_eq_true, false_and, if_false]
      at hreply
    exact piggybacked_not_refused _ ht sender (by decide) _ _ ov hreply

/-- **A first block is refused exactly when all slots are held.** The 5.03 is sent if it fits a
datagram. -/
theorem refused_iff {s : Server cfg} {sender : Endpoint} {data : Bytes} {msg : Message}
    {t : Target} {opt : CoapOption} {b1 : BlockOption}
    (hdec : Message.decode cfg data = (.none, msg)) (hreq : IsRequest msg)
    (had : s.admitted msg = some t) (hopt : block1Option cfg msg = some opt)
    (hb1 : BlockOption.fromOption opt = some b1) (hnum : b1.num = 0)
    (hnew : s.findBlock1Session sender msg.token = none) :
    Refused cfg sender (s.receive (some (sender, data))).2 ↔
      codeSize cfg msg ≤ cfg.maxMsgSize ∧ ∀ i, (s.block1sessions i).active = true := by
  have ht := Message.decode_token hdec
  have herror : ∀ (s' : Server cfg) code, Refused cfg sender (s'.sendError msg sender code).2 ↔
      codeSize cfg msg ≤ cfg.maxMsgSize ∧ code = Code.serviceUnavailable :=
    fun s' code => s'.error_responds ht sender code _
  -- of the four answers to a block only one is 5.03
  have hcont : ∀ (s' : Server cfg) num m szx,
      ¬ Refused cfg sender (s'.sendContinue msg sender num m szx).2 := by
    intro s' num m szx h
    have hcarries := s'.carries_continue (BlockOption.toOptionValue num m szx) ht
    have hcode := ((hcarries.responds sender _).1 h).2
    rw [(s'.replyHeader_names msg Code.«continue»).2] at hcode
    exact absurd hcode (by decide)
  have hreceive : s.receive (some (sender, data)) = s.handleBlock1 opt t msg sender none := by
    rw [receive_request s sender hdec hreq]
    rcases s.handleRequest_cases msg sender with ⟨hnone, -⟩ | ⟨t', had', heq⟩
    · rw [had] at hnone
      cases hnone
    obtain rfl : t = t' := Option.some.inj (had.symm.trans had')
    rw [heq]
    rcases s.handleTarget_cases t msg sender with ⟨hnone, -⟩ | ⟨opt', hopt', heq⟩
    · rw [hopt] at hnone
      cases hnone
    obtain rfl : opt = opt' := Option.some.inj (hopt.symm.trans hopt')
    exact heq
  rw [hreceive]
  unfold handleBlock1
  rw [hb1]
  dsimp only
  rw [sessionFor, hnew]
  dsimp only
  rw [if_neg (not_not.2 hnum), allocateBlock1Session]
  -- the search for a free slot decides it
  cases hfree : s.block1sessions.find? fun b => !b.active with
  | none =>
    dsimp only
    rw [herror]
    refine and_congr_right fun _ => ⟨fun _ i => ?_, fun _ => rfl⟩
    simpa using Table.find?_eq_none.1 hfree i
  | some i =>
    -- a slot is free, and the block goes there
    have hi : (s.block1sessions i).active = false := by simpa using Table.find?_spec hfree
    refine ⟨fun h => absurd h ?_, fun h => ?_⟩
    · dsimp only
      rcases (s.withSession i (newSession sender msg.token)).handleBlock_cases i b1 t msg sender
        none with ⟨-, heq⟩ | ⟨-, -, heq⟩ | ⟨-, -, -, heq⟩ | ⟨-, -, -, heq⟩
      · exact fun h => hcont _ _ _ _ (heq ▸ h)
      · intro h
        have hcode := ((herror _ _).1 (heq ▸ h)).2
        exact absurd hcode (by decide)
      · exact fun h => hcont _ _ _ _ (heq ▸ h)
      · exact fun h => runHandler_not_refused _ t ht sender none i (heq ▸ h)
    · rw [h.2 i] at hi
      cases hi

/-- The time that passes over these polls, by the server's clock. -/
def elapsed : UInt32 → List UInt32 → Nat
  | _, [] => 0
  | t, u :: rest => (u - t).toNat + elapsed u rest

/-- Polls at these times to which nothing comes. -/
def silence (times : List UInt32) : List Action := times.map fun t => .poll t none

/-- **What would reclaim a session**: a time of silence after which it is gone. -/
def Reclaimed (s : Server cfg) (i : Fin cfg.maxBlock1Sessions) : Prop :=
  ∃ bound, ∀ times, bound < elapsed s.lastNowMs times →
    (((machine cfg).exec [] s (silence times)).2.block1sessions i).active = false

/-- **Uploads hold their slots to their end, and only then a new one is refused.** Over any
steps a session is held exactly until a step that ends its upload. The first block of a new
upload is answered 5.03 exactly when all slots are held. There is no third way to lose a slot or
to be refused one. -/
theorem held_until_end (s : Server cfg) :
    (∀ i, (s.block1sessions i).active = true → ∀ as : List Action,
      ((machine cfg).Meets (fun s a => ((s.step a).1.block1sessions i).active = true) s as ↔
        (machine cfg).Meets (fun s a => ¬ s.EndsUpload i a) s as)) ∧
    ∀ nowMs sender data msg t opt b1, Message.decode cfg data = (.none, msg) → IsRequest msg →
      (s.scanned nowMs).admitted msg = some t → block1Option cfg msg = some opt →
      BlockOption.fromOption opt = some b1 → b1.num = 0 →
      s.findBlock1Session sender msg.token = none →
      (Refused cfg sender ((s.scanned nowMs).receive (some (sender, data))).2 ↔
        codeSize cfg msg ≤ cfg.maxMsgSize ∧ ∀ i, (s.block1sessions i).active = true) := by
  refine ⟨fun i hi as => held_iff i as hi,
    fun nowMs sender data msg t opt b1 hdec hreq had hopt hb1 hnum hnew => ?_⟩
  have hsess := s.scanned_sessions nowMs
  have hnew' : (s.scanned nowMs).findBlock1Session sender msg.token = none := by
    rw [findBlock1Session, hsess]
    exact hnew
  rw [refused_iff hdec hreq had hopt hb1 hnum hnew', hsess]

-- ===========================================================================
-- Slots that are never given back
-- ===========================================================================

/-- Silence leaves the sessions alone. -/
theorem silence_keeps : ∀ (times : List UInt32) (hist : List ServerEvent) {s : Server cfg},
    s.control = .idle →
      ((machine cfg).exec hist s (silence times)).2.block1sessions = s.block1sessions ∧
        ((machine cfg).exec hist s (silence times)).2.resources = s.resources ∧
        ((machine cfg).exec hist s (silence times)).2.control = .idle
  | [], _, _, hidle => ⟨rfl, rfl, hidle⟩
  | t :: times, hist, s, hidle => by
    have hstep : (s.step (.poll t none)).1 = s.scanned t := step_poll_state hidle t none
    have hidle' : (s.step (.poll t none)).1.control = .idle := by
      rw [hstep, scanned_control, hidle]
    obtain ⟨hsess, hres, hctl⟩ :=
      silence_keeps times (hist ++ (s.step (.poll t none)).2) hidle'
    refine ⟨hsess.trans ?_, hres.trans ?_, hctl⟩
    · rw [hstep, scanned_sessions]
    · rw [hstep, scanned_resources]

/-- Polls may take any time. -/
theorem exists_elapsed : ∀ (n : Nat) (t : UInt32), ∃ times, elapsed t times = n
  | 0, _ => ⟨[], rfl⟩
  | n + 1, t => by
    obtain ⟨times, htimes⟩ := exists_elapsed n (t + 1)
    refine ⟨(t + 1) :: times, ?_⟩
    have hone : (t + 1 - t).toNat = 1 := by
      rw [UInt32.add_comm, UInt32.add_sub_cancel]
      rfl
    rw [elapsed, htimes, hone]
    omega

/-- The blocks 0 and 1 of a PUT to the root, from this port. -/
def sendFirst (port : UInt16) : Action :=
  .poll 0 (some ({ port }, putBlock 1 0x08 (List.replicate 16 0x41)))
def sendLast (port : UInt16) : Action :=
  .poll 0 (some ({ port }, putBlock 2 0x10 (List.replicate 4 0x41)))

/-- Port 1 sends its first block only. The upload of port 2 is complete, and then its first block
comes once more. -/
def pinnedRun : List Action :=
  [.call (.addResource (some [Uri.slash]) methodPut (some 0) none false), sendFirst 1, sendFirst 2,
    sendLast 2, .handlerReturns {}, sendFirst 2]

def pinnedServer : Server Config.blockwise := ((machine Config.blockwise).exec [] {} pinnedRun).2

/-- The resource of the uploads, and the first block of port 3. -/
def rootTarget : Target :=
  { index := 0
    resource := { path := [Uri.slash], methods := methodPut, handler := .app 0, userContext := none
                  observable := false, isTemplate := false }
    params := [], paramCount := 0 }
def newcomer : Bytes := putBlock 1 0x08 (List.replicate 16 0x42)
def newcomerMessage : Message := (Message.decode Config.blockwise newcomer).2
def newcomerOption : CoapOption := { number := OptionNumber.block1, length := 1, value := some [0x08] }

theorem pinned_newcomer :
    Message.decode Config.blockwise newcomer = (.none, newcomerMessage) ∧
      IsRequest newcomerMessage ∧ pinnedServer.admitted newcomerMessage = some rootTarget ∧
      block1Option Config.blockwise newcomerMessage = some newcomerOption ∧
      BlockOption.fromOption newcomerOption = some { num := 0, m := true, szx := 0 } ∧
      pinnedServer.findBlock1Session { port := 3 } newcomerMessage.token = none ∧
      codeSize Config.blockwise newcomerMessage ≤ Config.blockwise.maxMsgSize ∧
      (∀ i, (pinnedServer.block1sessions i).active = true) ∧ pinnedServer.control = .idle := by
  refine ⟨?_, ?_, ?_, ?_, ?_, ?_, ?_, ?_, ?_⟩ <;> decide +kernel

theorem held_until_end_pinned :
    ((pinnedServer.block1sessions ⟨0, by decide⟩).active = true ∧
      ((machine Config.blockwise).Meets
          (fun s a => ((s.step a).1.block1sessions ⟨0, by decide⟩).active = true) pinnedServer
          [.poll 5 none] ↔
        (machine Config.blockwise).Meets (fun s a => ¬ s.EndsUpload ⟨0, by decide⟩ a) pinnedServer
          [.poll 5 none])) ∧
    (Refused Config.blockwise { port := 3 }
        ((pinnedServer.scanned 5).receive (some ({ port := 3 }, newcomer))).2 ↔
      codeSize Config.blockwise newcomerMessage ≤ Config.blockwise.maxMsgSize ∧
        ∀ i, (pinnedServer.block1sessions i).active = true) := by
  obtain ⟨hdec, hreq, -, hopt, hb1, hnew, -, hall, -⟩ := pinned_newcomer
  have had : (pinnedServer.scanned 5).admitted newcomerMessage = some rootTarget := by
    decide +kernel
  exact ⟨⟨hall _, (held_until_end pinnedServer).1 _ (hall _) _⟩,
    (held_until_end pinnedServer).2 5 _ _ _ _ _ _ hdec hreq had hopt hb1 rfl hnew⟩

/-- The request is admitted by the resources alone. -/
theorem admitted_congr {s s' : Server cfg} (h : s'.resources = s.resources) (msg : Message) :
    s'.admitted msg = s.admitted msg := by
  unfold admitted findTarget
  rw [h]

/-- **Slots are never given back**: whatever the bound, neither session is gone after more
silence, and the first block of another upload is refused all along. The two slots of the build
are held by two peers that have gone. -/
theorem not_reclaimed :
    (∃ hist, (machine Config.blockwise).Run (fun _ _ => True) hist pinnedServer) ∧
      (∀ i, (pinnedServer.block1sessions i).active = true ∧ ¬ pinnedServer.Reclaimed i) ∧
      ∀ times nowMs, Refused Config.blockwise { port := 3 }
        ((((machine Config.blockwise).exec [] pinnedServer (silence times)).2.scanned
          nowMs).receive (some ({ port := 3 }, newcomer))).2 := by
  obtain ⟨hdec, hreq, had, hopt, hb1, hnew, hsize, hall, hidle⟩ := pinned_newcomer
  refine ⟨⟨_, .exec .start (Machine.meets_of_forall (fun _ _ => trivial) _ pinnedRun)⟩,
    fun i => ⟨hall i, ?_⟩, fun times nowMs => ?_⟩
  · rintro ⟨bound, hgone⟩
    obtain ⟨times, htimes⟩ := exists_elapsed (bound + 1) pinnedServer.lastNowMs
    have hfree := hgone times (by omega)
    rw [(silence_keeps times [] hidle).1, hall i] at hfree
    cases hfree
  · obtain ⟨hsess, hres, -⟩ := silence_keeps times [] hidle
    generalize ((machine Config.blockwise).exec [] pinnedServer (silence times)).2 = s at hsess hres
    have hsess' := (s.scanned_sessions nowMs).trans hsess
    have hres' := (s.scanned_resources nowMs).trans hres
    have hnew' : (s.scanned nowMs).findBlock1Session { port := 3 } newcomerMessage.token =
        none := by
      rw [findBlock1Session, hsess']
      exact hnew
    refine (refused_iff hdec hreq ((admitted_congr hres' _).trans had) hopt hb1 rfl hnew').2
      ⟨hsize, fun i => ?_⟩
    rw [hsess']
    exact hall i

end Server

end PulseCoap
