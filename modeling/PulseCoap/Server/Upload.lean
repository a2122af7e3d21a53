import PulseCoap.Server.Spec

/-!
# PulseCoAP — Block1 uploads stay whole

A client cuts a payload into blocks and sends them under one token. The server
collects the blocks of an (endpoint, token) pair in a session and accepts a
block by its number alone, so a session left over from an abandoned upload takes
the blocks of the next upload under the same token.

`Traced` puts beside the server which upload opened each session. As long as a
block only ever joins a session that its own upload has opened, a session holds
a prefix of that upload, and the body a handler gets is the whole payload.

Which upload a block belongs to is not in the datagram: the client knows. So the
runs are tagged, and `SendsBlocks` says that each Block1 request of the peer is
the block it claims to be of the upload in its tag. Two uploads may be under way
at the same time under different tokens, or one after the other under the same
one; only the session they come to matters.

* `Upload`, `IsBlock` — what the client sends.
* `JoinsOwn` — the condition on a step.
* `Assembled` — the invariant of a session.
* `uploads_whole` — the result, over all runs.
* `uploads_mixed` — two uploads under one token end up in one body.
* `Whole` — every open session of the peer is assembled from one upload.
-/

namespace PulseCoap

namespace Server

variable {cfg : Config}

/-! ## Uploads -/

/-- One payload cut into blocks. `path` is the string the Uri-Path options join
to, `none` when it is too long for the server. -/
structure Upload where
  token  : Bytes := []
  path   : Option Bytes := none
  method : Code := Code.put
  blocks : List Bytes := []
deriving DecidableEq, Repr

/-- The payload of an upload. -/
def Upload.payload (u : Upload) : Bytes := u.blocks.flatten

/-- The message is the block of this upload that its Block1 option numbers. -/
def IsBlock (cfg : Config) (u : Upload) (msg : Message) (opt : CoapOption) : Prop :=
  ∃ b1 ∈ BlockOption.fromOption opt,
    msg.token = u.token ∧ msg.code = u.method ∧
      Uri.joinUriPath msg cfg.maxUriPathLen = u.path ∧
      u.blocks[b1.num.toNat]? = some msg.payloadBytes ∧
      b1.m = decide (b1.num.toNat + 1 < u.blocks.length)

instance (u : Upload) (msg : Message) (opt : CoapOption) : Decidable (IsBlock cfg u msg opt) :=
  inferInstanceAs (Decidable (∃ b1 ∈ BlockOption.fromOption opt, _))

/-- A step of the server, and the upload a Block1 request in it belongs to. -/
structure Tagged where
  action : Action
  upload : Upload := {}
deriving DecidableEq, Repr

/-- The Block1 PUT or POST from `peer` that a step delivers. -/
def uploadBlock (cfg : Config) (peer : Endpoint) (a : Action) : Option (Message × CoapOption) :=
  match a with
  | .poll _ (some (sender, data)) =>
    let r := Message.decode cfg data
    if sender = peer ∧ r.1 = .none ∧ IsRequest r.2 then
      (block1Option cfg r.2).map fun opt => (r.2, opt)
    else none
  | _ => none

/-- Every Block1 request of `peer` is a block of the upload it is tagged with. -/
def SendsBlocks (cfg : Config) (peer : Endpoint) (a : Tagged) : Prop :=
  ∀ b ∈ uploadBlock cfg peer a.action, IsBlock cfg a.upload b.1 b.2

instance (peer : Endpoint) (a : Tagged) : Decidable (SendsBlocks cfg peer a) :=
  inferInstanceAs (Decidable (∀ b ∈ uploadBlock cfg peer a.action, _))

/-! ## The server and the history of its sessions -/

/-- The server, and the upload that opened each of its sessions. -/
structure Traced (cfg : Config) where
  server  : Server cfg := {}
  openers : Table cfg.maxBlock1Sessions Upload := fun _ => {}

/-- A step of the server; a session that becomes active was opened by the
upload at hand. -/
def Traced.next (st : Traced cfg) (a : Tagged) : Traced cfg × List ServerEvent :=
  let r := st.server.step a.action
  ({ server := r.1
     openers := fun i =>
       if !(st.server.block1sessions i).active && (r.1.block1sessions i).active then a.upload
       else st.openers i }, r.2)

def traced (cfg : Config) : Machine (Traced cfg) Tagged ServerEvent where
  init := {}
  next := Traced.next

/-- A block with the number its session expects comes from the upload that has
opened the session. -/
def JoinsOwn (peer : Endpoint) (st : Traced cfg) (a : Tagged) : Prop :=
  ∀ b ∈ uploadBlock cfg peer a.action, ∀ i ∈ st.server.findBlock1Session peer b.1.token,
    ∀ b1 ∈ BlockOption.fromOption b.2,
      b1.num = (st.server.block1sessions i).nextExpectedNum → st.openers i = a.upload

instance (peer : Endpoint) (st : Traced cfg) (a : Tagged) : Decidable (JoinsOwn peer st a) :=
  inferInstanceAs (Decidable (∀ b ∈ uploadBlock cfg peer a.action, _))

/-! ## The invariant -/

/-- A session holds the blocks of the upload up to the one it expects. -/
structure Assembled (u : Upload) (b : Block1Session) : Prop where
  within : b.nextExpectedNum.toNat ≤ u.blocks.length
  buffer : b.buffer = (u.blocks.take b.nextExpectedNum.toNat).flatten

/-- Every open session of `peer` is assembled from one upload. -/
def Whole (peer : Endpoint) (st : Traced cfg) : Prop :=
  ∀ i, (st.server.block1sessions i).active = true → (st.server.block1sessions i).remote = peer →
    Assembled (st.openers i) (st.server.block1sessions i)

/-- A new session has nothing of the upload yet, which is its first part. -/
theorem assembled_new (u : Upload) (remote : Endpoint) (token : Bytes) :
    Assembled u (newSession remote token) where
  within := Nat.zero_le _
  buffer := rfl

/-- The next block of the same upload keeps a session assembled. -/
theorem Assembled.append {u : Upload} {b : Block1Session} (h : Assembled u b) {msg : Message}
    {opt : CoapOption} {b1 : BlockOption} (hb1 : BlockOption.fromOption opt = some b1)
    (hblock : u.blocks[b1.num.toNat]? = some msg.payloadBytes) (hnum : b1.num = b.nextExpectedNum) :
    Assembled u (appended b msg.payloadBytes) := by
  have hlt := BlockOption.fromOption_num hb1
  rw [hnum] at hlt hblock
  have hnext : (b.nextExpectedNum + 1).toNat = b.nextExpectedNum.toNat + 1 := by
    rw [UInt32.toNat_add]
    have h1 : (1 : UInt32).toNat = 1 := rfl
    rw [h1]
    omega
  constructor
  · show (b.nextExpectedNum + 1).toNat ≤ _
    rw [hnext]
    obtain ⟨hlen, -⟩ := List.getElem?_eq_some_iff.1 hblock
    omega
  · show b.buffer ++ msg.payloadBytes = (u.blocks.take (b.nextExpectedNum + 1).toNat).flatten
    rw [hnext, List.take_add_one, hblock, List.flatten_append, ← h.buffer]
    simp

/-- After the last block a session holds the whole payload. -/
theorem Assembled.payload {u : Upload} {b : Block1Session} (h : Assembled u b)
    (hall : u.blocks.length ≤ b.nextExpectedNum.toNat) : b.buffer = u.payload := by
  rw [h.buffer, List.take_of_length_le hall]
  rfl

/-! ## One step -/

/-- What a handler call with a body must be. -/
def FullBody (peer : Endpoint) (st : Traced cfg) (a : Tagged) (e : ServerEvent) : Prop :=
  ∀ index handler req ctx body, e = .handled index handler req ctx → req.remote = peer →
    req.block1Body = some body →
    body = a.upload.payload ∧ req.method = a.upload.method ∧
      ∃ path t, a.upload.path = some path ∧ st.server.findTarget path = some t ∧ t.index = index

/-- What is sent calls no handler. -/
theorem fullBody_sent {peer : Endpoint} {st : Traced cfg} {a : Tagged} {events : List ServerEvent}
    (h : OnlySends events) : ∀ e ∈ events, FullBody peer st a e := by
  intro e he index handler req ctx body heq
  rw [heq] at he
  exact absurd he h.not_handled

/-- A session that was open keeps its opener. -/
theorem openers_kept {st : Traced cfg} (a : Tagged) {j : Fin cfg.maxBlock1Sessions}
    (hact : (st.server.block1sessions j).active = true) :
    (st.next a).1.openers j = st.openers j := by
  show (if (!(st.server.block1sessions j).active && _) = true then _ else _) = _
  rw [hact]
  rfl

/-- Sessions that stay as they are, or are closed, stay whole. -/
theorem Whole.keep {peer : Endpoint} {st : Traced cfg} {a : Tagged} (h : Whole peer st)
    (hkeep : ∀ i, ((st.next a).1.server.block1sessions i).active = true →
      (st.next a).1.server.block1sessions i = st.server.block1sessions i) :
    Whole peer (st.next a).1 := by
  intro i hact hrem
  have hsame := hkeep i hact
  rw [hsame] at hact hrem ⊢
  rw [openers_kept a hact]
  exact h i hact hrem

/-- A session that is closed, or belongs to another endpoint, does not count. -/
theorem Whole.set {peer : Endpoint} {st : Traced cfg} {a : Tagged} (h : Whole peer st)
    {i : Fin cfg.maxBlock1Sessions} {b : Block1Session}
    (hset : (st.next a).1.server.block1sessions = st.server.block1sessions.set i b)
    (hb : b.active = true → b.remote ≠ peer) :
    Whole peer (st.next a).1 := by
  intro j hact hrem
  by_cases hj : j = i
  · rw [hset, hj, Table.set_self] at hact hrem
    exact absurd hrem (hb hact)
  · -- the other sessions are as before
    rw [hset, Table.set_ne _ _ hj] at hact hrem ⊢
    rw [openers_kept a hact]
    exact h j hact hrem

/-- The upload a step with a Block1 request of `peer` is about. -/
theorem uploadBlock_eq {peer : Endpoint} {nowMs : UInt32} {data : Bytes} {msg : Message}
    {opt : CoapOption} (hdec : Message.decode cfg data = (.none, msg)) (hreq : IsRequest msg)
    (hopt : block1Option cfg msg = some opt) :
    uploadBlock cfg peer (.poll nowMs (some (peer, data))) = some (msg, opt) := by
  unfold uploadBlock
  dsimp only
  rw [hdec, if_pos ⟨rfl, rfl, hreq⟩, hopt]
  rfl

section

variable {peer : Endpoint} {st : Traced cfg} {a : Tagged} {msg : Message} {opt : CoapOption}
  {b1 : BlockOption} {i : Fin cfg.maxBlock1Sessions} {b : Block1Session}
  (h : Whole peer st) (hown : JoinsOwn peer st a)
  (hblock : uploadBlock cfg peer a.action = some (msg, opt))
  (hb1 : BlockOption.fromOption opt = some b1) (hmeets : st.server.Meets i peer msg.token b)
  (hnum : b1.num = b.nextExpectedNum)

include hown hblock hb1 hmeets hnum

/-- The session a block joins counts as opened by the block's upload. -/
theorem JoinsOwn.opener (b' : Block1Session) (hb' : b'.active = true)
    (hset : (st.next a).1.server.block1sessions = st.server.block1sessions.set i b') :
    (st.next a).1.openers i = a.upload := by
  have hact : ((st.next a).1.server.block1sessions i).active = true := by
    rw [hset, Table.set_self]
    exact hb'
  show (if (!(st.server.block1sessions i).active &&
    ((st.next a).1.server.block1sessions i).active) = true then _ else _) = _
  rw [hact]
  rcases hmeets with ⟨hf, rfl⟩ | ⟨-, hidle, rfl⟩
  · obtain ⟨hold, -, -⟩ := findBlock1Session_spec hf
    rw [hold]
    exact hown (msg, opt) hblock i hf b1 hb1 hnum
  · rw [hidle]
    rfl

include h

/-- The session a block joins is assembled from the block's own upload. -/
theorem Whole.meets : Assembled a.upload b := by
  rcases hmeets with ⟨hf, rfl⟩ | ⟨-, -, rfl⟩
  · obtain ⟨hact, hrem, -⟩ := findBlock1Session_spec hf
    rw [← hown (msg, opt) hblock i hf b1 hb1 hnum]
    exact h i hact hrem
  · exact assembled_new _ _ _

/-- A block that joins its own session keeps the sessions whole. -/
theorem Whole.take (hsends : SendsBlocks cfg peer a)
    (hset : (st.next a).1.server.block1sessions =
      st.server.block1sessions.set i (appended b msg.payloadBytes)) :
    Whole peer (st.next a).1 := by
  obtain ⟨b1', hb1', -, -, -, hpayload, -⟩ := hsends (msg, opt) hblock
  obtain rfl : b1' = b1 := Option.some.inj ((Option.mem_def.1 hb1').symm.trans hb1)
  have hasm := (h.meets hown hblock hb1 hmeets hnum).append hb1 hpayload hnum
  have hopener := hown.opener hblock hb1 hmeets hnum (appended b msg.payloadBytes)
    hmeets.owner.2.2 hset
  intro j hact hrem
  by_cases hj : j = i
  · subst hj
    rw [hopener, hset, Table.set_self]
    exact hasm
  · rw [hset, Table.set_ne _ _ hj] at hact hrem ⊢
    rw [openers_kept a hact]
    exact h j hact hrem

/-- The last block completes the payload, and its handler is the one its upload
was addressed to. -/
theorem Whole.last (hsends : SendsBlocks cfg peer a) (hm : b1.m = false) {s : Server cfg}
    {t : Target} {events : List ServerEvent} (hres : s.resources = st.server.resources)
    (had : s.admitted msg = some t)
    (hcall : CallsWith (some (appended b msg.payloadBytes).buffer) t msg peer events) :
    ∀ e ∈ events, FullBody peer st a e := by
  obtain ⟨b1', hb1', -, hmethod, hpath, hpayload, hmore⟩ := hsends (msg, opt) hblock
  obtain rfl : b1' = b1 := Option.some.inj ((Option.mem_def.1 hb1').symm.trans hb1)
  have hasm := (h.meets hown hblock hb1 hmeets hnum).append hb1 hpayload hnum
  -- More is not set, so this is the last block of the upload
  have hall : a.upload.blocks.length ≤ (appended b msg.payloadBytes).nextExpectedNum.toNat := by
    have hlt := BlockOption.fromOption_num hb1
    rw [hm] at hmore
    have hlast : ¬ b1'.num.toNat + 1 < a.upload.blocks.length := of_decide_eq_false hmore.symm
    have h1 : (1 : UInt32).toNat = 1 := rfl
    show _ ≤ (b.nextExpectedNum + 1).toNat
    rw [← hnum, UInt32.toNat_add, h1]
    omega
  obtain ⟨path, hjoin, hfind⟩ := admitted_path had
  have hfind' : st.server.findTarget path = some t := by
    unfold findTarget at hfind ⊢
    rwa [← hres]
  obtain ⟨req, rest, hev, hmeth, -, -, hbody, hrest⟩ := hcall
  intro e he
  rw [hev] at he
  rcases List.mem_cons.1 he with rfl | he
  · intro index handler req' ctx body heq hrem hbody'
    cases heq
    rw [hbody] at hbody'
    refine ⟨?_, hmeth.trans hmethod, path, t, hpath.symm.trans hjoin, hfind', rfl⟩
    rw [← Option.some.inj hbody']
    exact hasm.payload hall
  · exact fullBody_sent hrest e he

end

/-- Without a body, or for another endpoint, a handler call says nothing. -/
theorem fullBody_call {peer sender : Endpoint} {st : Traced cfg} {a : Tagged} {t : Target}
    {msg : Message} {body : Option Bytes} {events : List ServerEvent}
    (hcall : CallsWith body t msg sender events) (h : body = none ∨ sender ≠ peer) :
    ∀ e ∈ events, FullBody peer st a e := by
  obtain ⟨req, rest, hev, -, -, hremote, hbody, hrest⟩ := hcall
  intro e he
  rw [hev] at he
  rcases List.mem_cons.1 he with rfl | he
  · intro index handler req' ctx body' heq hrem hbody'
    cases heq
    rcases h with rfl | h
    · rw [hbody] at hbody'
      cases hbody'
    · exact absurd (hremote.symm.trans hrem) h
  · exact fullBody_sent hrest e he

/-- **One datagram.** It keeps the sessions of `peer` whole and hands no body to a handler but
the payload of the upload it belongs to. The other peers may send what they like. -/
theorem Whole.receive {peer : Endpoint} {st : Traced cfg} {a : Tagged} {nowMs : UInt32}
    {rx : Option (Endpoint × Bytes)} (h : Whole peer st) (hsends : SendsBlocks cfg peer a)
    (hown : JoinsOwn peer st a) (ha : a.action = .poll nowMs rx)
    (hnext : (st.next a).1.server.block1sessions =
      ((st.server.scanned nowMs).receive rx).1.block1sessions) :
    Whole peer (st.next a).1 ∧
      ∀ e ∈ ((st.server.scanned nowMs).receive rx).2, FullBody peer st a e := by
  have hsess := st.server.scanned_sessions nowMs
  have hres := st.server.scanned_resources nowMs
  -- most datagrams leave the sessions alone
  have hquiet : ∀ {r : Server cfg × List ServerEvent}, (st.server.scanned nowMs).receive rx = r →
      r.1.block1sessions = st.server.block1sessions → (∀ e ∈ r.2, FullBody peer st a e) →
      Whole peer (st.next a).1 ∧
        ∀ e ∈ ((st.server.scanned nowMs).receive rx).2, FullBody peer st a e := by
    rintro r rfl hsame hev
    exact ⟨h.keep fun i _ => by rw [hnext, hsame], hev⟩
  rcases (st.server.scanned nowMs).receive_cases rx with heq | ⟨sender, data, msg, -, -, -, heq⟩ |
    ⟨sender, data, msg, -, -, -, heq⟩ | ⟨sender, data, msg, hrx, hdec, hreq, heq⟩
  · exact hquiet heq hsess (fullBody_sent onlySends_nil)
  · obtain ⟨obs', hobs⟩ := (st.server.scanned nowMs).handleReset_spec sender msg.messageId
    exact hquiet heq (by rw [hobs]; exact hsess) (fullBody_sent onlySends_nil)
  · exact hquiet heq hsess (fullBody_sent onlySends_nil)
  rcases (st.server.scanned nowMs).handleRequest_cases msg sender with ⟨-, code, herr⟩ |
    ⟨t, had, htarget⟩
  · obtain ⟨⟨id, hid⟩, hs⟩ := (st.server.scanned nowMs).justReplies_error msg sender code
    exact hquiet (heq.trans herr) (by rw [hid]; exact hsess) (fullBody_sent hs)
  rcases (st.server.scanned nowMs).handleTarget_cases t msg sender with ⟨-, obs', hrun⟩ |
    ⟨opt, hopt, hrun⟩
  · -- outside the Block1 branch the handler gets no body
    obtain ⟨hkeep, hcall⟩ :=
      ((st.server.scanned nowMs).withObservers obs').runHandler_sessions t msg sender
        ((st.server.scanned nowMs).handleObserve t msg sender).2 none
    exact hquiet (heq.trans (htarget.trans hrun)) ((hkeep.elim id id).trans hsess)
      (fullBody_call hcall (.inl rfl))
  have hr := heq.trans (htarget.trans hrun)
  rcases (st.server.scanned nowMs).handleBlock1_cases opt t msg sender none with ⟨hkeep, hs⟩ |
    ⟨b1, i, b, hb1, hmeets, hnum, htakes, -⟩
  · exact hquiet hr (hkeep.trans hsess) (fullBody_sent hs)
  -- the block joins session `i`, which belongs to its sender
  have hmeets' : st.server.Meets i sender msg.token b := by
    obtain ⟨pool, obs, hscan⟩ := st.server.scanned_spec nowMs
    rw [hscan] at hmeets
    exact hmeets
  have hremote := hmeets.owner.1
  rw [hr] at hnext ⊢
  rw [hsess] at htakes
  by_cases hpeer : sender = peer
  · subst hpeer
    have hblock : uploadBlock cfg sender a.action = some (msg, opt) := by
      rw [ha, hrx]
      exact uploadBlock_eq hdec hreq hopt
    have htake := h.take hown hblock hb1 hmeets' hnum hsends
    rcases htakes with ⟨hset, hs⟩ | ⟨-, hset, hs⟩ | ⟨hm, hcall, hset⟩
    · exact ⟨h.set (hnext.trans hset) (fun hact => nomatch hact), fullBody_sent hs⟩
    · exact ⟨htake (hnext.trans hset), fullBody_sent hs⟩
    · refine ⟨?_, h.last hown hblock hb1 hmeets' hnum hsends hm hres had hcall⟩
      rcases hset with hset | hset
      · exact htake (hnext.trans hset)
      · exact h.set (hnext.trans hset) fun hact => nomatch hact
  · -- a block of another endpoint joins a session of that endpoint
    have hne : ∀ b' : Block1Session, b'.remote = b.remote → b'.active = true → b'.remote ≠ peer :=
      fun b' hb' _ => by rw [hb', hremote]; exact hpeer
    rcases htakes with ⟨hset, hs⟩ | ⟨-, hset, hs⟩ | ⟨-, hcall, hset⟩
    · exact ⟨h.set (hnext.trans hset) (hne _ rfl), fullBody_sent hs⟩
    · exact ⟨h.set (hnext.trans hset) (hne _ rfl), fullBody_sent hs⟩
    · refine ⟨?_, fullBody_call hcall (.inr hpeer)⟩
      rcases hset with hset | hset
      · exact h.set (hnext.trans hset) (hne _ rfl)
      · exact h.set (hnext.trans hset) (hne _ rfl)

/-- A step that leaves the sessions alone and only sends. -/
theorem Whole.quiet {peer : Endpoint} {st : Traced cfg} {a : Tagged} (h : Whole peer st)
    {s : Server cfg} {events : List ServerEvent} (hnext : st.server.step a.action = (s, events))
    (hsess : s.block1sessions = st.server.block1sessions) (hsends : OnlySends events) :
    Whole peer (st.next a).1 ∧ ∀ e ∈ (st.next a).2, FullBody peer st a e := by
  refine ⟨h.keep fun i _ => ?_, ?_⟩
  · show (st.server.step a.action).1.block1sessions i = _
    rw [hnext]
    exact congrFun hsess i
  · show ∀ e ∈ (st.server.step a.action).2, _
    rw [hnext]
    exact fullBody_sent hsends

/-- **One step.** Only a poll changes the sessions that are open; the return of a handler closes
one. -/
theorem Whole.step {peer : Endpoint} {st : Traced cfg} {a : Tagged} (h : Whole peer st)
    (hsends : SendsBlocks cfg peer a) (hown : JoinsOwn peer st a) :
    Whole peer (st.next a).1 ∧ ∀ e ∈ (st.next a).2, FullBody peer st a e := by
  cases ha : a.action with
  | call c =>
    have hkeeps := st.server.call_keeps c
    have hnext : st.server.step a.action = ((st.server.call c).1,
        (st.server.call c).2.2 ++ [.returned (st.server.call c).2.1]) := by rw [ha]; rfl
    refine ⟨h.keep fun i _ => ?_, ?_⟩
    · show (st.server.step a.action).1.block1sessions i = _
      rw [hnext]
      exact congrFun hkeeps.sessions i
    · show ∀ e ∈ (st.server.step a.action).2, _
      rw [hnext]
      intro e he
      rcases List.mem_append.1 he with he | he
      · exact fullBody_sent hkeeps.sends e he
      · intro index handler req ctx body heq
        rw [List.mem_singleton.1 he] at heq
        cases heq
  | poll nowMs rx =>
    cases hctl : st.server.control with
    | handling hd => exact h.quiet (by rw [ha, step_poll_busy hctl]) rfl onlySends_nil
    | idle =>
      obtain ⟨ticks, hticks, hpoll⟩ := st.server.poll_eq nowMs rx
      have hnext : st.server.step a.action = (((st.server.scanned nowMs).receive rx).1,
          ticks ++ ((st.server.scanned nowMs).receive rx).2) := by
        rw [ha, step_poll hctl, hpoll]
      obtain ⟨hwhole, hev⟩ := h.receive hsends hown ha (by
        show (st.server.step a.action).1.block1sessions = _
        rw [hnext])
      refine ⟨hwhole, ?_⟩
      show ∀ e ∈ (st.server.step a.action).2, _
      rw [hnext]
      intro e he
      rcases List.mem_append.1 he with he | he
      · exact fullBody_sent hticks e he
      · exact hev e he
  | handlerReturns res =>
    cases hctl : st.server.control with
    | idle => exact h.quiet (by rw [ha, step_returns_idle hctl]) rfl onlySends_nil
    | handling hd =>
      obtain ⟨⟨id, hstate⟩, hfin⟩ := finish_spec { st.server with control := .idle } hd res
      have hnext : st.server.step a.action =
          finish { st.server with control := .idle } hd res := by rw [ha, step_returns hctl]
      -- the session of the handler is freed
      have hsess : (st.next a).1.server.block1sessions =
          (st.server.freeBlock1Session? hd.session).block1sessions := by
        show (st.server.step a.action).1.block1sessions = _
        rw [hnext, hstate]
        cases hd.session <;> rfl
      refine ⟨?_, ?_⟩
      · cases hses : hd.session with
        | none =>
          rw [hses] at hsess
          exact h.keep fun i _ => congrFun hsess i
        | some i =>
          rw [hses] at hsess
          exact h.set hsess fun hact => nomatch hact
      · show ∀ e ∈ (st.server.step a.action).2, _
        rw [hnext]
        exact fullBody_sent hfin

/-! ## All runs -/

/-- **In every run** a session has the first part of one upload, whichever blocks are lost, late
or repeated. -/
theorem whole_of_run {peer : Endpoint} {hist : List ServerEvent} {st : Traced cfg}
    (r : (traced cfg).Run (fun st a => SendsBlocks cfg peer a ∧ JoinsOwn peer st a) hist st) :
    Whole peer st := by
  refine r.invariant (I := fun _ st => Whole peer st) ?_ ?_
  · intro i hact
    cases hact
  · intro hist st a _ h hp
    exact (h.step hp.1 hp.2).1

/-- **Block1 uploads stay whole.** In every run in which every Block1 request of
`peer` is a block of some upload, and a block with the number its session
expects comes from the upload that opened the session: a handler that runs with
a body for `peer` gets the whole payload of one upload, and the upload was
addressed to its resource and method. -/
theorem uploads_whole {peer : Endpoint} {hist : List ServerEvent} {st : Traced cfg} {a : Tagged}
    {index : Nat} {handler : Handler} {req : Request} {ctx : Option Ref} {body : Bytes}
    (r : (traced cfg).Run (fun st a => SendsBlocks cfg peer a ∧ JoinsOwn peer st a) hist st)
    (hsends : SendsBlocks cfg peer a) (hown : JoinsOwn peer st a)
    (hcall : .handled index handler req ctx ∈ ((traced cfg).next st a).2)
    (hremote : req.remote = peer) (hbody : req.block1Body = some body) :
    body = a.upload.payload ∧ req.method = a.upload.method ∧
      ∃ path t, a.upload.path = some path ∧ st.server.findTarget path = some t ∧
        t.index = index :=
  ((whole_of_run r).step hsends hown).2 _ hcall index handler req ctx body rfl hremote hbody

/-- A block of a PUT to the root under token 7: its Block1 value and payload. -/
def putBlock (messageId block1 : UInt8) (payload : Bytes) : Bytes :=
  [0x41, 0x03, 0x00, messageId, 0x07, 0xD1, 0x0E, block1, 0xFF] ++ payload

/-- An upload of 20 equal bytes in blocks of 16. -/
def uploadOf (b : UInt8) : Upload where
  token := [0x07]
  path := some [Uri.slash]
  method := Code.put
  blocks := [List.replicate 16 b, List.replicate 4 b]

/-- Registering the resource the uploads go to. -/
def addRoot : Tagged :=
  { action := .call (.addResource (some [Uri.slash]) methodPut (some 0) none false) }

/-- The datagrams of block 0 and block 1 of `uploadOf b`. -/
def firstBlock (b : UInt8) : Tagged :=
  { action := .poll 0 (some ({}, putBlock 1 0x08 (List.replicate 16 b))), upload := uploadOf b }
def lastBlock (b : UInt8) : Tagged :=
  { action := .poll 0 (some ({}, putBlock 2 0x10 (List.replicate 4 b))), upload := uploadOf b }

/-- The handler call for the last block of `uploadOf b` with this body. -/
def bodyCall (b : UInt8) (body : Bytes) : ServerEvent :=
  .handled 0 (.app 0)
    { method := Code.put
      message := (Message.decode Config.blockwise (putBlock 2 0x10 (List.replicate 4 b))).2
      remote := {}, deferHandle := 0, block1Body := some body, params := [], paramCount := 0 }
    none

theorem uploads_whole_one :
    List.replicate 20 0x41 = (uploadOf 0x41).payload ∧ Code.put = (uploadOf 0x41).method ∧
      ∃ path t, (uploadOf 0x41).path = some path ∧
        ((traced Config.blockwise).exec [] {} [addRoot, firstBlock 0x41]).2.server.findTarget path =
          some t ∧ t.index = 0 := by
  have hmeets : (traced Config.blockwise).Meets
      (fun st a => SendsBlocks Config.blockwise {} a ∧ JoinsOwn {} st a) {}
      [addRoot, firstBlock 0x41] := by decide +kernel
  exact uploads_whole (Machine.Run.start.exec hmeets) (a := lastBlock 0x41) (by decide +kernel)
    (by decide +kernel) (show bodyCall 0x41 _ ∈ _ by decide +kernel) rfl rfl

/-- The first upload stops after block 0. The second one under its token is told
to go on, and the handler gets the first block of the one and the last block of
the other. -/
theorem uploads_mixed :
    (traced Config.blockwise).Meets (fun _ a => SendsBlocks Config.blockwise {} a) {}
        [addRoot, firstBlock 0x41, firstBlock 0x42, lastBlock 0x42] ∧
      bodyCall 0x42 (List.replicate 16 0x41 ++ List.replicate 4 0x42) ∈
        ((traced Config.blockwise).exec [] {}
          [addRoot, firstBlock 0x41, firstBlock 0x42, lastBlock 0x42]).1 ∧
      List.replicate 16 0x41 ++ List.replicate 4 0x42 ≠ (uploadOf 0x41).payload ∧
      List.replicate 16 0x41 ++ List.replicate 4 0x42 ≠ (uploadOf 0x42).payload := by
  refine ⟨?_, ?_, ?_, ?_⟩ <;> decide +kernel

end Server

end PulseCoap
