import PulseCoap.System.Cursors

/-!
# PulseCoAP — the server's cursor

Every step of the server keeps `ServerSide`.

By `received` a datagram does one of six things to the sessions. For each of them
the answers that the server has sent must still be true: an answer which names the
block in flight says that a session expects the block behind it, so what is to be
shown is that this session is not touched, or has moved on. A session whose handler
has been called has the whole body, so it expects no block of the payload any more
when the handler returns and it is freed.

* `ServerSide.expects` — the numbers a session can be given.
* `ServerSide.receive`, `ServerSide.finish`, `ServerSide.call` — the three steps.
* `ServerSide.step` — all of them.
-/

namespace PulseCoap

namespace System

open Server (Sends Lacking Names namedBlock BringsBlock Received)

variable {cfg : Config} {link : Link} {up : Block1UploadState} {s : Server cfg} {toClient : List Bytes}

/-- What names no block answers nothing. Only a reply with a Block1 option can move the cursor
of the client. -/
theorem answers_lacking {data : Bytes} (h : Server.LacksBlock1 cfg data) : Answers link up s data := by
  intro msg hdec
  obtain ⟨hrst, hnone⟩ := h msg hdec
  refine ⟨hrst, fun num hnum => ?_⟩
  rw [namedBlock, hnone] at hnum
  cases hnum

/-- The sessions of the upload are where they were, so a datagram that answers the block in
flight still does. A session that is at another block does not matter. -/
theorem Answers.congr {s' : Server cfg} {data : Bytes} (h : Answers link up s data)
    (hsess : ∀ j, Joined link up (s.block1sessions j) →
      (s.block1sessions j).nextExpectedNum.toNat = up.nextNum.toNat + 1 →
        s'.block1sessions j = s.block1sessions j) : Answers link up s' data := by
  intro msg hdec
  refine ⟨(h msg hdec).1, fun num hnum => ?_⟩
  obtain ⟨hle, hhas, hnow⟩ := (h msg hdec).2 num hnum
  refine ⟨hle, hhas, fun heq => ?_⟩
  obtain ⟨j, hj, hexp⟩ := hnow heq
  have hsame := hsess j hj hexp
  exact ⟨j, by rw [hsame]; exact hj, by rw [hsame]; exact hexp⟩

theorem forall_toClient {P : Bytes → Prop} {dest : Endpoint} {events : List ServerEvent}
    (hold : ∀ data ∈ toClient, P data)
    (hnew : Sends (fun dest' data => dest' = dest → P data) events) :
    ∀ data ∈ toClient ++ serverData dest events, P data := by
  intro data hdata
  rcases List.mem_append.1 hdata with hdata | hdata
  · exact hold data hdata
  · exact hnew dest data (mem_serverData.1 hdata) rfl

/-- A step that leaves the sessions alone and answers nothing. Most of what the server does is
of this kind, and the later lemmas only look at the rest. -/
theorem ServerSide.keep (h : ServerSide link up s toClient) {s' : Server cfg}
    {events : List ServerEvent} (htokens : s'.TokensFit) (hpool : s'.PoolSatisfies (Lacking cfg))
    (hsess : s'.block1sessions = s.block1sessions) (hctl : s'.control = s.control)
    (hsends : Sends (Lacking cfg) events) :
    ServerSide link up s' (toClient ++ serverData link.client events) where
  tables := h.tables.congr hsess
  tokens := htokens
  pool := hpool
  running := by
    rw [hctl]
    exact h.running
  inRange := by
    rw [hsess]
    exact h.inRange
  isOpen := by
    rw [hsess, hctl]
    exact h.isOpen
  ending := by
    rw [hsess, hctl]
    exact h.ending
  answers := by
    refine forall_toClient (fun data hdata => ?_) (hsends.mono fun _ _ hl _ => answers_lacking hl)
    exact (h.answers data hdata).congr fun j _ _ => by rw [hsess]

/-- A call of the API. It may send to the client, but nothing that names a block. -/
theorem ServerSide.call (h : ServerSide link up s toClient) (call : Server.ServerCall) :
    ServerSide link up (s.step (.call call)).1
      (toClient ++ serverData link.client (s.step (.call call)).2) := by
  have hkeeps := s.call_keeps call
  have hlacks := Server.lacks_call h.tokens call
  refine h.keep (h.tokens.step (.call call)) (h.pool.call hlacks) hkeeps.sessions hkeeps.control ?_
  exact Server.sends_append.2 ⟨hlacks, Server.sends_cons nofun (Server.sends_nil _)⟩

/-- The return of the handler closes the session of the request. Its reply has the handler's
code and no Block1 option, so it is not taken for a Continue. -/
theorem ServerSide.finish (h : ServerSide link up s toClient) {hd : Handling cfg}
    (hctl : s.control = .handling hd) (res : Response) :
    ServerSide link up (s.step (.handlerReturns res)).1
      (toClient ++ serverData link.client (s.step (.handlerReturns res)).2) := by
  have hstep : s.step (.handlerReturns res) =
      ({ s with control := .idle } : Server cfg).finish hd res := Server.step_returns hctl res
  have htokens := h.tokens.step (.handlerReturns res)
  have htables := h.tables.step (.handlerReturns res)
  rw [hstep] at htokens htables ⊢
  have hidle := ({ s with control := .idle } : Server cfg).finish_control hd res
  have hpool : (({ s with control := .idle } : Server cfg).finish hd res).1.PoolSatisfies
      (Lacking cfg) :=
    Server.PoolSatisfies.finish (s := { s with control := .idle }) h.pool hd res
  have hsends := Server.lacks_finish ({ s with control := .idle } : Server cfg)
    (h.running hd hctl) res
  obtain ⟨⟨id, hid⟩, -⟩ := ({ s with control := .idle } : Server cfg).finish_spec hd res
  generalize ({ s with control := .idle } : Server cfg).finish hd res = r at *
  -- the session of the request is closed, the others are as they were
  have hsess : ∀ j, hd.session ≠ some j → r.1.block1sessions j = s.block1sessions j := by
    intro j hj
    rw [hid]
    cases hsession : hd.session with
    | none => rfl
    | some k => exact Table.set_ne _ _ fun hjk => hj (by rw [hsession, hjk])
  have hclosed : ∀ j, hd.session = some j → ¬ Joined link up (r.1.block1sessions j) := by
    intro j hj hjoined
    have hact := hjoined.1
    rw [hid, hj] at hact
    simp [Server.freeBlock1Session?, Server.freeBlock1Session] at hact
  have hother : ∀ j, Joined link up (r.1.block1sessions j) →
      r.1.block1sessions j = s.block1sessions j :=
    fun j hj => hsess j fun hd => hclosed j hd hj
  -- an open session is another one's, or it is still the one from before
  refine ⟨htables, htokens, hpool, fun h hh => ?_, fun j hj => ?_, fun j hj => ?_,
    fun h _ hh => ?_, ?_⟩
  · rw [hidle] at hh
    cases hh
  · have hsame := hother j hj
    rw [hsame] at hj ⊢
    exact h.inRange j hj
  · have hsame := hother j hj
    rw [hsame] at hj ⊢
    refine (h.isOpen j hj).imp_right ?_
    rintro ⟨hd', hctl', hs⟩
    rw [hctl] at hctl'
    cases hctl'
    exact absurd (hsame ▸ hj) (hclosed j hs)
  · rw [hidle] at hh
    cases hh
  · -- a session that has the block in flight is not the one that has all
    refine forall_toClient (fun data hdata => ?_)
      (hsends.mono fun _ _ hl _ => answers_lacking hl)
    intro msg hdec
    refine ⟨(h.answers data hdata msg hdec).1, fun num hnum => ?_⟩
    obtain ⟨hle, hhas, hnow⟩ := (h.answers data hdata msg hdec).2 num hnum
    refine ⟨hle, hhas, fun heq => ?_⟩
    obtain ⟨j, hj, hexp⟩ := hnow heq
    have hsame := hsess j fun hs => h.ending hd j hctl hs hj (by rw [hexp, ← heq]; exact hhas)
    exact ⟨j, by rw [hsame]; exact hj, by rw [hsame]; exact hexp⟩

/-- What the condition on the steps says of a datagram the server is given. -/
structure Delivers (link : Link) (up : Block1UploadState) (s : Server cfg) (sender : Endpoint)
    (data : Bytes) : Prop where
  reaches : sender = link.client → Reaches cfg up data
  opens   : sender = link.client → ∀ msg b1, BringsBlock s data msg b1 → b1.num = 0 →
    s.findBlock1Session link.client msg.token = none →
      (∃ j, (s.block1sessions j).active = false) → msg.token = [up.token] →
        up.nextNum.toNat ≤ 1

section Block

variable {sender : Endpoint} {data : Bytes} {msg : Message} {b1 : BlockOption}
  {i : Fin cfg.maxBlock1Sessions} {b : Block1Session}

/-- A block that a session of the upload expects is the block in flight or the one before. The
network can bring older ones, but no session waits for these any more. -/
theorem ServerSide.expects (h : ServerSide link up s toClient) (hd : Delivers link up s sender data)
    (hblock : BringsBlock s data msg b1) (hmeets : s.Meets i sender msg.token b)
    (hnum : b1.num = b.nextExpectedNum) (hj : Joined link up b) :
    up.nextNum.toNat ≤ b1.num.toNat + 1 ∧ b1.num.toNat ≤ up.nextNum.toNat ∧
      (b1.m = true ↔ up.Has (b1.num.toNat + 1)) := by
  obtain ⟨hremote, htoken, -⟩ := hmeets.owner
  have hsender : sender = link.client := hremote ▸ hj.2.1
  obtain ⟨opt, hopt, hb1⟩ := hblock.block
  obtain ⟨-, hle, hm⟩ := hd.reaches hsender msg opt b1 hblock.decode hopt hb1
  refine ⟨?_, hle, hm⟩
  rcases hmeets with ⟨-, rfl⟩ | ⟨hfind, hfree, rfl⟩
  · have hrange := (h.inRange i hj).1
    rw [← hnum] at hrange
    omega
  · -- a new session
    have hzero : b1.num = 0 := hnum
    have := hd.opens hsender msg b1 hblock hzero (hsender ▸ hfind) ⟨i, hfree⟩ (htoken ▸ hj.2.2)
    omega

/-- The session that has the block in flight is not the one that takes a block, since that one
is still waiting for it. So what answers the block keeps doing so. -/
theorem ServerSide.answers_set (h : ServerSide link up s toClient)
    (hd : Delivers link up s sender data) (hblock : BringsBlock s data msg b1)
    (hmeets : s.Meets i sender msg.token b) (hnum : b1.num = b.nextExpectedNum) {s' : Server cfg}
    {b' : Block1Session} (hset : s'.block1sessions = s.block1sessions.set i b') :
    ∀ data' ∈ toClient, Answers link up s' data' := by
  intro data' hdata'
  refine (h.answers data' hdata').congr fun j hj hexp => ?_
  rw [hset]
  refine Table.set_ne _ _ fun hji => ?_
  subst hji
  rcases hmeets with ⟨hfind, rfl⟩ | ⟨-, hfree, -⟩
  · have hle := (h.expects hd hblock (.inl ⟨hfind, rfl⟩) hnum hj).2.1
    rw [hnum, hexp] at hle
    omega
  · rw [hj.1] at hfree
    cases hfree

/-- Sessions that a block was appended to: another one, or the one it came to, for which it is the
block in flight or the one before. -/
theorem ServerSide.appended (h : ServerSide link up s toClient) (hd : Delivers link up s sender data)
    (hblock : BringsBlock s data msg b1) (hmeets : s.Meets i sender msg.token b)
    (hnum : b1.num = b.nextExpectedNum) {s' : Server cfg}
    (hset : s'.block1sessions = s.block1sessions.set i (Server.appended b msg.payloadBytes))
    {j : Fin cfg.maxBlock1Sessions} (hj : Joined link up (s'.block1sessions j)) :
    (j ≠ i ∧ s'.block1sessions j = s.block1sessions j) ∨
      (j = i ∧ (s'.block1sessions j).nextExpectedNum.toNat = b1.num.toNat + 1 ∧
        up.nextNum.toNat ≤ b1.num.toNat + 1 ∧ b1.num.toNat ≤ up.nextNum.toNat ∧
          (b1.m = true ↔ up.Has (b1.num.toNat + 1))) := by
  rw [hset] at hj ⊢
  by_cases hji : j = i
  · subst hji
    rw [Table.set_self] at hj ⊢
    obtain ⟨opt, -, hb1⟩ := hblock.block
    obtain ⟨hremote, -, hact⟩ := hmeets.owner
    have hjoined : Joined link up b := ⟨hact, hj.2.1, hj.2.2⟩
    refine .inr ⟨rfl, ?_, h.expects hd hblock hmeets hnum hjoined⟩
    show (b.nextExpectedNum + 1).toNat = _
    rw [← hnum]
    exact toNat_next (BlockOption.fromOption_num hb1)
  · exact .inl ⟨hji, Table.set_ne _ _ hji⟩

/-- The session that took the block expects the block in flight or the one behind it, like every
other session of the upload. -/
theorem ServerSide.appended_range (h : ServerSide link up s toClient)
    (hd : Delivers link up s sender data) (hblock : BringsBlock s data msg b1)
    (hmeets : s.Meets i sender msg.token b) (hnum : b1.num = b.nextExpectedNum) {s' : Server cfg}
    (hset : s'.block1sessions = s.block1sessions.set i (Server.appended b msg.payloadBytes))
    (j : Fin cfg.maxBlock1Sessions) (hj : Joined link up (s'.block1sessions j)) :
    up.nextNum.toNat ≤ (s'.block1sessions j).nextExpectedNum.toNat ∧
      (s'.block1sessions j).nextExpectedNum.toNat ≤ up.nextNum.toNat + 1 := by
  rcases h.appended hd hblock hmeets hnum hset hj with ⟨-, hsame⟩ | ⟨-, hnext, hlo, hhi, -⟩
  · rw [hsame] at hj ⊢
    exact h.inRange j hj
  · omega

/-- With no handler running all sessions wait for more: the block that a session expects is
inside the body. A session whose body is complete is held by its handler. -/
theorem ServerSide.waits (h : ServerSide link up s toClient) (hidle : s.control = .idle)
    {j : Fin cfg.maxBlock1Sessions} (hj : Joined link up (s.block1sessions j)) :
    up.Has (s.block1sessions j).nextExpectedNum.toNat := by
  refine (h.isOpen j hj).resolve_right fun ⟨h', hh, _⟩ => ?_
  rw [hidle] at hh
  cases hh

/-- A block that closes its session. Whether the body was complete or too large, what is left
are the other sessions, and nothing that is sent names a block. -/
theorem ServerSide.closes (h : ServerSide link up s toClient) (hidle : s.control = .idle)
    (hd : Delivers link up s sender data) (hblock : BringsBlock s data msg b1)
    (hmeets : s.Meets i sender msg.token b) (hnum : b1.num = b.nextExpectedNum)
    {r : Server cfg × List ServerEvent} (htables : r.1.Uploading) (htokens : r.1.TokensFit)
    (hpool : r.1.PoolSatisfies (Lacking cfg)) {b' : Block1Session} (hoff : b'.active = false)
    (hset : r.1.block1sessions = s.block1sessions.set i b') (hsends : Sends (Lacking cfg) r.2)
    (hctl : r.1.control = .idle) :
    ServerSide link up r.1 (toClient ++ serverData link.client r.2) := by
  have hnone : ∀ h', r.1.control ≠ .handling h' := by
    intro h' hh
    rw [hctl] at hh
    cases hh
  -- the session that is closed is joined to nothing any more
  have hother : ∀ j, Joined link up (r.1.block1sessions j) →
      r.1.block1sessions j = s.block1sessions j := by
    intro j hj
    rw [hset] at hj ⊢
    refine Table.set_ne _ _ fun hji => ?_
    subst hji
    have hact := hj.1
    rw [Table.set_self, hoff] at hact
    cases hact
  refine ⟨htables, htokens, hpool, fun h' hh => absurd hh (hnone h'), fun j hj => ?_,
    fun j hj => ?_, fun h' _ hh => absurd hh (hnone h'),
    forall_toClient (h.answers_set hd hblock hmeets hnum hset)
      (hsends.mono fun _ _ hl _ => answers_lacking hl)⟩
  · have hsame := hother j hj
    rw [hsame] at hj ⊢
    exact h.inRange j hj
  · have hsame := hother j hj
    rw [hsame] at hj ⊢
    exact .inl (h.waits hidle hj)

/-- The Continue for a block that its session does not expect: the last block seen. It answers
the block in flight only if the session has that block already. -/
theorem ServerSide.echoes (h : ServerSide link up s toClient) (hidle : s.control = .idle)
    (hd : Delivers link up s sender data) (hblock : BringsBlock s data msg b1)
    (hfind : s.findBlock1Session sender msg.token = some i) {dest : Endpoint} {data' : Bytes}
    (hnames : Names cfg sender ((s.block1sessions i).nextExpectedNum - 1) dest data')
    (hdest : dest = link.client) : Answers link up s data' := by
  intro msg' hdec
  obtain ⟨hsender, hnames⟩ := hnames
  refine ⟨(hnames msg' hdec).1, fun num hnum => ?_⟩
  obtain rfl := (hnames msg' hdec).2 num hnum
  obtain ⟨opt, hopt, hb1⟩ := hblock.block
  obtain ⟨hact, hremote, htoken⟩ := Server.findBlock1Session_spec hfind
  have hclient : sender = link.client := hsender.symm.trans hdest
  have hjoined : Joined link up (s.block1sessions i) :=
    ⟨hact, hremote.trans hclient,
      htoken.trans (hd.reaches hclient msg opt b1 hblock.decode hopt hb1).1⟩
  obtain ⟨hpos, -⟩ := h.tables.expected i hact
  have hpred : ((s.block1sessions i).nextExpectedNum - 1).toNat =
      (s.block1sessions i).nextExpectedNum.toNat - 1 :=
    UInt32.toNat_sub_of_le _ _ (UInt32.le_iff_toNat_le.2 hpos)
  have hle := (h.inRange i hjoined).2
  refine ⟨by omega, ?_, fun heq => ⟨i, hjoined, ?_⟩⟩
  · rw [hpred, Nat.sub_add_cancel hpos]
    exact h.waits hidle hjoined
  · rw [← heq]
    omega

/-- The Continue for a block that was just accepted. -/
theorem ServerSide.accepts (h : ServerSide link up s toClient) (hd : Delivers link up s sender data)
    (hblock : BringsBlock s data msg b1) (hmeets : s.Meets i sender msg.token b)
    (hnum : b1.num = b.nextExpectedNum) (hm : b1.m = true) {s' : Server cfg}
    (hset : s'.block1sessions = s.block1sessions.set i (Server.appended b msg.payloadBytes))
    {dest : Endpoint} {data' : Bytes} (hnames : Names cfg sender b1.num dest data')
    (hdest : dest = link.client) : Answers link up s' data' := by
  intro msg' hdec
  obtain ⟨hsender, hnames⟩ := hnames
  refine ⟨(hnames msg' hdec).1, fun num hnum' => ?_⟩
  obtain rfl := (hnames msg' hdec).2 num hnum'
  obtain ⟨opt, hopt, hb1⟩ := hblock.block
  have hclient : sender = link.client := hsender.symm.trans hdest
  obtain ⟨htoken, hle, hmore⟩ := hd.reaches hclient msg opt b1 hblock.decode hopt hb1
  refine ⟨hle, hmore.1 hm, fun heq => ⟨i, ?_⟩⟩
  obtain ⟨hremote, htok, hact⟩ := hmeets.owner
  have hjoined : Joined link up (s'.block1sessions i) := by
    rw [hset, Table.set_self]
    exact ⟨hact, hremote.trans hclient, htok.trans htoken⟩
  refine ⟨hjoined, ?_⟩
  rcases h.appended hd hblock hmeets hnum hset hjoined with ⟨hne, -⟩ | ⟨-, hnext, -⟩
  · exact absurd rfl hne
  · rw [hnext, ← heq]

end Block

/-- **A datagram** keeps the invariant: the session has the blocks before the one it expects,
and each Continue names a block it has. -/
theorem ServerSide.receive (h : ServerSide link up s toClient) (hidle : s.control = .idle)
    {sender : Endpoint} {data : Bytes} (hd : Delivers link up s sender data)
    (htokens : (s.receive (some (sender, data))).1.TokensFit) :
    ServerSide link up (s.receive (some (sender, data))).1
      (toClient ++ serverData link.client (s.receive (some (sender, data))).2) := by
  have htables := h.tables.receive (some (sender, data))
  have hpool := h.pool.receive (some (sender, data))
  have hreceived := Server.received h.tables hidle sender data
  generalize s.receive (some (sender, data)) = r at *
  have hnone : r.1.control = .idle → ∀ h', r.1.control ≠ .handling h' := by
    intro hctl h' hh
    rw [hctl] at hh
    cases hh
  have hlacks : Sends (Lacking cfg) r.2 →
      Sends (fun dest' data' => dest' = link.client → Answers link up r.1 data') r.2 :=
    fun hl => hl.mono fun _ _ hl _ => answers_lacking hl
  -- the answers so far, when no session is touched
  have hold : r.1.block1sessions = s.block1sessions → ∀ data' ∈ toClient,
      Answers link up r.1 data' :=
    fun hsess data' hdata' => (h.answers data' hdata').congr fun j _ _ => by rw [hsess]
  -- by what the datagram does to the sessions, as `received` lists it
  cases hreceived with
  | other hsess hsends hctl =>
    refine ⟨htables, htokens, hpool, fun h' hh => (hctl h' hh).2, ?_, fun j hj => ?_,
      fun h' j hh hj => ?_, forall_toClient (hold hsess) (hlacks hsends)⟩
    · rw [hsess]
      exact h.inRange
    · rw [hsess] at hj ⊢
      exact .inl (h.waits hidle hj)
    · rw [(hctl h' hh).1] at hj
      cases hj
  -- a Continue for a block the session has had already
  | echo hblock hfind hnum hsess hsends hctl =>
    refine ⟨htables, htokens, hpool, fun h' hh => absurd hh (hnone hctl h'), ?_, fun j hj => ?_,
      fun h' _ hh => absurd hh (hnone hctl h'), forall_toClient (hold hsess) ?_⟩
    · rw [hsess]
      exact h.inRange
    · rw [hsess] at hj ⊢
      exact .inl (h.waits hidle hj)
    · exact hsends.mono fun _ _ hnames hdest =>
        (h.echoes hidle hd hblock hfind hnames hdest).congr fun j _ _ => by rw [hsess]
  | tooLarge hblock hmeets hnum hsess hsends hctl =>
    exact h.closes hidle hd hblock hmeets hnum htables htokens hpool rfl hsess hsends hctl
  -- the block in flight is appended, and its Continue names it
  | more hblock hmeets hnum hm hsess hsends hctl =>
    refine ⟨htables, htokens, hpool, fun h' hh => absurd hh (hnone hctl h'),
      h.appended_range hd hblock hmeets hnum hsess, fun j hj => ?_,
      fun h' _ hh => absurd hh (hnone hctl h'),
      forall_toClient (h.answers_set hd hblock hmeets hnum hsess)
        (hsends.mono fun _ _ => h.accepts hd hblock hmeets hnum hm hsess)⟩
    rcases h.appended hd hblock hmeets hnum hsess hj with ⟨-, hsame⟩ | ⟨-, hnext, -, -, hmore⟩
    · rw [hsame] at hj ⊢
      exact .inl (h.waits hidle hj)
    · rw [hnext]
      exact .inl (hmore.1 hm)
  | last hblock hmeets hnum hm hsess hsends hctl =>
    obtain ⟨h', hh, hsession, htoken⟩ := hctl
    refine ⟨htables, htokens, hpool, fun h'' hh' => ?_, h.appended_range hd hblock hmeets hnum hsess,
      fun j hj => ?_, fun h'' j hh' hs hj => ?_,
      forall_toClient (h.answers_set hd hblock hmeets hnum hsess) (hlacks hsends)⟩
    · rw [hh] at hh'
      cases hh'
      exact htoken
    · -- another session, or the one with all of the payload whose handler runs now
      rcases h.appended hd hblock hmeets hnum hsess hj with ⟨-, hsame⟩ | ⟨rfl, -⟩
      · rw [hsame] at hj ⊢
        exact .inl (h.waits hidle hj)
      · exact .inr ⟨h', hh, hsession⟩
    · -- the last block: the session now has all of the payload
      rw [hh] at hh'
      cases hh'
      rw [hsession] at hs
      cases hs
      rcases h.appended hd hblock hmeets hnum hsess hj with ⟨hne, -⟩ | ⟨-, hnext, -, -, hmore⟩
      · exact absurd rfl hne
      · rw [hnext, ← hmore, hm]
        exact nofun
  -- a handler of the server's own has returned, so the session is closed again
  | done hblock hmeets hnum hm hsess hsends hctl =>
    exact h.closes hidle hd hblock hmeets hnum htables htokens hpool rfl hsess hsends hctl

/-- **A step of the server** keeps the invariant; only a datagram of the upload moves its
cursor. -/
theorem ServerSide.step (h : ServerSide link up s toClient) (a : Server.Action)
    (hd : ∀ nowMs sender data, a = .poll nowMs (some (sender, data)) → s.control = .idle →
      Delivers link up (s.scanned nowMs) sender data) :
    ServerSide link up (s.step a).1 (toClient ++ serverData link.client (s.step a).2) := by
  have hquiet : ServerSide link up s (toClient ++ serverData link.client []) := by
    rw [serverData_nil, List.append_nil]
    exact h
  cases a with
  | call call => exact h.call call
  | handlerReturns res =>
    cases hctl : s.control with
    | idle =>
      rw [Server.step_returns_idle hctl]
      exact hquiet
    | handling hd => exact h.finish hctl res
  | poll nowMs rx =>
    have htokens := h.tokens.step (.poll nowMs rx)
    cases hctl : s.control with
    | handling hd =>
      rw [Server.step_poll_busy hctl]
      exact hquiet
    | idle =>
      rw [Server.step_poll hctl] at htokens ⊢
      -- the pool scan, and then the datagram
      obtain ⟨hpool, hticks⟩ := h.pool.scanned nowMs
      obtain ⟨pool, obs, hscanned⟩ := s.scanned_spec nowMs
      have hscan : ServerSide link up (s.scanned nowMs) (toClient ++ serverData link.client
          ({ s with lastNowMs := nowMs } : Server cfg).tick.2) :=
        h.keep (Server.TokensFit.tickFrom _ (s := { s with lastNowMs := nowMs })
          ⟨h.tokens.observers, h.tokens.deferred⟩) hpool (by rw [hscanned]) (by rw [hscanned]) hticks
      have hidle : (s.scanned nowMs).control = .idle := by
        rw [hscanned]
        exact hctl
      show ServerSide link up ((s.scanned nowMs).receive rx).1 (toClient ++ serverData link.client
        (({ s with lastNowMs := nowMs } : Server cfg).tick.2 ++ ((s.scanned nowMs).receive rx).2))
      rw [serverData_append, ← List.append_assoc]
      cases rx with
      | none =>
        show ServerSide link up (s.scanned nowMs) (_ ++ serverData link.client [])
        rw [serverData_nil, List.append_nil]
        exact hscan
      | some rx => exact hscan.receive hidle (hd nowMs rx.1 rx.2 rfl hctl) htokens

end System

end PulseCoap
