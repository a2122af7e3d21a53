import PulseCoap.Server.Blocks
import PulseCoap.System.Model

/-!
# PulseCoAP — which call runs a handler

The server keeps no record of the requests it has answered, so each copy of a
request that reaches it runs the handler again. An upload is kept in a session
until its handler has run: for the handler to run once more all of its blocks must
come once more, so the block that comes least often decides. `Ledger` keeps beside
the system which call of the client each datagram is from: sent by the call itself,
as a block that follows, or again out of the pool.

The count is an induction over deliveries. A request in one datagram runs the
handler at most once for each time it is delivered. For an upload the sessions
have to be looked at: a session that expects block `n` has been brought all
blocks below `n` since the handler last ran with them, and it gives the blocks
back when the handler returns. So for each block, the number of runs with it is
at most the number of times it came, and less while a session holds it; this is
`Inv`, and `Inv.deliver` is the step that matters.

* `Ledger`, `origin` — the datagrams and their calls.
* `completes`, `blockOf` — the datagrams that can run a handler at all, and the
  blocks of uploads.
* `Collects.step` — what a step of the server does to the sessions of the client.
* `Inv` — a session that expects a block has been brought all blocks before it
  since the handler last ran with them.
* `invocations_le` — the handler runs of a call, against the copies delivered.
* `not_once` — a lost ACK, and the handler runs twice.
* `OwnToken` — the condition under which the blocks under a token are those of one
  call.
* `copies_le` — the same bound for a single datagram.
-/

namespace PulseCoap

namespace System

open Server (OnlySends CallsWith BringsBlock Received)

variable {cfg : Config}

-- ===========================================================================
-- The ledger
-- ===========================================================================

/-- A system, and for each datagram for the server the call it is from. -/
structure Ledger (cfg : Config) where
  sys     : System cfg := {}
  origins : List (Option Nat) := []

/-- The call whose datagram the next step of the client sends. -/
def origin (c : Client cfg) : Client.Action → Option Nat
  | .call (.discover ..) _ => none
  | .call _ _ => some c.calls
  | .resume _ =>
    match c.control with
    | .polling (.block1 i) _ | .polling (.block2 i) _ => some (c.slots i).pending.call.id
    | .polling (.tick index) _ =>
      if h : index < cfg.maxTransactions then some (c.transactions ⟨index, h⟩).owner.id else none
    | _ => none
  | .poll .. => none

/-- The block of an upload that a datagram brings, and its token. -/
def blockOf (cfg : Config) (data : Bytes) : Option (Bytes × BlockOption) :=
  match Message.decode cfg data with
  | (.none, msg) =>
    ((Server.block1Option cfg msg).bind BlockOption.fromOption).map fun b1 => (msg.token, b1)
  | _ => none

/-- The datagram is a whole request, or the last block of one. -/
def completes (cfg : Config) (data : Bytes) : Bool :=
  match Message.decode cfg data with
  | (.none, _) =>
    match blockOf cfg data with
    | some (_, b1) => !b1.m
    | none => true
  | _ => false

inductive LedgerAction where
  | client (a : Client.Action)
  /-- The server polls, and is given the `n`-th datagram of the client. -/
  | deliver (nowMs : UInt32) (n : Nat)
  /-- Anything else the server does. -/
  | server (a : Server.Action)
deriving DecidableEq, Repr

inductive LedgerEvent where
  /-- A datagram of this call is given to the server. -/
  | delivered (call : Option Nat) (data : Bytes)
  /-- It runs a handler. -/
  | invoked (call : Option Nat) (data : Bytes)
deriving DecidableEq, Repr

/-- The handler calls among the events of a step, which reads this datagram of this call. -/
def invocations (call : Option Nat) (data : Bytes) (events : List ServerEvent) :
    List LedgerEvent :=
  events.filterMap fun
    | .handled .. => some (.invoked call data)
    | _ => none

/-- The datagram that a step of the server reads. -/
def polled : Server.Action → Bytes
  | .poll _ (some (_, data)) => data
  | .poll _ none | .call _ | .handlerReturns _ => []

def Ledger.next (link : Link) (l : Ledger cfg) : LedgerAction → Ledger cfg × List LedgerEvent
  | .client a =>
    let r := l.sys.next link (.client a)
    ({ sys := r.1
       origins := l.origins ++ (clientData link.server (l.sys.client.step a).2).map fun _ =>
         origin l.sys.client a }, [])
  | .deliver nowMs n =>
    match l.sys.server.control, l.sys.toServer[n]?, l.origins[n]? with
    | .idle, some data, some call =>
      let a := Server.Action.poll nowMs (some (link.client, data))
      ({ l with sys := (l.sys.next link (.server a)).1 },
        .delivered call data :: invocations call data (l.sys.server.step a).2)
    | _, _, _ => (l, [])
  | .server a =>
    ({ l with sys := (l.sys.next link (.server a)).1 },
      invocations none (polled a) (l.sys.server.step a).2)

def ledgerMachine (cfg : Config) (link : Link) :
    Machine (Ledger cfg) LedgerAction LedgerEvent where
  init := {}
  next := Ledger.next link

/-- The client hears what the server has sent; the server hears the client by `deliver` only. -/
def Allowed (link : Link) (l : Ledger cfg) : LedgerAction → Prop
  | .client a => Carried link l.sys (.client a)
  | .server (.poll _ (some (sender, _))) => sender ≠ link.client
  | _ => True

instance (link : Link) (l : Ledger cfg) : (a : LedgerAction) → Decidable (Allowed link l a)
  | .client a => inferInstanceAs (Decidable (Carried link l.sys (.client a)))
  | .server (.poll _ (some _)) => inferInstanceAs (Decidable (_ ≠ _))
  | .server (.poll _ none) | .server (.call _) | .server (.handlerReturns _) | .deliver .. =>
    .isTrue trivial

/-- The server is given block `num` of an upload under this token. -/
def bringsBlock (cfg : Config) (token : Bytes) (num : Nat) : LedgerEvent → Bool
  | .delivered _ data =>
    match blockOf cfg data with
    | some (tok, b1) => tok == token && b1.num.toNat == num
    | none => false
  | .invoked .. => false

/-- The handler runs for a client's upload under this token, with block `num` or a later one as
the last. -/
def runsUpload (cfg : Config) (token : Bytes) (num : Nat) : LedgerEvent → Bool
  | .invoked (some _) data =>
    match blockOf cfg data with
    | some (tok, b1) => tok == token && decide (num ≤ b1.num.toNat)
    | none => false
  | .invoked none _ | .delivered .. => false

/-- A handler runs. -/
def isRun : LedgerEvent → Bool
  | .invoked .. => true
  | .delivered .. => false

/-- The event is of call `k`. -/
def ofCall (k : Nat) : LedgerEvent → Bool
  | .delivered call _ | .invoked call _ => call == some k

/-- All blocks under this token that were delivered are of call `k`. -/
def OwnToken (cfg : Config) (k : Nat) (token : Bytes) (hist : List LedgerEvent) : Prop :=
  ∀ e ∈ hist, ∀ call data, e = .delivered call data →
    (∃ b1, blockOf cfg data = some (token, b1)) → call = some k

-- ===========================================================================
-- One poll and the handlers
-- ===========================================================================

/-- No handler is called, or one, and then the datagram completes a request. -/
theorem receive_invokes (s : Server cfg) (sender : Endpoint) (data : Bytes) :
    OnlySends (s.receive (some (sender, data))).2 ∨ (completes cfg data = true ∧
      ∃ body t msg, CallsWith body t msg sender (s.receive (some (sender, data))).2) := by
  rcases s.receive_cases (some (sender, data)) with heq | ⟨_, _, msg, -, -, -, heq⟩ |
    ⟨_, _, msg, -, -, -, heq⟩ | ⟨sender', data', msg, hrx, hdec, -, heq⟩ <;> rw [heq]
  · exact .inl Server.onlySends_nil
  · exact .inl Server.onlySends_nil
  · exact .inl Server.onlySends_nil
  · cases hrx
    rcases s.handleRequest_cases msg sender with ⟨-, code, heq⟩ | ⟨t, -, heq⟩ <;> rw [heq]
    · exact .inl (s.justReplies_error ..).2
    · rcases s.handleTarget_cases t msg sender with ⟨hnone, obs, heq⟩ | ⟨opt, hopt, heq⟩ <;> rw [heq]
      · -- not a block
        refine .inr ⟨?_, _, t, msg, ((s.withObservers obs).runHandler_sessions ..).2⟩
        unfold completes blockOf
        rw [hdec]
        dsimp only
        rw [hnone]
        rfl
      · rcases s.handleBlock1_cases opt t msg sender none with ⟨-, hsends⟩ |
          ⟨b1, i, b, hb1, htakes⟩
        · exact .inl hsends
        · rcases htakes.takes with ⟨-, hsends⟩ | ⟨-, -, hsends⟩ | ⟨hm, hcalls, -⟩
          · exact .inl hsends
          · exact .inl hsends
          · refine .inr ⟨?_, _, t, msg, hcalls⟩
            unfold completes blockOf
            rw [hdec]
            dsimp only
            rw [hopt, Option.bind_some, hb1]
            dsimp only [Option.map_some]
            rw [hm]
            rfl

/-- What only sends invokes nothing. -/
theorem invocations_onlySends {events : List ServerEvent} (h : OnlySends events)
    (call : Option Nat) (data : Bytes) : invocations call data events = [] := by
  refine List.filterMap_eq_nil_iff.2 fun e he => ?_
  obtain ⟨dest, data, rfl⟩ := h e he
  rfl

theorem invocations_append (call : Option Nat) (data : Bytes) (ev ev' : List ServerEvent) :
    invocations call data (ev ++ ev') = invocations call data ev ++ invocations call data ev' :=
  List.filterMap_append

/-- The pool scan calls no handler: what a poll runs, the datagram runs. -/
theorem invocations_poll (s : Server cfg) (nowMs : UInt32) (rx : Option (Endpoint × Bytes))
    (call : Option Nat) (data : Bytes) :
    invocations call data (s.poll nowMs rx).2 =
      invocations call data ((s.scanned nowMs).receive rx).2 := by
  obtain ⟨ticks, hticks, heq⟩ := s.poll_eq nowMs rx
  rw [heq]
  dsimp only
  rw [invocations_append, invocations_onlySends hticks, List.nil_append]

/-- A datagram runs at most one handler, and only if it completes a request. -/
theorem invocations_receive (s : Server cfg) (sender : Endpoint) (data : Bytes)
    (call : Option Nat) :
    invocations call data (s.receive (some (sender, data))).2 = [] ∨
      (completes cfg data = true ∧
        invocations call data (s.receive (some (sender, data))).2 = [.invoked call data]) := by
  rcases receive_invokes s sender data with hsends | ⟨hdone, body, t, msg, hcalls⟩
  · exact .inl (invocations_onlySends hsends call data)
  · obtain ⟨req, rest, hev, -, -, -, -, hrest⟩ := hcalls
    rw [hev]
    refine .inr ⟨hdone, ?_⟩
    show .invoked call data :: invocations call data rest = _
    rw [invocations_onlySends hrest]

-- ===========================================================================
-- The sessions of the client
-- ===========================================================================

/-- Session `i` collects the blocks of the peer under this token, and no handler runs with it. -/
structure Collects (peer : Endpoint) (token : Bytes) (s : Server cfg)
    (i : Fin cfg.maxBlock1Sessions) : Prop where
  active : (s.block1sessions i).active = true
  remote : (s.block1sessions i).remote = peer
  token  : (s.block1sessions i).token = token
  waits  : ∀ h, s.control = .handling h → h.session ≠ some i

/-- A session that collects after a step did so before it, and is as it was. -/
def Kept (peer : Endpoint) (s s' : Server cfg) : Prop :=
  ∀ token i, Collects peer token s' i →
    Collects peer token s i ∧ s'.block1sessions i = s.block1sessions i

variable {peer : Endpoint} {s s' : Server cfg}

/-- Between two polls every open session waits for more, so only the session itself matters. -/
theorem Collects.before (hidle : s.control = .idle) {token : Bytes} {i : Fin cfg.maxBlock1Sessions}
    (hc : Collects peer token s' i) (hsame : s'.block1sessions i = s.block1sessions i) :
    Collects peer token s i where
  active := hsame ▸ hc.active
  remote := hsame ▸ hc.remote
  token := hsame ▸ hc.token
  waits h hh := by
    rw [hidle] at hh
    cases hh

/-- Sessions and control are as they were. -/
theorem kept_same (hsess : s'.block1sessions = s.block1sessions) (hctl : s'.control = s.control) :
    Kept peer s s' := by
  intro token i hc
  rw [← hsess]
  exact ⟨⟨hsess ▸ hc.active, hsess ▸ hc.remote, hsess ▸ hc.token, fun h hh =>
    hc.waits h (hctl.trans hh)⟩, rfl⟩

/-- A step that starts between two polls. -/
theorem kept_idle (hidle : s.control = .idle) (hsess : s'.block1sessions = s.block1sessions) :
    Kept peer s s' :=
  fun _ i hc => ⟨hc.before hidle (congrFun hsess i), congrFun hsess i⟩

/-- One session is written, and it is no longer one that collects. -/
theorem kept_set (hidle : s.control = .idle) {i : Fin cfg.maxBlock1Sessions} {b : Block1Session}
    (hset : s'.block1sessions = s.block1sessions.set i b)
    (hb : ∀ token, ¬ Collects peer token s' i) : Kept peer s s' := by
  intro token j hc
  have hne : j ≠ i := by
    rintro rfl
    exact hb token hc
  have hsame : s'.block1sessions j = s.block1sessions j := by rw [hset, Table.set_ne _ _ hne]
  exact ⟨hc.before hidle hsame, hsame⟩

/-- A session that is closed does not collect. -/
theorem not_collects_closed {i : Fin cfg.maxBlock1Sessions} {b : Block1Session}
    (hset : s'.block1sessions = s.block1sessions.set i b) (hb : b.active = false) (token : Bytes) :
    ¬ Collects peer token s' i := by
  intro hc
  have hact := hc.active
  rw [hset, Table.set_self, hb] at hact
  cases hact

/-- What a datagram does to the sessions of its sender. -/
inductive MovesSessions (peer : Endpoint) (s : Server cfg) (data : Bytes)
    (r : Server cfg × List ServerEvent) : Prop
  /-- No block is accepted, and if it brings one no handler runs. -/
  | quiet (kept : Kept peer s r.1) (silent : blockOf cfg data ≠ none → OnlySends r.2)
  /-- A block with more behind it. -/
  | more {token : Bytes} {b1 : BlockOption} (block : blockOf cfg data = some (token, b1))
      (before : 0 < b1.num.toNat →
        ∃ i, Collects peer token s i ∧ (s.block1sessions i).nextExpectedNum = b1.num)
      (after : ∀ token' i, Collects peer token' r.1 i →
        (Collects peer token' s i ∧ r.1.block1sessions i = s.block1sessions i) ∨
          (token' = token ∧ (r.1.block1sessions i).nextExpectedNum.toNat = b1.num.toNat + 1))
      (silent : OnlySends r.2)
  /-- The last block, and no session of the token is left to collect. -/
  | last {token : Bytes} {b1 : BlockOption} (block : blockOf cfg data = some (token, b1))
      (before : 0 < b1.num.toNat →
        ∃ i, Collects peer token s i ∧ (s.block1sessions i).nextExpectedNum = b1.num)
      (kept : Kept peer s r.1) (none : ∀ i, ¬ Collects peer token r.1 i)

/-- The block of a datagram that brings one. -/
theorem BringsBlock.blockOf {data : Bytes} {msg : Message} {b1 : BlockOption}
    (h : BringsBlock s data msg b1) : blockOf cfg data = some (msg.token, b1) := by
  obtain ⟨opt, hopt, hb1⟩ := h.block
  unfold System.blockOf
  rw [h.decode]
  dsimp only
  rw [hopt, Option.bind_some, hb1]
  rfl

/-- And back. -/
theorem blockOf_some {data token : Bytes} {b1 : BlockOption}
    (h : blockOf cfg data = some (token, b1)) :
    ∃ msg opt, Message.decode cfg data = (.none, msg) ∧ Server.block1Option cfg msg = some opt ∧
      BlockOption.fromOption opt = some b1 ∧ msg.token = token := by
  unfold blockOf at h
  split at h
  · rename_i msg hdec
    obtain ⟨b, hb, heq⟩ := Option.map_eq_some_iff.1 h
    obtain ⟨opt, hopt, hfrom⟩ := Option.bind_eq_some_iff.1 hb
    cases heq
    exact ⟨msg, opt, hdec, hopt, hfrom, rfl⟩
  · cases h

/-- A block that is not the first one comes to a session that was there. -/
theorem meets_before (hidle : s.control = .idle) {msg : Message} {b1 : BlockOption}
    {i : Fin cfg.maxBlock1Sessions} {b : Block1Session} (hmeets : s.Meets i peer msg.token b)
    (hnum : b1.num = b.nextExpectedNum) (hpos : 0 < b1.num.toNat) :
    ∃ j, Collects peer msg.token s j ∧ (s.block1sessions j).nextExpectedNum = b1.num := by
  rcases hmeets with ⟨hf, rfl⟩ | ⟨-, -, rfl⟩
  · obtain ⟨hact, hrem, htok⟩ := Server.findBlock1Session_spec hf
    refine ⟨i, ⟨hact, hrem, htok, fun h hh => ?_⟩, hnum.symm⟩
    rw [hidle] at hh
    cases hh
  · -- a new session expects block 0
    rw [hnum] at hpos
    exact absurd hpos (Nat.lt_irrefl 0)

/-- When the last block is in, no other session has the token. -/
theorem meets_alone (hup : s.Uploading) {msg : Message} {i j : Fin cfg.maxBlock1Sessions}
    {b : Block1Session} (hmeets : s.Meets i peer msg.token b) (hc : Collects peer msg.token s j) :
    j = i := by
  have hfind : s.findBlock1Session peer msg.token = some j := by
    refine hup.keyed.find?_eq (k := (peer, msg.token)) (fun a => ?_) hc.active
      (Prod.ext hc.remote hc.token)
    rw [Bool.and_eq_true, Bool.and_eq_true, beq_iff_eq, beq_iff_eq, Prod.mk.injEq, and_assoc]
  rcases hmeets with ⟨hf, -⟩ | ⟨hf, -⟩
  · exact Option.some.inj (hfind.symm.trans hf)
  · rw [hf] at hfind
    cases hfind

/-- Block numbers have twenty bits, so the next one does not wrap. -/
theorem appended_num {b : Block1Session} {data : Bytes} {msg : Message} {b1 : BlockOption}
    (hblock : BringsBlock s data msg b1) (hnum : b1.num = b.nextExpectedNum) (payload : Bytes) :
    (Server.appended b payload).nextExpectedNum.toNat = b1.num.toNat + 1 := by
  obtain ⟨opt, -, hb1⟩ := hblock.block
  have hlt := BlockOption.fromOption_num hb1
  have h1 : (1 : UInt32).toNat = 1 := rfl
  show (b.nextExpectedNum + 1).toNat = _
  rw [← hnum, UInt32.toNat_add, h1]
  omega

/-- **A datagram of the peer**, and its sessions: by the six outcomes a datagram can have. -/
theorem Received.movesSessions (hup : s.Uploading) (hidle : s.control = .idle) {data : Bytes}
    {r : Server cfg × List ServerEvent} (h : Received s peer data r) : MovesSessions peer s data r := by
  cases h with
  | other hsess hsends hctl hquiet =>
    refine .quiet (kept_idle hidle hsess) fun hne => ?_
    obtain ⟨⟨token, b1⟩, hblock⟩ := Option.ne_none_iff_exists'.1 hne
    obtain ⟨msg, opt, hdec, hopt, -, -⟩ := blockOf_some hblock
    exact hquiet msg opt hdec hopt
  | echo hblock hfind hnum hsess hsends hctl hquiet =>
    exact .quiet (kept_idle hidle hsess) fun _ => hquiet
  | tooLarge hblock hmeets hnum hsess hsends hctl hquiet =>
    exact .quiet (kept_set hidle hsess (not_collects_closed hsess rfl)) fun _ => hquiet
  | more hblock hmeets hnum hm hsess hsends hctl hquiet =>
    refine .more (BringsBlock.blockOf hblock) (meets_before hidle hmeets hnum)
      (fun token' j hc => ?_) hquiet
    rename_i msg b1 i b
    by_cases hji : j = i
    · subst hji
      refine .inr ⟨?_, ?_⟩
      · have htok := hc.token
        rw [hsess, Table.set_self] at htok
        exact htok.symm.trans hmeets.owner.2.1
      · rw [hsess, Table.set_self]
        exact appended_num hblock hnum _
    · have hsame : r.1.block1sessions j = s.block1sessions j := by rw [hsess, Table.set_ne _ _ hji]
      exact .inl ⟨hc.before hidle hsame, hsame⟩
  | last hblock hmeets hnum hm hsess hsends hctl =>
    rename_i msg b1 i b
    obtain ⟨h, hh, hsession, -⟩ := hctl
    -- the handler runs with the session
    have hbusy : ∀ token, ¬ Collects peer token r.1 i := fun token hc => hc.waits h hh hsession
    have hkept := kept_set hidle hsess hbusy
    refine .last (BringsBlock.blockOf hblock) (meets_before hidle hmeets hnum) hkept fun j hc => ?_
    obtain rfl := meets_alone hup hmeets (hkept _ j hc).1
    exact hbusy _ hc
  | done hblock hmeets hnum hm hsess hsends hctl =>
    have hclosed : ∀ token, ¬ Collects peer token r.1 _ := not_collects_closed hsess rfl
    have hkept := kept_set hidle hsess hclosed
    refine .last (BringsBlock.blockOf hblock) (meets_before hidle hmeets hnum) hkept fun j hc => ?_
    obtain rfl := meets_alone hup hmeets (hkept _ j hc).1
    exact hclosed _ hc

/-- **A datagram of another peer** leaves them alone, because a session is found by remote and
token. -/
theorem Received.kept (hidle : s.control = .idle) {sender : Endpoint} (hne : sender ≠ peer)
    {data : Bytes} {r : Server cfg × List ServerEvent} (h : Received s sender data r) :
    Kept peer s r.1 := by
  -- the session it comes to is one of the sender
  have hother : ∀ {token : Bytes} {i : Fin cfg.maxBlock1Sessions} {b : Block1Session},
      s.Meets i sender token b → ∀ {b' : Block1Session},
        r.1.block1sessions = s.block1sessions.set i b' → b'.remote = b.remote →
          Kept peer s r.1 := by
    intro token i b hmeets b' hset hb'
    refine kept_set hidle hset fun token' hc => hne ?_
    have hrem := hc.remote
    rw [hset, Table.set_self, hb', hmeets.owner.1] at hrem
    exact hrem
  cases h with
  | other hsess => exact kept_idle hidle hsess
  | echo hblock hfind hnum hsess => exact kept_idle hidle hsess
  | tooLarge hblock hmeets hnum hsess => exact hother hmeets hsess rfl
  | more hblock hmeets hnum hm hsess => exact hother hmeets hsess rfl
  | last hblock hmeets hnum hm hsess => exact hother hmeets hsess rfl
  | done hblock hmeets hnum hm hsess => exact hother hmeets hsess rfl

theorem Kept.trans {s'' : Server cfg} (h : Kept peer s s') (h' : Kept peer s' s'') :
    Kept peer s s'' := by
  intro token i hc
  obtain ⟨hc', hsame⟩ := h' token i hc
  obtain ⟨hc'', hsame'⟩ := h token i hc'
  exact ⟨hc'', hsame.trans hsame'⟩

/-- The pool scan does not touch the sessions. -/
theorem kept_scanned (s : Server cfg) (nowMs : UInt32) : Kept peer s (s.scanned nowMs) := by
  obtain ⟨pool, obs, heq⟩ := s.scanned_spec nowMs
  rw [heq]
  exact kept_same rfl rfl

/-- **What else the server does** leaves them alone too, or frees the one whose handler returns.
Nothing else frees a session of the peer. -/
theorem kept_step (hup : s.Uploading) {a : Server.Action}
    (ha : ∀ nowMs sender data, a = .poll nowMs (some (sender, data)) → sender ≠ peer) :
    Kept peer s (s.step a).1 := by
  cases a with
  | call call => exact kept_same (s.call_keeps call).sessions (s.call_keeps call).control
  | handlerReturns res =>
    -- the return of a handler closes the session of its upload, and no other
    cases hctl : s.control with
    | idle =>
      rw [Server.step_returns_idle hctl]
      exact kept_same rfl rfl
    | handling hd =>
      rw [Server.step_returns hctl]
      obtain ⟨⟨id, hstate⟩, -⟩ := Server.finish_spec { s with control := .idle } hd res
      rw [hstate]
      intro token i hc
      -- a request that came in one datagram has none
      cases hsession : hd.session with
      | none =>
        rw [hsession] at hc
        refine ⟨⟨hc.active, hc.remote, hc.token, fun h hh => ?_⟩, rfl⟩
        rw [hctl] at hh
        cases hh
        rw [hsession]
        exact nofun
      | some j =>
        rw [hsession] at hc
        have hne : i ≠ j := by
          rintro rfl
          have hact := hc.active
          change ((s.block1sessions.set i _) i).active = true at hact
          rw [Table.set_self] at hact
          cases hact
        have hsame : (s.block1sessions.set j { s.block1sessions j with active := false }) i =
            s.block1sessions i := Table.set_ne _ _ hne
        refine ⟨⟨hsame ▸ hc.active, hsame ▸ hc.remote, hsame ▸ hc.token, fun h hh => ?_⟩, hsame⟩
        rw [hctl] at hh
        cases hh
        rw [hsession]
        exact fun heq => hne (Option.some.inj heq).symm
  | poll nowMs rx =>
    cases hctl : s.control with
    | handling hd =>
      rw [Server.step_poll_busy hctl]
      exact kept_same rfl rfl
    | idle =>
      rw [Server.step_poll_state hctl]
      refine (kept_scanned s nowMs).trans ?_
      -- the datagram is another peer's, and it leaves the client's sessions alone
      cases rx with
      | none => exact kept_same rfl rfl
      | some rx =>
        obtain ⟨pool, obs, heq⟩ := s.scanned_spec nowMs
        have hidle : (s.scanned nowMs).control = .idle := by rw [heq]; exact hctl
        exact Received.kept hidle (ha nowMs rx.1 rx.2 rfl)
          (Server.received (hup.congr (s.scanned_sessions nowMs)) hidle rx.1 rx.2)

-- ===========================================================================
-- What one delivery counts for
-- ===========================================================================

/-- What a datagram that is a block brings, and runs if it runs a handler. -/
theorem bringsBlock_iff {data token : Bytes} {b1 : BlockOption}
    (h : blockOf cfg data = some (token, b1)) (call : Option Nat) (token' : Bytes) (num : Nat) :
    bringsBlock cfg token' num (.delivered call data) = true ↔
      token = token' ∧ b1.num.toNat = num := by
  unfold bringsBlock
  dsimp only
  rw [h]
  dsimp only
  rw [Bool.and_eq_true, beq_iff_eq, beq_iff_eq]

/-- The token and the block of a handler call for an upload. -/
theorem runsUpload_of {data token : Bytes} {b1 : BlockOption}
    (h : blockOf cfg data = some (token, b1)) {call : Option Nat} {token' : Bytes} {num : Nat}
    (hruns : runsUpload cfg token' num (.invoked call data) = true) :
    token = token' ∧ num ≤ b1.num.toNat := by
  cases call with
  | none => cases hruns
  | some k =>
    unfold runsUpload at hruns
    dsimp only at hruns
    rw [h] at hruns
    dsimp only at hruns
    rwa [Bool.and_eq_true, beq_iff_eq, decide_eq_true_iff] at hruns

/-- A delivery counts for the one block it brings. -/
theorem countP_brings {data token : Bytes} {b1 : BlockOption}
    (h : blockOf cfg data = some (token, b1)) (call : Option Nat) (token' : Bytes) (num : Nat) :
    [LedgerEvent.delivered call data].countP (bringsBlock cfg token' num) =
      if token = token' ∧ b1.num.toNat = num then 1 else 0 := by
  rw [List.countP_singleton]
  exact if_congr (bringsBlock_iff h call token' num) rfl rfl

/-- A handler run counts for the blocks up to the last one of its upload. -/
theorem countP_runs_le {data token : Bytes} {b1 : BlockOption}
    (h : blockOf cfg data = some (token, b1)) (call : Option Nat) (token' : Bytes) (num : Nat) :
    [LedgerEvent.invoked call data].countP (runsUpload cfg token' num) ≤
      if token = token' ∧ num ≤ b1.num.toNat then 1 else 0 := by
  rw [List.countP_singleton]
  by_cases hruns : runsUpload cfg token' num (.invoked call data) = true
  · rw [if_pos hruns, if_pos (runsUpload_of h hruns)]
  · rw [if_neg hruns]
    exact Nat.zero_le _

/-- A request that is no block is no end of an upload. -/
theorem countP_runs_plain {data : Bytes} (h : blockOf cfg data = none) (call : Option Nat)
    (events : List ServerEvent) (token : Bytes) (num : Nat) :
    (invocations call data events).countP (runsUpload cfg token num) = 0 := by
  refine List.countP_eq_zero.2 fun e he => ?_
  obtain ⟨e', -, he'⟩ := List.mem_filterMap.1 he
  cases e' with
  | handled =>
    cases he'
    cases call with
    | none => exact Bool.false_ne_true
    | some k =>
      unfold runsUpload
      dsimp only
      rw [h]
      exact Bool.false_ne_true
  | sent | returned => cases he'

/-- What else the server does runs handlers for other peers. -/
theorem countP_runs_none (data : Bytes) (events : List ServerEvent) (token : Bytes) (num : Nat) :
    (invocations none data events).countP (runsUpload cfg token num) = 0 := by
  refine List.countP_eq_zero.2 fun e he => ?_
  obtain ⟨e', -, he'⟩ := List.mem_filterMap.1 he
  cases e' with
  | handled =>
    cases he'
    exact Bool.false_ne_true
  | sent | returned => cases he'

/-- And what is sent without one. -/
theorem countP_runs_delivered (call : Option Nat) (data token : Bytes) (num : Nat) :
    [LedgerEvent.delivered call data].countP (runsUpload cfg token num) = 0 := rfl

-- ===========================================================================
-- Runs
-- ===========================================================================

/-- Under each token no block has come less often than the handler has run for uploads that have
it, and the blocks of a session that still collects have come once more. -/
structure Inv (link : Link) (hist : List LedgerEvent) (l : Ledger cfg) : Prop where
  tables : l.sys.server.Uploading
  counts : ∀ token num,
    hist.countP (runsUpload cfg token num) ≤ hist.countP (bringsBlock cfg token num)
  begun  : ∀ token num i, Collects link.client token l.sys.server i →
    num < (l.sys.server.block1sessions i).nextExpectedNum.toNat →
      hist.countP (runsUpload cfg token num) < hist.countP (bringsBlock cfg token num)

variable {link : Link} {hist : List LedgerEvent} {l l' : Ledger cfg}

/-- A step in which no upload comes to its handler. -/
theorem Inv.keep (inv : Inv link hist l) (l' : Ledger cfg) (htables : l'.sys.server.Uploading)
    (hkept : Kept link.client l.sys.server l'.sys.server) {ev : List LedgerEvent}
    (hruns : ∀ token num, ev.countP (runsUpload cfg token num) = 0) : Inv link (hist ++ ev) l' where
  tables := htables
  counts token num := by
    have hcounts := inv.counts token num
    rw [List.countP_append, List.countP_append, hruns]
    omega
  begun token num i hc hlt := by
    obtain ⟨hold, hsame⟩ := hkept token i hc
    rw [hsame] at hlt
    have hbegun := inv.begun token num i hold hlt
    rw [List.countP_append, List.countP_append, hruns]
    omega

/-- The blocks before the one a session expects have come once more. -/
theorem Inv.before (inv : Inv link hist l) {token : Bytes} {b1 : BlockOption}
    (before : 0 < b1.num.toNat → ∃ i, Collects link.client token l.sys.server i ∧
      (l.sys.server.block1sessions i).nextExpectedNum = b1.num) {num : Nat}
    (hlt : num < b1.num.toNat) :
    hist.countP (runsUpload cfg token num) < hist.countP (bringsBlock cfg token num) := by
  obtain ⟨i, hc, hnext⟩ := before (by omega)
  exact inv.begun token num i hc (by rwa [hnext])

/-- **One delivery.** Every block of an upload has been brought at least as often as its handler
has run, and once more if a session has it and waits for a later one. -/
theorem Inv.deliver (inv : Inv link hist l) {data : Bytes} (call : Option Nat)
    {r : Server cfg × List ServerEvent} (htables : r.1.Uploading)
    (hmoves : MovesSessions link.client l.sys.server data r)
    (hone : invocations call data r.2 = [] ∨ invocations call data r.2 = [.invoked call data])
    (hl' : l'.sys.server = r.1) :
    Inv link (hist ++ .delivered call data :: invocations call data r.2) l' := by
  rw [← hl'] at htables
  cases hmoves with
  -- by what the datagram does: nothing, one block more, or the last block of a body
  | quiet kept silent =>
    rw [← hl'] at kept
    refine inv.keep l' htables kept fun token num => ?_
    rw [List.countP_cons_of_neg Bool.false_ne_true]
    cases hblock : blockOf cfg data with
    | none => exact countP_runs_plain hblock call r.2 token num
    | some b =>
      rw [invocations_onlySends (silent (by rw [hblock]; exact nofun))]
      rfl
  | more block before after silent =>
    rename_i token b1
    rw [← hl'] at after
    rw [invocations_onlySends silent]
    refine ⟨htables, fun token' num => ?_, fun token' num i hc hlt => ?_⟩
    · have hcounts := inv.counts token' num
      rw [List.countP_append, List.countP_append, countP_runs_delivered]
      omega
    · rw [List.countP_append, List.countP_append, countP_runs_delivered,
        countP_brings block call token' num]
      -- a session that was there before, or the one that the block was appended to
      rcases after token' i hc with ⟨hold, hsame⟩ | ⟨rfl, hnext⟩
      · rw [hsame] at hlt
        have hbegun := inv.begun token' num i hold hlt
        omega
      · -- the blocks before it, and the block itself
        have hcounts := inv.counts token' num
        by_cases hnum : b1.num.toNat = num
        · rw [if_pos ⟨rfl, hnum⟩]
          omega
        · have hbefore := inv.before before (show num < b1.num.toNat by omega)
          omega
  | last block before kept none =>
    rename_i token b1
    rw [← hl'] at kept none
    have hruns : ∀ token' num, (invocations call data r.2).countP (runsUpload cfg token' num) ≤
        if token = token' ∧ num ≤ b1.num.toNat then 1 else 0 := by
      intro token' num
      -- the handler runs once at most, with the blocks up to the one that has come
      rcases hone with hnil | hone
      · rw [hnil]
        exact Nat.zero_le _
      · rw [hone]
        exact countP_runs_le block call token' num
    rw [← List.singleton_append]
    refine ⟨htables, fun token' num => ?_, fun token' num i hc hlt => ?_⟩
    · have hcounts := inv.counts token' num
      have hle := hruns token' num
      rw [List.countP_append, List.countP_append, List.countP_append, List.countP_append,
        countP_runs_delivered, countP_brings block call token' num]
      -- each of these blocks has been brought once more than the handler has run
      by_cases hends : token = token' ∧ num ≤ b1.num.toNat
      · rw [if_pos hends] at hle
        obtain ⟨rfl, hnum⟩ := hends
        by_cases hlast : b1.num.toNat = num
        · rw [if_pos ⟨rfl, hlast⟩]
          omega
        · have hbefore := inv.before before (show num < b1.num.toNat by omega)
          omega
      · rw [if_neg hends] at hle
        omega
    · obtain ⟨hold, hsame⟩ := kept token' i hc
      rw [hsame] at hlt
      have hbegun := inv.begun token' num i hold hlt
      have hne : ¬ (token = token' ∧ num ≤ b1.num.toNat) := by
        rintro ⟨rfl, -⟩
        exact none i hc
      have hle := hruns token' num
      rw [if_neg hne] at hle
      rw [List.countP_append, List.countP_append, List.countP_append, List.countP_append,
        countP_runs_delivered]
      omega

/-- **One step.** Only a delivery changes the ledger in a way that counts; the rest keeps the
sessions or closes one. -/
theorem Inv.step (inv : Inv link hist l) {a : LedgerAction} (ha : Allowed link l a) :
    Inv link (hist ++ (l.next link a).2) (l.next link a).1 := by
  cases a with
  | client a =>
    exact inv.keep (l.next link (.client a)).1 inv.tables (kept_same rfl rfl) fun _ _ =>
      List.countP_nil
  | server a =>
    refine inv.keep (l.next link (.server a)).1 (inv.tables.step a) (kept_step inv.tables ?_) fun token num =>
      countP_runs_none ..
    rintro nowMs sender data rfl
    exact ha
  | deliver nowMs n =>
    unfold Ledger.next
    dsimp only
    split
    · next data call hctl hdata hcall =>
      dsimp only
      obtain ⟨pool, obs, heq⟩ := l.sys.server.scanned_spec nowMs
      have hidle : (l.sys.server.scanned nowMs).control = .idle := by rw [heq]; exact hctl
      have htables : (l.sys.server.scanned nowMs).Uploading :=
        inv.tables.congr (l.sys.server.scanned_sessions nowMs)
      -- the pool scan, and then the datagram
      have hscanned : Inv link (hist ++ ([] : List LedgerEvent))
          { l with sys := { l.sys with server := l.sys.server.scanned nowMs } } :=
        inv.keep _ htables (kept_scanned _ _) fun _ _ => List.countP_nil
      rw [List.append_nil] at hscanned
      have hmoves := Received.movesSessions htables hidle (Server.received htables hidle link.client data)
      rw [Server.step_poll hctl, invocations_poll]
      refine hscanned.deliver call (htables.receive _) hmoves ?_ ?_
      · rcases invocations_receive (l.sys.server.scanned nowMs) link.client data call with h | ⟨-, h⟩
        · exact .inl h
        · exact .inr h
      · show (l.sys.server.step _).1 = _
        exact Server.step_poll_state hctl nowMs _
    · rw [List.append_nil]
      exact inv

/-- **In every run** the ledger is in order, whatever is lost, delayed, repeated or reordered. -/
theorem inv_of_run (r : (ledgerMachine cfg link).Run (Allowed link) hist l) : Inv link hist l := by
  refine r.invariant (I := Inv link) ⟨?_, fun _ _ => Nat.le_refl _, fun _ _ i hc => ?_⟩
    fun _ inv ha => inv.step ha
  · -- no session is open yet
    refine ⟨fun i _ hi => ?_, fun i hi => ?_, fun i hi => ?_⟩
    · cases hi
    · cases hi
    · cases hi
  · cases hc.active

/-- Each copy of a datagram runs at most one handler, and only if it completes a request. -/
theorem copies_le (r : (ledgerMachine cfg link).Run (Allowed link) hist l) (k : Nat)
    (data : Bytes) : hist.count (.invoked (some k) data) ≤
      if completes cfg data then hist.count (.delivered (some k) data) else 0 := by
  refine r.invariant (I := fun hist _ => hist.count (.invoked (some k) data) ≤
    if completes cfg data then hist.count (.delivered (some k) data) else 0) ?_
    fun {hist l a} _ ih _ => ?_
  · exact Nat.zero_le _
  -- what one step adds
  suffices hstep : (l.next link a).2.count (.invoked (some k) data) ≤
      if completes cfg data then (l.next link a).2.count (.delivered (some k) data) else 0 by
    show (hist ++ (l.next link a).2).count _ ≤
      if completes cfg data then (hist ++ (l.next link a).2).count _ else 0
    rw [List.count_append, List.count_append]
    split at ih
    · rename_i hdone
      rw [if_pos hdone] at hstep ⊢
      omega
    · rename_i hdone
      rw [if_neg hdone] at hstep ⊢
      omega
  -- only a delivery is counted; the other peers' datagrams have no call
  cases a with
  | client a => exact Nat.zero_le _
  | server a =>
    have hzero : (invocations none (polled a) (l.sys.server.step a).2).count
        (.invoked (some k) data) = 0 := by
      refine List.count_eq_zero.2 fun hmem => ?_
      obtain ⟨e, -, he⟩ := List.mem_filterMap.1 hmem
      cases e with
      | handled => cases he
      | sent | returned => cases he
    show (invocations none _ _).count _ ≤ _
    rw [hzero]
    exact Nat.zero_le _
  | deliver nowMs n =>
    unfold Ledger.next
    dsimp only
    split
    · next data' call hidle hdata hcall =>
      dsimp only
      rw [Server.step_poll hidle, invocations_poll]
      rcases invocations_receive (l.sys.server.scanned nowMs) link.client data' call with
        hnone | ⟨hdone, hone⟩
      · rw [hnone]
        simp
      · rw [hone]
        by_cases hmine : call = some k ∧ data' = data
        · obtain ⟨rfl, rfl⟩ := hmine
          rw [if_pos hdone]
          simp
        · have hzero : [LedgerEvent.delivered call data', .invoked call data'].count
              (.invoked (some k) data) = 0 := by
            refine List.count_eq_zero.2 fun hmem => hmine ?_
            simpa [eq_comm] using hmem
          rw [hzero]
          exact Nat.zero_le _
    · exact Nat.zero_le _

/-- **At most once for each copy delivered**, and for an upload at most as often as any one of its
blocks: the handler runs for a datagram of a call are not more than the deliveries of this very
datagram, if it completes a request at all; the handler runs of a call for an upload under a token
are not more than the deliveries of any block the upload has, and if the token is the call's own,
than those of the call's block. -/
theorem invocations_le {link : Link} {hist : List LedgerEvent} {l : Ledger cfg}
    (r : (ledgerMachine cfg link).Run (Allowed link) hist l) (k : Nat) :
    (∀ data, hist.count (.invoked (some k) data) ≤
      if completes cfg data then hist.count (.delivered (some k) data) else 0) ∧
    ∀ token num,
      hist.countP (fun e => ofCall k e && runsUpload cfg token num e) ≤
          hist.countP (bringsBlock cfg token num) ∧
        (OwnToken cfg k token hist →
          hist.countP (fun e => ofCall k e && runsUpload cfg token num e) ≤
            hist.countP (fun e => ofCall k e && bringsBlock cfg token num e)) := by
  refine ⟨copies_le r k, fun token num => ?_⟩
  have hmine : hist.countP (fun e => ofCall k e && runsUpload cfg token num e) ≤
      hist.countP (bringsBlock cfg token num) :=
    Nat.le_trans (List.countP_mono_left fun e _ h => (Bool.and_eq_true_iff.1 h).2)
      ((inv_of_run r).counts token num)
  refine ⟨hmine, fun hown => Nat.le_trans hmine (List.countP_mono_left fun e he h => ?_)⟩
  cases e with
  | invoked call data => cases h
  | delivered call data =>
    have hcall : call = some k := by
      refine hown _ he call data rfl ?_
      unfold bringsBlock at h
      dsimp only at h
      split at h
      · next tok b1 hblock =>
        obtain ⟨htok, -⟩ := Bool.and_eq_true_iff.1 h
        exact ⟨b1, by rw [hblock, beq_iff_eq.1 htok]⟩
      · cases h
    rw [h, Bool.and_true]
    exact beq_iff_eq.2 hcall

-- ===========================================================================
-- A lost ACK
-- ===========================================================================

def putLink : Link := { client := { port := 1 }, server := { port := 2 } }

/-- A resource at `/a`, for all methods. -/
def putResource : LedgerAction :=
  .server (.call (.addResource (some [0x2F, 0x61]) 0x0F (some 0) none false))

/-- A PUT to it, of one block and of two. -/
def putOnce : Client.ClientCall :=
  .put putLink.server [0x2F, 0x61] [0x78] .textPlain none none true
def putTwoBlocks : Client.ClientCall :=
  .put putLink.server [0x2F, 0x61] (List.replicate 65 0x78) .textPlain none none true

/-- The Continue for the first block. -/
def putContinue : Bytes := [0x61, 0x5F, 0x00, 0x01, 0x01, 0xD1, 0x0E, 0x02]

/-- The upload, whose last block is delivered three times. -/
def putUploaded : List LedgerAction :=
  [putResource, .client (.call putTwoBlocks true), .deliver 0 0,
      .client (.poll 1 (some (putLink.server, putContinue)))] ++
    List.replicate 8 (.client (.resume true)) ++
    [.deliver 2 1, .server (.handlerReturns { code := Code.changed }), .deliver 3 1, .deliver 4 1]

/-- The history of the upload. -/
def putHistory : List LedgerEvent :=
  ((ledgerMachine Config.blockwise putLink).exec [] {} putUploaded).1

/-- The handler has run once, as often as the first block has come. -/
theorem invocations_le_put :
    putHistory.countP (fun e => ofCall 0 e && runsUpload Config.blockwise [1] 0 e) = 1 ∧
      putHistory.countP (fun e => ofCall 0 e && bringsBlock Config.blockwise [1] 1 e) = 3 ∧
      putHistory.countP (fun e => ofCall 0 e && runsUpload Config.blockwise [1] 0 e) ≤
        putHistory.countP (fun e => ofCall 0 e && bringsBlock Config.blockwise [1] 0 e) := by
  have hmeets : (ledgerMachine Config.blockwise putLink).Meets (Allowed putLink) {}
      putUploaded := by decide +kernel
  have hown : OwnToken Config.blockwise 0 [1] putHistory := by
    have hall : putHistory.all (fun e => isRun e || ofCall 0 e) = true := by decide +kernel
    rintro e he call data rfl -
    exact beq_iff_eq.1 (List.all_eq_true.1 hall _ he)
  exact ⟨by decide +kernel, by decide +kernel,
    ((invocations_le (Machine.Run.start.exec hmeets) 0).2 [1] 0).2 hown⟩

/-- The handler runs for the request; the client does not hear the ACK. -/
def putHandled : List LedgerAction :=
  [putResource, .client (.call putOnce true), .deliver 0 0,
    .server (.handlerReturns { code := Code.changed })]

/-- So its `poll()` sends the request again, and that copy arrives. -/
def putResent : List LedgerAction :=
  .client (.poll 60000 none) :: List.replicate 8 (.client (.resume true)) ++ [.deliver 1 1]

/-- The handler has run twice for the one PUT. -/
theorem not_once :
    ¬ ∀ hist (l : Ledger Config.blockwise),
      (ledgerMachine Config.blockwise putLink).Run (Allowed putLink) hist l →
        ∀ k, hist.countP (fun e => ofCall k e && isRun e) ≤ 1 := by
  intro h
  have hmeets : (ledgerMachine Config.blockwise putLink).Meets (Allowed putLink) {}
      (putHandled ++ putResent) := by decide +kernel
  have htwice := h _ _ (Machine.Run.start.exec hmeets) 0
  revert htwice
  decide +kernel

end System

end PulseCoap
