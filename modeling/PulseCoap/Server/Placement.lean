import PulseCoap.Server.Sessions

/-!
# PulseCoAP — where a block of an upload goes

A Block1 option names the place of its bytes: the number times the block size, which
`BlockOption::byteOffset` computes. The server does not call it. It takes a block whose
number is the one its session expects and puts the bytes behind those it has. The two
places are the same as long as a block with more to come is exactly as long as its size
says and the size does not change under way. Neither is checked, nor the reserved
exponent 7.

`stepBlocks` separates the code from the arithmetic: a step appends one block to
one session or none, closes sessions or not, and hands the body of one session
on or none. `Tiled` says that a session's bytes are the blocks it took, each at
its place. A block that is not regular may be the last one of its upload, or be
followed by others; in either case the bytes of the next one are not where its
number says.

* `accepted` — the block a step appends to a session, and the session before it.
* `stepBlocks` — what a step does to the sessions and which body it hands on.
* `Regular` — the condition on an accepted block.
* `Tiled` — what it keeps true of a session.
* `placed_iff` — over all runs, the blocks are in place exactly as long as every
  accepted block is regular.
* `not_placed` — a short first block, and the last one is not where it should be.
* `Appends`, `Skips` — the two things that a datagram can do to the sessions.
-/

namespace PulseCoap

/-- `BlockOption::byteOffset`; the product of a number of twenty bits and a block size
fits its 32 bits. -/
def BlockOption.byteOffset (b : BlockOption) : Nat := b.num.toNat * blockSize b.szx

namespace Server

variable {cfg : Config}

-- ===========================================================================
-- Accepted blocks
-- ===========================================================================

/-- A block with its bytes. -/
structure Piece where
  block : BlockOption
  bytes : Bytes
deriving DecidableEq, Repr

/-- The bytes stand where the option of the block says. -/
def Piece.InPlace (p : Piece) (body : Bytes) : Prop :=
  (body.drop p.block.byteOffset).take p.bytes.length = p.bytes

/-- A block the server appends, and the session as it was before. -/
structure Accepted (cfg : Config) where
  slot   : Fin cfg.maxBlock1Sessions
  before : Block1Session
  piece  : Piece

/-- The block with this option goes to its session when that expects the number and has
room for the bytes. -/
def appendsTo (s : Server cfg) (b1 : BlockOption) (sender : Endpoint) (msg : Message) :
    Option (Accepted cfg) :=
  match s.sessionFor b1 sender msg.token with
  | .error _ => none
  | .ok (s', i) =>
    let sess := s'.block1sessions i
    if b1.num = sess.nextExpectedNum ∧
        sess.buffer.length + msg.payloadBytes.length ≤ cfg.block1MaxBody then
      some { slot := i, before := sess, piece := { block := b1, bytes := msg.payloadBytes } }
    else none

/-- The Block1 option of a datagram that gets as far as the Block1 branch. -/
def blockArrived (s : Server cfg) (data : Bytes) : Option (BlockOption × Message) :=
  let r := Message.decode cfg data
  if r.1 = .none ∧ IsRequest r.2 ∧ (s.admitted r.2).isSome then
    ((block1Option cfg r.2).bind BlockOption.fromOption).map fun b1 => (b1, r.2)
  else none

/-- The block a datagram gets appended. -/
def arrives (s : Server cfg) (sender : Endpoint) (data : Bytes) : Option (Accepted cfg) :=
  (s.blockArrived data).bind fun x => s.appendsTo x.1 sender x.2

/-- The block a step appends. -/
def accepted (s : Server cfg) : Action → Option (Accepted cfg)
  | .poll nowMs (some (sender, data)) =>
    if s.control = .idle then (s.scanned nowMs).arrives sender data else none
  | _ => none

/-- The session takes further blocks: it is active, and no handler runs with its body. -/
def Open (s : Server cfg) (i : Fin cfg.maxBlock1Sessions) : Prop :=
  (s.block1sessions i).active = true ∧ ∀ h, s.control = .handling h → h.session ≠ some i

/-- Every handler call among the events has this body. -/
def BodyIs (body : Option Bytes) (events : List ServerEvent) : Prop :=
  ∀ index handler req ctx, .handled index handler req ctx ∈ events → req.block1Body = body

/-- Without a handler call there is no body. -/
theorem bodyIs_sends {events : List ServerEvent} (h : OnlySends events) (body : Option Bytes) :
    BodyIs body events :=
  fun _ _ _ _ he => absurd he h.not_handled

/-- The body a handler is called with. -/
theorem CallsWith.bodyIs {body : Option Bytes} {t : Target} {msg : Message} {sender : Endpoint}
    {events : List ServerEvent} (h : CallsWith body t msg sender events) : BodyIs body events := by
  obtain ⟨req, rest, rfl, -, -, -, hbody, hrest⟩ := h
  intro index handler req' ctx he
  rcases List.mem_cons.1 he with heq | he
  · cases heq
    exact hbody
  · exact absurd he hrest.not_handled

-- ===========================================================================
-- One datagram
-- ===========================================================================

/-- A datagram that appends nothing. -/
structure Skips (s : Server cfg) (r : Server cfg × List ServerEvent) : Prop where
  kept : ∀ j, (r.1.block1sessions j).active = true → r.1.block1sessions j = s.block1sessions j
  body : BodyIs none r.2

/-- A datagram with an accepted block. -/
structure Appends (s : Server cfg) (x : Accepted cfg) (r : Server cfg × List ServerEvent) :
    Prop where
  kept : ∀ j, j ≠ x.slot → r.1.block1sessions j = s.block1sessions j
  here : r.1.Open x.slot → s.control = .idle → x.piece.block.m = true ∧
    r.1.block1sessions x.slot = appended x.before x.piece.bytes
  body : BodyIs (some (x.before.buffer ++ x.piece.bytes)) r.2

/-- A reply puts no block anywhere. -/
theorem JustReplies.skips {s s' : Server cfg} {r : Server cfg × List ServerEvent}
    (h : s'.JustReplies r)
    (hkept : ∀ j, (s'.block1sessions j).active = true → s'.block1sessions j = s.block1sessions j) :
    Skips s r :=
  ⟨by rw [h.sessions]; exact hkept, bodyIs_sends h.2 none⟩

/-- What is still active after a session was freed is another one. -/
theorem freeBlock1Session_kept {s : Server cfg} {i j : Fin cfg.maxBlock1Sessions}
    (h : ((s.freeBlock1Session i).block1sessions j).active = true) :
    j ≠ i ∧ (s.freeBlock1Session i).block1sessions j = s.block1sessions j := by
  have hset : (s.freeBlock1Session i).block1sessions =
    s.block1sessions.set i { s.block1sessions i with active := false } := rfl
  rw [hset] at h ⊢
  have hji : j ≠ i := by
    rintro rfl
    rw [Table.set_self] at h
    cases h
  exact ⟨hji, Table.set_ne _ _ hji⟩

/-- The block of a session, at the session it comes to. -/
theorem handleBlock_appends (s : Server cfg) (i : Fin cfg.maxBlock1Sessions) (b1 : BlockOption)
    (t : Target) (msg : Message) (sender : Endpoint) (ov : Option UInt32) :
    let sess := s.block1sessions i
    let r := s.handleBlock i b1 t msg sender ov
    if b1.num = sess.nextExpectedNum ∧
        sess.buffer.length + msg.payloadBytes.length ≤ cfg.block1MaxBody then
      Appends s { slot := i, before := sess, piece := { block := b1, bytes := msg.payloadBytes } } r
    else (b1.num ≠ sess.nextExpectedNum ∧ s.JustReplies r) ∨ (s.freeBlock1Session i).JustReplies r := by
  dsimp only
  -- out of order, too large, one more block, or the last one
  rcases s.handleBlock_cases i b1 t msg sender ov with ⟨hnum, heq⟩ | ⟨-, hover, heq⟩ |
    ⟨hnum, hfits, hm, heq⟩ | ⟨hnum, hfits, hm, heq⟩
  · rw [if_neg fun h => hnum h.1, heq]
    exact .inl ⟨hnum, s.justReplies_continue ..⟩
  · rw [if_neg fun h => absurd h.2 (by omega), heq]
    exact .inr ((s.freeBlock1Session i).justReplies_error ..)
  · rw [if_pos ⟨hnum, hfits⟩, heq]
    have hreply := (s.withSession i (appended (s.block1sessions i) msg.payloadBytes)).justReplies_continue
      msg sender b1.num false b1.szx
    refine ⟨fun j hj => ?_, fun _ _ => ⟨hm, ?_⟩, bodyIs_sends hreply.2 _⟩
    · rw [hreply.sessions]
      exact Table.set_ne _ _ hj
    · rw [hreply.sessions]
      exact Table.set_self ..
  · rw [if_pos ⟨hnum, hfits⟩, heq]
    obtain ⟨hsess, hcall⟩ := runHandler_sessions
      (s.withSession i (appended (s.block1sessions i) msg.payloadBytes)) t msg sender ov (some i)
    refine ⟨fun j hj => ?_, fun hopen hidle => ?_, ?_⟩
    · rcases hsess with h | h
      · rw [h]
        exact Table.set_ne _ _ hj
      · rw [h]
        show Table.set (s.block1sessions.set i _) i _ j = _
        rw [Table.set_ne _ _ hj, Table.set_ne _ _ hj]
    · -- the handler has the body, or has returned and the session is free
      exfalso
      obtain ⟨hactive, hheld⟩ := hopen
      rw [runHandler_freed] at hactive
      rcases runHandler_cases (s.withSession i (appended (s.block1sessions i) msg.payloadBytes)) t
        msg sender ov (some i) with ⟨f, -, hrun⟩ | ⟨hwk, -⟩
      · rw [hrun] at hheld
        exact hheld _ rfl rfl
      · rw [if_pos hwk] at hactive
        exact (freeBlock1Session_kept hactive).1 rfl
    · have hbody := hcall.bodyIs
      rw [Option.map_some] at hbody
      change BodyIs (some ((s.block1sessions.set i _) i).buffer) _ at hbody
      rw [Table.set_self] at hbody
      exact hbody

/-- The Block1 branch. -/
theorem handleBlock1_appends (s : Server cfg) {opt : CoapOption} {b1 : BlockOption}
    (hb1 : BlockOption.fromOption opt = some b1) (t : Target) (msg : Message) (sender : Endpoint)
    (ov : Option UInt32) :
    (∀ x, s.appendsTo b1 sender msg = some x → Appends s x (s.handleBlock1 opt t msg sender ov)) ∧
      (s.appendsTo b1 sender msg = none → Skips s (s.handleBlock1 opt t msg sender ov)) := by
  unfold handleBlock1 appendsTo
  rw [hb1]
  dsimp only
  -- no session can be had, one is there, or this block opens one
  rcases s.sessionFor_cases b1 sender msg.token with ⟨code, hs⟩ | ⟨i, -, hs⟩ |
    ⟨i, -, hnum, hfree, hs⟩ <;> rw [hs] <;> dsimp only
  · exact ⟨nofun, fun _ => (s.justReplies_error ..).skips fun _ _ => rfl⟩
  · -- the session of the sender and its token
    have hblock := s.handleBlock_appends i b1 t msg sender ov
    dsimp only at hblock
    split at hblock
    · rename_i htakes
      rw [if_pos htakes]
      refine ⟨fun x hx => ?_, nofun⟩
      obtain rfl := Option.some.inj hx
      exact hblock
    · rename_i hnot
      rw [if_neg hnot]
      refine ⟨nofun, fun _ => ?_⟩
      rcases hblock with ⟨-, hreply⟩ | hreply
      · exact hreply.skips fun _ _ => rfl
      · exact hreply.skips fun j hj => (freeBlock1Session_kept hj).2
  · -- a session opened by this block
    have hblock := (s.withSession i (newSession sender msg.token)).handleBlock_appends i b1 t msg
      sender ov
    have hi : (s.withSession i (newSession sender msg.token)).block1sessions i =
      newSession sender msg.token := Table.set_self ..
    dsimp only at hblock
    split at hblock
    · rename_i htakes
      rw [if_pos htakes]
      refine ⟨fun x hx => ?_, nofun⟩
      obtain rfl := Option.some.inj hx
      refine ⟨fun j hj => (hblock.kept j hj).trans (Table.set_ne _ _ hj), hblock.here, hblock.body⟩
    · rename_i hnot
      rw [if_neg hnot]
      refine ⟨nofun, fun _ => ?_⟩
      rcases hblock with ⟨hne, -⟩ | hreply
      · rw [hi] at hne
        exact absurd hnum hne
      · refine hreply.skips fun j hj => ?_
        obtain ⟨hji, hsame⟩ := freeBlock1Session_kept hj
        exact hsame.trans (Table.set_ne _ _ hji)

/-- **One datagram**: the sessions and the bodies are what `arrives` says. A block that is
refused changes no session, except that one that is too much frees it. -/
theorem receive_appends (s : Server cfg) (sender : Endpoint) (data : Bytes) :
    (∀ x, s.arrives sender data = some x → Appends s x (s.receive (some (sender, data)))) ∧
      (s.arrives sender data = none → Skips s (s.receive (some (sender, data)))) := by
  have hquiet : ∀ {r : Server cfg × List ServerEvent}, r.1.block1sessions = s.block1sessions →
      OnlySends r.2 → Skips s r :=
    fun hsame hsends => ⟨fun j _ => by rw [hsame], bodyIs_sends hsends none⟩
  constructor
  · -- the block is one that is appended: follow it down to `handleBlock`
    intro x hx
    obtain ⟨⟨b1, msg⟩, harrived, hto⟩ := Option.bind_eq_some_iff.1 hx
    unfold blockArrived at harrived
    dsimp only at harrived
    split at harrived
    case isFalse => cases harrived
    rename_i hok
    obtain ⟨hnone, hreq, hadm⟩ := hok
    obtain ⟨b1', hb1', heq⟩ := Option.map_eq_some_iff.1 harrived
    obtain ⟨rfl, rfl⟩ : b1' = b1 ∧ (Message.decode cfg data).2 = msg := Prod.mk.inj heq
    obtain ⟨opt, hopt, hb1⟩ := Option.bind_eq_some_iff.1 hb1'
    obtain ⟨t, had⟩ := Option.isSome_iff_exists.1 hadm
    have hdec : Message.decode cfg data = (.none, (Message.decode cfg data).2) :=
      Prod.ext hnone rfl
    rw [receive_request s sender hdec hreq]
    rcases s.handleRequest_cases (Message.decode cfg data).2 sender with ⟨hno, -⟩ | ⟨t', -, heq⟩
    · rw [had] at hno
      cases hno
    rw [heq]
    rcases s.handleTarget_cases t' (Message.decode cfg data).2 sender with ⟨hno, -⟩ |
      ⟨opt', hopt', heq⟩
    · rw [hopt] at hno
      cases hno
    obtain rfl : opt = opt' := Option.some.inj (hopt.symm.trans hopt')
    rw [heq]
    exact (s.handleBlock1_appends hb1 t' _ sender none).1 x hto
  · -- and if none is, every branch leaves the open sessions as they are
    intro hnone
    rcases s.receive_cases (some (sender, data)) with heq | ⟨sender', data', msg, -, -, -, heq⟩ |
      ⟨sender', data', msg, -, -, -, heq⟩ | ⟨sender', data', msg, hrx, hdec, hreq, heq⟩
    · rw [heq]
      exact hquiet rfl onlySends_nil
    · obtain ⟨obs, hobs⟩ := s.handleReset_spec sender' msg.messageId
      rw [heq, hobs]
      exact hquiet rfl onlySends_nil
    · rw [heq]
      exact hquiet rfl onlySends_nil
    obtain ⟨rfl, rfl⟩ : sender = sender' ∧ data = data' := by simpa using hrx
    rw [heq]
    rcases s.handleRequest_cases msg sender with ⟨-, code, heq⟩ | ⟨t, had, heq⟩
    · rw [heq]
      exact (s.justReplies_error ..).skips fun _ _ => rfl
    rw [heq]
    rcases s.handleTarget_cases t msg sender with ⟨-, obs, heq⟩ | ⟨opt, hopt, heq⟩
    · -- outside the Block1 branch the handler gets no body
      rw [heq]
      obtain ⟨hkeep, hcall⟩ := (s.withObservers obs).runHandler_sessions t msg sender
        (s.handleObserve t msg sender).2 none
      refine ⟨fun j _ => ?_, hcall.bodyIs⟩
      rw [hkeep.elim id id]
      rfl
    rw [heq]
    cases hb1 : BlockOption.fromOption opt with
    | none =>
      unfold handleBlock1
      rw [hb1]
      exact (s.justReplies_error ..).skips fun _ _ => rfl
    | some b1 =>
      refine (s.handleBlock1_appends hb1 t msg sender none).2 ?_
      have harrived : s.blockArrived data = some (b1, msg) := by
        unfold blockArrived
        rw [hdec, if_pos ⟨rfl, hreq, by rw [had]; rfl⟩, hopt, Option.bind_some, hb1]
        rfl
      unfold arrives at hnone
      rwa [harrived, Option.bind_some] at hnone

/-- What an accepted block says of itself and of the session it comes to. -/
structure Fresh (s : Server cfg) (x : Accepted cfg) : Prop where
  idle   : s.control = .idle
  option : ∃ opt, BlockOption.fromOption opt = some x.piece.block
  number : x.piece.block.num = x.before.nextExpectedNum
  -- a session under way, or one this block opens
  before : (s.block1sessions x.slot).active = true ∧ x.before = s.block1sessions x.slot ∨
    (s.block1sessions x.slot).active = false ∧ x.before.nextExpectedNum = 0 ∧ x.before.buffer = []

/-- A block that opens a session is its first one. -/
theorem accepted_fresh {s : Server cfg} {a : Action} {x : Accepted cfg}
    (h : s.accepted a = some x) : Fresh s x := by
  unfold accepted at h
  split at h
  case h_2 => cases h
  rename_i nowMs sender data
  split at h
  case isFalse => cases h
  rename_i hidle
  have hsess := s.scanned_sessions nowMs
  obtain ⟨⟨b1, msg⟩, harrived, hto⟩ := Option.bind_eq_some_iff.1 h
  have hoption : ∃ opt, BlockOption.fromOption opt = some b1 := by
    unfold blockArrived at harrived
    dsimp only at harrived
    split at harrived
    case isFalse => cases harrived
    obtain ⟨b1', hb1', heq⟩ := Option.map_eq_some_iff.1 harrived
    obtain ⟨opt, -, hb1⟩ := Option.bind_eq_some_iff.1 hb1'
    obtain rfl : b1' = b1 := congrArg Prod.fst heq
    exact ⟨opt, hb1⟩
  unfold appendsTo at hto
  dsimp only at hto
  -- no session, the one the peer has, or a new one
  rcases (s.scanned nowMs).sessionFor_cases b1 sender msg.token with ⟨code, hs⟩ | ⟨i, hf, hs⟩ |
    ⟨i, -, -, hfree, hs⟩ <;> rw [hs] at hto <;> dsimp only at hto
  · cases hto
  · split at hto
    case isFalse => cases hto
    rename_i htakes
    obtain rfl := Option.some.inj hto
    obtain ⟨hact, -, -⟩ := findBlock1Session_spec hf
    rw [hsess] at hact
    exact ⟨hidle, hoption, htakes.1, .inl ⟨hact, congrFun hsess i⟩⟩
  · split at hto
    case isFalse => cases hto
    rename_i htakes
    obtain rfl := Option.some.inj hto
    have hnew : ((s.scanned nowMs).withSession i (newSession sender msg.token)).block1sessions i =
      newSession sender msg.token := Table.set_self ..
    rw [hsess] at hfree
    refine ⟨hidle, hoption, htakes.1, .inr ⟨hfree, ?_, ?_⟩⟩
    · show (withSession _ i _ |>.block1sessions i).nextExpectedNum = 0
      rw [hnew]
      rfl
    · show (withSession _ i _ |>.block1sessions i).buffer = []
      rw [hnew]
      rfl

-- ===========================================================================
-- One step
-- ===========================================================================

/-- What a step does to the open sessions, and which bodies it hands on. -/
structure StepBlocks (s : Server cfg) (a : Action) : Prop where
  kept : ∀ j, (s.step a).1.Open j → (∀ x, s.accepted a = some x → x.slot ≠ j) →
    s.Open j ∧ (s.step a).1.block1sessions j = s.block1sessions j
  here : ∀ x, s.accepted a = some x → (s.step a).1.Open x.slot → x.piece.block.m = true ∧
    (s.step a).1.block1sessions x.slot = appended x.before x.piece.bytes
  body : ∀ index handler req ctx body, .handled index handler req ctx ∈ (s.step a).2 →
    req.block1Body = some body →
    ∃ x, s.accepted a = some x ∧ body = x.before.buffer ++ x.piece.bytes

/-- A step that appends nothing. -/
theorem StepBlocks.quiet {s : Server cfg} {a : Action} (hnone : s.accepted a = none)
    (hkept : ∀ j, (s.step a).1.Open j →
      s.Open j ∧ (s.step a).1.block1sessions j = s.block1sessions j)
    (hbody : BodyIs none (s.step a).2) : StepBlocks s a where
  kept j hj _ := hkept j hj
  here x hx _ := by
    rw [hnone] at hx
    cases hx
  body index handler req ctx body he hb := by
    rw [hbody index handler req ctx he] at hb
    cases hb

/-- **What a step does with blocks**: nothing, or one block of one session. Calls of the API and
the return of a handler append nothing. -/
theorem stepBlocks (s : Server cfg) (a : Action) : StepBlocks s a := by
  -- a call does not touch the sessions, a return frees one, and `poll` may append a block
  cases a with
  | call c =>
    have hkeeps := s.call_keeps c
    have hstep : s.step (.call c) = ((s.call c).1,
      (s.call c).2.2 ++ [.returned (s.call c).2.1]) := rfl
    refine .quiet rfl (fun j hj => ?_) fun index handler req ctx he => ?_
    · rw [hstep] at hj ⊢
      have hsess := congrFun hkeeps.sessions j
      refine ⟨⟨hsess ▸ hj.1, fun h hh => hj.2 h ?_⟩, hsess⟩
      rw [← hh]
      exact hkeeps.control
    · rw [hstep] at he
      rcases List.mem_append.1 he with he | he
      · exact absurd he hkeeps.sends.not_handled
      · cases List.mem_singleton.1 he
  | handlerReturns res =>
    cases hctl : s.control with
    | idle =>
      have hstep := step_returns_idle hctl res
      refine .quiet rfl (fun j hj => ?_) ?_
      · rw [hstep] at hj ⊢
        exact ⟨hj, rfl⟩
      · rw [hstep]
        exact bodyIs_sends onlySends_nil none
    | handling hd =>
      have hstep := step_returns hctl res
      obtain ⟨⟨id, hstate⟩, hsends⟩ := finish_spec { s with control := .idle } hd res
      have hsess : (s.step (.handlerReturns res)).1.block1sessions =
          (s.freeBlock1Session? hd.session).block1sessions := by
        rw [hstep, hstate]
        cases hd.session <;> rfl
      refine .quiet rfl (fun j hj => ?_) (by rw [hstep]; exact bodyIs_sends hsends none)
      -- the session of the handler that returns is free now
      have hopen : hd.session ≠ some j ∧
          (s.step (.handlerReturns res)).1.block1sessions j = s.block1sessions j := by
        have hactive := hj.1
        rw [hsess] at hactive ⊢
        cases hses : hd.session with
        | none => exact ⟨nofun, rfl⟩
        | some i =>
          rw [hses] at hactive
          obtain ⟨hji, hsame⟩ := freeBlock1Session_kept hactive
          exact ⟨fun h => hji (Option.some.inj h).symm, hsame⟩
      refine ⟨⟨hopen.2 ▸ hj.1, fun h hh => ?_⟩, hopen.2⟩
      rw [hctl] at hh
      cases hh
      exact hopen.1
  | poll nowMs rx =>
    cases hctl : s.control with
    | handling hd =>
      have hstep := step_poll_busy hctl nowMs rx
      refine .quiet ?_ (fun j hj => ?_) ?_
      · cases rx with
        | none => rfl
        | some r => exact if_neg (by rw [hctl]; nofun)
      · rw [hstep] at hj ⊢
        exact ⟨hj, rfl⟩
      · rw [hstep]
        exact bodyIs_sends onlySends_nil none
    | idle =>
      -- the scan of the pool comes first, and it does not touch the sessions either
      obtain ⟨ticks, hticks, hpoll⟩ := s.poll_eq nowMs rx
      have hstep : s.step (.poll nowMs rx) = (((s.scanned nowMs).receive rx).1,
          ticks ++ ((s.scanned nowMs).receive rx).2) := by
        rw [step_poll hctl, hpoll]
      have hsess := s.scanned_sessions nowMs
      have hidle : (s.scanned nowMs).control = .idle := (s.scanned_control nowMs).trans hctl
      have hopen : ∀ j, (s.block1sessions j).active = true → s.Open j := fun j hj =>
        ⟨hj, fun h hh => by rw [hctl] at hh; cases hh⟩
      -- the scan calls no handler
      have hbodies : ∀ {body}, BodyIs body ((s.scanned nowMs).receive rx).2 →
          BodyIs body (s.step (.poll nowMs rx)).2 := by
        intro body hbody index handler req ctx he
        rw [hstep] at he
        rcases List.mem_append.1 he with he | he
        · exact absurd he hticks.not_handled
        · exact hbody index handler req ctx he
      have hskip : s.accepted (.poll nowMs rx) = none →
          Skips (s.scanned nowMs) ((s.scanned nowMs).receive rx) →
          StepBlocks s (.poll nowMs rx) := by
        intro hnone hskips
        refine .quiet hnone (fun j hj => ?_) (hbodies hskips.body)
        rw [hstep] at hj ⊢
        have hsame := (hskips.kept j hj.1).trans (congrFun hsess j)
        exact ⟨hopen j (hsame ▸ hj.1), hsame⟩
      cases rx with
      | none => exact hskip rfl ⟨fun _ _ => rfl, bodyIs_sends onlySends_nil none⟩
      | some r =>
        obtain ⟨sender, data⟩ := r
        have haccepted : s.accepted (.poll nowMs (some (sender, data))) =
          (s.scanned nowMs).arrives sender data := if_pos hctl
        obtain ⟨htakes, hskips⟩ := (s.scanned nowMs).receive_appends sender data
        cases hx : (s.scanned nowMs).arrives sender data with
        | none => exact hskip (haccepted.trans hx) (hskips hx)
        | some x =>
          have hmeets := htakes x hx
          have hslot : ∀ x', s.accepted (.poll nowMs (some (sender, data))) = some x' → x' = x :=
            fun x' hx' => Option.some.inj (hx'.symm.trans (haccepted.trans hx))
          -- the datagram brings a block that is taken
          constructor
          · intro j hj hne
            rw [hstep] at hj ⊢
            have hsame := (hmeets.kept j fun h => hne x (haccepted.trans hx) h.symm).trans
              (congrFun hsess j)
            exact ⟨hopen j (hsame ▸ hj.1), hsame⟩
          · intro x' hx' hj
            obtain rfl := hslot x' hx'
            rw [hstep] at hj ⊢
            exact hmeets.here hj hidle
          · intro index handler req ctx body he hb
            have hbody := hbodies hmeets.body index handler req ctx he
            exact ⟨x, haccepted.trans hx, Option.some.inj (hb.symm.trans hbody)⟩

-- ===========================================================================
-- Places in a body
-- ===========================================================================

/-- The exponent can be told from the size. -/
theorem blockSize_inj {szx szx' : UInt8} (h : szx.toNat < 8) (h' : szx'.toNat < 8)
    (heq : blockSize szx = blockSize szx') : szx = szx' := by
  rw [blockSize_eq h, blockSize_eq h'] at heq
  have := Nat.pow_right_injective (le_refl 2) heq
  exact UInt8.toNat_inj.1 (by omega)

/-- What is in place stays there when more is appended. -/
theorem Piece.InPlace.append {p : Piece} {body : Bytes} (h : p.InPlace body) (more : Bytes) :
    p.InPlace (body ++ more) := by
  unfold Piece.InPlace at h ⊢
  have hlen := congrArg List.length h
  rw [List.length_take, List.length_drop] at hlen
  by_cases hempty : p.bytes.length = 0
  · rw [hempty, List.take_zero, List.length_eq_zero_iff.1 hempty]
  · rw [List.drop_append_of_le_length (by omega), List.take_append_of_le_length, h]
    rw [List.length_drop]
    omega

/-- What is appended at its own offset is in place. -/
theorem Piece.inPlace_end {p : Piece} {body : Bytes} (h : p.block.byteOffset = body.length) :
    p.InPlace (body ++ p.bytes) := by
  unfold Piece.InPlace
  rw [h, List.drop_left, List.take_length]

/-- A session in which the blocks lie side by side, each at its own offset. -/
structure Tiled (b : Block1Session) (ps : List Piece) : Prop where
  count   : b.nextExpectedNum.toNat = ps.length
  nonempty : ps ≠ []
  small   : ∀ p ∈ ps, p.block.szx.toNat < 8
  length  : ∀ p ∈ ps, b.buffer.length = ps.length * blockSize p.block.szx
  inPlace : ∀ p ∈ ps, p.InPlace b.buffer

/-- A session before a block: with some blocks, or just opened. -/
def Ready (b : Block1Session) (ps : List Piece) : Prop :=
  Tiled b ps ∨ b.nextExpectedNum = 0 ∧ b.buffer = [] ∧ ps = []

section

variable {b : Block1Session} {ps : List Piece} {p : Piece} {opt : CoapOption}

/-- **The next block goes to its offset** exactly when it has the size of the others. The number
is the count of the blocks so far, and the offset is the number times the size. -/
theorem Ready.offset_iff (h : Ready b ps) (hopt : BlockOption.fromOption opt = some p.block)
    (hnum : p.block.num = b.nextExpectedNum) :
    p.block.byteOffset = b.buffer.length ↔ ∀ q ∈ ps ++ [p], q.block.szx = p.block.szx := by
  unfold BlockOption.byteOffset
  rw [hnum]
  rcases h with htiled | ⟨hzero, hbuf, rfl⟩
  · have hsmall : p.block.szx.toNat < 8 := by
      rw [BlockOption.fromOption_szx hopt]
      omega
    have hpos := List.length_pos_iff.2 htiled.nonempty
    rw [htiled.count]
    constructor
    · intro heq q hq
      rcases List.mem_append.1 hq with hq | hq
      · -- as many blocks, as many bytes
        rw [htiled.length q hq] at heq
        exact (blockSize_inj hsmall (htiled.small q hq) (Nat.eq_of_mul_eq_mul_left hpos heq)).symm
      · rw [List.mem_singleton.1 hq]
    · intro hsame
      obtain ⟨q, hq⟩ := List.exists_mem_of_ne_nil ps htiled.nonempty
      rw [htiled.length q hq, hsame q (List.mem_append_left _ hq)]
  · refine iff_of_true ?_ fun q hq => ?_
    · rw [hzero, hbuf]
      exact Nat.zero_mul _
    · rw [List.nil_append] at hq
      rw [List.mem_singleton.1 hq]

/-- At its offset, the block and all before it are in place. -/
theorem Ready.inPlace (h : Ready b ps) (hoffset : p.block.byteOffset = b.buffer.length) :
    ∀ q ∈ ps ++ [p], q.InPlace (b.buffer ++ p.bytes) := by
  intro q hq
  rcases List.mem_append.1 hq with hq | hq
  · rcases h with htiled | ⟨-, -, rfl⟩
    · exact (htiled.inPlace q hq).append p.bytes
    · cases hq
  · rw [List.mem_singleton.1 hq]
    exact Piece.inPlace_end hoffset

/-- A whole block of the same size keeps the session tiled. -/
theorem Ready.append (h : Ready b ps) (hopt : BlockOption.fromOption opt = some p.block)
    (hnum : p.block.num = b.nextExpectedNum) (hsame : ∀ q ∈ ps ++ [p], q.block.szx = p.block.szx)
    (hlen : p.bytes.length = blockSize p.block.szx) : Tiled (appended b p.bytes) (ps ++ [p]) := by
  have hoffset := (h.offset_iff hopt hnum).2 hsame
  have hcount : b.nextExpectedNum.toNat = ps.length := by
    rcases h with htiled | ⟨hzero, -, rfl⟩
    · exact htiled.count
    · rw [hzero]
      rfl
  constructor
  · have hlt := BlockOption.fromOption_num hopt
    show (b.nextExpectedNum + 1).toNat = _
    rw [hnum] at hlt
    rw [UInt32.toNat_add, List.length_append, List.length_singleton,
      show (1 : UInt32).toNat = 1 from rfl]
    omega
  · simp
  · intro q hq
    rw [hsame q hq, BlockOption.fromOption_szx hopt]
    omega
  · intro q hq
    show (b.buffer ++ p.bytes).length = _
    rw [hsame q hq, List.length_append, List.length_append, List.length_singleton, hlen, ← hoffset,
      BlockOption.byteOffset, hnum, hcount, Nat.add_mul, Nat.one_mul]
  · exact h.inPlace hoffset

end

-- ===========================================================================
-- Runs
-- ===========================================================================

/-- The server, and the blocks in each of its sessions. -/
structure Pieced (cfg : Config) where
  server : Server cfg := {}
  pieces : Table cfg.maxBlock1Sessions (List Piece) := fun _ => []

/-- The blocks of a session with an accepted one; a session that was free starts with it. -/
def Pieced.after (st : Pieced cfg) (x : Accepted cfg) : List Piece :=
  (if (st.server.block1sessions x.slot).active then st.pieces x.slot else []) ++ [x.piece]

def Pieced.next (st : Pieced cfg) (a : Action) : Pieced cfg × List ServerEvent :=
  let r := st.server.step a
  ({ server := r.1
     pieces :=
       match st.server.accepted a with
       | some x => st.pieces.set x.slot (st.after x)
       | none => st.pieces }, r.2)

def pieced (cfg : Config) : Machine (Pieced cfg) Action ServerEvent where
  init := {}
  next := Pieced.next

/-- A step keeps blocks in their places. What it appends has no reserved exponent, is a whole
block unless it is the last, and goes to its offset; and in a body it hands to a handler, all
blocks of the session are where their options say. -/
structure Placed (st : Pieced cfg) (a : Action) : Prop where
  block : ∀ x, st.server.accepted a = some x → x.piece.block.szx ≠ 7 ∧
    (x.piece.block.m = true → x.piece.bytes.length = blockSize x.piece.block.szx) ∧
      x.piece.block.byteOffset = x.before.buffer.length
  body : ∀ index handler req ctx body,
    .handled index handler req ctx ∈ ((pieced cfg).next st a).2 → req.block1Body = some body →
    ∃ x, st.server.accepted a = some x ∧ ∀ p ∈ st.after x, p.InPlace body

/-- A block that is accepted has an exponent below 7, which is that of the blocks before it in
its session, and is a whole block unless it is the last. -/
def Regular (st : Pieced cfg) (a : Action) : Prop :=
  ∀ x, st.server.accepted a = some x → x.piece.block.szx ≠ 7 ∧
    (x.piece.block.m = true → x.piece.bytes.length = blockSize x.piece.block.szx) ∧
      ∀ p ∈ st.after x, p.block.szx = x.piece.block.szx

/-- Every open session is tiled. -/
def AllTiled (st : Pieced cfg) : Prop :=
  ∀ i, st.server.Open i → Tiled (st.server.block1sessions i) (st.pieces i)

/-- The session an accepted block comes to. -/
theorem AllTiled.ready {st : Pieced cfg} (h : AllTiled st) {x : Accepted cfg}
    (hx : Fresh st.server x) :
    Ready x.before
      (if (st.server.block1sessions x.slot).active then st.pieces x.slot else []) := by
  rcases hx.before with ⟨hact, hb⟩ | ⟨hfree, hzero, hbuf⟩
  · rw [if_pos hact, hb]
    exact .inl (h x.slot ⟨hact, fun h hh => by rw [hx.idle] at hh; cases hh⟩)
  · rw [if_neg (by rw [hfree]; nofun)]
    exact .inr ⟨hzero, hbuf, rfl⟩

/-- **One step**, as long as the sessions are tiled: it places its block exactly if the block is
regular. -/
theorem AllTiled.placed_regular {st : Pieced cfg} (h : AllTiled st) (a : Action) :
    Placed st a ↔ Regular st a := by
  have hoffset : ∀ x, st.server.accepted a = some x →
      (x.piece.block.byteOffset = x.before.buffer.length ↔
        ∀ p ∈ st.after x, p.block.szx = x.piece.block.szx) := by
    intro x hx
    have hfresh := accepted_fresh hx
    obtain ⟨opt, hopt⟩ := hfresh.option
    exact (h.ready hfresh).offset_iff hopt hfresh.number
  constructor
  · intro hplaced x hx
    obtain ⟨hszx, hwhole, hplace⟩ := hplaced.block x hx
    exact ⟨hszx, hwhole, (hoffset x hx).1 hplace⟩
  · intro hregular
    refine ⟨fun x hx => ?_, fun index handler req ctx body he hb => ?_⟩
    · obtain ⟨hszx, hwhole, hsame⟩ := hregular x hx
      exact ⟨hszx, hwhole, (hoffset x hx).2 hsame⟩
    · -- the body is what the session has, and the last block
      obtain ⟨x, hx, rfl⟩ := (stepBlocks st.server a).body index handler req ctx body he hb
      exact ⟨x, hx, (h.ready (accepted_fresh hx)).inPlace
        ((hoffset x hx).2 (hregular x hx).2.2)⟩

/-- A regular step keeps the sessions tiled. -/
theorem AllTiled.step {st : Pieced cfg} (h : AllTiled st) {a : Action} (ha : Regular st a) :
    AllTiled ((pieced cfg).next st a).1 := by
  have hstep := stepBlocks st.server a
  intro j hj
  show Tiled ((st.server.step a).1.block1sessions j) ((Pieced.next st a).1.pieces j)
  unfold Pieced.next
  dsimp only
  cases hx : st.server.accepted a with
  | none =>
    obtain ⟨hopen, hsame⟩ := hstep.kept j hj fun x hx' => by
      rw [hx] at hx'
      cases hx'
    rw [hsame]
    exact h j hopen
  | some x =>
    dsimp only
    by_cases hslot : j = x.slot
    · -- the session of the block
      subst hslot
      obtain ⟨hm, hsess⟩ := hstep.here x hx hj
      obtain ⟨-, hwhole, hsame⟩ := ha x hx
      have hfresh := accepted_fresh hx
      obtain ⟨opt, hopt⟩ := hfresh.option
      rw [hsess, Table.set_self]
      exact (h.ready hfresh).append hopt hfresh.number hsame (hwhole hm)
    · obtain ⟨hopen, hsame⟩ := hstep.kept j hj fun x' hx' => by
        obtain rfl := Option.some.inj (hx.symm.trans hx')
        exact Ne.symm hslot
      rw [hsame, Table.set_ne _ _ hslot]
      exact h j hopen

/-- **Blocks are in their places** in every step of a run exactly when every accepted block of
the run is regular. Both directions are by the first step that fails. -/
theorem placed_iff (as : List Action) :
    (pieced cfg).Meets Placed {} as ↔ (pieced cfg).Meets Regular {} as := by
  refine Machine.meets_congr (I := AllTiled) (fun st a h ha => h.step ha)
    (fun st a h => h.placed_regular a) as {} fun i hi => ?_
  cases hi.1

/-- A first block that says 64 bytes and has 16, and a last block behind it. -/
def shortBlock : Action := .poll 0 (some ({}, putBlock 1 0x0A (List.replicate 16 0x41)))
def lastAfterShort : Action := .poll 0 (some ({}, putBlock 2 0x12 (List.replicate 4 0x42)))

/-- The handler call for the two. -/
def shortCall : ServerEvent :=
  .handled 0 (.app 0)
    { method := Code.put
      message := (Message.decode Config.blockwise (putBlock 2 0x12 (List.replicate 4 0x42))).2
      remote := {}, deferHandle := 0
      block1Body := some (List.replicate 16 0x41 ++ List.replicate 4 0x42)
      params := [], paramCount := 0 }
    none

/-- Block 1 of size 64 belongs at offset 64. The handler gets it at offset 16. -/
theorem not_placed :
    shortCall ∈
        ((pieced Config.blockwise).exec [] {} [addRoot.action, shortBlock, lastAfterShort]).1 ∧
      ¬ (pieced Config.blockwise).Meets Placed {} [addRoot.action, shortBlock, lastAfterShort] := by
  refine ⟨by decide +kernel, fun h => ?_⟩
  have hlast : Placed ((pieced Config.blockwise).exec [] {} [addRoot.action, shortBlock]).2
    lastAfterShort := h.2.2.1
  have hoffset : (((pieced Config.blockwise).exec [] {}
      [addRoot.action, shortBlock]).2.server.accepted lastAfterShort).map
        (fun x => (x.piece.block.byteOffset, x.before.buffer.length)) = some (64, 16) := by
    decide +kernel
  obtain ⟨x, hx, heq⟩ := Option.map_eq_some_iff.1 hoffset
  obtain ⟨h64, h16⟩ := Prod.mk.inj heq
  have hplace := (hlast.block x hx).2.2
  omega

end Server

end PulseCoap
