import PulseCoap.System.ServerCursor
import PulseCoap.System.ClientCursor

/-!
# PulseCoAP — an upload goes on in lockstep

The two cursors in every run from the call on.

`InStep` holds both halves for the slot that has the upload, and says that no
other slot is active. A step of the client moves its cursor at a Continue for
the block in flight, and then the server must be past this block; that is where
the client's move is seen from the server (`Moves.server`). A step of the server
leaves the client alone.

* `Moves.server` — the client's move, seen from the server.
* `InStep.next` — what one step preserves.
* `lockstep_of_run` — the cursors stay in step, and no timeout ends the upload.
* `not_lockstep` — one Continue delivered twice.
-/

namespace PulseCoap

namespace System

open Client (transmit buildBlock1)
open Server (namedBlock BringsBlock uploadBlock)
open TransactionPool (Awaiting)

variable {cfg : Config} {link : Link} {i : Fin cfg.maxTransactions}

/-- The invariant of a run: one slot at most is active, and it has an upload. -/
structure InStep (link : Link) (i : Fin cfg.maxTransactions) (sys : System cfg) : Prop where
  only  : ∀ j, (sys.client.slots j).pending.active = true → j = i
  sides : sys.client.Uploads i → ClientSide i sys.client sys.toServer sys.toClient ∧
    ServerSide link (sys.client.slots i).upload sys.server sys.toClient

/-- When the client moves on at a Continue, the session has the block in flight. -/
theorem Moves.server {up up' : Block1UploadState} {s : Server cfg} {toClient : List Bytes}
    (hm : Moves cfg toClient up up') (h : ServerSide link up s toClient) :
    ServerSide link up' s toClient := by
  cases hm with
  | stays waiting heq =>
    rw [heq]
    exact ⟨h.tables, h.tokens, h.pool, h.running, h.inRange, h.isOpen, h.ending, h.answers⟩
  | on hon heq =>
    obtain ⟨data, hdata, msg, hdec, hnamed⟩ := hon
    obtain ⟨-, -, hnow⟩ := (h.answers data hdata msg hdec).2 _ hnamed
    obtain ⟨j, hj, hexp⟩ := hnow rfl
    have hsucc := toNat_next (Server.namedBlock_lt hnamed)
    -- there is one session with the upload's key
    have huniq : ∀ k, Joined link up (s.block1sessions k) → k = j := by
      intro k hk
      exact h.tables.keyed k j hk.1 hj.1
        (Prod.ext (hk.2.1.trans hj.2.1.symm) (hk.2.2.trans hj.2.2.symm))
    subst heq
    refine ⟨h.tables, h.tokens, h.pool, h.running, fun k hk => ?_, h.isOpen, h.ending,
      fun data' hdata' msg' hdec' => ?_⟩
    · obtain rfl := huniq k hk
      show (up.nextNum + 1).toNat ≤ _ ∧ _ ≤ (up.nextNum + 1).toNat + 1
      omega
    · -- no Continue names a block that is still to be sent
      refine ⟨(h.answers data' hdata' msg' hdec').1, fun num hnum => ?_⟩
      obtain ⟨hle, hhas, -⟩ := (h.answers data' hdata' msg' hdec').2 num hnum
      refine ⟨?_, hhas, fun heq => ?_⟩
      · show num.toNat ≤ (up.nextNum + 1).toNat
        omega
      · have hnum' : num.toNat = (up.nextNum + 1).toNat := congrArg UInt32.toNat heq
        omega

/-- A slot that uploads after a step of the client has done so before. -/
theorem uploads_before {c : Client cfg} {a : Client.Action}
    (hcall : ∀ call sendOk, a ≠ .call call sendOk) {j : Fin cfg.maxTransactions} :
    (((c.step a).1.slots j).pending.active = true → (c.slots j).pending.active = true) ∧
      ((c.step a).1.Uploads j → c.Uploads j) := by
  have hnarrow : ∀ {c' : Client cfg}, Client.Narrows c c' →
      ((c'.slots j).pending.active = true → (c.slots j).pending.active = true) ∧
        (c'.Uploads j → c.Uploads j) :=
    fun n => ⟨n.active, fun hup => ⟨n.active hup.1, (n.uploads j hup.1 hup.2).1⟩⟩
  rcases c.step_cases a with heq | ⟨call, sendOk, ha, -⟩ | ⟨nowMs, rx, -, -, heq⟩ |
    ⟨sendOk, k, inCallback, -, -, heq⟩
  · rw [heq]
    exact ⟨id, id⟩
  · exact absurd ha (hcall call sendOk)
  · rw [heq]
    exact hnarrow (c.narrows_poll nowMs rx)
  · rw [heq]
    rcases c.resume_cases k sendOk with hn | ⟨l, buf, -, -, hr⟩ | ⟨l, buf, -, -, hr⟩
    · exact hnarrow hn
    · -- a block of slot `l` was sent
      rw [hr]
      by_cases hjl : j = l
      · subst hjl
        have hslot : ((c.block1Sent j buf).at' .expire false).slots j = { c.slots j with
            upload := { (c.slots j).upload with waitingForContinue := true } } :=
          Table.set_self _ _ _
        unfold Client.Uploads
        rw [hslot]
        exact ⟨id, id⟩
      · have hslot : ((c.block1Sent l buf).at' .expire false).slots j = c.slots j :=
          Table.set_ne _ _ hjl
        unfold Client.Uploads
        rw [hslot]
        exact ⟨id, id⟩
    · rw [hr]
      exact ⟨id, id⟩

/-- What the conditions on a step say of the datagram given to the server. -/
theorem delivers_of_steps {sys : System cfg}
    (hside : ClientSide i sys.client sys.toServer sys.toClient) (hup : sys.client.Uploads i)
    {nowMs : UInt32} {sender : Endpoint} {data : Bytes}
    (hsteps : Steps link sys (.server (.poll nowMs (some (sender, data)))))
    (hidle : sys.server.control = .idle) :
    Delivers link (sys.client.slots i).upload (sys.server.scanned nowMs) sender data := by
  obtain ⟨hcarried, -, hturn⟩ := hsteps
  obtain ⟨pool, obs, hscanned⟩ := sys.server.scanned_spec nowMs
  refine ⟨fun hsender => hside.sent data (hcarried hsender),
    fun hsender msg b1 hblock hzero hfind hfree htoken => ?_⟩
  obtain ⟨opt, hopt, hb1⟩ := hblock.block
  obtain ⟨t, had⟩ := hblock.admitted
  rw [hscanned] at had hfind hfree
  have hbrings : uploadBlock cfg link.client (.poll nowMs (some (link.client, data))) =
      some (msg, opt) := Server.uploadBlock_eq hblock.decode hblock.request hopt
  rw [hsender] at hturn
  exact hturn hidle (msg, opt) hbrings (Option.isSome_iff_exists.2 ⟨t, had⟩) b1 hb1 hzero hfind
    hfree i hup htoken

/-- **One step** keeps the invariant, and ends no upload with a timeout. Each side is looked at
by the module of its cursor. -/
theorem InStep.next {sys : System cfg} (h : InStep link i sys) (hb : cfg.enableBlockwise = true)
    {a : Action} (hsteps : Steps link sys a) :
    InStep link i (sys.next link a).1 ∧ (sys.client.Uploads i → Delivered sys a →
      ∀ call handler ctx, .client (.timeout call handler ctx) ∉ (sys.next link a).2) := by
  -- the client's cursor moves on, or the server's does
  cases a with
  | client a =>
    have hcall : ∀ call sendOk, a ≠ .call call sendOk := by
      rintro call sendOk rfl
      exact hsteps.2.1
    have honly : ∀ j, (((sys.client.step a).1).slots j).pending.active = true → j = i :=
      fun j hj => h.only j ((uploads_before hcall).1 hj)
    have hgoes : sys.client.Uploads i →
        Goes (∀ sendOk, a = .resume sendOk → GetsThrough sys.client sendOk) link i sys.client
          sys.toServer sys.toClient (sys.client.step a) := by
      intro hup
      obtain ⟨hclient, hserver⟩ := h.sides hup
      refine hclient.step hb h.only hup hserver.answers hcall ?_ ?_
      · rintro nowMs sender data rfl
        exact hsteps.1.2
      · rintro sendOk rfl
        exact hsteps.2.2
    refine ⟨⟨honly, fun hup' => ?_⟩, fun hup hdelivered call handler ctx hmem => ?_⟩
    · have hup := (uploads_before hcall).2 hup'
      obtain ⟨hside, hmoves⟩ := (hgoes hup).goes hup'
      exact ⟨hside, hmoves.server (h.sides hup).2⟩
    · obtain ⟨e, he, heq⟩ := List.mem_map.1 hmem
      cases heq
      refine (hgoes hup).calm ?_ call handler ctx he
      rintro sendOk rfl
      exact hdelivered
  | server a =>
    refine ⟨⟨h.only, fun hup => ?_⟩, fun _ _ call handler ctx hmem => ?_⟩
    · obtain ⟨hclient, hserver⟩ := h.sides hup
      have hserver' := hserver.step a fun nowMs sender data ha hidle => by
        subst ha
        exact delivers_of_steps hclient hup hsteps hidle
      refine ⟨{ hclient with control := ?_ }, hserver'⟩
      -- what was heard is still there
      have hunder := hclient.control
      show Underway i (sys.client.slots i).upload _ sys.client.control
      unfold Underway at hunder ⊢
      split
      · next sender msg b hctl =>
        rw [hctl] at hunder
        obtain ⟨data, hdata, hdec⟩ := hunder
        exact ⟨data, List.mem_append_left _ hdata, hdec⟩
      all_goals
        next hctl =>
        rw [hctl] at hunder
        exact hunder
    · obtain ⟨e, -, heq⟩ := List.mem_map.1 hmem
      cases heq

-- ===========================================================================
-- Runs
-- ===========================================================================

/-- The server has heard nothing yet. -/
theorem serverSide_start (link : Link) (up : Block1UploadState) :
    ServerSide link up ({} : Server cfg) [] where
  tables := ⟨fun _ _ h => (nomatch h), fun _ h => (nomatch h), fun _ h => (nomatch h)⟩
  tokens := ⟨fun _ => Nat.zero_le _, fun _ => Nat.zero_le _⟩
  pool _ h := nomatch h
  running _ h := nomatch h
  inRange _ h := nomatch h.1
  isOpen _ h := nomatch h.1
  ending _ _ h := nomatch h
  answers _ h := nomatch h

/-- The call has sent the first block. -/
theorem inStep_start {c : Client cfg} (hv : Vacant c) {call : Client.ClientCall}
    {a : Client.RequestArgs} (hshape : call.shape = .issue a) (hb : a.blockwise cfg = true)
    {sendOk : Bool} (hok : (c.call sendOk call).2.1 = true) :
    ∃ i, InStep link i (afterCall link c call sendOk) := by
  have hcall : c.call sendOk call = c.startUpload a sendOk := by
    rw [Client.call_eq, hshape]
    exact if_pos hb
  unfold afterCall
  rw [hcall] at hok ⊢
  rcases c.startUpload_cases a sendOk with ⟨-, heq⟩ | ⟨i, id, -, -, heq⟩ | ⟨i, buf, -, hbuf, heq⟩
  · rw [heq] at hok
    cases hok
  · rw [heq] at hok
    cases hok
  · rw [heq]
    have hslot : ∀ s : ClientSlot, (c.slots.set i s) i = s := Table.set_self c.slots i
    have hlong : a.payload.length > blockSize cfg.blockSzx := by
      have := (Bool.and_eq_true_iff.1 hb).2
      exact of_decide_eq_true this
    -- the datagram of the call is a block, and the first that the cursor has sent
    have hreaches : Reaches cfg (Client.startedSlot cfg (c.slots i) a c.nextTokenByte
        (a.call c.calls)).upload buf := by
      unfold Client.uploadDatagram at hbuf
      split at hbuf
      · cases hbuf
      · unfold Client.block1Datagram at hbuf
        split at hbuf
        · cases hbuf
        · next hhas =>
          exact (reaches_block1 (Nat.not_le.1 hhas) (Nat.zero_le _) hbuf).on (Nat.le_refl _) true
    -- one datagram is sent, it may be tracked, and nothing else is under way
    refine ⟨i, fun j hj => ?_, fun _ => ⟨⟨hv.discovers, ?_, ?_, ?_, fun t ha => ?_, ?_⟩,
      serverSide_start link _⟩⟩
    · by_contra hji
      have hold : ((c.slots.set i (Client.startedSlot cfg (c.slots i) a c.nextTokenByte
        (a.call c.calls))) j).pending.active = true := hj
      rw [Table.set_ne _ _ hji, hv.slots j] at hold
      cases hold
    all_goals dsimp only
    · rw [hslot]
      rfl
    · rw [hslot]
      exact Nat.zero_le _
    · rw [hv.idle]
      trivial
    · rw [hslot]
      dsimp only at ha
      rcases TransactionPool.start_cases c.transactions a.server c.nextMessageId [c.nextTokenByte] buf
        c.lastNowMs (a.call c.calls) with hsame | ⟨k, -, hset⟩
      · rw [hsame] at ha
        exact absurd ha (hv.transactions t)
      · rw [hset] at ha ⊢
        by_cases htk : t = k
        · subst htk
          rw [Table.set_self]
          exact hreaches
        · rw [Table.set_ne _ _ htk] at ha
          exact absurd ha (hv.transactions t)
    · rw [hslot]
      intro data hdata
      rcases List.mem_cons.1 (mem_clientData.1 hdata) with heq | hmem
      · obtain ⟨-, rfl⟩ := ClientEvent.sent.inj heq
        exact hreaches
      · cases List.mem_singleton.1 hmem

/-- **Lockstep**: in every run of one upload whose steps take no Continue and open no session at
the wrong time, the client never moves past a block that the session has not accepted, and as
long as its datagrams get through no timeout ends the upload. The network loses, repeats and
reorders. -/
theorem lockstep_of_run {c : Client cfg} (hv : Vacant c) {call : Client.ClientCall}
    {a : Client.RequestArgs} (hshape : call.shape = .issue a) (hb : a.blockwise cfg = true)
    {sendOk : Bool} (hok : (c.call sendOk call).2.1 = true) {hist : List Event} {sys : System cfg}
    (r : (machine link (afterCall link c call sendOk)).Run (Steps link) hist sys) :
    Lockstep link sys ∧ ∀ act, Steps link sys act → Delivered sys act →
      (∃ i, sys.client.Uploads i) → ∀ id handler ctx,
        .client (.timeout id handler ctx) ∉ (sys.next link act).2 := by
  have henable : cfg.enableBlockwise = true := (Bool.and_eq_true_iff.1 hb).1
  obtain ⟨i, hstart⟩ : ∃ i, InStep link i (afterCall link c call sendOk) :=
    inStep_start hv hshape hb hok
  have inv : InStep link i sys :=
    r.invariant (I := fun _ sys => InStep link i sys) hstart fun _ h hp => (h.next henable hp).1
  refine ⟨fun j hup k hk => ?_, fun act hact hdelivered ⟨j, hup⟩ => ?_⟩
  · obtain rfl := inv.only j hup.1
    exact ((inv.sides hup).2.inRange k hk).1
  · obtain rfl := inv.only j hup.1
    exact (inv.next henable hact).2 hup hdelivered

-- ===========================================================================
-- One Continue, delivered once and again
-- ===========================================================================

def uploadLink : Link := { client := { port := 1 }, server := { port := 2 } }

/-- A PUT of three blocks to `/a`. -/
def putThree : Client.ClientCall :=
  .put uploadLink.server [0x2F, 0x61] (List.replicate 150 0x78) .textPlain none none true

def waitingClient : Client Config.blockwise := { onTimeout := some 0 }

def putStarted : System Config.blockwise := afterCall uploadLink waitingClient putThree true

/-- The server takes the first block. -/
def firstTaken : List Action :=
  [.server (.call (.addResource (some [0x2F, 0x61]) 0x0F (some 0) none false)),
    .server (.poll 0 (some (uploadLink.client, putStarted.toServer.head?.getD [])))]

/-- The first datagram of the server. -/
def firstContinue : Bytes :=
  ((machine uploadLink putStarted).exec [] putStarted firstTaken).2.toClient.head?.getD []

/-- The client hears it, and its `poll()` runs to the end. -/
def hearContinue : List Action :=
  .client (.poll 1 (some (uploadLink.server, firstContinue))) ::
    List.replicate 8 (.client (.resume true))

/-- The second block is in flight. -/
theorem lockstep_of_run_put :
    let sys := ((machine uploadLink putStarted).exec [] putStarted (firstTaken ++ hearContinue)).2
    sys.client.Uploads ⟨0, by decide⟩ ∧ (sys.client.slots ⟨0, by decide⟩).upload.nextNum = 1 ∧
      (Lockstep uploadLink sys ∧
        ∀ act, Steps uploadLink sys act → Delivered sys act → (∃ i, sys.client.Uploads i) →
          ∀ id handler ctx, .client (.timeout id handler ctx) ∉ (sys.next uploadLink act).2) := by
  have hvacant : Vacant waitingClient := ⟨rfl, fun _ => rfl, fun _ => rfl, fun _ h => nomatch h⟩
  have hmeets : (machine uploadLink putStarted).Meets (Steps uploadLink) putStarted
      (firstTaken ++ hearContinue) := by decide +kernel
  have hshape : putThree.shape = .issue
      { server := uploadLink.server, path := [0x2F, 0x61], method := Code.put
        payload := List.replicate 150 0x78, contentFormat := .textPlain } := rfl
  exact ⟨by decide +kernel, by decide +kernel,
    lockstep_of_run hvacant hshape (by decide +kernel) (by decide +kernel)
      (Machine.Run.start.exec hmeets)⟩

/-- The same Continue again moves the client past the second block, and once more ends the
upload. -/
theorem not_lockstep :
    ¬ (∀ hist (sys : System Config.blockwise), (machine uploadLink putStarted).Run
        (fun sys a => Carried uploadLink sys a ∧ OneUpload a ∧ Delivered sys a) hist sys →
          Lockstep uploadLink sys) ∧
    ¬ (∀ hist (sys : System Config.blockwise), (machine uploadLink putStarted).Run
        (fun sys a => Carried uploadLink sys a ∧ OneUpload a ∧ Delivered sys a) hist sys →
          .client (.timeout { kind := .request, confirmable := true } 0 none) ∉ hist) := by
  constructor
  · intro h
    have hmeets : (machine uploadLink putStarted).Meets
        (fun sys a => Carried uploadLink sys a ∧ OneUpload a ∧ Delivered sys a) putStarted
        (firstTaken ++ hearContinue ++ hearContinue) := by decide +kernel
    have hfalse := h _ _ (Machine.Run.start.exec hmeets)
    revert hfalse
    decide +kernel
  · intro h
    have hmeets : (machine uploadLink putStarted).Meets
        (fun sys a => Carried uploadLink sys a ∧ OneUpload a ∧ Delivered sys a) putStarted
        (firstTaken ++ hearContinue ++ hearContinue ++ hearContinue) := by decide +kernel
    have hfalse := h _ _ (Machine.Run.start.exec hmeets)
    revert hfalse
    decide +kernel

end System

end PulseCoap
