import PulseCoap.Tracking.Pool
import PulseCoap.Client.Frame

/-!
# PulseCoAP — what the client hands to its pool

The Confirmable datagrams of a call or of a block follow-up, in terms of the
state before it (`callOut`, `followUpOut`), are the ones it sends and the ones
it hands to `start`.

That a call hands to `start` what it sends is proved call by call. That `start`
then takes it is a question of room, and of the token: `TransactionPool::start`
refuses a token longer than its array, which no client comes to have.

* `call_starts`, `followUp_starts` — one lemma for each.
* `TokensFit` — in every state reached the tokens have a single byte, so that
  `start` never refuses for the token.
-/

namespace PulseCoap

namespace Client

open TransactionPool

variable {cfg : Config}

/-! ## The datagrams -/

/-- The Confirmable datagrams among what a step does. They are read off the first byte on the
wire, not off what the code meant to send. -/
def confirmableSent (events : List ClientEvent) : List Datagram :=
  events.filterMap fun e =>
    match e with
    | .sent dest data => if IsConfirmable (dest, data) then some (dest, data) else none
    | _ => none

/-- The Confirmable datagram of a request that is about to be accepted. There is none without a
free slot, if it does not encode, or if the transport refuses it. -/
def issueOut (c : Client cfg) (a : RequestArgs) (sendOk : Bool) : List Datagram :=
  match c.freeSlot with
  | none => []
  | some i =>
    if a.reliable cfg then (c.issueDatagram i a sendOk).toList.map fun buf => (a.server, buf)
    else []

/-- The Confirmable datagrams a call is about to send. `cancelObserve` frees the slot of the
subscription first, so its request always finds one. -/
def callOut (c : Client cfg) (sendOk : Bool) (call : ClientCall) : List Datagram :=
  match call.shape with
  | .issue a => c.issueOut a sendOk
  | .cancel server path =>
    match c.findObserve server path with
    | none => []
    | some i => (c.release i).issueOut (deregisterArgs server path (c.slots i).pending) sendOk
  | .discover _ _ _ | .handler _ => []

/-- The datagram of the block follow-up `poll` is about to send. The other segments of `poll`
send ACKs and resends, which start no transaction. -/
def followUpOut (c : Client cfg) (sendOk : Bool) : Cont cfg → List Datagram
  | .block1 i =>
    (c.block1Datagram (c.slots i).upload sendOk).toList.map fun buf =>
      ((c.slots i).upload.server, buf)
  | .block2 i =>
    (c.block2Datagram i sendOk).toList.map fun buf => ((c.slots i).recv.server, buf)
  | _ => []

/-! ## Their headers -/

theorem transmit_some {req : Option Message} {sendOk : Bool} {buf : Bytes}
    (h : transmit cfg req sendOk = some buf) :
    ∃ m, req = some m ∧ m.encode cfg.maxMsgSize = .ok buf := by
  unfold transmit at h
  cases req with
  | none => cases h
  | some m =>
    dsimp only at h
    cases henc : m.encode cfg.maxMsgSize with
    | error e => simp [henc] at h
    | ok out =>
      obtain ⟨-, rfl⟩ : sendOk = true ∧ out = buf := by simpa [henc] using h
      exact ⟨m, rfl, henc⟩

/-- The header of a request is known from its arguments. The options that follow leave it alone,
whether they all found room or not. -/
theorem buildRequest_header {type : MessageType} {messageId : UInt16} {token : Bytes}
    {method : Code} {observe : Option UInt32} {path payload : Bytes}
    {contentFormat : ContentFormat} {sendOk : Bool} {buf : Bytes}
    (h : transmit cfg (buildRequest cfg type messageId token method observe path payload
      contentFormat) sendOk = some buf) : Header cfg type messageId buf := by
  obtain ⟨m, hm, henc⟩ := transmit_some h
  refine header_of_opened token method ?_ henc
  -- behind the Observe option: the path, and the payload with its format
  have hrest : ∀ req : Message, (if !(Uri.addUriPathOptions cfg req path).2 then none
      else if payload.length > 0 then
        some ((((Uri.addUriPathOptions cfg req path).1.addOptionUint cfg
          OptionNumber.contentFormat contentFormat.raw.toUInt32).1).setPayload (some payload)
            payload.length)
      else some (Uri.addUriPathOptions cfg req path).1) = some m → Message.SameHeader req m := by
    intro req hreq
    have hpath := Message.sameHeader_addUriPathOptions cfg req path
    split at hreq
    · cases hreq
    · split at hreq
      · cases hreq
        exact (hpath.trans (Message.sameHeader_addOptionUint ..)).trans
          (Message.sameHeader_setPayload ..)
      · cases hreq
        exact hpath
  cases observe with
  | none => exact hrest _ hm
  | some v => exact (Message.sameHeader_addOptionUint ..).trans (hrest _ hm)

/-- A block of an upload is confirmable, whatever type the call has asked for. -/
theorem block1Datagram_header {c : Client cfg} {up : Block1UploadState} {sendOk : Bool}
    {buf : Bytes} (h : c.block1Datagram up sendOk = some buf) :
    Header cfg .confirmable c.nextMessageId buf := by
  unfold block1Datagram at h
  split at h
  · cases h
  obtain ⟨m, hm, henc⟩ := transmit_some h
  refine header_of_opened [up.token] up.method ?_ henc
  have hpath := Message.sameHeader_addUriPathOptions cfg
    (opened .confirmable c.nextMessageId [up.token] up.method) up.path
  unfold buildBlock1 at hm
  dsimp only at hm
  split at hm
  · cases hm
  · cases hm
    exact ((hpath.trans (Message.sameHeader_addOptionUint ..)).trans
      (Message.sameHeader_addOptionUint ..)).trans (Message.sameHeader_setPayload ..)

/-- So is the request for a further block, whatever the type of the request it follows. -/
theorem block2Datagram_header {c : Client cfg} {i : Fin cfg.maxTransactions} {sendOk : Bool}
    {buf : Bytes} (h : c.block2Datagram i sendOk = some buf) :
    Header cfg .confirmable c.nextMessageId buf := by
  obtain ⟨m, hm, henc⟩ := transmit_some h
  refine header_of_opened (c.slots i).pending.token Code.get ?_ henc
  have hpath := Message.sameHeader_addUriPathOptions cfg
    (opened .confirmable c.nextMessageId (c.slots i).pending.token Code.get) (c.slots i).recv.path
  unfold buildBlock2 at hm
  dsimp only at hm
  split at hm
  · cases hm
  · cases hm
    exact hpath.trans (Message.sameHeader_addOptionUint ..)

/-- The first datagram of a call is Confirmable when the call starts a
transaction for it, and Non-confirmable otherwise. -/
theorem issueDatagram_header {c : Client cfg} {i : Fin cfg.maxTransactions} {a : RequestArgs}
    {sendOk : Bool} {buf : Bytes} (h : c.issueDatagram i a sendOk = some buf) :
    Header cfg (if a.reliable cfg then .confirmable else .nonConfirmable) c.nextMessageId buf := by
  unfold issueDatagram at h
  by_cases hb : a.blockwise cfg = true
  · rw [if_pos hb] at h
    unfold uploadDatagram at h
    split at h
    · cases h
    · have hheader := block1Datagram_header h
      simpa [RequestArgs.reliable, hb] using hheader
  · rw [if_neg hb] at h
    have hheader := buildRequest_header h
    simpa [RequestArgs.reliable, hb] using hheader

/-! ## What is sent is what is started -/

/-- What an operation sends and what it hands to `start` are these datagrams. So a Confirmable
datagram is tracked exactly when the pool had room for it. -/
def SendsAndStarts (c : Client cfg) (ds : List Datagram) (c' : Client cfg)
    (events : List ClientEvent) : Prop :=
  Starts c.transactions ds c'.transactions ∧ confirmableSent events = ds

theorem confirmableSent_cons {type : MessageType} {messageId : UInt16} {buf : Bytes}
    (h : Header cfg type messageId buf) (dest : Endpoint) (events : List ClientEvent) :
    confirmableSent (.sent dest buf :: events) =
      if type = .confirmable then (dest, buf) :: confirmableSent events
      else confirmableSent events := by
  have hcon := isConfirmable_iff h dest
  by_cases ht : type = .confirmable
  · rw [if_pos ht]
    exact List.filterMap_cons_some (if_pos (hcon.2 ht))
  · rw [if_neg ht]
    exact List.filterMap_cons_none (if_neg (mt hcon.1 ht))

/-- Nothing is sent, and nothing started. -/
theorem sendsAndStarts_nil {c c' : Client cfg} (hpool : c'.transactions = c.transactions)
    {events : List ClientEvent} (hev : confirmableSent events = []) :
    c.SendsAndStarts [] c' events := by
  refine ⟨?_, hev⟩
  rw [hpool]
  exact .done _

/-- **A request** hands its datagram to `start` if and only if it is confirmable, and sends it
before that. -/
theorem issue_starts (c : Client cfg) {a : RequestArgs} (sendOk : Bool)
    (hk : a.blockwise cfg = true → a.markObserving = false) :
    c.SendsAndStarts (c.issueOut a sendOk) (c.issue a sendOk).1 (c.issue a sendOk).2.2 := by
  rcases issue_cases c a sendOk hk with ⟨hno, c', hrefused, heq⟩ | ⟨-, i, s, buf, hf, hd, -, heq⟩
  · -- a refused call sends nothing
    have hout : c.issueOut a sendOk = [] := by
      unfold issueOut
      cases hf : c.freeSlot with
      | none => rfl
      | some i =>
        cases hd : c.issueDatagram i a sendOk with
        | none => simp [hd]
        | some buf => exact absurd ⟨i, hf, by rw [hd]; rfl⟩ hno
    rw [heq, hout]
    exact sendsAndStarts_nil hrefused.transactions rfl
  · have hheader := issueDatagram_header hd
    unfold issueOut
    rw [heq, hf]
    simp only [hd, Option.toList_some, List.map_cons, List.map_nil]
    by_cases hrel : a.reliable cfg = true
    · rw [if_pos hrel] at hheader ⊢
      refine ⟨?_, ?_⟩
      · show Starts c.transactions _ (if a.reliable cfg then _ else _)
        rw [if_pos hrel]
        exact starts_one hheader (oneByte_fits _) _ _ _
      · rw [confirmableSent_cons hheader, if_pos rfl]
        rfl
    · rw [if_neg hrel] at hheader ⊢
      refine sendsAndStarts_nil (if_neg hrel) ?_
      rw [confirmableSent_cons hheader, if_neg (by decide)]
      rfl

/-- **A call** sends the Confirmable datagrams it starts transactions for, and no other
Confirmable ones. -/
theorem call_starts (c : Client cfg) (sendOk : Bool) (call : ClientCall) :
    c.SendsAndStarts (c.callOut sendOk call) (c.call sendOk call).1 (c.call sendOk call).2.2 := by
  rw [call_eq]
  unfold callOut
  cases hs : call.shape with
  | issue a => exact c.issue_starts sendOk (shape_blockwise hs)
  | cancel server path =>
    dsimp only
    cases ho : c.findObserve server path with
    | none => exact sendsAndStarts_nil rfl rfl
    | some i => exact (c.release i).issue_starts sendOk (by simp [deregister_blockwise])
  | discover ep onDiscover userContext =>
    dsimp only
    rcases discover_cases c ep onDiscover userContext sendOk with
      ⟨token, id, heq, -⟩ | ⟨i, buf, -, hd, heq⟩
    · rw [heq]
      exact sendsAndStarts_nil rfl rfl
    · rw [heq]
      refine sendsAndStarts_nil rfl ?_
      rw [confirmableSent_cons (buildRequest_header hd), if_neg (by decide)]
      rfl
  | handler onTimeout => exact sendsAndStarts_nil rfl rfl

/-- **A block follow-up** likewise: the next block of an upload and the request for the next
block of a download are requests of their own. -/
theorem followUp_starts (c : Client cfg) (sendOk : Bool) {k : Cont cfg}
    (hk : (∃ i, k = .block1 i) ∨
      ∃ i, k = .block2 i ∧ (c.slots i).pending.token.length ≤ kMaxTokenLen) :
    c.SendsAndStarts (c.followUpOut sendOk k) (c.resume k sendOk).1 (c.resume k sendOk).2 := by
  rcases hk with ⟨i, rfl⟩ | ⟨i, rfl, htoken⟩
  · show c.SendsAndStarts _ (c.continueUpload i sendOk).1 (c.continueUpload i sendOk).2
    dsimp only [followUpOut]
    rcases continueUpload_cases c i sendOk with ⟨hd, id, heq⟩ | ⟨buf, hd, heq⟩
    · -- the upload ends; a timeout may be reported
      rw [heq, hd, fireTimeout_eq]
      refine sendsAndStarts_nil rfl ?_
      unfold abandon withId
      cases c.onTimeout <;> rfl
    · have hheader := block1Datagram_header hd
      rw [heq, hd]
      refine ⟨starts_one hheader (oneByte_fits _) _ _ _, ?_⟩
      rw [confirmableSent_cons hheader, if_pos rfl]
      rfl
  · dsimp only [followUpOut]
    rcases resumeBlock2_cases c i sendOk with ⟨hd, heq⟩ | ⟨buf, hd, heq⟩
    · rw [heq, hd]
      exact sendsAndStarts_nil rfl rfl
    · have hheader := block2Datagram_header hd
      rw [heq, hd]
      refine ⟨starts_one hheader htoken _ _ _, ?_⟩
      rw [confirmableSent_cons hheader, if_pos rfl]
      rfl

/-! ## Tokens have one byte -/

/-- The token of an active slot fits, and a further block is requested for an
active slot, before the application can free it. -/
structure TokensFit (c : Client cfg) : Prop where
  token : ∀ i, (c.slots i).pending.active = true → (c.slots i).pending.token.length = 1
  asks  : ∀ i b, c.control = .polling (.block2 i) b → b = false ∧ (c.slots i).pending.active = true

/-- What takes entries away, and does not come to a follow-up. The tokens that are left were
there before. -/
theorem TokensFit.narrow {c c' : Client cfg} (t : c.TokensFit) (n : Narrows c c')
    (hctl : ∀ i b, c'.control ≠ .polling (.block2 i) b) : c'.TokensFit where
  token i hi := by
    rw [n.slots i hi]
    exact t.token i (n.active hi)
  asks i b h := absurd h (hctl i b)

/-- No poll begins with the request for a block: a datagram is dispatched first. -/
theorem poll_control (c : Client cfg) (nowMs : UInt32) (rx : Option (Endpoint × Bytes)) :
    ∀ i b, (c.poll nowMs rx).1.control ≠ .polling (.block2 i) b := by
  intro i b
  rcases poll_cases c nowMs rx with heq | ⟨sender, data, msg, -, -, heq⟩
  · rw [heq]
    exact nofun
  rw [heq]
  rcases handleMessage_cases (c.atTime nowMs) sender msg with ⟨-, hm⟩ | ⟨c', -, hm | hm⟩
  · rw [hm]
    rcases handleReset_cases (c.atTime nowMs) sender msg.messageId with hr | ⟨t, j, -, -, hr⟩
    · rw [hr]
      exact nofun
    · rw [hr, fireTimeout_eq]
      exact nofun
  · rw [hm]
    exact nofun
  · rw [hm]
    exact nofun

/-- Only the dispatch of a response comes to a Block2 follow-up, and it does so for the slot it
was dispatched to, which is active. -/
theorem TokensFit.dispatch {c : Client cfg} (t : c.TokensFit) (sender : Endpoint)
    (msg : Message) : (c.dispatchResponse sender msg).1.TokensFit := by
  rcases dispatchResponse_cases c sender msg with ⟨i, -, heq⟩ | ⟨i, -, hp, heq⟩ | ⟨-, -, heq⟩
  · rw [heq]
    exact t.narrow (narrows_at ..) nofun
  · rw [heq]
    obtain ⟨up, recv, hup, htok, hcases⟩ := dispatchPending_cases c i sender msg
    have hblocks := narrows_setBlocks c i hup htok recv
    rcases hcases with ⟨-, -, heq⟩ | ⟨-, heq⟩ | ⟨res, fragmented, heq⟩
    · rw [heq]
      exact t.narrow (hblocks.trans (narrows_at ..)) nofun
    · rw [heq]
      refine ⟨(t.narrow (hblocks.trans (narrows_at _ .ret false)) nofun).token, ?_⟩
      rintro j b hctl
      cases hctl
      refine ⟨rfl, ?_⟩
      show ((c.slots.set i _) i).pending.active = true
      rw [Table.set_self]
      exact (findPendingByToken_spec hp).1
    · rw [heq, fireResponse_eq]
      exact t.narrow (hblocks.trans (narrows_at ..)) nofun
  · rw [heq]
    exact t.narrow (narrows_at ..) nofun

/-- Nor does the scan end in one. -/
theorem tickAt_control (c : Client cfg) (i : Fin cfg.maxTransactions) (sendOk : Bool) :
    ∀ j b, (c.tickAt i sendOk).1.control ≠ .polling (.block2 j) b := by
  intro j b
  rcases tickAt_cases c i sendOk with ⟨-, heq⟩ | ⟨-, -, -, heq⟩ | ⟨-, -, -, heq⟩
  · rw [heq]
    exact nofun
  · rw [heq]
    exact nofun
  · rw [heq]
    rcases timeoutTrampoline_cases (c.freed i) (c.transactions i).token
      (c.transactions i).owner (.tick (i + 1)) with ⟨k, -, ht⟩ | ⟨-, ht⟩
    · rw [ht, fireTimeout_eq]
      exact nofun
    · rw [ht, fireTimeout_eq]
      exact nofun

/-- A segment of `poll` after its cut. The request for a block is over with this segment, so the
next one starts afresh. -/
theorem TokensFit.resume {c : Client cfg} (t : c.TokensFit) (k : Cont cfg) (sendOk : Bool) :
    (c.resume k sendOk).1.TokensFit := by
  cases k with
  | dispatch sender msg => exact t.dispatch sender msg
  | block1 i =>
    show (c.continueUpload i sendOk).1.TokensFit
    rcases continueUpload_cases c i sendOk with ⟨-, id, heq⟩ | ⟨buf, -, heq⟩
    · rw [heq, fireTimeout_eq]
      exact t.narrow (((narrows_withId c id).trans (narrows_abandon _ i)).trans (narrows_at ..))
        nofun
    · rw [heq]
      -- the upload goes on: the slot keeps its pending request, and with it the token
      refine ⟨fun j hj => ?_, nofun⟩
      have hsame : ((c.slots.set i { c.slots i with
          upload := { (c.slots i).upload with waitingForContinue := true } }) j).pending =
          (c.slots j).pending := by
        by_cases hji : j = i
        · rw [hji, Table.set_self]
        · rw [Table.set_ne _ _ hji]
      have hj : ((c.slots.set i _) j).pending.active = true := hj
      show ((c.slots.set i _) j).pending.token.length = 1
      rw [hsame] at hj ⊢
      exact t.token j hj
  | block2 i =>
    rcases resumeBlock2_cases c i sendOk with ⟨-, heq⟩ | ⟨buf, -, heq⟩
    · rw [heq]
      exact t.narrow ((narrows_withId c _).trans (narrows_at ..)) nofun
    · rw [heq]
      exact ⟨t.token, nofun⟩
  | close i fragmented call =>
    exact t.narrow ((narrows_close c i fragmented).trans (narrows_at ..)) nofun
  | expire => exact t.narrow ((narrows_expireDiscovers c).trans (narrows_at ..)) nofun
  | tick index =>
    rw [resume_tick]
    split
    · exact t.narrow (narrows_tickAt ..) (tickAt_control c _ sendOk)
    · exact t.narrow (narrows_of_eq rfl rfl rfl rfl) nofun
  | ret => exact t.narrow (narrows_of_eq rfl rfl rfl rfl) nofun

/-- A request stores a token of one byte, whatever the slot held before. It is made while no
follow-up is due. -/
theorem TokensFit.issue {c : Client cfg} (t : c.TokensFit) {a : RequestArgs} (sendOk : Bool)
    (hk : a.blockwise cfg = true → a.markObserving = false)
    (hctl : ∀ i b, c.control ≠ .polling (.block2 i) b) : (c.issue a sendOk).1.TokensFit := by
  rcases issue_cases c a sendOk hk with ⟨-, c', hrefused, heq⟩ | ⟨-, i, s, buf, -, -, hnew, heq⟩
  · rw [heq]
    refine t.narrow hrefused.narrows ?_
    rw [hrefused.control]
    exact hctl
  · rw [heq]
    refine ⟨fun j hj => ?_, fun j b h => absurd h (hctl j b)⟩
    by_cases hji : j = i
    · -- the slot just registered
      subst hji
      show ((c.slots.set j s) j).pending.token.length = 1
      rw [Table.set_self, hnew.token]
      rfl
    · have hsame : (c.slots.set i s) j = c.slots j := Table.set_ne _ _ hji
      have hj : ((c.slots.set i s) j).pending.active = true := hj
      show ((c.slots.set i s) j).pending.token.length = 1
      rw [hsame] at hj ⊢
      exact t.token j hj

/-- **What one step preserves.** Tokens are drawn from the counter, one byte each, and only the
dispatch of a response to an active slot comes to a request for a further block. -/
theorem TokensFit.step {c : Client cfg} (t : c.TokensFit) (a : Action) :
    (c.step a).1.TokensFit := by
  rcases step_cases c a with heq | ⟨call, sendOk, -, happ, heq⟩ | ⟨nowMs, rx, -, -, heq⟩ |
    ⟨sendOk, k, b, -, -, heq⟩
  · rw [heq]
    exact t
  · -- the application has no control before a follow-up
    have hctl : ∀ i b, c.control ≠ .polling (.block2 i) b := by
      intro i b h
      obtain ⟨rfl, -⟩ := t.asks i b h
      rw [appHasControl, h] at happ
      cases happ
    rw [heq, call_eq]
    cases hs : call.shape with
    | issue a => exact t.issue sendOk (shape_blockwise hs) hctl
    | cancel server path =>
      dsimp only
      cases c.findObserve server path with
      | none => exact t
      | some i =>
        exact (t.narrow (narrows_release c i) hctl).issue sendOk (by simp [deregister_blockwise])
          hctl
    | discover ep onDiscover userContext =>
      dsimp only
      rcases discover_cases c ep onDiscover userContext sendOk with
        ⟨token, id, hd, -⟩ | ⟨i, buf, -, -, hd⟩
      · rw [hd]
        exact ⟨t.token, t.asks⟩
      · rw [hd]
        exact ⟨t.token, t.asks⟩
    | handler onTimeout => exact ⟨t.token, t.asks⟩
  · rw [heq]
    exact t.narrow (narrows_poll c nowMs rx) (poll_control c nowMs rx)
  · rw [heq]
    exact t.resume k sendOk

/-- **Every token of a run fits its array.** -/
theorem tokensFit_of_run {P : Client cfg → Action → Prop} {h : List ClientEvent} {c : Client cfg}
    (r : (machine cfg).Run P h c) : c.TokensFit :=
  r.invariant (I := fun _ c => c.TokensFit) ⟨fun _ hi => (nomatch hi), nofun⟩
    fun _ t _ => t.step _

end Client

end PulseCoap
