import PulseCoap.Client.Spec

/-!
# PulseCoAP — which datagrams run a response handler

`Fires` is what a message has to be, and the client's tables with it, for
`poll()` to run the `onResponse` of a request: a response that carries the token
of a pending slot, and is not one of several blocks. An `onResponse` runs in the
segment that dispatches the response and in no other (`Past.step`).

A datagram goes through `poll()` in two segments: up to the cut before the
dispatch, and the dispatch. What the application does at the later cuts cannot
take back a callback that has run, nor bring one about for the same datagram;
that is why the result is an equivalence over the rest of the `poll()`, whatever
is done in it.

* `poll_fires_iff` — a datagram runs an `onResponse` before `poll()` returns
  exactly when it decodes to such a message.
-/

namespace PulseCoap

namespace Client

variable {cfg : Config}

/-- A message that gets to the `onResponse` of a pending slot: a response that
carries its token, and is not one of several blocks. -/
def Fires (c : Client cfg) (msg : Message) : Prop :=
  msg.type ≠ .reset ∧ (msg.code ≠ Code.empty ∧ !isMethodCode msg.code) ∧
    c.findDiscover msg.token = none ∧
      ∃ i, c.findPendingByToken msg.token = some i ∧
        (c.slots i).pending.onResponse.isSome = true ∧
        (cfg.enableBlockwise = true →
          ¬ (msg.code = Code.«continue» ∧ (c.slots i).upload.active = true) ∧
            ∀ b2, block2Of msg = some b2 → b2.m = false)

/-- An `onResponse` is among the events. -/
def Fired (events : List ClientEvent) : Prop :=
  ∃ call handler res ctx, .response call handler res ctx ∈ events

/-- An `onResponse` runs before `poll` returns, whatever the application does
meanwhile. -/
def PollFires (c : Client cfg) (nowMs : UInt32) (rx : Option (Endpoint × Bytes)) : Prop :=
  ∃ acts : List Action, (∀ a ∈ acts, ∀ nowMs rx, a ≠ .poll nowMs rx) ∧
    Fired ((machine cfg).exec (c.poll nowMs rx).2 (c.poll nowMs rx).1 acts).1

theorem fired_append {events events' : List ClientEvent} :
    Fired (events ++ events') ↔ Fired events ∨ Fired events' := by
  simp only [Fired, List.mem_append, exists_or]

/-- No event of these is a response callback. -/
theorem not_fired {events : List ClientEvent}
    (h : ∀ e ∈ events, ∀ call handler res ctx, e ≠ .response call handler res ctx) :
    ¬ Fired events := fun ⟨_, _, _, _, hmem⟩ => h _ hmem _ _ _ _ rfl

theorem not_fired_nil : ¬ Fired [] := by
  rintro ⟨_, _, _, _, hmem⟩
  cases hmem

/-- Going on with `k` is dispatching a response. -/
def dispatches : Cont cfg → Bool
  | .dispatch _ _ => true
  | _ => false

/-- `poll` is not about to dispatch. -/
def Past (c : Client cfg) : Prop :=
  ∀ k inCallback, c.control = .polling k inCallback → dispatches k = false

/-- Behind the dispatch `poll` calls no response handler any more. -/
theorem past_at (c : Client cfg) {k : Cont cfg} (hk : dispatches k = false) (inCallback : Bool) :
    (c.at' k inCallback).Past := by
  intro k' b h
  rw [← (Control.polling.inj h).1]
  exact hk

/-- The timeout handler is no response handler. -/
theorem fireTimeout_past (c : Client cfg) (call : Call) (ctx : Option Ref) {k : Cont cfg}
    (hk : dispatches k = false) :
    ¬ Fired (c.fireTimeout call ctx k).2 ∧ (c.fireTimeout call ctx k).1.Past := by
  rw [fireTimeout_eq]
  refine ⟨not_fired fun e he => ?_, past_at c hk _⟩
  cases hh : c.onTimeout with
  | none =>
    rw [hh] at he
    cases he
  | some h =>
    rw [hh] at he
    cases List.mem_singleton.1 he
    exact nofun

/-! ## The dispatch -/

/-- The handler is called if there is one. -/
theorem fireResponse_fired (c : Client cfg) (i : Fin cfg.maxTransactions) (res : ClientResponse)
    (fragmented : Bool) :
    Fired (c.fireResponse i res fragmented).2 ↔ (c.slots i).pending.onResponse.isSome = true := by
  rw [fireResponse_eq]
  cases hh : (c.slots i).pending.onResponse with
  | none => exact iff_of_false not_fired_nil nofun
  | some h => exact iff_of_true ⟨_, _, _, _, List.mem_singleton.2 rfl⟩ rfl

/-- A block that is not the last one of its transfer calls nobody. -/
theorem dispatchPending_fired (c : Client cfg) (i : Fin cfg.maxTransactions) (sender : Endpoint)
    (msg : Message) :
    Fired (c.dispatchPending i sender msg).2 ↔ (c.slots i).pending.onResponse.isSome = true ∧
      (cfg.enableBlockwise = true →
        ¬ (msg.code = Code.«continue» ∧ (c.slots i).upload.active = true) ∧
          ∀ b2, block2Of msg = some b2 → b2.m = false) := by
  have hpend : ∀ up recv, ((c.setBlocks i up recv).slots i).pending = (c.slots i).pending := by
    intro up recv
    show ((c.slots.set i _) i).pending = _
    rw [Table.set_self]
  -- the branches of `dispatchPending`, in its order
  by_cases hb : cfg.enableBlockwise = true
  · by_cases hcont : msg.code = Code.«continue» ∧ (c.slots i).upload.active = true
    · -- the next block of an upload
      rw [dispatchPending, if_pos hb, if_pos hcont]
      exact iff_of_false not_fired_nil fun h => (h.2 hb).1 hcont
    · cases h2 : block2Of msg with
      | some b2 =>
        rw [dispatchPending_fragment hb hcont h2]
        dsimp only
        -- a fragment with more behind it asks for the next, and the last one is the response
        by_cases hm : b2.m = true
        · rw [if_pos hm]
          refine iff_of_false not_fired_nil fun h => ?_
          rw [(h.2 hb).2 b2 rfl] at hm
          cases hm
        · rw [if_neg hm, fireResponse_fired, hpend]
          refine ⟨fun h => ⟨h, fun _ => ⟨hcont, ?_⟩⟩, fun h => h.1⟩
          rintro _ ⟨⟩
          exact Bool.eq_false_iff.2 hm
      | none =>
        rw [dispatchPending_plain hb hcont h2]
        show Fired ((c.setBlocks i _ _).fireResponse i _ false).2 ↔ _
        rw [fireResponse_fired, hpend]
        refine ⟨fun h => ⟨h, fun _ => ⟨hcont, ?_⟩⟩, fun h => h.1⟩
        rintro _ ⟨⟩
  · -- a build without block-wise transfer has the plain branch only
    have heq : c.dispatchPending i sender msg = c.handlePlain i msg := by
      rw [dispatchPending, if_neg hb]
    rw [heq]
    show Fired (c.fireResponse i _ false).2 ↔ _
    rw [fireResponse_fired]
    exact ⟨fun h => ⟨h, fun hb' => absurd hb' hb⟩, fun h => h.1⟩

/-- **The dispatch calls a handler exactly when** the message is for a slot or a discovery and
completes what it waits for. A block with more behind it and a Continue of an upload complete
nothing. -/
theorem dispatchResponse_fired (c : Client cfg) (sender : Endpoint) {msg : Message}
    (hrst : msg.type ≠ .reset) (hcode : msg.code ≠ Code.empty ∧ !isMethodCode msg.code) :
    Fired (c.dispatchResponse sender msg).2 ↔ c.Fires msg := by
  rcases c.dispatchResponse_cases sender msg with ⟨i, hd, heq⟩ | ⟨i, hd, hp, heq⟩ | ⟨hd, hp, heq⟩
  · -- a discovery has its own callback, which is no `onResponse`
    rw [heq]
    refine iff_of_false (not_fired fun e he => ?_) fun h => ?_
    · cases hh : (c.discovers i).onDiscover with
      | none =>
        rw [hh] at he
        cases he
      | some h =>
        rw [hh] at he
        cases List.mem_singleton.1 he
        exact nofun
    · rw [h.2.2.1] at hd
      cases hd
  · rw [heq, dispatchPending_fired]
    constructor
    · exact fun h => ⟨hrst, hcode, hd, i, hp, h⟩
    · rintro ⟨-, -, -, j, hj, h⟩
      rw [hp] at hj
      cases hj
      exact h
  · rw [heq]
    refine iff_of_false not_fired_nil ?_
    rintro ⟨-, -, -, j, hj, -⟩
    rw [hp] at hj
    cases hj

/-- It is done only once in a poll. -/
theorem dispatchResponse_past (c : Client cfg) (sender : Endpoint) (msg : Message) :
    (c.dispatchResponse sender msg).1.Past := by
  rcases c.dispatchResponse_cases sender msg with ⟨i, -, heq⟩ | ⟨i, -, -, heq⟩ | ⟨-, -, heq⟩
  · rw [heq]
    exact past_at _ rfl _
  · rw [heq]
    obtain ⟨up, recv, -, -, ⟨-, -, h⟩ | ⟨-, h⟩ | ⟨res, fragmented, h⟩⟩ :=
      dispatchPending_cases c i sender msg
    · rw [h]
      exact past_at _ rfl _
    · rw [h]
      exact past_at _ rfl _
    · rw [h, fireResponse_eq]
      exact past_at _ rfl _
  · rw [heq]
    exact past_at _ rfl _

/-! ## The rest of `poll` -/

/-- A call of the application runs no `onResponse` and leaves `poll` where it is. -/
theorem call_quiet (c : Client cfg) (sendOk : Bool) (call : ClientCall) :
    ¬ Fired (c.call sendOk call).2.2 ∧ (c.call sendOk call).1.control = c.control := by
  -- a request puts out its datagram and its acceptance at most
  have hissue : ∀ (c : Client cfg) (a : RequestArgs),
      (a.blockwise cfg = true → a.markObserving = false) →
      ¬ Fired (c.issue a sendOk).2.2 ∧ (c.issue a sendOk).1.control = c.control := by
    intro c a ha
    rcases c.issue_cases a sendOk ha with ⟨-, c', hrefused, heq⟩ | ⟨-, i, s, buf, -, -, -, heq⟩
    · rw [heq]
      exact ⟨not_fired_nil, hrefused.control⟩
    · rw [heq]
      refine ⟨not_fired fun e he => ?_, rfl⟩
      rcases List.mem_cons.1 he with rfl | he
      · exact nofun
      · cases List.mem_singleton.1 he
        exact nofun
  rw [call_eq]
  cases hs : call.shape with
  | issue a => exact hissue c a (shape_blockwise hs)
  | cancel server path =>
    -- with the slot of the subscription released before
    dsimp only
    cases ho : c.findObserve server path with
    | none => exact ⟨not_fired_nil, rfl⟩
    | some i => exact hissue (c.release i) _ (by simp [deregister_blockwise])
  | discover ep onDiscover userContext =>
    dsimp only
    rcases discover_cases c ep onDiscover userContext sendOk with
      ⟨token, id, heq, -⟩ | ⟨i, buf, -, -, heq⟩
    · rw [heq]
      exact ⟨not_fired_nil, rfl⟩
    · rw [heq]
      refine ⟨not_fired fun e he => ?_, rfl⟩
      cases List.mem_singleton.1 he
      exact nofun
  | handler onTimeout => exact ⟨not_fired_nil, rfl⟩

/-- A datagram is no callback. -/
theorem not_fired_sent (dest : Endpoint) (data : Bytes) : ¬ Fired [.sent dest data] :=
  not_fired fun e he => by
    cases List.mem_singleton.1 he
    exact nofun

/-- The other segments call no response handler. -/
theorem resume_quiet (c : Client cfg) {k : Cont cfg} (hk : dispatches k = false) (sendOk : Bool) :
    ¬ Fired (c.resume k sendOk).2 ∧ (c.resume k sendOk).1.Past := by
  cases k with
  | dispatch sender msg => cases hk
  | block1 i =>
    -- the abandoned upload ends in a timeout, not in a response
    show ¬ Fired (c.continueUpload i sendOk).2 ∧ (c.continueUpload i sendOk).1.Past
    rcases continueUpload_cases c i sendOk with ⟨-, id, heq⟩ | ⟨buf, -, heq⟩
    · rw [heq]
      exact fireTimeout_past _ _ _ rfl
    · rw [heq]
      exact ⟨not_fired_sent _ _, past_at _ rfl _⟩
  | block2 i =>
    rcases resumeBlock2_cases c i sendOk with ⟨-, heq⟩ | ⟨buf, -, heq⟩
    · rw [heq]
      exact ⟨not_fired_nil, past_at _ rfl _⟩
    · rw [heq]
      exact ⟨not_fired_sent _ _, past_at _ rfl _⟩
  | close i fragmented call => exact ⟨not_fired_nil, past_at _ rfl _⟩
  | expire => exact ⟨not_fired_nil, past_at _ rfl _⟩
  | tick index =>
    rw [resume_tick]
    split
    · rename_i hin
      rcases tickAt_cases c ⟨index, hin⟩ sendOk with ⟨-, heq⟩ | ⟨-, -, -, heq⟩ | ⟨-, -, -, heq⟩
      · rw [heq]
        exact ⟨not_fired_nil, past_at _ rfl _⟩
      · rw [heq]
        refine ⟨?_, past_at _ rfl _⟩
        cases sendOk with
        | true => exact not_fired_sent _ _
        | false => exact not_fired_nil
      · rw [heq]
        -- the transaction has ended, and with or without a slot the timeout is reported
        rcases timeoutTrampoline_cases (c.freed ⟨index, hin⟩) (c.transactions ⟨index, hin⟩).token
          (c.transactions ⟨index, hin⟩).owner (.tick (index + 1)) with ⟨j, -, ht⟩ | ⟨-, ht⟩
        · rw [ht]
          exact fireTimeout_past _ _ _ rfl
        · rw [ht]
          exact fireTimeout_past _ _ _ rfl
    · exact ⟨not_fired_nil, nofun⟩
  | ret => exact ⟨not_fired_nil, nofun⟩

/-- Once past its dispatch, `poll` runs no `onResponse`. -/
theorem Past.step {c : Client cfg} (h : c.Past) {a : Action} (ha : ∀ nowMs rx, a ≠ .poll nowMs rx) :
    ¬ Fired (c.step a).2 ∧ (c.step a).1.Past := by
  rcases c.step_cases a with heq | ⟨call, sendOk, -, -, heq⟩ | ⟨nowMs, rx, rfl, -, -⟩ |
    ⟨sendOk, k, b, -, hctl, heq⟩
  · rw [heq]
    exact ⟨not_fired_nil, h⟩
  · rw [heq]
    obtain ⟨hfired, hctl⟩ := c.call_quiet sendOk call
    refine ⟨hfired, fun k b hb => h k b ?_⟩
    rw [← hctl]
    exact hb
  · exact absurd rfl (ha nowMs rx)
  · rw [heq]
    exact c.resume_quiet (h k b hctl) sendOk

/-- So no later segment of this poll does. -/
theorem Past.exec {c : Client cfg} (h : c.Past) {events : List ClientEvent} :
    ∀ {acts : List Action}, (∀ a ∈ acts, ∀ nowMs rx, a ≠ .poll nowMs rx) →
      (Fired ((machine cfg).exec events c acts).1 ↔ Fired events) := by
  intro acts
  induction acts generalizing c events with
  | nil => exact fun _ => Iff.rfl
  | cons a acts ih =>
    intro ha
    obtain ⟨hquiet, hnext⟩ := h.step (ha a (List.mem_cons_self ..))
    refine (ih hnext fun a' ha' => ha a' (List.mem_cons_of_mem _ ha')).trans ?_
    show Fired (events ++ (c.step a).2) ↔ _
    rw [fired_append]
    exact or_iff_left hquiet

/-- About to dispatch, `poll` runs an `onResponse` or not as the dispatch does. -/
theorem exec_dispatch {c : Client cfg} {sender : Endpoint} {msg : Message}
    (hctl : c.control = .polling (.dispatch sender msg) false) :
    ∀ {acts : List Action}, (∀ a ∈ acts, ∀ nowMs rx, a ≠ .poll nowMs rx) →
      Fired ((machine cfg).exec [] c acts).1 → Fired (c.dispatchResponse sender msg).2 := by
  have happ : c.appHasControl = false := by
    unfold appHasControl
    rw [hctl]
  intro acts
  induction acts with
  | nil => exact fun _ h => absurd h not_fired_nil
  | cons a acts ih =>
    intro ha h
    have hrest : ∀ a' ∈ acts, ∀ nowMs rx, a' ≠ .poll nowMs rx :=
      fun a' ha' => ha a' (List.mem_cons_of_mem _ ha')
    cases a with
    | poll nowMs rx => exact absurd rfl (ha _ (List.mem_cons_self ..) nowMs rx)
    | call call sendOk =>
      -- the application has no control here
      have hstep : c.step (.call call sendOk) = (c, []) := if_neg (by rw [happ]; decide)
      refine ih hrest ?_
      have heq : (machine cfg).exec [] c (.call call sendOk :: acts) =
          (machine cfg).exec ([] ++ (c.step (.call call sendOk)).2)
            (c.step (.call call sendOk)).1 acts := rfl
      rw [heq, hstep] at h
      exact h
    | resume sendOk =>
      have hstep : c.step (.resume sendOk) = ((c.dispatchResponse sender msg).1,
          ackEvents cfg sender msg sendOk ++ (c.dispatchResponse sender msg).2) :=
        step_resume hctl sendOk
      have heq : (machine cfg).exec [] c (.resume sendOk :: acts) =
          (machine cfg).exec ([] ++ (c.step (.resume sendOk)).2)
            (c.step (.resume sendOk)).1 acts := rfl
      rw [heq, hstep, (c.dispatchResponse_past sender msg).exec hrest, List.nil_append,
        fired_append] at h
      refine h.resolve_left ?_
      unfold ackEvents
      split
      · split
        · exact not_fired_sent _ _
        · exact not_fired_nil
      · exact not_fired_nil

/-- What the dispatch looks at is not changed by what comes before it. -/
theorem fires_congr {c c' : Client cfg} (hslots : c'.slots = c.slots)
    (hdisc : c'.discovers = c.discovers) (msg : Message) : c'.Fires msg ↔ c.Fires msg := by
  unfold Fires findDiscover findPendingByToken
  rw [hslots, hdisc]

/-- **When a datagram gets to a response handler**: when it decodes, and the message is one that
the dispatch gives to a handler. -/
theorem poll_fires_iff (c : Client cfg) (nowMs : UInt32) (sender : Endpoint) (data : Bytes) :
    c.PollFires nowMs (some (sender, data)) ↔
      ∃ msg, Message.decode cfg data = (.none, msg) ∧ c.Fires msg := by
  -- a poll that does not dispatch
  have hnever : ∀ {r : Client cfg × List ClientEvent}, c.poll nowMs (some (sender, data)) = r →
      r.1.Past → ¬ Fired r.2 → ¬ c.PollFires nowMs (some (sender, data)) := by
    rintro r heq hpast hquiet ⟨acts, hacts, hfired⟩
    rw [heq, hpast.exec hacts] at hfired
    exact hquiet hfired
  rcases c.poll_cases nowMs (some (sender, data)) with heq | ⟨_, _, msg, hrx, hdec, heq⟩
  · refine iff_of_false (hnever heq (past_at _ rfl _) not_fired_nil) ?_
    rintro ⟨msg, hdec, hfires⟩
    -- it would be handled as that message
    rw [poll_message c nowMs sender hdec] at heq
    obtain ⟨c', -, -, hm⟩ := (c.atTime nowMs).handleMessage_other sender hfires.1
    rw [hm, if_pos hfires.2.1] at heq
    have hctl := congrArg (fun r : Client cfg × List ClientEvent => r.1.control) heq
    cases hctl
  cases hrx
  by_cases hrst : msg.type = .reset
  · refine iff_of_false ?_ ?_
    · have hreset : (c.atTime nowMs).handleMessage sender msg =
          (c.atTime nowMs).handleReset sender msg.messageId := if_pos hrst
      rw [hreset] at heq
      rcases (c.atTime nowMs).handleReset_cases sender msg.messageId with h | ⟨t, j, -, -, h⟩
      · rw [h] at heq
        exact hnever heq (past_at _ rfl _) not_fired_nil
      · rw [h] at heq
        obtain ⟨hquiet, hpast⟩ := fireTimeout_past (((c.atTime nowMs).completed sender
          msg.messageId).release j) ((c.atTime nowMs).transactions t).owner
          ((c.atTime nowMs).slots j).pending.userContext (k := .ret) rfl
        exact hnever heq hpast hquiet
    · rintro ⟨msg', hdec', hfires⟩
      rw [hdec] at hdec'
      cases hdec'
      exact hfires.1 hrst
  obtain ⟨c', hslots, hdisc, hm⟩ := (c.atTime nowMs).handleMessage_other sender hrst
  rw [hm] at heq
  by_cases hcode : msg.code ≠ Code.empty ∧ !isMethodCode msg.code
  · rw [if_pos hcode] at heq
    have hfires : Fired ((c'.goto (.dispatch sender msg)).dispatchResponse sender msg).2 ↔
        c.Fires msg :=
      (dispatchResponse_fired _ sender hrst hcode).trans (fires_congr hslots hdisc msg)
    constructor
    · rintro ⟨acts, hacts, hfired⟩
      rw [heq] at hfired
      exact ⟨msg, hdec, hfires.1 (exec_dispatch rfl hacts hfired)⟩
    · rintro ⟨msg', hdec', hm'⟩
      rw [hdec] at hdec'
      cases hdec'
      -- the next segment is the dispatch
      refine ⟨[.resume true], fun a ha => ?_, ?_⟩
      · cases List.mem_singleton.1 ha
        exact fun _ _ => nofun
      · rw [heq]
        show Fired ([] ++ (ackEvents cfg sender msg true ++
          ((c'.goto (.dispatch sender msg)).dispatchResponse sender msg).2))
        rw [List.nil_append, fired_append]
        exact .inr (hfires.2 hm')
  · rw [if_neg hcode] at heq
    refine iff_of_false (hnever heq (past_at _ rfl _) not_fired_nil) ?_
    rintro ⟨msg', hdec', hfires⟩
    rw [hdec] at hdec'
    cases hdec'
    exact hcode hfires.2.1

end Client

end PulseCoap
