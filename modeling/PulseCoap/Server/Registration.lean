import PulseCoap.Server.Answer
import PulseCoap.Server.Deferral
import PulseCoap.Server.Frame

/-!
# PulseCoAP — whether the Observe option tells the truth

A GET with Observe 0 is registered before its handler runs. The option of the
response is decided there and then: it is sent whether or not the table had room,
and whatever the handler makes of the request; the separate response to a deferred
request has none at all.

`turn` is one request to its end: the datagram, the return of its handler and, if
that defers, the call of `respond`.

The turn is followed to its end because the client is told by the response and
not by the table. Which response that is depends on the handler: its own, a
separate one, or an error of the block-wise code in its place. `OffersObserve`
says of the state before and of the result whether the response will have the
option, and the two sides of the equivalence are then compared for a
registration, a deregistration and any other request.

* `inline_responds`, `separate_responds` — the option and the code of a response.
* `turnFrom_observers` — the entries after the turn.
* `truthful_iff` — exactly when the two agree.
* `not_truthful` — a full table.
* `TellsTruth`, `Truthful` — what the client should be able to conclude.
-/

namespace PulseCoap

namespace Server

variable {cfg : Config}

/-- What the application does with a request, from the datagram on: the result
of the handler, and what it calls `respond` with if it has deferred. -/
def turn (s : Server cfg) (nowMs : UInt32) (sender : Endpoint) (data : Bytes) (res : Response)
    (ans : Answer) : Server cfg × List ServerEvent :=
  let r := (s.scanned nowMs).receive (some (sender, data))
  match r.1.control with
  | .idle => r
  | .handling h =>
    let r' := r.1.step (.handlerReturns res)
    if res.deferred then
      let r'' := r'.1.respond (handleOf h.deferIdx) ans.code ans.payload ans.contentFormat
      (r''.1, r.2 ++ r'.2 ++ r''.2.2)
    else (r'.1, r.2 ++ r'.2)

/-- A datagram to `dest` says this with its code and with whether it has an
Observe option. -/
def Responds (cfg : Config) (dest : Endpoint) (P : Code → Bool → Prop)
    (events : List ServerEvent) : Prop :=
  ∃ data m, .sent dest data ∈ events ∧ Message.decode cfg data = (.none, m) ∧
    P m.code (m.findOption OptionNumber.observe).isSome

/-- The response has an Observe option. -/
def SendsObserve (cfg : Config) (dest : Endpoint) (events : List ServerEvent) : Prop :=
  Responds cfg dest (fun _ observe => observe = true) events

/-- The response code is 2.xx. -/
def Succeeds (cfg : Config) (dest : Endpoint) (events : List ServerEvent) : Prop :=
  Responds cfg dest (fun code _ => codeClass code = 2) events

/-- An active entry for this remote and token, on any resource or on this one. -/
def HasEntry (s : Server cfg) (remote : Endpoint) (token : Bytes) : Prop :=
  ∃ i, observes remote token (s.observers i) = true

def HasEntryOn (s : Server cfg) (remote : Endpoint) (token : Bytes) (index : UInt8) : Prop :=
  ∃ i, observes remote token (s.observers i) = true ∧ (s.observers i).resourceIndex = index

/-- The request has Observe 0. -/
def AsksToRegister (msg : Message) : Prop :=
  (msg.findOption OptionNumber.observe).map Message.optionAsUint = some kObserveRegister

instance (msg : Message) : Decidable (AsksToRegister msg) := inferInstanceAs (Decidable (_ = _))

/-- **The option tells the truth**: the response has it exactly when the request
asked to register, has succeeded and is registered now; otherwise there is no
entry. -/
structure Truthful (t : Target) (msg : Message) (sender : Endpoint)
    (r : Server cfg × List ServerEvent) : Prop where
  option : SendsObserve cfg sender r.2 ↔ AsksToRegister msg ∧ Succeeds cfg sender r.2 ∧
    r.1.HasEntryOn sender msg.token (UInt8.ofNat t.index)
  others : ¬ (AsksToRegister msg ∧ Succeeds cfg sender r.2 ∧
    r.1.HasEntryOn sender msg.token (UInt8.ofNat t.index)) → ¬ r.1.HasEntry sender msg.token

/-! ## What a datagram says -/

theorem not_responds_nil (dest : Endpoint) (P : Code → Bool → Prop) :
    ¬ Responds cfg dest P [] := by
  rintro ⟨data, m, hmem, -⟩
  cases hmem

theorem responds_append {dest : Endpoint} {P : Code → Bool → Prop} {ev ev' : List ServerEvent} :
    Responds cfg dest P (ev ++ ev') ↔ Responds cfg dest P ev ∨ Responds cfg dest P ev' := by
  constructor
  · rintro ⟨data, m, hmem, h⟩
    rcases List.mem_append.1 hmem with hmem | hmem
    · exact .inl ⟨data, m, hmem, h⟩
    · exact .inr ⟨data, m, hmem, h⟩
  · rintro (⟨data, m, hmem, h⟩ | ⟨data, m, hmem, h⟩)
    · exact ⟨data, m, List.mem_append_left _ hmem, h⟩
    · exact ⟨data, m, List.mem_append_right _ hmem, h⟩

theorem responds_cons {dest : Endpoint} {P : Code → Bool → Prop} {e : ServerEvent}
    {ev : List ServerEvent} (he : ∀ dest data, e ≠ .sent dest data) :
    Responds cfg dest P (e :: ev) ↔ Responds cfg dest P ev := by
  constructor
  · rintro ⟨data, m, hmem, h⟩
    rcases List.mem_cons.1 hmem with heq | hmem
    · exact absurd heq.symm (he _ _)
    · exact ⟨data, m, hmem, h⟩
  · rintro ⟨data, m, hmem, h⟩
    exact ⟨data, m, List.mem_cons_of_mem _ hmem, h⟩

/-- Whether these options, as far as there is room for them, have an Observe
option among them. -/
def showsObserve (cfg : Config) (uints : List (UInt16 × UInt32)) : Bool :=
  (uints.take cfg.maxOptions).any fun u => u.1 == OptionNumber.observe

section

variable {m : Message} {hd : ReplyHeader} {uints : List (UInt16 × UInt32)} {payload : Bytes}

/-- The Observe option survives the way over the wire. -/
theorem Carries.findObserve (h : Carries cfg m hd uints payload) :
    ((Message.decode cfg m.wire).2.findOption OptionNumber.observe).isSome =
      showsObserve cfg uints := by
  have hsame := (Message.sameContent_decode h.built.toWellFormed).options
  have hnumbers : (Message.decode cfg m.wire).2.options.map (·.number) =
      (uints.take cfg.maxOptions).map (·.1) := by
    have hdec := congrArg (List.map Prod.fst) hsame
    have hopts := congrArg (List.map fun e => UInt16.ofNat e.1) h.options
    simp only [List.map_map, Function.comp_def] at hdec hopts
    simp only [Message.entry, UInt16.ofNat_toNat] at hopts
    exact hdec.trans hopts
  have hany : ∀ os : List CoapOption, (os.find? fun o => o.number == OptionNumber.observe).isSome =
      (os.map (·.number)).any (· == OptionNumber.observe) := by
    intro os
    rw [Bool.eq_iff_iff, List.find?_isSome, List.any_map]
    exact List.any_eq_true.symm
  unfold Message.findOption showsObserve
  rw [hany, hnumbers, List.any_map]
  rfl

/-- A message says what it carries, if it fits. -/
theorem Carries.responds (h : Carries cfg m hd uints payload) (dest : Endpoint)
    (P : Code → Bool → Prop) : Responds cfg dest P (sendIfEncoded cfg m dest) ↔
      replySize cfg hd.token.length uints payload.length ≤ cfg.maxMsgSize ∧
        P hd.code (showsObserve cfg uints) := by
  have hcode : (Message.decode cfg m.wire).2.code = hd.code :=
    (Message.sameContent_decode h.built.toWellFormed).code.trans h.code
  have hpair := Message.decodes_wire h.built.toWellFormed
  rw [← h.size]
  constructor
  · rintro ⟨data, m', hmem, hdec, hp⟩
    by_cases hfits : m.wireSize ≤ cfg.maxMsgSize
    · rw [sendIfEncoded_fits h.built dest hfits] at hmem
      cases List.mem_singleton.1 hmem
      rw [hpair] at hdec
      cases hdec
      rw [hcode, h.findObserve] at hp
      exact ⟨hfits, hp⟩
    · rw [sendIfEncoded_drops h.built dest (by omega)] at hmem
      cases hmem
  · rintro ⟨hfits, hp⟩
    refine ⟨m.wire, _, ?_, hpair, ?_⟩
    · rw [sendIfEncoded_fits h.built dest hfits]
      exact List.mem_singleton.2 rfl
    · rw [hcode, h.findObserve]
      exact hp

end

/-! ## The response -/

/-- There is room for the Observe option in a reply that has one. -/
def observeShown (cfg : Config) (ov : Option UInt32) : Bool :=
  ov.isSome && decide (0 < cfg.maxOptions)

/-- Options behind the Observe option are others. -/
theorem showsObserve_eq (cfg : Config) (ov : Option UInt32) {us : List (UInt16 × UInt32)}
    (hus : ∀ u ∈ us, u.1 ≠ OptionNumber.observe) :
    showsObserve cfg (observeUint ov ++ us) = observeShown cfg ov := by
  have hrest : ∀ n, (us.take n).any (fun u => u.1 == OptionNumber.observe) = false := by
    intro n
    refine List.any_eq_false.2 fun u hu => ?_
    simpa using hus u (List.mem_of_mem_take hu)
  unfold showsObserve observeShown
  cases ov with
  | none => simpa [observeUint] using hrest cfg.maxOptions
  | some v =>
    cases hmax : cfg.maxOptions with
    | zero => simp
    | succ n => simp [observeUint]

/-- Whether an inline response has an Observe option. -/
def inlineObserve (cfg : Config) (msg : Message) (ov : Option UInt32) (res : Response) : Bool :=
  !decide (PastEnd cfg msg res) && observeShown cfg ov

/-- An error is a response with its own code, and without an Observe option. -/
theorem error_responds (s : Server cfg) {msg : Message} (ht : msg.token.length ≤ kMaxTokenLen)
    (dest : Endpoint) (code : Code) (P : Code → Bool → Prop) :
    Responds cfg dest P (s.sendError msg dest code).2 ↔
      codeSize cfg msg ≤ cfg.maxMsgSize ∧ P code false := by
  have hhd := s.replyHeader_names msg code
  have h := (s.carries_content code [] .textPlain none ht).responds dest P
  rw [hhd.1, hhd.2] at h
  refine h.trans ?_
  have hnone : showsObserve cfg (observeUint none ++ contentUint [] .textPlain) = false :=
    showsObserve_eq cfg none fun _ hu => nomatch hu
  rw [hnone]
  rfl

/-- **The inline response** satisfies what is asked of a code and an option exactly when it fits
and the code and the option that it is due do. -/
theorem inline_responds (s : Server cfg) (h : Handling cfg)
    (ht : h.msg.token.length ≤ kMaxTokenLen) (res : Response) (P : Code → Bool → Prop) :
    Responds cfg h.sender P (s.replyInline h res).2 ↔
      inlineSize cfg h.msg h.observeValue res ≤ cfg.maxMsgSize ∧
        P (inlineCode cfg h.msg res) (inlineObserve cfg h.msg h.observeValue res) := by
  obtain ⟨m, uints, payload, hwrites, hsent⟩ := s.replyInline_carries h res ht
  obtain ⟨us, huints, hus⟩ := hwrites.options
  have hhd := s.replyHeader_names h.msg (inlineCode cfg h.msg res)
  have hshows : showsObserve cfg uints = inlineObserve cfg h.msg h.observeValue res := by
    unfold inlineObserve
    rw [huints]
    by_cases hpast : PastEnd cfg h.msg res
    · -- the 4.00 has no options
      rw [if_pos hpast, decide_eq_true hpast]
      exact showsObserve_eq cfg none hus
    · rw [if_neg hpast, decide_eq_false hpast]
      exact showsObserve_eq cfg h.observeValue hus
  rw [hsent, hwrites.carries.responds h.sender P, hhd.1, hhd.2, hwrites.size, hshows]

/-- An empty ACK is no response. -/
theorem emptyAck_responds (messageId : UInt16) (dest : Endpoint) {P : Code → Bool → Prop}
    (hP : ¬ P Code.empty false) : ¬ Responds cfg dest P (sendEmptyAck cfg messageId dest) := by
  intro h
  have hp := (((carries_emptyAck cfg messageId).responds dest P).1 h).2
  have hnone : showsObserve cfg [] = false := showsObserve_eq cfg none fun _ hu => nomatch hu
  rw [hnone] at hp
  exact hP hp

/-- The response once the handler has returned: none of its own if it defers and has a slot. -/
theorem finish_responds (s : Server cfg) (h : Handling cfg)
    (ht : h.msg.token.length ≤ kMaxTokenLen) (hs : h.session = none) (res : Response)
    {P : Code → Bool → Prop} (hP : ¬ P Code.empty false) :
    Responds cfg h.sender P (s.finish h res).2 ↔
      ¬ (res.deferred = true ∧ h.deferIdx.isSome = true) ∧
        inlineSize cfg h.msg h.observeValue res ≤ cfg.maxMsgSize ∧
        P (inlineCode cfg h.msg res) (inlineObserve cfg h.msg h.observeValue res) := by
  unfold finish
  by_cases hdef : res.deferred = true ∧ h.deferIdx.isSome = true
  · simp only [hdef, and_self, if_true, not_true_eq_false, false_and, iff_false]
    split
    · exact emptyAck_responds _ _ hP
    · exact not_responds_nil _ _
  · simp only [hdef, if_false, hs, not_false_eq_true, true_and]
    exact inline_responds _ h ht res P

/-- A separate response, whatever the slot holds. -/
theorem carries_separate (cfg : Config) (dr : DeferredRequest) (messageId : UInt16) (code : Code)
    (payload : Bytes) (contentFormat : ContentFormat) :
    ∃ hd, Carries cfg (separateResponse cfg dr messageId code payload contentFormat) hd
      (observeUint none ++ contentUint payload contentFormat) payload := by
  by_cases ht : dr.token.length ≤ kMaxTokenLen
  · exact ⟨_, carries_separateResponse cfg dr ht messageId code payload contentFormat⟩
  · -- the token is not set
    unfold separateResponse
    dsimp only
    generalize (if dr.wasConfirmable = true then MessageType.confirmable
      else MessageType.nonConfirmable) = type
    have htok : ((Message.reset.setType type).setMessageId messageId).setToken dr.token =
        ((Message.reset.setType type).setMessageId messageId, false) := if_pos (by omega)
    have hempty := @carries_header cfg type messageId [] code (Nat.zero_le _)
    rw [htok]
    exact ⟨_, hempty.addContent (fun _ hu => nomatch hu) payload contentFormat⟩

/-- **The separate response has no Observe option**, whatever the request was. -/
theorem separate_responds (s : Server cfg) (handle : UInt8) (ans : Answer) (dest : Endpoint) :
    ¬ SendsObserve cfg dest (s.respond handle ans.code ans.payload ans.contentFormat).2.2 := by
  rintro ⟨data, m, hmem, hdec, hobs⟩
  rcases s.respond_cases handle ans with ⟨heq, -⟩ | ⟨i, -, -, -, heq | ⟨messageId, buf, henc, heq⟩⟩
  · rw [heq] at hmem
    cases hmem
  · rw [heq] at hmem
    cases hmem
  · obtain ⟨hd, hc⟩ := carries_separate cfg (s.deferred i) messageId ans.code ans.payload
      ans.contentFormat
    have hbuf := ((encoded_iff hc.built buf).1 henc).2
    rw [heq] at hmem
    cases List.mem_singleton.1 hmem
    have hnone : showsObserve cfg (observeUint none ++ contentUint ans.payload ans.contentFormat) =
        false := by
      exact showsObserve_eq cfg none contentUint_other
    have hfind := hc.findObserve
    rw [← hbuf, hdec, hnone] at hfind
    rw [hfind] at hobs
    cases hobs

/-! ## One turn -/

/-- A request that reaches its resource without a Block1 option, from the Observe option to the
end of the turn. -/
def turnFrom (s : Server cfg) (h : Handling cfg) (res : Response) (ans : Answer) :
    Server cfg × List ServerEvent :=
  let r := s.finish h res
  if res.deferred then
    let r' := r.1.respond (handleOf h.deferIdx) ans.code ans.payload ans.contentFormat
    (r'.1, r.2 ++ r'.2.2)
  else r

/-- The end of a handler leaves the observers alone. -/
theorem turnFrom_observers (s : Server cfg) (h : Handling cfg) (res : Response) (ans : Answer) :
    (s.turnFrom h res ans).1.observers = s.observers := by
  unfold turnFrom
  dsimp only
  split
  · rw [(respond_frame ..).1]
    exact (keepsTables_finish s h res).observers
  · exact (keepsTables_finish s h res).observers

/-- Without deferring, the turn ends with the handler. -/
theorem turnFrom_inline (s : Server cfg) (h : Handling cfg) {res : Response} (ans : Answer)
    (hinline : res.deferred = false) : s.turnFrom h res ans = s.finish h res := by
  unfold turnFrom
  rw [hinline]
  rfl

/-- No slot, no separate response. -/
theorem respond_none (s : Server cfg) (ans : Answer) :
    s.respond (handleOf (none : Option (Fin cfg.maxDeferred))) ans.code ans.payload
      ans.contentFormat = (s, false, []) := by
  have hlt := cfg.deferred_lt
  have hbig : ¬ (handleOf (none : Option (Fin cfg.maxDeferred))).toNat < cfg.maxDeferred := by
    have h255 : (handleOf (none : Option (Fin cfg.maxDeferred))).toNat = 255 := rfl
    omega
  unfold respond
  rw [dif_neg hbig]

section

variable {s : Server cfg} {h : Handling cfg} (ht : h.msg.token.length ≤ kMaxTokenLen)
  (hs : h.session = none) (res : Response) (ans : Answer)

include ht hs

/-- **The response has an Observe option exactly when** it is not deferred, fits, and belongs to
a registration. Whether the table had room for the observer plays no part. -/
theorem turnFrom_sendsObserve :
    SendsObserve cfg h.sender (s.turnFrom h res ans).2 ↔
      ¬ (res.deferred = true ∧ h.deferIdx.isSome = true) ∧
        inlineSize cfg h.msg h.observeValue res ≤ cfg.maxMsgSize ∧
        inlineObserve cfg h.msg h.observeValue res = true := by
  have hfin := finish_responds s h ht hs res (P := fun _ observe => observe = true) (by simp)
  unfold turnFrom
  dsimp only
  split
  · refine Iff.trans responds_append ((or_iff_left ?_).trans hfin)
    exact separate_responds _ _ ans h.sender
  · exact hfin

/-- Without a slot, or without deferring, the inline response is the only one. -/
theorem turnFrom_succeeds (hinline : ¬ (res.deferred = true ∧ h.deferIdx.isSome = true)) :
    Succeeds cfg h.sender (s.turnFrom h res ans).2 ↔
      inlineSize cfg h.msg h.observeValue res ≤ cfg.maxMsgSize ∧
        codeClass (inlineCode cfg h.msg res) = 2 := by
  have hfin := finish_responds s h ht hs res (P := fun code _ => codeClass code = 2) (by decide)
  rw [iff_true_intro hinline, true_and] at hfin
  unfold turnFrom
  dsimp only
  split
  · rename_i hdef
    have hslot : h.deferIdx = none := by
      cases hidx : h.deferIdx with
      | none => rfl
      | some i => exact absurd ⟨hdef, by rw [hidx]; rfl⟩ hinline
    rw [hslot, respond_none, List.append_nil]
    exact hfin
  · exact hfin

end

/-- GET is no upload. -/
theorem block1Option_get {msg : Message} (hget : msg.code = Code.get) :
    block1Option cfg msg = none := by
  refine if_neg ?_
  rintro ⟨-, hput | hpost⟩
  · rw [hget] at hput
    exact absurd hput (by decide)
  · rw [hget] at hpost
    exact absurd hpost (by decide)

section

variable (s : Server cfg) (nowMs : UInt32) (sender : Endpoint) {data : Bytes} {msg : Message}
  (hidle : s.control = .idle) (hdec : Message.decode cfg data = (.none, msg))
  (hreq : IsRequest msg)

include hidle hdec hreq

/-- A request that is refused ends there. -/
theorem turn_refused (hnone : (s.scanned nowMs).admitted msg = none) (res : Response)
    (ans : Answer) : ∃ code, s.turn nowMs sender data res ans =
      (s.scanned nowMs).sendError msg sender code := by
  rcases (s.scanned nowMs).handleRequest_cases msg sender with ⟨-, code, heq⟩ | ⟨t, had, -⟩
  · refine ⟨code, ?_⟩
    have hctl : ((s.scanned nowMs).sendError msg sender code).1.control = .idle := by
      rw [((s.scanned nowMs).justReplies_error msg sender code).control, scanned_control, hidle]
    unfold turn
    dsimp only
    rw [receive_request _ sender hdec hreq, heq, hctl]
  · rw [hnone] at had
    cases had

/-- A request that is admitted and is no upload goes through the Observe option to its handler. -/
theorem turn_admitted {t : Target} (had : (s.scanned nowMs).admitted msg = some t)
    (hplain : block1Option cfg msg = none) (res : Response) (ans : Answer) :
    ∃ (s' : Server cfg) (h : Handling cfg) (call : ServerEvent),
      h.msg = msg ∧ h.sender = sender ∧
      h.observeValue = ((s.scanned nowMs).handleObserve t msg sender).2 ∧ h.session = none ∧
      h.deferIdx = (s.scanned nowMs).allocateDeferred ∧
      s'.observers = ((s.scanned nowMs).handleObserve t msg sender).1.observers ∧
      (∀ dest data, call ≠ .sent dest data) ∧
      s.turn nowMs sender data res ans =
        ((s'.turnFrom h (s.resultOf t res) ans).1,
          call :: (s'.turnFrom h (s.resultOf t res) ans).2) := by
  obtain ⟨pool, obs, hs⟩ := s.scanned_spec nowMs
  obtain ⟨obs', hobs⟩ := (s.scanned nowMs).handleObserve_spec t msg sender
  have hreceive : (s.scanned nowMs).receive (some (sender, data)) =
      ((s.scanned nowMs).withObservers obs').runHandler t msg sender
        ((s.scanned nowMs).handleObserve t msg sender).2 none := by
    rw [receive_request _ sender hdec hreq]
    rcases (s.scanned nowMs).handleRequest_cases msg sender with ⟨hnone, -⟩ | ⟨t', had', heq⟩
    · rw [had] at hnone
      cases hnone
    · obtain rfl : t = t' := Option.some.inj (had.symm.trans had')
      rw [heq]
      unfold handleTarget
      simp only [hplain, hobs]
  have hdefer : ((s.scanned nowMs).withObservers obs').allocateDeferred =
      (s.scanned nowMs).allocateDeferred := rfl
  have hcall : ∀ dest data, ((s.scanned nowMs).withObservers obs').handlerCall t msg sender none ≠
      .sent dest data := fun _ _ h => nomatch (show ServerEvent.handled _ _ _ _ = _ from h)
  obtain ⟨d, hd⟩ := ((s.scanned nowMs).withObservers obs').fillDeferred_spec
    ((s.scanned nowMs).withObservers obs').allocateDeferred msg sender
  unfold turn
  dsimp only
  rw [hreceive, hobs]
  -- the application's handler is running, or the server's own has returned
  rcases ((s.scanned nowMs).withObservers obs').runHandler_cases t msg sender
    ((s.scanned nowMs).handleObserve t msg sender).2 none with ⟨f, hf, heq⟩ | ⟨hwk, heq⟩
  · have hres : s.resultOf t res = res := by simp only [resultOf, hf]
    refine ⟨{ ((s.scanned nowMs).withObservers obs').fillDeferred
        ((s.scanned nowMs).withObservers obs').allocateDeferred msg sender with control := .idle },
      ((s.scanned nowMs).withObservers obs').handlingFor msg sender
        ((s.scanned nowMs).handleObserve t msg sender).2 none,
      ((s.scanned nowMs).withObservers obs').handlerCall t msg sender none,
      rfl, rfl, rfl, rfl, hdefer, ?_, hcall, ?_⟩
    · rw [hd]
    · rw [heq, hres]
      unfold turnFrom
      dsimp only [step]
      split
      · rfl
      · rfl
  · -- the server's own handler never defers
    have hres : s.resultOf t res = s.wellKnownCoreHandler := by simp only [resultOf, hwk]
    have hown : (((s.scanned nowMs).withObservers obs').fillDeferred
        ((s.scanned nowMs).withObservers obs').allocateDeferred msg sender).wellKnownCoreHandler =
          s.wellKnownCoreHandler := by
      rw [hd, hs]
      rfl
    refine ⟨((s.scanned nowMs).withObservers obs').fillDeferred
        ((s.scanned nowMs).withObservers obs').allocateDeferred msg sender,
      ((s.scanned nowMs).withObservers obs').handlingFor msg sender
        ((s.scanned nowMs).handleObserve t msg sender).2 none,
      ((s.scanned nowMs).withObservers obs').handlerCall t msg sender none,
      rfl, rfl, rfl, rfl, hdefer, ?_, hcall, ?_⟩
    · rw [hd]
    · have hctl : (((s.scanned nowMs).withObservers obs').runHandler t msg sender
          ((s.scanned nowMs).handleObserve t msg sender).2 none).1.control = .idle := by
        rw [heq]
        dsimp only
        rw [finish_control, hd, hs]
        exact hidle
      rw [hctl, heq, hres, turnFrom_inline _ _ ans rfl]
      dsimp only
      rw [hown]

end

/-! ## The truth of the option -/

/-- A registration finds its entry again or a free one. -/
def HasRoom (s : Server cfg) (remote : Endpoint) (token : Bytes) : Prop :=
  s.HasEntry remote token ∨ ∃ i, (s.observers i).active = false

/-- The response to a registration comes inline, is no error of the server, and has room for the
Observe option, whose value does not exceed an `int32_t`. -/
def OffersObserve (s : Server cfg) (t : Target) (msg : Message) (res : Response) : Prop :=
  ¬ (res.deferred = true ∧ s.allocateDeferred.isSome = true) ∧ ¬ PastEnd cfg msg res ∧
    0 < cfg.maxOptions ∧ t.resource.observeSequence.toNat < 2 ^ 31 ∧
    inlineSize cfg msg (some t.resource.observeSequence) res ≤ cfg.maxMsgSize

/-- **When the option tells the truth**, by the tables after the poll's scan. -/
def TellsTruth (s : Server cfg) (t : Target) (msg : Message) (sender : Endpoint)
    (res : Response) : Prop :=
  match s.admitted msg with
  | none => ¬ s.HasEntry sender msg.token
  | some _ => AsksToRegister msg →
      (s.HasRoom sender msg.token → s.OffersObserve t msg res ∧ codeClass res.code = 2) ∧
      (¬ s.HasRoom sender msg.token → ¬ s.OffersObserve t msg res)

/-- After a registration there is an entry exactly if there was room. -/
theorem register_hasEntryOn (s : Server cfg) (index : UInt8) (remote : Endpoint) (token : Bytes)
    (messageId : UInt16) {s' : Server cfg} (hobs : s'.observers =
      ((s.registerObserver index remote token).noteReply remote token messageId).observers) :
    (s'.HasEntryOn remote token index ↔ s.HasRoom remote token) ∧
      (s'.HasEntry remote token ↔ s.HasRoom remote token) := by
  rcases s.register_cases index remote token messageId with ⟨i, hfound, heq⟩ | ⟨hnone, hfull, heq⟩
  · have hroom : s.HasRoom remote token := by
      rcases hfound with hagain | ⟨-, hfree⟩
      · exact .inl ⟨i, Table.find?_spec hagain⟩
      · exact .inr ⟨i, by simpa using Table.find?_spec hfree⟩
    have hi : s'.observers i = registered (s.observers i) index remote token messageId := by
      rw [hobs, heq]
      exact Table.set_self ..
    -- the entry that is written has the key
    have hentry : observes remote token (s'.observers i) = true := by
      rw [hi]
      exact observes_iff.2 ⟨rfl, rfl, rfl⟩
    exact ⟨iff_of_true ⟨i, hentry, by rw [hi]; rfl⟩ hroom, iff_of_true ⟨i, hentry⟩ hroom⟩
  · -- in a full table nothing is written, and nothing was there
    have hnoentry : ¬ s.HasEntry remote token := by
      rintro ⟨i, hi⟩
      rw [Table.find?_eq_none.1 hnone i] at hi
      cases hi
    have hnoroom : ¬ s.HasRoom remote token := by
      rintro (hentry | ⟨i, hi⟩)
      · exact hnoentry hentry
      · have := Table.find?_eq_none.1 hfull i
        rw [hi] at this
        cases this
    have hnoentry' : ¬ s'.HasEntry remote token := by
      unfold HasEntry
      rw [hobs, heq]
      exact hnoentry
    exact ⟨iff_of_false (fun ⟨i, hi, _⟩ => hnoentry' ⟨i, hi⟩) hnoroom,
      iff_of_false hnoentry' hnoroom⟩

/-- The Observe option is sent where the response offers it. -/
theorem offersObserve_iff (s : Server cfg) (t : Target) (msg : Message) (res : Response)
    {h : Handling cfg} (hmsg : h.msg = msg) (hslot : h.deferIdx = s.allocateDeferred)
    (hov : h.observeValue = observeValueOf t.resource.observeSequence) :
    s.OffersObserve t msg res ↔ ¬ (res.deferred = true ∧ h.deferIdx.isSome = true) ∧
      inlineSize cfg h.msg h.observeValue res ≤ cfg.maxMsgSize ∧
      inlineObserve cfg h.msg h.observeValue res = true := by
  unfold OffersObserve inlineObserve observeShown
  rw [hmsg, hslot, hov]
  by_cases hseq : t.resource.observeSequence.toNat < 2 ^ 31
  · have hvalue : observeValueOf t.resource.observeSequence = some t.resource.observeSequence :=
      if_pos hseq
    rw [hvalue, Option.isSome_some, Bool.true_and, Bool.and_eq_true, Bool.not_eq_true',
      decide_eq_false_iff_not, decide_eq_true_eq]
    tauto
  · have hvalue : observeValueOf t.resource.observeSequence = none := if_neg hseq
    refine iff_of_false (fun h => hseq h.2.2.2.1) fun h => ?_
    have hshown := h.2.2
    rw [hvalue, Option.isSome_none, Bool.false_and, Bool.and_false] at hshown
    cases hshown

/-- What the claimed truth comes to when the response offers the option. -/
theorem inlineObserve_code {msg : Message} {ov : Option UInt32} {res : Response}
    (h : inlineObserve cfg msg ov res = true) : inlineCode cfg msg res = res.code := by
  have hpast : ¬ PastEnd cfg msg res := by
    intro hpast
    simp [inlineObserve, hpast] at h
  exact if_neg hpast

/-- Where no option is sent, there must be no entry. -/
theorem truthful_silent {t : Target} {msg : Message} {sender : Endpoint}
    {r : Server cfg × List ServerEvent} (hsilent : ¬ SendsObserve cfg sender r.2) :
    Truthful t msg sender r ↔ ¬ r.1.HasEntry sender msg.token := by
  constructor
  · exact fun h => h.others fun hall => hsilent (h.option.2 hall)
  · intro hnone
    have hnot : ¬ r.1.HasEntryOn sender msg.token (UInt8.ofNat t.index) :=
      fun ⟨i, hi, _⟩ => hnone ⟨i, hi⟩
    exact ⟨iff_of_false hsilent fun hall => hnot hall.2.2, fun _ => hnone⟩

/-- What a registration comes to, when its entry depends on the room, the option on the offer and
the success on the code. -/
theorem truthful_registered {t : Target} {msg : Message} {sender : Endpoint}
    {r : Server cfg × List ServerEvent} {room offers good : Prop} (hasks : AsksToRegister msg)
    (hon : r.1.HasEntryOn sender msg.token (UInt8.ofNat t.index) ↔ room)
    (hentry : r.1.HasEntry sender msg.token ↔ room) (hsends : SendsObserve cfg sender r.2 ↔ offers)
    (hsucceeds : offers → (Succeeds cfg sender r.2 ↔ good)) :
    Truthful t msg sender r ↔ (room → offers ∧ good) ∧ (¬ room → ¬ offers) := by
  constructor
  · intro h
    refine ⟨fun hroom => ?_, fun hfull hoffers => ?_⟩
    · have hall : AsksToRegister msg ∧ Succeeds cfg sender r.2 ∧
          r.1.HasEntryOn sender msg.token (UInt8.ofNat t.index) := by
        by_contra hnot
        exact h.others hnot (hentry.2 hroom)
      have hoffers := hsends.1 (h.option.2 hall)
      exact ⟨hoffers, (hsucceeds hoffers).1 hall.2.1⟩
    · exact hfull (hon.1 (h.option.1 (hsends.2 hoffers)).2.2)
  · rintro ⟨hfree, hfull⟩
    refine ⟨⟨fun hsent => ?_, fun hall => ?_⟩, fun hnot hmine => ?_⟩
    · have hroom : room := by
        by_contra hnoroom
        exact hfull hnoroom (hsends.1 hsent)
      obtain ⟨hoffers, hcode⟩ := hfree hroom
      exact ⟨hasks, (hsucceeds hoffers).2 hcode, hon.2 hroom⟩
    · exact hsends.2 (hfree (hon.1 hall.2.2)).1
    · obtain ⟨hoffers, hcode⟩ := hfree (hentry.1 hmine)
      exact hnot ⟨hasks, (hsucceeds hoffers).2 hcode, hon.2 (hentry.1 hmine)⟩

/-- An admitted GET with an Observe option. -/
theorem truthful_admitted (s : Server cfg) (nowMs : UInt32) (sender : Endpoint) {data : Bytes}
    {msg : Message} {t : Target} (res : Response) (ans : Answer) (hidle : s.control = .idle)
    (hdec : Message.decode cfg data = (.none, msg)) (hreq : IsRequest msg)
    (hget : msg.code = Code.get) (had : (s.scanned nowMs).admitted msg = some t)
    (hobservable : t.resource.observable = true)
    (hopt : (msg.findOption OptionNumber.observe).isSome = true) :
    Truthful t msg sender (s.turn nowMs sender data res ans) ↔ (AsksToRegister msg →
      ((s.scanned nowMs).HasRoom sender msg.token →
        (s.scanned nowMs).OffersObserve t msg (s.resultOf t res) ∧
          codeClass (s.resultOf t res).code = 2) ∧
      (¬ (s.scanned nowMs).HasRoom sender msg.token →
        ¬ (s.scanned nowMs).OffersObserve t msg (s.resultOf t res))) := by
  obtain ⟨s', h, call, rfl, rfl, hov, hsession, hslot, hobs, hcall, hturn⟩ :=
    s.turn_admitted nowMs sender hidle hdec hreq had (block1Option_get hget) res ans
  have htok : h.msg.token.length ≤ kMaxTokenLen := Message.decode_token hdec
  have hevents : (s.turn nowMs h.sender data res ans).2 =
      call :: (s'.turnFrom h (s.resultOf t res) ans).2 := by rw [hturn]
  have hfinal : (s.turn nowMs h.sender data res ans).1.observers =
      ((s.scanned nowMs).handleObserve t h.msg h.sender).1.observers := by
    rw [hturn, ← hobs]
    exact s'.turnFrom_observers h _ ans
  have hsends := turnFrom_sendsObserve (s := s') htok hsession (s.resultOf t res) ans
  have hsends' := (responds_cons hcall).trans hsends
  rw [← hevents] at hsends'
  -- it registers, it deregisters, or the option is not looked at
  rcases (s.scanned nowMs).handleObserve_cases t h.msg h.sender with ⟨hreg, heq⟩ |
    ⟨hdereg, heq⟩ | ⟨hnot, hnot', -⟩
  · -- registers
    rw [heq] at hov hfinal
    obtain ⟨hon, hentry⟩ := register_hasEntryOn (s.scanned nowMs) _ _ _ _ hfinal
    have hoffers := offersObserve_iff (s.scanned nowMs) t h.msg (s.resultOf t res) rfl hslot hov
    rw [← hoffers] at hsends'
    have hsucceeds : (s.scanned nowMs).OffersObserve t h.msg (s.resultOf t res) →
        (Succeeds cfg h.sender (s.turn nowMs h.sender data res ans).2 ↔
          codeClass (s.resultOf t res).code = 2) := by
      intro hoffer
      obtain ⟨hinline, hfits, hshown⟩ := hoffers.1 hoffer
      rw [hevents]
      refine (responds_cons hcall).trans ?_
      refine (turnFrom_succeeds htok hsession _ ans hinline).trans ?_
      rw [inlineObserve_code hshown]
      exact and_iff_right hfits
    refine (truthful_registered hreg.2.2 hon hentry hsends' hsucceeds).trans ?_
    exact ⟨fun htells _ => htells, fun htells => htells hreg.2.2⟩
  · -- deregisters
    have hasks : ¬ AsksToRegister h.msg := by
      -- no response to a deregistration has the option
      obtain ⟨-, -, v, hv, hne⟩ := hdereg
      unfold AsksToRegister
      rw [hv]
      exact fun heq => hne (Option.some.inj heq)
    have hsilent : ¬ SendsObserve cfg h.sender (s.turn nowMs h.sender data res ans).2 := by
      intro hsent
      have hshown := (hsends'.1 hsent).2.2
      rw [hov, heq] at hshown
      simp [inlineObserve, observeShown] at hshown
    refine iff_of_true ((truthful_silent hsilent).2 ?_) fun hasks' => absurd hasks' hasks
    rintro ⟨i, hi⟩
    rw [hfinal, heq, removeObserver_observers] at hi
    split at hi
    · obtain ⟨hact, -⟩ := observes_iff.1 hi
      cases hact
    · rename_i hother
      exact hother hi
  · -- the option does one of the two
    exfalso
    obtain ⟨opt, hfound⟩ := Option.isSome_iff_exists.1 hopt
    by_cases hvalue : Message.optionAsUint opt = kObserveRegister
    · exact hnot ⟨hobservable, hget, by rw [hfound, Option.map_some, hvalue]⟩
    · exact hnot' ⟨hobservable, hget, _, by rw [hfound, Option.map_some], hvalue⟩

/-- **The Observe option tells the truth exactly when**, for a GET with Observe 0, there is room
for the registration, the response comes inline, has room for the option, is no 4.00 of the Block2
branch and has a 2.xx code; or there is no room and the option is lost on the way. With any other
value it does; a method the resource does not allow must find no entry. -/
theorem truthful_iff (s : Server cfg) (nowMs : UInt32) (sender : Endpoint) {data path : Bytes}
    {msg : Message} {t : Target} (res : Response) (ans : Answer) (hidle : s.control = .idle)
    (hdec : Message.decode cfg data = (.none, msg)) (hreq : IsRequest msg)
    (hget : msg.code = Code.get) (hpath : Uri.joinUriPath msg cfg.maxUriPathLen = some path)
    (ht : s.findTarget path = some t) (hobservable : t.resource.observable = true)
    (hopt : (msg.findOption OptionNumber.observe).isSome = true) :
    Truthful t msg sender (s.turn nowMs sender data res ans) ↔
      (s.scanned nowMs).TellsTruth t msg sender (s.resultOf t res) := by
  unfold TellsTruth
  cases had : (s.scanned nowMs).admitted msg with
  | none =>
    -- a refused request carries no Observe option back and touches no entry
    obtain ⟨code, hturn⟩ := s.turn_refused nowMs sender hidle hdec hreq had res ans
    have hkeeps := ((s.scanned nowMs).justReplies_error msg sender code).keepsTables
    have hsilent : ¬ SendsObserve cfg sender (s.turn nowMs sender data res ans).2 := by
      intro h
      rw [hturn] at h
      cases (((s.scanned nowMs).error_responds (Message.decode_token hdec) sender code _).1 h).2
    refine (truthful_silent hsilent).trans ?_
    unfold HasEntry
    rw [hturn, hkeeps.observers]
  | some t' =>
    -- the scan leaves the resources, so the search finds the same one
    have htarget : t' = t := by
      obtain ⟨path', hpath', ht'⟩ := admitted_path had
      obtain rfl : path = path' := Option.some.inj (hpath.symm.trans hpath')
      unfold findTarget at ht
      unfold findTarget at ht'
      rw [scanned_resources] at ht'
      exact Option.some.inj (ht'.symm.trans ht)
    obtain rfl := htarget
    exact s.truthful_admitted nowMs sender res ans hidle hdec hreq hget had hobservable hopt

/-! ## A full table -/

/-- A Confirmable GET for the root with Observe 0 and this message ID and token. -/
def registration (messageId token : UInt8) : Bytes := [0x41, 0x01, 0x00, messageId, token, 0x60]

/-- The message in it. -/
def registrationMessage (messageId token : UInt8) : Message :=
  (Message.decode Config.default (registration messageId token)).2

/-- A server with an observable resource at the root. -/
def observableServer : Server Config.default :=
  (step {} (.call (.addResource (some [Uri.slash]) methodGet (some 0) none true))).1

/-- The resource. -/
def observableTarget : Target where
  index := 0
  resource :=
    { path := [Uri.slash], methods := methodGet, handler := .app 0, userContext := none
      observable := true, isTemplate := false }
  params := []
  paramCount := 0

/-- What the application does with every request: a payload of one byte. -/
def oneByte : Response := { payload := [0x78] }

/-- It calls nothing later. -/
def noAnswer : Answer where
  code := Code.content
  payload := []
  contentFormat := .textPlain

theorem truthful_iff_first :
    Truthful observableTarget (registrationMessage 1 1) default
        (observableServer.turn 0 default (registration 1 1) oneByte noAnswer) ↔
      (observableServer.scanned 0).TellsTruth observableTarget (registrationMessage 1 1) default
        (observableServer.resultOf observableTarget oneByte) :=
  observableServer.truthful_iff 0 default oneByte noAnswer rfl rfl
    (by decide +kernel) rfl (show _ = some [Uri.slash] by decide +kernel) (by decide +kernel) rfl
    rfl

/-- Eight registrations fill the table. -/
def filledServer : Server Config.default :=
  [1, 2, 3, 4, 5, 6, 7, 8].foldl
    (fun s k => (s.turn 0 default (registration k k) oneByte noAnswer).1) observableServer

/-- **The option lies**: the table is full, the ninth registration is dropped, and its response
has the Observe option all the same. The client waits for notifications that never come. -/
theorem not_truthful :
    filledServer.control = .idle ∧ observableTarget.resource.observable = true ∧
      ¬ Truthful observableTarget (registrationMessage 9 9) default
        (filledServer.turn 0 default (registration 9 9) oneByte noAnswer) := by
  have hsent : .sent default [0x61, 0x45, 0x00, 0x09, 0x09, 0x60, 0x60, 0xFF, 0x78] ∈
      (filledServer.turn 0 default (registration 9 9) oneByte noAnswer).2 := by decide +kernel
  have hnone : ∀ i, observes default [0x09] ((filledServer.turn 0 default (registration 9 9) oneByte
      noAnswer).1.observers i) = false := by decide +kernel
  refine ⟨by decide +kernel, rfl, fun htrue => ?_⟩
  obtain ⟨-, -, i, hi, -⟩ := htrue.option.1
    ⟨_, _, hsent, Prod.ext (by decide +kernel) rfl, by decide +kernel⟩
  have hfree := hnone i
  rw [show ([0x09] : Bytes) = (registrationMessage 9 9).token by decide +kernel, hi] at hfree
  cases hfree

end Server

end PulseCoap
