import PulseCoap.Exchange.Server
import PulseCoap.Server.Answer
import PulseCoap.Server.LinkFormat
import PulseCoap.Server.Lookup

/-!
# PulseCoAP — `GET /.well-known/core`

`begin` registers the document as a resource of the server's own, and does not
look at what `addResource` says. The application's calls may come before it and
after it.

The document lists the resources in the order of their registration and leaves
out its own entry. It is sound when it is a list of them, though perhaps not of
all: what does not fit is left out from some resource on. `Server.LinkFormat`
says when it is not a list, which is when the buffer ends right behind a comma.
Whether it is served is a question of the table: `begin` must find room in it,
and no resource of the application before it has its path.

* `configured_entries` — the table such calls build.
* `core_found` — when the document is what the path finds.
* `document_iff` — when a request for it is served, and with a list.
* `DocumentSound`, `CoreServed` — the two parts.
-/

namespace PulseCoap

namespace Server

open Resource (Dangles IsListing Marked RegisteredAt buildLinkFormat buildLinkFormatInto fullText
  listEnd listed)

variable {cfg : Config}

-- ===========================================================================
-- The table
-- ===========================================================================

/-- A call of `addResource` or `setResourceType`. -/
def IsSetup : ServerCall → Prop
  | .addResource .. => True
  | .setResourceType .. => True
  | _ => False

/-- What is registered of a resource and never written again. -/
structure Entry where
  path       : Bytes
  methods    : UInt8
  handler    : Handler
  observable : Bool
deriving DecidableEq, Repr

/-- The entry of a resource. -/
def entryOf (r : Resource) : Entry := ⟨r.path, r.methods, r.handler, r.observable⟩

/-- The entry of the document. -/
def coreEntry : Entry := ⟨Uri.wellKnownCore, methodGet, .wellKnownCore, false⟩

/-- What a call asks to be registered. -/
def requested : ServerCall → Option Entry
  | .begin true => some coreEntry
  | .addResource (some path) methods (some handler) _ observable =>
    some ⟨path, methods, .app handler, observable⟩
  | _ => none

/-- The server after these calls. -/
def afterCalls (s : Server cfg) (calls : List ServerCall) : Server cfg :=
  calls.foldl (fun s call => (s.call call).1) s

/-- The server after `begin` and the application's calls on both sides of it. -/
def configured (cfg : Config) (before after : List ServerCall) : Server cfg :=
  afterCalls {} (before ++ .begin true :: after)

/-- One entry more, if there is room. -/
theorem addResource_entries {s : Server cfg} (hlen : s.resources.length ≤ cfg.maxResources)
    (path : Bytes) (methods : UInt8) (handler : Handler) (userContext : Option Ref)
    (observable : Bool) :
    (s.addResource (some path) methods (some handler) userContext observable).1.resources.map
        entryOf =
      (s.resources.map entryOf ++ [Entry.mk path methods handler observable]).take
        cfg.maxResources := by
  unfold addResource
  dsimp only
  by_cases hfull : s.resources.length ≥ cfg.maxResources
  · rw [if_pos hfull, List.take_append_of_le_length (by rw [List.length_map]; exact hfull),
      List.take_of_length_le (by rw [List.length_map]; exact hlen)]
  · rw [if_neg hfull, List.take_of_length_le, List.map_append]
    · rfl
    · rw [List.length_append, List.length_map, List.length_singleton]
      omega

/-- A call of the setting up registers what it asks for, if there is room. -/
theorem call_entries {s : Server cfg} (hlen : s.resources.length ≤ cfg.maxResources)
    {call : ServerCall} (hcall : call = .begin true ∨ IsSetup call) :
    (s.call call).1.resources.map entryOf =
      (s.resources.map entryOf ++ (requested call).toList).take cfg.maxResources := by
  have hsame : s.resources.map entryOf =
      (s.resources.map entryOf ++ []).take cfg.maxResources := by
    rw [List.append_nil, List.take_of_length_le (by rw [List.length_map]; exact hlen)]
  cases call with
  | begin transportOk =>
    obtain rfl : transportOk = true := by
      rcases hcall with h | h
      · cases h
        rfl
      · exact h.elim
    exact addResource_entries hlen _ _ _ _ _
  | addResource path methods handler userContext observable =>
    cases path with
    | none => exact hsame
    | some path =>
      cases handler with
      | none => exact hsame
      | some handler => exact addResource_entries hlen _ _ _ _ _
  | setResourceType path rt =>
    -- the resource type is no part of an entry
    refine Eq.trans ?_ hsame
    show (s.setResourceType path rt).1.resources.map entryOf = _
    unfold setResourceType
    split
    · rfl
    · next t ht =>
      obtain ⟨hlt, hget⟩ := List.getElem?_eq_some_iff.1 (findTarget_index ht)
      have hlt' : t.index < (s.resources.map entryOf).length := by
        rw [List.length_map]
        exact hlt
      have hentry : entryOf { t.resource with resourceType := rt } =
          (s.resources.map entryOf)[t.index] := by
        rw [List.getElem_map, hget]
        rfl
      rw [List.map_set, hentry, List.set_getElem_self]
  | notify path payload contentFormat confirmable => exact absurd hcall (by rintro (h | h) <;> cases h)
  | respond handle code payload contentFormat => exact absurd hcall (by rintro (h | h) <;> cases h)

/-- The table after a list of calls, by induction over them: what is registered is appended while
there is room. -/
theorem afterCalls_entries : ∀ {calls : List ServerCall} {s : Server cfg},
    s.resources.length ≤ cfg.maxResources →
    (∀ call ∈ calls, call = .begin true ∨ IsSetup call) →
      (afterCalls s calls).resources.map entryOf =
        (s.resources.map entryOf ++ calls.filterMap requested).take cfg.maxResources := by
  intro calls
  induction calls with
  | nil =>
    intro s hlen _
    rw [List.filterMap_nil, List.append_nil,
      List.take_of_length_le (by rw [List.length_map]; exact hlen)]
    rfl
  | cons call calls ih =>
    intro s hlen hcalls
    -- one call adds its entry if there is room, so the table is cut to its size in each step
    have hone := call_entries hlen (hcalls call (List.mem_cons_self ..))
    have hlen' : (s.call call).1.resources.length ≤ cfg.maxResources := by
      have htake := congrArg List.length hone
      rw [List.length_map, List.length_take] at htake
      omega
    show (afterCalls (s.call call).1 calls).resources.map entryOf = _
    rw [ih hlen' fun c hc => hcalls c (List.mem_cons_of_mem _ hc), hone, List.filterMap_cons]
    cases requested call with
    | none =>
      have hself : (s.resources.map entryOf).take cfg.maxResources = s.resources.map entryOf :=
        List.take_of_length_le (by rw [List.length_map]; exact hlen)
      rw [Option.toList_none, List.append_nil, hself]
    | some e =>
      rw [Option.toList_some]
      by_cases hroom : s.resources.length < cfg.maxResources
      · rw [List.take_of_length_le
          (show (s.resources.map entryOf ++ [e]).length ≤ cfg.maxResources by
            rw [List.length_append, List.length_map, List.length_singleton]; omega),
          List.append_assoc]
        rfl
      · -- the table is full before and after
        have hfull : cfg.maxResources ≤ (s.resources.map entryOf).length := by
          rw [List.length_map]
          omega
        rw [List.take_append_of_le_length hfull, List.take_append_of_le_length hfull,
          List.take_append_of_le_length (by rw [List.length_take]; omega), List.take_take,
          Nat.min_self]

/-- **The table** of a configured server: what was asked for, as far as there is room. `begin`
is one more call among them, for the document. -/
theorem configured_entries {before after : List ServerCall} (hbefore : ∀ c ∈ before, IsSetup c)
    (hafter : ∀ c ∈ after, IsSetup c) :
    (configured cfg before after).resources.map entryOf =
      (before.filterMap requested ++ coreEntry :: after.filterMap requested).take
        cfg.maxResources := by
  have hcalls : ∀ c ∈ before ++ .begin true :: after, c = .begin true ∨ IsSetup c := by
    intro c hc
    rcases List.mem_append.1 hc with hc | hc
    · exact .inr (hbefore c hc)
    · rcases List.mem_cons.1 hc with rfl | hc
      · exact .inl rfl
      · exact .inr (hafter c hc)
  have hstart : ({} : Server cfg).resources.length ≤ cfg.maxResources := Nat.zero_le _
  have hentries := afterCalls_entries hstart hcalls
  rw [List.filterMap_append, List.filterMap_cons] at hentries
  exact hentries

/-- The templates are marked as such. -/
theorem marked_afterCalls : ∀ {calls : List ServerCall} {s : Server cfg}, Marked s.resources →
    Marked (afterCalls s calls).resources := by
  intro calls
  induction calls with
  | nil => exact fun h => h
  | cons call calls ih => exact fun h => ih (marked_call h call)

-- ===========================================================================
-- The document in it
-- ===========================================================================

/-- `begin` finds room in the table, and no resource of the application under its path. -/
def RoomForCore (cfg : Config) (before : List ServerCall) : Prop :=
  (before.filterMap requested).length < cfg.maxResources ∧
    ∀ e ∈ before.filterMap requested, e.path ≠ Uri.wellKnownCore

instance (cfg : Config) (before : List ServerCall) : Decidable (RoomForCore cfg before) :=
  inferInstanceAs (Decidable (_ ∧ _))

/-- A resource by its entry. -/
theorem getElem_of_entry {rs : List Resource} {i : Nat} {e : Entry}
    (h : (rs.map entryOf)[i]? = some e) : ∃ r, rs[i]? = some r ∧ entryOf r = e := by
  rw [List.getElem?_map] at h
  exact Option.map_eq_some_iff.1 h

/-- So they are in every configuration. -/
theorem marked_configured (cfg : Config) (before after : List ServerCall) :
    Marked (configured cfg before after).resources :=
  marked_afterCalls fun _ hr => absurd hr List.not_mem_nil

/-- What the application asks for has a handler of its own. -/
theorem requested_app {calls : List ServerCall} (hcalls : ∀ c ∈ calls, IsSetup c) :
    ∀ e ∈ calls.filterMap requested, e.handler ≠ .wellKnownCore := by
  intro e he
  obtain ⟨call, hmem, hreq⟩ := List.mem_filterMap.1 he
  have hsetup := hcalls call hmem
  unfold requested at hreq
  split at hreq
  · exact hsetup.elim
  · cases hreq
    exact fun h => nomatch h
  · cases hreq

section Configured

variable {before after : List ServerCall} (hbefore : ∀ c ∈ before, IsSetup c)
  (hafter : ∀ c ∈ after, IsSetup c)
include hbefore hafter

/-- The entries in front of the document. -/
theorem entry_before {i : Nat} (hi : i < (before.filterMap requested).length)
    (hmax : i < cfg.maxResources) :
    ((configured cfg before after).resources.map entryOf)[i]? =
      (before.filterMap requested)[i]? := by
  rw [configured_entries hbefore hafter, List.getElem?_take_of_lt hmax,
    List.getElem?_append_left hi]

/-- **With room for it**, the path finds the document, since no resource before it has the path
and none is a template that takes it. -/
theorem core_found (hroom : RoomForCore cfg before) :
    ∃ i r, (configured cfg before after).resources[i]? = some r ∧ entryOf r = coreEntry ∧
      Resource.FoundAt (configured cfg before after).resources Uri.wellKnownCore i := by
  obtain ⟨hlt, hnone⟩ := hroom
  have hentry : ((configured cfg before after).resources.map entryOf)[
      (before.filterMap requested).length]? = some coreEntry := by
    rw [configured_entries hbefore hafter, List.getElem?_take_of_lt hlt,
      List.getElem?_append_right (Nat.le_refl _), Nat.sub_self]
    rfl
  obtain ⟨r, hr, hcore⟩ := getElem_of_entry hentry
  refine ⟨_, r, hr, hcore, ?_⟩
  have hfirst : Resource.FirstAt (configured cfg before after).resources Uri.wellKnownCore
      (before.filterMap requested).length := by
    refine ⟨⟨r, hr, congrArg Entry.path hcore⟩, ?_⟩
    rintro j ⟨q, hq, hpath⟩
    by_contra hj
    have hjlt := Nat.not_le.1 hj
    have hbefore' : ((configured cfg before after).resources.map entryOf)[j]? = _ :=
      entry_before hbefore hafter hjlt (Nat.lt_trans hjlt hlt)
    rw [List.getElem?_map, hq] at hbefore'
    exact hnone (entryOf q) (List.mem_of_getElem? hbefore'.symm) hpath
  refine (Resource.found_iff_unshadowed (marked_configured cfg before after) hfirst).2 ?_
  exact fun h => absurd h (by decide)

/-- **And only then**: a resource in front that has the path is found in its place. -/
theorem room_of_found {i : Nat} {r : Resource}
    (hr : (configured cfg before after).resources[i]? = some r)
    (hhandler : r.handler = .wellKnownCore)
    (hfound : Resource.FoundAt (configured cfg before after).resources Uri.wellKnownCore i) :
    RoomForCore cfg before := by
  have hmarked := marked_configured cfg before after
  have hentry : ((configured cfg before after).resources.map entryOf)[i]? = some (entryOf r) := by
    rw [List.getElem?_map, hr]
    rfl
  rw [configured_entries hbefore hafter] at hentry
  have hmax : i < cfg.maxResources := by
    have hlt := (List.getElem?_eq_some_iff.1 hentry).1
    rw [List.length_take] at hlt
    omega
  rw [List.getElem?_take_of_lt hmax] at hentry
  -- it can only be the one of `begin`
  have hi : i = (before.filterMap requested).length := by
    rcases Nat.lt_trichotomy i (before.filterMap requested).length with hlt | heq | hgt
    · rw [List.getElem?_append_left hlt] at hentry
      exact absurd hhandler (requested_app hbefore _ (List.mem_of_getElem? hentry))
    · exact heq
    · rw [List.getElem?_append_right (Nat.le_of_lt hgt)] at hentry
      obtain ⟨k, hk⟩ := Nat.exists_eq_add_of_lt hgt
      rw [show i - (before.filterMap requested).length = k + 1 by omega,
        List.getElem?_cons_succ] at hentry
      exact absurd hhandler (requested_app hafter _ (List.mem_of_getElem? hentry))
  have hcore : entryOf r = coreEntry := by
    rw [hi, List.getElem?_append_right (Nat.le_refl _), Nat.sub_self] at hentry
    exact (Option.some.inj hentry).symm
  have hpath : r.path = Uri.wellKnownCore := congrArg Entry.path hcore
  refine ⟨hi ▸ hmax, fun e he hwell => ?_⟩
  obtain ⟨j, hj, hget⟩ := List.mem_iff_getElem.1 he
  have hjmax : j < cfg.maxResources := by omega
  have hbefore' : ((configured cfg before after).resources.map entryOf)[j]? = _ :=
    entry_before hbefore hafter hj hjmax
  rw [List.getElem?_eq_getElem hj, hget] at hbefore'
  obtain ⟨q, hq, hqe⟩ := getElem_of_entry hbefore'
  have hqpath : q.path = Uri.wellKnownCore := (congrArg Entry.path hqe).trans hwell
  have hplain : Resource.hasParam Uri.wellKnownCore = false := by decide
  rcases hfound with hleast | ⟨-, ⟨r', hr', htemplate, -⟩, -⟩
  · have hle := hleast.2 ((Resource.plainAt_iff hmarked hplain j).2 ⟨q, hq, hqpath⟩)
    omega
  · obtain rfl : r = r' := Option.some.inj (hr.symm.trans hr')
    rw [hmarked r (List.mem_of_getElem? hr), hpath, hplain] at htemplate
    cases htemplate

end Configured

-- ===========================================================================
-- The request
-- ===========================================================================

/-- A datagram with a GET for the document. -/
structure AsksForCore (cfg : Config) (data : Bytes) (msg : Message) : Prop where
  decodes : Message.decode cfg data = (.none, msg)
  request : IsRequest msg
  get     : msg.code = Code.get
  path    : Uri.joinUriPath msg cfg.maxUriPathLen = some Uri.wellKnownCore

/-- The datagram is answered by `wellKnownCoreHandler`: with the document, or the block of it that
the request names. -/
def CoreServed (s : Server cfg) (nowMs : UInt32) (sender : Endpoint) (data : Bytes)
    (msg : Message) : Prop :=
  ∃ ticks index req ctx h buf, ∃ s' : Server cfg, OnlySends ticks ∧
    (s.poll nowMs (some (sender, data))).2 =
      ticks ++ [.handled index .wellKnownCore req ctx, .sent sender buf] ∧
    h.msg = msg ∧ h.sender = sender ∧ h.observeValue = none ∧
    (s'.replyInline h s.wellKnownCoreHandler).2 = [.sent sender buf]

/-- The reply fits a datagram, if the document is a list. -/
def ReplyFits (cfg : Config) (msg : Message) (rs : List Resource) : Prop :=
  inlineSize cfg msg none
    { code := Code.content, contentFormat := .linkFormat
      payload := List.replicate (listEnd cfg.maxLinkFormatLen 0 (listed rs)) 0 } ≤ cfg.maxMsgSize

/-- The size of a reply depends only on the length of the payload. -/
theorem inlineSize_congr (msg : Message) (ov : Option UInt32) {res res' : Response}
    (hlen : res.payload.length = res'.payload.length)
    (hformat : res.contentFormat = res'.contentFormat) :
    inlineSize cfg msg ov res = inlineSize cfg msg ov res' := by
  have hcontent : contentUint res.payload res.contentFormat =
      contentUint res'.payload res'.contentFormat := by
    unfold contentUint
    rw [hlen, hformat]
  unfold inlineSize contentSize
  rw [hcontent, hlen, hformat]

/-- The reply goes out exactly when it fits. -/
theorem replyInline_sent (s : Server cfg) (h : Handling cfg) (res : Response)
    (ht : h.msg.token.length ≤ kMaxTokenLen) :
    (∃ buf, (s.replyInline h res).2 = [.sent h.sender buf]) ↔
      inlineSize cfg h.msg h.observeValue res ≤ cfg.maxMsgSize := by
  obtain ⟨m, uints, payload, ⟨hcarries, hsize, -⟩, heq⟩ := s.replyInline_carries h res ht
  have hwire : m.wireSize = inlineSize cfg h.msg h.observeValue res := by
    have htoken : (s.replyHeader h.msg (inlineCode cfg h.msg res)).token = h.msg.token := by
      unfold replyHeader
      split <;> rfl
    rw [hcarries.size, htoken, hsize]
  rw [heq]
  by_cases hfits : m.wireSize ≤ cfg.maxMsgSize
  · rw [sendIfEncoded_fits hcarries.built _ hfits]
    exact iff_of_true ⟨_, rfl⟩ (hwire ▸ hfits)
  · rw [sendIfEncoded_drops hcarries.built _ (Nat.not_le.1 hfits)]
    exact iff_of_false (fun ⟨_, h⟩ => nomatch h) (hwire ▸ hfits)

/-- A GET that finds the document. -/
theorem handleRequest_core {s : Server cfg} {msg : Message} {sender : Endpoint} {t : Target}
    (hjoin : Uri.joinUriPath msg cfg.maxUriPathLen = some Uri.wellKnownCore)
    (hget : msg.code = Code.get) (htarget : s.findTarget Uri.wellKnownCore = some t)
    (hcore : entryOf t.resource = coreEntry) :
    ∃ req h, ∃ s' : Server cfg, h.msg = msg ∧ h.sender = sender ∧ h.observeValue = none ∧
      (s.handleRequest msg sender).2 =
        .handled t.index .wellKnownCore req t.resource.userContext ::
          (s'.replyInline h s.wellKnownCoreHandler).2 := by
  have hmethods : t.resource.methods = methodGet := congrArg Entry.methods hcore
  have hhandler : t.resource.handler = .wellKnownCore := congrArg Entry.handler hcore
  have hobservable : t.resource.observable = false := congrArg Entry.observable hcore
  -- a GET carries no Block1, and the document is not observable
  have hblock : block1Option cfg msg = none := by
    unfold block1Option
    rw [hget]
    exact if_neg fun h => absurd h.2 (by decide)
  have hobserve : s.handleObserve t msg sender = (s, none) := by
    unfold handleObserve
    split
    · rfl
    · rw [hobservable, if_neg]
      exact fun h => Bool.false_ne_true h.1
  have hrun : s.handleRequest msg sender = s.runHandler t msg sender none none := by
    have hmask : requestedMask msg.code = some methodGet := by
      rw [hget]
      rfl
    have hallowed : ¬ t.resource.methods &&& methodGet = 0 := by
      rw [hmethods]
      decide
    unfold handleRequest handleTarget
    rw [hjoin]
    dsimp only
    rw [htarget]
    dsimp only
    rw [hmask]
    dsimp only
    rw [if_neg hallowed, hobserve, hblock]
  rcases s.runHandler_cases t msg sender none none with ⟨f, happ, -⟩ | ⟨-, heq⟩
  · rw [hhandler] at happ
    cases happ
  · refine ⟨s.requestFor t msg sender none, s.handlingFor msg sender none none,
      ((s.fillDeferred s.allocateDeferred msg sender).freeBlock1Session? none).freeDeferred?
        s.allocateDeferred, rfl, rfl, rfl, ?_⟩
    -- the document is made of the resources, which the deferral leaves alone
    have hown : (s.fillDeferred s.allocateDeferred msg sender).wellKnownCoreHandler =
        s.wellKnownCoreHandler := (fillDeferred_keeps s _ msg sender).2.2
    rw [hrun, heq]
    dsimp only
    rw [hown]
    unfold handlerCall finish
    rw [hhandler, if_neg]
    · rfl
    · exact fun h => Bool.false_ne_true h.1

/-- If its own handler runs, the request has found the document. -/
theorem target_of_core {s : Server cfg} {msg : Message} {sender : Endpoint} {index : Nat}
    {req : Request} {ctx : Option Ref} (hget : msg.code = Code.get)
    (h : .handled index .wellKnownCore req ctx ∈ (s.handleRequest msg sender).2) :
    ∃ path t, Uri.joinUriPath msg cfg.maxUriPathLen = some path ∧ s.findTarget path = some t ∧
      t.resource.handler = .wellKnownCore := by
  rcases s.handleRequest_cases msg sender with ⟨-, code, heq⟩ | ⟨t, hadm, heq⟩
  · rw [heq] at h
    exact absurd h (s.justReplies_error msg sender code).2.not_handled
  obtain ⟨path, hjoin, htarget⟩ := admitted_path hadm
  refine ⟨path, t, hjoin, htarget, ?_⟩
  rw [heq] at h
  rcases s.handleTarget_cases t msg sender with ⟨-, obs, heq⟩ | ⟨opt, hopt, -⟩
  · rw [heq] at h
    exact (callsTarget_runHandler _ t msg sender _ _ _ _ _ _ h).2.1.symm
  · unfold block1Option at hopt
    rw [hget, if_neg fun h => absurd h.2 (by decide)] at hopt
    cases hopt

-- ===========================================================================
-- The document
-- ===========================================================================

/-- The document of these resources: stored inside its buffer with a terminator, a list, and all
of it when all of it fits. -/
structure DocumentSound (cfg : Config) (rs : List Resource) : Prop where
  stored   : ∀ out : Uri.OutBuffer, out.Within cfg.maxLinkFormatLen →
    (buildLinkFormatInto cfg rs out).Within cfg.maxLinkFormatLen ∧
      (buildLinkFormatInto cfg rs out).Holds (buildLinkFormat cfg rs ++ [0])
  listing  : IsListing rs (buildLinkFormat cfg rs)
  complete : (fullText rs).length < cfg.maxLinkFormatLen → buildLinkFormat cfg rs = fullText rs

/-- **The document is sound exactly when** no comma dangles at its end. Each link in it is the
whole link of a resource, in the order of the table. -/
theorem documentSound_iff (hcap : 0 < cfg.maxLinkFormatLen) (rs : List Resource) :
    DocumentSound cfg rs ↔ ¬ Dangles cfg rs := by
  constructor
  · exact fun h => (Resource.listing_iff cfg rs).1 h.listing
  · intro hcut
    exact ⟨fun out hout => Resource.buildLinkFormatInto_spec hcap rs hout,
      (Resource.listing_iff cfg rs).2 hcut, Resource.buildLinkFormat_full⟩

/-- A request that is answered with the document has found it. -/
theorem room_of_served {before after : List ServerCall} (hbefore : ∀ c ∈ before, IsSetup c)
    (hafter : ∀ c ∈ after, IsSetup c) {nowMs : UInt32} {sender : Endpoint} {data : Bytes}
    {msg : Message} (hasks : AsksForCore cfg data msg)
    (hserved : (configured cfg before after).CoreServed nowMs sender data msg) :
    RoomForCore cfg before := by
  obtain ⟨_, index, req, ctx, _, buf, _, -, hevents, -⟩ := hserved
  generalize hs : configured cfg before after = s at hevents
  obtain ⟨ticks, hticks, hpoll⟩ := s.poll_eq nowMs (some (sender, data))
  rw [receive_request _ _ hasks.decodes hasks.request] at hpoll
  have hmem : ServerEvent.handled index .wellKnownCore req ctx ∈
      ((s.scanned nowMs).handleRequest msg sender).2 := by
    have hin : ServerEvent.handled index .wellKnownCore req ctx ∈
        (s.poll nowMs (some (sender, data))).2 := by
      rw [hevents]
      simp
    rw [hpoll] at hin
    exact (List.mem_append.1 hin).resolve_left hticks.not_handled
  obtain ⟨path, t, hjoin, htarget, hhandler⟩ := target_of_core hasks.get hmem
  obtain rfl := Option.some.inj (hasks.path.symm.trans hjoin)
  have hres := s.scanned_resources nowMs
  have hstring : Uri.cString Uri.wellKnownCore = Uri.wellKnownCore := by decide
  have hfound := Naming.findTarget_found htarget
  have hget := findTarget_index htarget
  rw [hres, ← hs] at hfound hget
  rw [hstring] at hfound
  exact room_of_found hbefore hafter hget hhandler hfound

/-- **Resource discovery**: the document is sound exactly when it is not cut behind a comma. A
GET for it is served and with a sound document exactly when, besides, `begin` had room for it
and the reply fits a datagram. The calls before and after `begin` are arbitrary. -/
theorem document_iff (hcap : 0 < cfg.maxLinkFormatLen) {before after : List ServerCall}
    (hbefore : ∀ c ∈ before, IsSetup c) (hafter : ∀ c ∈ after, IsSetup c) :
    let s := configured cfg before after
    (DocumentSound cfg s.resources ↔ ¬ Dangles cfg s.resources) ∧
      ∀ nowMs sender data msg, AsksForCore cfg data msg →
        (DocumentSound cfg s.resources ∧ s.CoreServed nowMs sender data msg ↔
          ¬ Dangles cfg s.resources ∧ RoomForCore cfg before ∧
            ReplyFits cfg msg s.resources) := by
  intro s
  refine ⟨documentSound_iff hcap _, fun nowMs sender data msg hasks => ?_⟩
  rw [documentSound_iff hcap, and_congr_right_iff]
  intro hcut
  -- the size of the reply
  have hlen : s.wellKnownCoreHandler.payload.length =
      (List.replicate (listEnd cfg.maxLinkFormatLen 0 (listed s.resources)) (0 : UInt8)).length := by
    rw [List.length_replicate]
    exact Resource.buildLinkFormat_length hcut
  -- how long the document is does not depend on what is in it
  have hsize : inlineSize cfg msg none s.wellKnownCoreHandler ≤ cfg.maxMsgSize ↔
      ReplyFits cfg msg s.resources := by
    have heq : inlineSize cfg msg none s.wellKnownCoreHandler =
        inlineSize cfg msg none
          { code := Code.content, contentFormat := .linkFormat
            payload := List.replicate (listEnd cfg.maxLinkFormatLen 0 (listed s.resources)) 0 } :=
      inlineSize_congr msg none hlen rfl
    rw [heq]
    rfl
  constructor
  · -- served: then it was found, and the reply was encoded
    intro hserved
    refine ⟨room_of_served hbefore hafter hasks hserved, hsize.1 ?_⟩
    obtain ⟨_, _, _, _, h, buf, s', -, -, rfl, rfl, hvalue, hsent⟩ := hserved
    have hfits := (replyInline_sent s' h s.wellKnownCoreHandler
      (Message.decode_token hasks.decodes)).1 ⟨buf, hsent⟩
    rwa [hvalue] at hfits
  · -- there was room: then the path finds the document, and nothing shadows it
    rintro ⟨hroom, hfits⟩
    obtain ⟨ticks, hticks, hpoll⟩ := s.poll_eq nowMs (some (sender, data))
    rw [receive_request _ _ hasks.decodes hasks.request] at hpoll
    have hres := s.scanned_resources nowMs
    have hown : (s.scanned nowMs).wellKnownCoreHandler = s.wellKnownCoreHandler := by
      unfold wellKnownCoreHandler
      rw [hres]
    have hstring : Uri.cString Uri.wellKnownCore = Uri.wellKnownCore := by decide
    obtain ⟨i, r, hr, hcore, hfound⟩ := core_found hbefore hafter hroom
    have htarget : ∃ t, (s.scanned nowMs).findTarget Uri.wellKnownCore = some t ∧ t.resource = r := by
      obtain ⟨params, count, hfind⟩ :=
        ((Resource.find_iff cfg s.resources Uri.wellKnownCore).1 i).2 hfound
      refine ⟨⟨i, r, params, count⟩, ?_, rfl⟩
      have hr' : s.resources[i]? = some r := hr
      unfold findTarget
      rw [hstring, hres, hfind]
      simp only [Option.bind_eq_bind, Option.bind_some, hr']
    obtain ⟨t, htarget, rfl⟩ := htarget
    obtain ⟨req, h, s', hmsg, hsender, hvalue, hevents⟩ :=
      handleRequest_core hasks.path hasks.get htarget hcore
    have htoken : h.msg.token.length ≤ kMaxTokenLen := by
      rw [hmsg]
      exact Message.decode_token hasks.decodes
    rw [hown] at hevents
    obtain ⟨buf, hsent⟩ := (replyInline_sent s' h s.wellKnownCoreHandler htoken).2 (by
      rw [hmsg, hvalue]
      exact hsize.2 hfits)
    refine ⟨ticks, t.index, req, t.resource.userContext, h, buf, s', hticks, ?_, hmsg, hsender,
      hvalue, ?_⟩
    · rw [hpoll]
      dsimp only
      rw [hevents, hsent, hsender]
    · rw [hsent, hsender]

/-- A GET with the values `".well-known"` and `"core"`. -/
def coreRequest : Bytes :=
  [0x40, 0x01, 0x00, 0x01, 0xBB, 0x2E, 0x77, 0x65, 0x6C, 0x6C, 0x2D, 0x6B, 0x6E, 0x6F, 0x77, 0x6E,
    0x04, 0x63, 0x6F, 0x72, 0x65]

theorem asks_coreRequest :
    AsksForCore .default coreRequest (Message.decode .default coreRequest).2 where
  decodes := by decide +kernel
  request := by decide +kernel
  get     := by decide +kernel
  path    := by decide +kernel

/-- An observable resource with a path of so many characters. -/
def addOne (n : Nat) : ServerCall :=
  .addResource (some (0x2F :: List.replicate n 0x61)) methodGet (some 0) none true

theorem isSetup_addOne (ns : List Nat) : ∀ c ∈ ns.map addOne, IsSetup c := by
  intro c hc
  obtain ⟨n, -, rfl⟩ := List.mem_map.1 hc
  trivial

/-- Two resources behind `begin`. -/
theorem document_iff_two :
    DocumentSound .default (configured .default [] ([1, 2].map addOne)).resources ∧
      (configured .default [] ([1, 2].map addOne)).CoreServed 0 {} coreRequest
        (Message.decode .default coreRequest).2 := by
  have hnone : ∀ c ∈ ([] : List ServerCall), IsSetup c := fun _ h => nomatch h
  refine ((document_iff (by decide) hnone (isSetup_addOne [1, 2])).2 0 {} _ _
    asks_coreRequest).2 ⟨by decide +kernel, by decide, ?_⟩
  unfold ReplyFits
  decide +kernel

/-- Two resources whose entries do not both fit: the document ends with a comma. And eight in front
of `begin`: it returns true and there is no document. -/
theorem not_document :
    (¬ ∀ after : List ServerCall, (∀ c ∈ after, IsSetup c) →
      DocumentSound .default (configured .default [] after).resources) ∧
    ¬ ∀ (before : List ServerCall) nowMs sender data msg, (∀ c ∈ before, IsSetup c) →
      AsksForCore .default data msg →
      (configured .default before []).CoreServed nowMs sender data msg := by
  constructor
  · intro hall
    have hcut : decide (Dangles .default
        (configured .default [] ([200, 100].map addOne)).resources) = true := by decide +kernel
    have hsound := hall _ (isSetup_addOne [200, 100])
    generalize (configured .default [] ([200, 100].map addOne)).resources = rs at hsound hcut
    exact (Resource.listing_iff .default rs).1 hsound.listing (of_decide_eq_true hcut)
  · intro hall
    have hnone : ∀ c ∈ ([] : List ServerCall), IsSetup c := fun _ h => nomatch h
    have hsetup := isSetup_addOne (List.range 8)
    have hfull : ¬ RoomForCore .default ((List.range 8).map addOne) := by decide +kernel
    have hserved := hall _ 0 {} _ _ hsetup asks_coreRequest
    exact hfull (room_of_served hsetup hnone asks_coreRequest hserved)

end Server

end PulseCoap
