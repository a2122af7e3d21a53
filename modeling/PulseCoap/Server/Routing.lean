import PulseCoap.Exchange.Path
import PulseCoap.Codec.Canonical
import PulseCoap.Server.Spec

/-!
# PulseCoAP — which resource a datagram reaches

The Uri-Path options of a request are joined to one C string, and the resource
is found by comparing strings. A value may have any bytes in it, so different
options can come to the same string.

A value with a slash in it, an empty one, or one behind a NUL byte joins to a
string that is also the string of other values. The condition is on the values
of the request, which a client chooses: with values that are segments of a path,
the string has one reading.

* `handled_of_poll` — the handler that runs is that of the resource
  `findResource` gives for the joined path.
* `find_cases` — by exact comparison, or by its template.
* `dispatched_iff` — a resource is reached by the values of its own path, and by
  no others as long as the values are segments of a path.
-/

namespace PulseCoap

namespace Uri

/-- Values that `addUriPathOptions` can have come to. -/
def Clean (values : List Bytes) : Prop :=
  ∀ v ∈ values, v ≠ [] ∧ slash ∉ v ∧ (0 : UInt8) ∉ v

instance (values : List Bytes) : Decidable (Clean values) :=
  inferInstanceAs (Decidable (∀ v ∈ values, _ ∧ _ ∧ _))

/-- Clean values come back as the segments of the path they make. -/
theorem Clean.segments_written {values : List Bytes} (h : Clean values) :
    segments (written values) = values := by
  unfold written
  split
  · next hnil =>
    rw [hnil]
    rfl
  · exact segments_joined fun v hv => ⟨(h v hv).1, (h v hv).2.1⟩

/-- Such a path has no terminator in it. -/
theorem Clean.cString_written {values : List Bytes} (h : Clean values) :
    cString (written values) = written values := by
  have hslash : (0 : UInt8) ≠ slash := by decide
  unfold cString
  refine List.takeWhile_eq_self_iff.2 fun b hb => ?_
  simp only [ne_eq, decide_eq_true_eq]
  rintro rfl
  unfold written at hb
  split at hb
  · exact hslash (List.mem_singleton.1 hb)
  · obtain ⟨v, hv, hmem⟩ := List.mem_flatMap.1 hb
    rcases List.mem_cons.1 hmem with heq | hbyte
    · exact hslash heq
    · exact (h v hv).2.2 hbyte

end Uri

namespace Server

open Uri (uriPathValues written Clean)

variable {cfg : Config}

-- ===========================================================================
-- The handler that runs
-- ===========================================================================

/-- A handler call among the events is of this resource, for this message. -/
def CallsTarget (t : Target) (msg : Message) (sender : Endpoint) (events : List ServerEvent) :
    Prop :=
  ∀ index handler req ctx, .handled index handler req ctx ∈ events →
    index = t.index ∧ handler = t.resource.handler ∧ ctx = t.resource.userContext ∧
      req.message = msg ∧ req.remote = sender ∧ req.params = t.params ∧
      req.paramCount = t.paramCount

/-- What only sends calls no target wrongly. -/
theorem OnlySends.callsTarget {events : List ServerEvent} (h : OnlySends events) (t : Target)
    (msg : Message) (sender : Endpoint) : CallsTarget t msg sender events :=
  fun _ _ _ _ hmem => absurd hmem h.not_handled

/-- The handler that is called is the target's. -/
theorem callsTarget_runHandler (s : Server cfg) (t : Target) (msg : Message) (sender : Endpoint)
    (ov : Option UInt32) (session : Option (Fin cfg.maxBlock1Sessions)) :
    CallsTarget t msg sender (s.runHandler t msg sender ov session).2 := by
  intro index handler req ctx hmem
  have hcall : ServerEvent.handled index handler req ctx = s.handlerCall t msg sender session := by
    rcases s.runHandler_cases t msg sender ov session with ⟨f, -, heq⟩ | ⟨-, heq⟩
    · rw [heq] at hmem
      exact List.mem_singleton.1 hmem
    · rw [heq] at hmem
      rcases List.mem_cons.1 hmem with hhead | htail
      · exact hhead
      · exact absurd htail (finish_spec _ _ _).2.not_handled
  cases hcall
  exact ⟨rfl, rfl, rfl, rfl, rfl, rfl, rfl⟩

/-- So it is behind the last block of an upload. -/
theorem callsTarget_handleBlock1 (s : Server cfg) (opt : CoapOption) (t : Target) (msg : Message)
    (sender : Endpoint) (ov : Option UInt32) :
    CallsTarget t msg sender (s.handleBlock1 opt t msg sender ov).2 := by
  have herror : ∀ (s : Server cfg) code, CallsTarget t msg sender (s.sendError msg sender code).2 :=
    fun s code => (s.justReplies_error msg sender code).2.callsTarget t msg sender
  unfold handleBlock1
  split
  · exact herror _ _
  · next b1 _ =>
    split
    · exact herror _ _
    · next s' i _ =>
      rcases s'.handleBlock_cases i b1 t msg sender ov with ⟨-, heq⟩ | ⟨-, -, heq⟩ |
        ⟨-, -, -, heq⟩ | ⟨-, -, -, heq⟩ <;> rw [heq]
      · exact (justReplies_continue ..).2.callsTarget t msg sender
      · exact herror _ _
      · exact (justReplies_continue ..).2.callsTarget t msg sender
      · exact callsTarget_runHandler _ _ _ _ _ _

/-- **The handler that runs** is that of the resource found for the joined path, and gets the
captures of that search. There is no other way to a handler in a poll. -/
theorem handled_of_poll {s : Server cfg} {nowMs : UInt32} {sender : Endpoint} {data : Bytes}
    {index : Nat} {handler : Handler} {req : Request} {ctx : Option Ref}
    (h : .handled index handler req ctx ∈ (s.poll nowMs (some (sender, data))).2) :
    ∃ msg path params count, Message.decode cfg data = (.none, msg) ∧
      Uri.joinUriPath msg cfg.maxUriPathLen = some path ∧
      Resource.find cfg s.resources (Uri.cString path) = some (index, params, count) ∧
      req.message = msg ∧ req.remote = sender ∧ req.params = params ∧ req.paramCount = count := by
  obtain ⟨ticks, hticks, heq⟩ := s.poll_eq nowMs (some (sender, data))
  obtain ⟨pool, obs, hscan⟩ := s.scanned_spec nowMs
  rw [heq] at h
  -- the pool runs no handler, and neither does what is no request
  rcases List.mem_append.1 h with htick | h
  · exact absurd htick hticks.not_handled
  rcases (s.scanned nowMs).receive_cases (some (sender, data)) with heq | ⟨_, _, _, -, -, -, heq⟩ |
    ⟨_, _, _, -, -, -, heq⟩ | ⟨sender', data', msg, hrx, hdec, -, heq⟩ <;> rw [heq] at h
  · cases h
  · cases h
  · cases h
  cases hrx
  rcases (s.scanned nowMs).handleRequest_cases msg sender with ⟨-, code, heq⟩ | ⟨t, hadm, heq⟩ <;>
    rw [heq] at h
  · exact absurd h ((s.scanned nowMs).justReplies_error ..).2.not_handled
  obtain ⟨path, hjoin, hfind⟩ := admitted_path hadm
  -- with or without a block, the handler is the target's
  have hcalls : CallsTarget t msg sender ((s.scanned nowMs).handleTarget t msg sender).2 := by
    rcases (s.scanned nowMs).handleTarget_cases t msg sender with ⟨-, obs, heq⟩ | ⟨opt, -, heq⟩ <;>
      rw [heq]
    · exact callsTarget_runHandler _ _ _ _ _ _
    · exact callsTarget_handleBlock1 _ _ _ _ _ _
  obtain ⟨rfl, -, -, hmsg, hremote, hparams, hcount⟩ := hcalls _ _ _ _ h
  have hres : (s.scanned nowMs).resources = s.resources := by rw [hscan]
  unfold findTarget at hfind
  rw [hres] at hfind
  simp only [Option.bind_eq_bind, Option.bind_eq_some_iff] at hfind
  obtain ⟨⟨index, params, count⟩, hfound, r, -, heq⟩ := hfind
  cases heq
  exact ⟨msg, path, params, count, hdec, hjoin, hfound, hmsg, hremote, hparams, hcount⟩

end Server

namespace Resource

variable {cfg : Config}

-- ===========================================================================
-- How a resource is found
-- ===========================================================================

/-- The second phase gives a template resource, the first that matches. -/
theorem findTemplate_cases {path : Bytes} : ∀ {rs : List Resource} {k index : Nat}
    {params : List PathParamEntry} {count : UInt8},
    findTemplate cfg path k rs = some (index, params, count) →
      ∃ i r, index = k + i ∧ rs[i]? = some r ∧ r.isTemplate = true ∧
        matchTemplate cfg r.path path = some (params, count) ∧
        ∀ j < i, ∀ r', rs[j]? = some r' → r'.isTemplate = true →
          matchTemplate cfg r'.path path = none := by
  intro rs
  induction rs with
  | nil => exact fun h => nomatch h
  | cons r rs ih =>
    intro k index params count h
    -- the first one is passed over
    have hnext : findTemplate cfg path (k + 1) rs = some (index, params, count) →
        (r.isTemplate = true → matchTemplate cfg r.path path = none) →
        ∃ i r', index = k + i ∧ (r :: rs)[i]? = some r' ∧ r'.isTemplate = true ∧
          matchTemplate cfg r'.path path = some (params, count) ∧
          ∀ j < i, ∀ r'', (r :: rs)[j]? = some r'' → r''.isTemplate = true →
            matchTemplate cfg r''.path path = none := by
      intro h hskip
      obtain ⟨i, r', rfl, hget, htemplate, hmatch, hfirst⟩ := ih h
      refine ⟨i + 1, r', by omega, hget, htemplate, hmatch, fun j hj r'' hget' ht => ?_⟩
      cases j with
      | zero =>
        cases hget'
        exact hskip ht
      | succ j => exact hfirst j (Nat.lt_of_succ_lt_succ hj) r'' hget' ht
    rw [findTemplate] at h
    split at h
    · next htemplate =>
      split at h
      · next params' count' hmatch =>
        cases h
        exact ⟨0, r, rfl, rfl, htemplate, hmatch, fun j hj => absurd hj (Nat.not_lt_zero j)⟩
      · next hmatch => exact hnext h fun _ => hmatch
    · next hplain => exact hnext h fun ht => absurd ht hplain

/-- **What `findResource` gives**: a resource by its own path and without captures, or one by
its template. A template is never compared as a path. -/
theorem find_cases {rs : List Resource} {path : Bytes} {index : Nat}
    {params : List PathParamEntry} {count : UInt8}
    (h : find cfg rs path = some (index, params, count)) :
    ∃ r, rs[index]? = some r ∧
      ((r.isTemplate = false ∧ r.path = path ∧ params = [] ∧ count = 0) ∨
        (r.isTemplate = true ∧ matchTemplate cfg r.path path = some (params, count))) := by
  unfold find at h
  split at h
  · next hexact =>
    cases h
    obtain ⟨hlt, hr, -⟩ := List.findIdx?_eq_some_iff_getElem.1 hexact
    refine ⟨rs[index], List.getElem?_eq_getElem hlt, .inl ?_⟩
    rw [Bool.and_eq_true, Bool.not_eq_true', beq_iff_eq] at hr
    exact ⟨hr.1, hr.2, rfl, rfl⟩
  · obtain ⟨i, r, rfl, hget, htemplate, hmatch, -⟩ := findTemplate_cases h
    rw [Nat.zero_add]
    exact ⟨r, hget, .inr ⟨htemplate, hmatch⟩⟩

end Resource

namespace Server

open Uri (uriPathValues written Clean)

variable {cfg : Config}

-- ===========================================================================
-- Resources without parameters
-- ===========================================================================

/-- A resource without parameters is reached by the string of its path. -/
theorem handled_plain {s : Server cfg} {nowMs : UInt32} {sender : Endpoint} {data : Bytes}
    {msg : Message} (hdec : Message.decode cfg data = (.none, msg)) {index : Nat}
    {handler : Handler} {req : Request} {ctx : Option Ref}
    (h : .handled index handler req ctx ∈ (s.poll nowMs (some (sender, data))).2) {r : Resource}
    (hr : s.resources[index]? = some r) (hplain : r.isTemplate = false) :
    r.path = Uri.cString (written (uriPathValues msg.options)) := by
  obtain ⟨msg', path, params, count, hdec', hjoin, hfind, -⟩ := handled_of_poll h
  obtain rfl : msg = msg' := congrArg Prod.snd (hdec.symm.trans hdec')
  have hlen : ∀ o ∈ msg.options, o.bytes.length = o.length.toNat :=
    fun o ho => Message.bytes_length ((Message.backed_decoded hdec).readable o ho)
  have hpath : path = written (uriPathValues msg.options) := by
    by_cases hcap : 2 ≤ cfg.maxUriPathLen
    · rw [Uri.joinUriPath_eq hlen hcap] at hjoin
      split at hjoin
      · exact (Option.some.inj hjoin).symm
      · cases hjoin
    · unfold Uri.joinUriPath at hjoin
      rw [if_pos (Nat.not_le.1 hcap)] at hjoin
      cases hjoin
  obtain ⟨r', hr', hcases⟩ := Resource.find_cases hfind
  obtain rfl : r = r' := Option.some.inj (hr.symm.trans hr')
  rcases hcases with ⟨-, heq, -⟩ | ⟨htemplate, -⟩
  · rw [heq, hpath]
  · rw [hplain] at htemplate
    cases htemplate

/-- **Exact dispatch**: a request that runs the handler of a resource without parameters has the
segments of its path for Uri-Path values exactly when the values are segments at all, that is
not empty and without a slash or a zero byte. And two such requests have the same values. The
other requests that run it have values that join to the same string. -/
theorem dispatched_iff {s : Server cfg} {nowMs : UInt32} {sender : Endpoint} {data : Bytes}
    {msg : Message} (hdec : Message.decode cfg data = (.none, msg)) {index : Nat}
    {handler : Handler} {req : Request} {ctx : Option Ref}
    (h : .handled index handler req ctx ∈ (s.poll nowMs (some (sender, data))).2) {r : Resource}
    (hr : s.resources[index]? = some r) (hplain : r.isTemplate = false) :
    (∀ segs, Clean segs → r.path = written segs →
      (uriPathValues msg.options = segs ↔ Clean (uriPathValues msg.options))) ∧
    ∀ (s' : Server cfg) nowMs' sender' data' msg' handler' req' ctx' r',
      Message.decode cfg data' = (.none, msg') →
      .handled index handler' req' ctx' ∈ (s'.poll nowMs' (some (sender', data'))).2 →
      s'.resources[index]? = some r' → r'.isTemplate = false → r'.path = r.path →
      Clean (uriPathValues msg.options) → Clean (uriPathValues msg'.options) →
      uriPathValues msg.options = uriPathValues msg'.options := by
  have hpath := handled_plain hdec h hr hplain
  refine ⟨fun segs hsegs hnormal => ⟨fun heq => heq ▸ hsegs, fun hclean => ?_⟩, ?_⟩
  · rw [hclean.cString_written, hnormal] at hpath
    rw [← hclean.segments_written, ← hpath, hsegs.segments_written]
  · intro s' nowMs' sender' data' msg' handler' req' ctx' r' hdec' h' hr' hplain' hsame hclean hclean'
    have hpath' := handled_plain hdec' h' hr' hplain'
    rw [hclean'.cString_written, hsame, hpath, hclean.cString_written] at hpath'
    rw [← hclean.segments_written, hpath', hclean'.segments_written]

/-- A resource for `/a/b`. -/
def plainServer : Server Config.default where
  resources := [{ path := [0x2F, 0x61, 0x2F, 0x62], methods := methodGet, handler := .app 0
                  userContext := none, observable := false, isTemplate := false }]

/-- A GET with the values `"a"` and `"b"`, and one with the value `"a/b"`. -/
def twoValues : Bytes := [0x40, 0x01, 0x00, 0x01, 0xB1, 0x61, 0x01, 0x62]
def oneValue : Bytes := [0x40, 0x01, 0x00, 0x02, 0xB3, 0x61, 0x2F, 0x62]

/-- The events of a poll that is given this datagram. -/
def plainEvents (data : Bytes) : List ServerEvent := (plainServer.poll 0 (some ({}, data))).2

/-- A run of the handler of `plainServer`. -/
def ServerEvent.handledPlain : ServerEvent → Bool
  | .handled 0 (.app 0) _ none => true
  | _ => false

/-- The call can be seen among the events. -/
theorem handled_of_handledPlain {data : Bytes}
    (h : (plainEvents data).any ServerEvent.handledPlain = true) :
    ∃ req, .handled 0 (.app 0) req none ∈ plainEvents data := by
  obtain ⟨e, he, hkind⟩ := List.any_eq_true.1 h
  unfold ServerEvent.handledPlain at hkind
  split at hkind
  · exact ⟨_, he⟩
  · cases hkind

theorem handled_plainServer :
    (∃ req, .handled 0 (.app 0) req none ∈ plainEvents twoValues) ∧
      ∃ req, .handled 0 (.app 0) req none ∈ plainEvents oneValue :=
  ⟨handled_of_handledPlain (by decide +kernel), handled_of_handledPlain (by decide +kernel)⟩

/-- The first one runs the handler with the segments of the path. -/
theorem dispatched_iff_two :
    let values := uriPathValues (Message.decode .default twoValues).2.options
    Clean values ∧ (values = [[0x61], [0x62]] ↔ Clean values) := by
  obtain ⟨req, h⟩ := handled_plainServer.1
  have hdec : Message.decode .default twoValues =
      (.none, (Message.decode .default twoValues).2) := by decide
  exact ⟨by decide, (dispatched_iff hdec h rfl rfl).1 [[0x61], [0x62]] (by decide) (by decide)⟩

/-- The second one runs it as well. -/
theorem not_dispatched :
    (¬ ∀ data msg req, Message.decode .default data = (.none, msg) →
      .handled 0 (.app 0) req none ∈ plainEvents data →
      uriPathValues msg.options = [[0x61], [0x62]]) ∧
    ¬ ∀ data data' msg msg' req req', Message.decode .default data = (.none, msg) →
      Message.decode .default data' = (.none, msg') →
      .handled 0 (.app 0) req none ∈ plainEvents data →
      .handled 0 (.app 0) req' none ∈ plainEvents data' →
      uriPathValues msg.options = uriPathValues msg'.options := by
  obtain ⟨⟨req, h⟩, ⟨req', h'⟩⟩ := handled_plainServer
  have hdec : Message.decode .default twoValues =
      (.none, (Message.decode .default twoValues).2) := by decide
  have hdec' : Message.decode .default oneValue =
      (.none, (Message.decode .default oneValue).2) := by decide
  constructor
  · intro hall
    have hvalues := hall _ _ _ hdec' h'
    revert hvalues
    decide
  · intro hall
    have hvalues := hall _ _ _ _ _ _ hdec hdec' h h'
    revert hvalues
    decide

end Server

end PulseCoap
