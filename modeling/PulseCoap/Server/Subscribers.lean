import PulseCoap.Server.Notify
import PulseCoap.Server.Template

/-!
# PulseCoAP — whom a notification reaches

`notify` looks its path up as `handleRequest` does: by comparison with the paths
of the resources first, then with the templates. An observer has the index of
the resource its registration came to, and not the path that it named. Under a
resource without parameters that is the same; a template has many paths, and a
resource added later may take one of them away.

A server is watched together with the paths that the registrations named.

The paths that were named are kept in a map by remote and token, as the
observers are found by these. For a resource without parameters the entry's
index stands for its path as long as no resource before it comes to have the
same one, and a resource that is registered later comes behind it in the table.
For a template the path is lost, and the equivalence says in which cases that
makes a difference.

* `Naming` — that server.
* `Inv.step` — an observer under a resource without parameters named its path,
  and still would find it there.
* `delivers_iff` — exactly when a notification reaches those who named its path.
* `not_delivers` — two paths of one template, and a payload too long to send.
* `DeliversExactly`, `Reaches` — what `notify` should do, and when it does.
-/

namespace PulseCoap

namespace Server

variable {cfg : Config}

-- ===========================================================================
-- The paths that were named
-- ===========================================================================

/-- A server, and the path in the last registration of each remote and token. -/
structure Naming (cfg : Config) where
  server : Server cfg := {}
  path   : Endpoint → Bytes → Bytes := fun _ _ => []

namespace Naming

open Noting (notificationSize)

/-- The request that a step registers an observer for, with its sender. -/
def registration (s : Server cfg) : Action → Option (Endpoint × Message)
  | .poll nowMs (some (sender, data)) =>
    match s.control, Message.decode cfg data with
    | .idle, (.none, msg) =>
      match (s.scanned nowMs).admitted msg with
      | some t => if IsRequest msg ∧ Registers t msg then some (sender, msg) else none
      | none => none
    | _, _ => none
  | _ => none

/-- The path a request names, as a C string. -/
def pathOf (cfg : Config) (msg : Message) : Bytes :=
  Uri.cString ((Uri.joinUriPath msg cfg.maxUriPathLen).getD [])

def put (path : Endpoint → Bytes → Bytes) (remote : Endpoint) (token p : Bytes) :
    Endpoint → Bytes → Bytes :=
  fun remote' token' => if remote' = remote ∧ token' = token then p else path remote' token'

def next (w : Naming cfg) (a : Action) : Naming cfg × List ServerEvent :=
  ({ server := (w.server.step a).1
     path :=
       match registration w.server a with
       | some (sender, msg) => put w.path sender msg.token (pathOf cfg msg)
       | none => w.path },
    (w.server.step a).2)

def machine (cfg : Config) : Machine (Naming cfg) Action ServerEvent where
  init := {}
  next := next

/-- The path that the registration of this observer named. -/
def named (w : Naming cfg) (i : Fin cfg.maxObservers) : Bytes :=
  w.path (w.server.observers i).remote (w.server.observers i).token

-- ===========================================================================
-- What is claimed of a notification
-- ===========================================================================

/-- **Exactly the subscribers of the path**: each gets one datagram with the payload and its own
token, with one Observe value for all; there is no other datagram, and no message ID twice. -/
structure Delivers (w : Naming cfg) (path payload : Bytes) (ds : List (Endpoint × Bytes)) :
    Prop where
  subscribers : ∃ v, ∀ i, (w.server.observers i).active = true → w.named i = Uri.cString path →
    ∃ m, carried cfg (w.server.observers i) ds = [m] ∧ m.payloadBytes = payload ∧
      observeOf m = some v
  others : ∀ d ∈ ds, ∃ i m, (w.server.observers i).active = true ∧
    w.named i = Uri.cString path ∧ Message.decode cfg d.2 = (.none, m) ∧
    d.1 = (w.server.observers i).remote ∧ m.token = (w.server.observers i).token
  ids : (sentIds cfg ds).Nodup

/-- What `notify` is to do, by what it returns. -/
def DeliversExactly (w : Naming cfg) (path payload : Bytes) (contentFormat : ContentFormat)
    (confirmable : Bool) : Prop :=
  let r := w.server.notify path payload contentFormat confirmable
  (r.2.1 = true → w.Delivers path payload (datagrams r.2.2)) ∧
    (r.2.1 = false → r.2.2 = [] ∧ r.1 = w.server)

/-- The registration of this observer came to a template. -/
def ByTemplate (w : Naming cfg) (i : Fin cfg.maxObservers) : Prop :=
  ∃ r, w.server.resources[(w.server.observers i).resourceIndex.toNat]? = some r ∧
    r.isTemplate = true

/-- **When it does so.** The notification of everyone who named the path fits, with its Observe
option. An observer of a template named the path if it is under the resource found now and its
notification fits, and is under that resource if it named the path. -/
def Reaches (w : Naming cfg) (path payload : Bytes) (contentFormat : ContentFormat) : Prop :=
  ∀ t, w.server.findTarget path = some t → t.resource.observable = true →
    ∀ i, (w.server.observers i).active = true →
      let fits := notificationSize cfg (w.server.observers i) (t.resource.observeSequence + 1)
        payload contentFormat ≤ cfg.maxMsgSize
      let here := (w.server.observers i).resourceIndex = UInt8.ofNat t.index
      (w.named i = Uri.cString path → fits ∧ 1 ≤ cfg.maxOptions) ∧
        (w.ByTemplate i → (w.named i = Uri.cString path → here) ∧
          (here → fits → w.named i = Uri.cString path))

-- ===========================================================================
-- The resources
-- ===========================================================================

/-- What resources are found by stays; new ones come behind. -/
def Extends (rs rs' : List Resource) : Prop :=
  ∀ (i : Nat) (r : Resource), rs[i]? = some r →
    ∃ r', rs'[i]? = some r' ∧ r'.path = r.path ∧ r'.isTemplate = r.isTemplate

theorem Extends.refl (rs : List Resource) : Extends rs rs := fun _ r h => ⟨r, h, rfl, rfl⟩

/-- A call of the API removes no resource, and moves none. -/
theorem extends_call (s : Server cfg) (call : ServerCall) :
    Extends s.resources (s.call call).1.resources := by
  intro i r hr
  obtain ⟨r', hr', hupdated⟩ := resource_call hr call
  exact ⟨r', hr', hupdated.path, hupdated.isTemplate⟩

/-- The first resource under a path stays the first. -/
theorem Extends.least {rs rs' : List Resource} (h : Extends rs rs') {path : Bytes} {i : Nat}
    (hi : IsLeast { i | Resource.PlainAt rs path i } i) :
    IsLeast { i | Resource.PlainAt rs' path i } i := by
  obtain ⟨⟨r, hr, hplain, hpath⟩, hfirst⟩ := hi
  obtain ⟨r', hr', hpath', htmpl'⟩ := h i r hr
  refine ⟨⟨r', hr', htmpl'.trans hplain, hpath'.trans hpath⟩, ?_⟩
  rintro j ⟨q', hq', hqplain, hqpath⟩
  by_contra hji
  -- a resource before it was there before
  obtain ⟨hlt, -⟩ := List.getElem?_eq_some_iff.1 hr
  have hj : j < rs.length := by omega
  obtain ⟨q'', hq'', hqpath'', hqtmpl''⟩ := h j rs[j] (List.getElem?_eq_getElem hj)
  obtain rfl : q'' = q' := Option.some.inj (hq''.symm.trans hq')
  exact hji (hfirst ⟨rs[j], List.getElem?_eq_getElem hj, hqtmpl''.symm.trans hqplain,
    hqpath''.symm.trans hqpath⟩)

/-- The resource found for a path, by comparison or as a template. -/
theorem findTarget_found {s : Server cfg} {path : Bytes} {t : Target}
    (h : s.findTarget path = some t) :
    Resource.FoundAt s.resources (Uri.cString path) t.index := by
  unfold findTarget at h
  cases hf : Resource.find cfg s.resources (Uri.cString path) with
  | none => simp [hf] at h
  | some r =>
    obtain ⟨index, params, count⟩ := r
    cases hr : s.resources[index]? with
    | none => simp [hf, hr] at h
    | some resource =>
      obtain rfl : _ = t := by simpa [hf, hr] using h
      exact ((Resource.find_iff cfg s.resources (Uri.cString path)).1 index).1 ⟨params, count, hf⟩

/-- If it has no parameters, by comparison. -/
theorem found_plain {s : Server cfg} {path : Bytes} {t : Target}
    (h : s.findTarget path = some t) (hplain : t.resource.isTemplate = false) :
    IsLeast { i | Resource.PlainAt s.resources (Uri.cString path) i } t.index := by
  rcases findTarget_found h with hleast | ⟨-, ⟨r, hr, htmpl, -⟩, -⟩
  · exact hleast
  · rw [findTarget_index h] at hr
    rw [← Option.some.inj hr, hplain] at htmpl
    cases htmpl

-- ===========================================================================
-- The invariant
-- ===========================================================================

/-- An observer under a resource without parameters named its path, and finds it there. -/
def Inv (w : Naming cfg) : Prop :=
  ∀ i, (w.server.observers i).active = true →
    ∀ r, w.server.resources[(w.server.observers i).resourceIndex.toNat]? = some r →
      r.isTemplate = false →
      IsLeast { j | Resource.PlainAt w.server.resources (w.named i) j }
        (w.server.observers i).resourceIndex.toNat

/-- Without a registration, entries go and resources come. -/
theorem Inv.moves {w : Naming cfg} (h : w.Inv) (ho : w.server.Observing) {s' : Server cfg}
    (hobs : ∀ i, ObserverMoves (w.server.observers i) (s'.observers i))
    (hres : Extends w.server.resources s'.resources) : Inv ⟨s', w.path⟩ := by
  intro i hi r' hr' hplain'
  obtain ⟨hold, hrem, htok, hidx⟩ := hobs i hi
  obtain ⟨r, hr, -⟩ := ho.named i hold
  obtain ⟨q, hq, -, htmpl⟩ := hres _ r hr
  dsimp only at hr'
  rw [hidx, hq] at hr'
  obtain rfl : q = r' := Option.some.inj hr'
  have hleast := hres.least (h i hold r hr (htmpl.symm.trans hplain'))
  dsimp only [named]
  rw [hidx, hrem, htok]
  exact hleast

/-- The registration of a request that came to `t`: its own entry, and the others. -/
theorem Inv.register {w : Naming cfg} (h : w.Inv) (ho : w.server.Observing) {t : Target}
    {path : Bytes} (hfind : w.server.findTarget path = some t)
    (hobservable : t.resource.observable = true) (sender : Endpoint) (token : Bytes)
    (messageId : UInt16) :
    Inv ⟨(w.server.registerObserver (UInt8.ofNat t.index) sender token).noteReply sender token
      messageId, put w.path sender token (Uri.cString path)⟩ := by
  -- an index of the table fits in the byte that the entry keeps
  have hindex : (UInt8.ofNat t.index).toNat = t.index := by
    obtain ⟨hlt, -⟩ := List.getElem?_eq_some_iff.1 (findTarget_index hfind)
    have hres := cfg.resources_lt
    have hlen := ho.length
    rw [UInt8.toNat_ofNat']
    omega
  have hkeyed := (ho.register (findTarget_index hfind) hobservable sender token messageId).keyed
  -- an entry with another key keeps its path
  have hother : ∀ j, (w.server.observers j).active = true →
      ¬ ((w.server.observers j).remote = sender ∧ (w.server.observers j).token = token) →
      ∀ r, w.server.resources[(w.server.observers j).resourceIndex.toNat]? = some r →
        r.isTemplate = false →
        IsLeast { k | Resource.PlainAt w.server.resources
          (put w.path sender token (Uri.cString path) (w.server.observers j).remote
            (w.server.observers j).token) k } (w.server.observers j).resourceIndex.toNat := by
    intro j hj hkey r hr hplain
    rw [put, if_neg hkey]
    exact h j hj r hr hplain
  -- the registration has an entry, old or new, or the table is full
  rcases w.server.register_cases (UInt8.ofNat t.index) sender token messageId with
    ⟨i, -, heq⟩ | ⟨hnone, -, heq⟩
  · rw [heq] at hkeyed ⊢
    intro j hj r hr hplain
    by_cases hji : j = i
    · -- the new entry
      subst hji
      have hentry : (w.server.observers.set j (registered (w.server.observers j)
          (UInt8.ofNat t.index) sender token messageId)) j =
          registered (w.server.observers j) (UInt8.ofNat t.index) sender token messageId :=
        Table.set_self ..
      dsimp only [withObservers] at hr
      rw [hentry] at hr
      dsimp only [registered] at hr
      rw [hindex, findTarget_index hfind] at hr
      obtain rfl : t.resource = r := Option.some.inj hr
      dsimp only [named, withObservers]
      rw [hentry]
      dsimp only [registered]
      rw [hindex, put, if_pos ⟨rfl, rfl⟩]
      exact found_plain hfind hplain
    · have hentry : (w.server.observers.set i (registered (w.server.observers i)
          (UInt8.ofNat t.index) sender token messageId)) j = w.server.observers j :=
        Table.set_ne _ _ hji
      have hi : ((w.server.observers.set i (registered (w.server.observers i)
          (UInt8.ofNat t.index) sender token messageId)) i).active = true := by
        rw [Table.set_self]
        rfl
      have hkey := mt (hkeyed j i hj hi) hji
      dsimp only [withObservers] at hj hr hkey
      rw [hentry] at hj hr hkey
      rw [Table.set_self] at hkey
      dsimp only [named, withObservers]
      rw [hentry]
      exact hother j hj (fun hsame => hkey (Prod.ext hsame.1 hsame.2)) r hr hplain
  · -- the table is full: nobody has this key
    rw [heq]
    intro j hj r hr hplain
    refine hother j hj (fun hsame => ?_) r hr hplain
    have hmatch := observes_iff.2 ⟨hj, hsame.1, hsame.2⟩
    rw [Table.find?_eq_none.1 hnone j] at hmatch
    cases hmatch

/-- The paths only matter for the entries. -/
theorem Inv.congr {s s' : Server cfg} {path : Endpoint → Bytes → Bytes} (h : Inv ⟨s, path⟩)
    (hobs : s'.observers = s.observers) (hres : s'.resources = s.resources) :
    Inv ⟨s', path⟩ := by
  unfold Inv named at h ⊢
  rw [hobs, hres]
  exact h

/-- What is registered, and what it comes from. -/
theorem registration_some {s : Server cfg} {a : Action} {sender : Endpoint} {msg : Message}
    (h : registration s a = some (sender, msg)) : ∃ nowMs data t, a = .poll nowMs
      (some (sender, data)) ∧ s.control = .idle ∧ Message.decode cfg data = (.none, msg) ∧
      IsRequest msg ∧ (s.scanned nowMs).admitted msg = some t ∧ Registers t msg := by
  unfold registration at h
  split at h
  · rename_i nowMs e data
    split at h
    · rename_i m hctl hdec
      split at h
      · rename_i t hadm
        split at h
        · rename_i hreg
          cases h
          exact ⟨nowMs, data, t, rfl, hctl, hdec, hreg.1, hadm, hreg.2⟩
        · cases h
      · cases h
    · cases h
  · cases h

/-- A datagram without a registration. -/
theorem receive_moves {s : Server cfg} {rx : Option (Endpoint × Bytes)}
    (h : ∀ sender data msg t, rx = some (sender, data) →
      Message.decode cfg data = (.none, msg) → IsRequest msg → s.admitted msg = some t →
      ¬ Registers t msg) (i : Fin cfg.maxObservers) :
    ObserverMoves (s.observers i) ((s.receive rx).1.observers i) := by
  rcases s.receive_cases rx with heq | ⟨sender, data, msg, -, -, -, heq⟩ |
    ⟨sender, data, msg, -, -, -, heq⟩ | ⟨sender, data, msg, hrx, hdec, hreq, heq⟩
  · rw [heq]
    exact .refl _
  · rw [heq]
    exact s.handleReset_moves sender msg.messageId i
  · rw [heq]
    exact .refl _
  · rw [heq]
    rcases s.keepsTables_request msg sender with ⟨-, hk⟩ | ⟨t, had, hk⟩
    · rw [hk.observers]
      exact .refl _
    · rw [hk.observers]
      rcases s.handleObserve_cases t msg sender with ⟨hreg, -⟩ | ⟨-, hobs⟩ | ⟨-, -, hobs⟩
      · exact absurd hreg (h sender data msg t hrx hdec hreq had)
      · rw [hobs]
        exact s.removeObserver_moves sender msg.token i
      · rw [hobs]
        exact .refl _

/-- A step without a registration starts no entry. -/
theorem step_moves {s : Server cfg} {a : Action} (h : registration s a = none)
    (i : Fin cfg.maxObservers) : ObserverMoves (s.observers i) ((s.step a).1.observers i) := by
  cases a with
  | call call => exact s.call_observers call i
  | poll nowMs rx =>
    cases hctl : s.control with
    | idle =>
      rw [step_poll_state hctl]
      refine (s.scanned_observers nowMs i).trans (receive_moves ?_ i)
      rintro sender data msg t rfl hdec hreq hadm hregs
      simp [registration, hctl, hdec, hadm, hreq, hregs] at h
    | handling hd =>
      rw [step_poll_busy hctl]
      exact .refl _
  | handlerReturns res =>
    cases hctl : s.control with
    | idle =>
      rw [step_returns_idle hctl]
      exact .refl _
    | handling hd =>
      rw [step_returns hctl, (keepsTables_finish _ hd res).observers]
      exact .refl _

theorem extends_step (s : Server cfg) (a : Action) :
    Extends s.resources (s.step a).1.resources := by
  cases a with
  | call call => exact extends_call s call
  | poll nowMs rx =>
    have hkept : (s.step (.poll nowMs rx)).1.resources = s.resources := resources_step nofun
    rw [hkept]
    exact .refl _
  | handlerReturns res =>
    have hkept : (s.step (.handlerReturns res)).1.resources = s.resources := resources_step nofun
    rw [hkept]
    exact .refl _

/-- **What one step preserves.** A registration notes the path it named; a resource that is
added comes behind the others. -/
theorem Inv.step {w : Naming cfg} (h : w.Inv) (ho : w.server.Observing) (a : Action) :
    (w.next a).1.Inv := by
  unfold next
  cases hreg : registration w.server a with
  | some r =>
    obtain ⟨sender, msg⟩ := r
    obtain ⟨nowMs, data, t, rfl, hidle, hdec, hreq, hadm, hregs⟩ := registration_some hreg
    obtain ⟨path, hjoin, hfind⟩ := admitted_path hadm
    have hobs := w.server.scanned_observers nowMs
    have hres := w.server.scanned_resources nowMs
    have hscanned : Inv ⟨w.server.scanned nowMs, w.path⟩ :=
      h.moves ho hobs (by rw [hres]; exact .refl _)
    have hobserving : (w.server.scanned nowMs).Observing :=
      ho.moves hobs (by rw [hres]; exact .refl _) (by rw [hres]; exact ho.length)
    have hregister := hscanned.register hobserving hfind hregs.1 sender msg.token msg.messageId
    have hpath : pathOf cfg msg = Uri.cString path := by rw [pathOf, hjoin, Option.getD_some]
    dsimp only
    rw [hpath, step_request hidle hdec hreq]
    -- what comes behind the registration leaves the table alone
    have hk := (w.server.scanned nowMs).keepsTables_registers hadm hregs sender
    exact hregister.congr hk.observers hk.resources
  | none => exact h.moves ho (step_moves hreg) (extends_step w.server a)

-- ===========================================================================
-- What is delivered
-- ===========================================================================

/-- What holds in every state of a run. -/
structure Ok (w : Naming cfg) : Prop where
  inv       : w.Inv
  observing : w.server.Observing
  tokens    : w.server.TokensFit

/-- **In every run** the entries name resources that are in the table, by indices that fit a
byte. -/
theorem ok_of_run {P : Naming cfg → Action → Prop} {hist : List ServerEvent} {w : Naming cfg}
    (r : (machine cfg).Run P hist w) : w.Ok := by
  refine Machine.Run.invariant (I := fun _ w => Ok w) ?_ ?_ r
  · exact ⟨fun _ hi => (nomatch hi), ⟨fun _ _ hi => (nomatch hi), fun _ hi => (nomatch hi),
      Nat.zero_le _⟩, ⟨fun _ => Nat.zero_le _, fun _ => Nat.zero_le _⟩⟩
  · intro _ w a _ h _
    exact ⟨h.inv.step h.observing a, h.observing.step a, h.tokens.step a⟩

/-- An observer that named the path of a resource without parameters is under it. -/
theorem Ok.here {w : Naming cfg} (h : w.Ok) {path : Bytes} {t : Target}
    (hfind : w.server.findTarget path = some t) {i : Fin cfg.maxObservers}
    (hi : (w.server.observers i).active = true) (htmpl : ¬ w.ByTemplate i)
    (hnamed : w.named i = Uri.cString path) :
    (w.server.observers i).resourceIndex = UInt8.ofNat t.index := by
  obtain ⟨r, hr, -⟩ := h.observing.named i hi
  have hplain : r.isTemplate = false :=
    Bool.eq_false_iff.2 fun hr' => htmpl ⟨r, hr, hr'⟩
  have hleast := h.inv i hi r hr hplain
  rw [hnamed] at hleast
  have hindex : (w.server.observers i).resourceIndex.toNat = t.index :=
    Resource.FoundAt.unique (.inl hleast) (findTarget_found hfind)
  rw [← hindex, UInt8.ofNat_toNat]

/-- An observer under a resource without parameters named its path. -/
theorem Ok.named_of_here {w : Naming cfg} (h : w.Ok) {path : Bytes} {t : Target}
    (hfind : w.server.findTarget path = some t) {i : Fin cfg.maxObservers}
    (hi : (w.server.observers i).active = true) (htmpl : ¬ w.ByTemplate i)
    (hhere : (w.server.observers i).resourceIndex = UInt8.ofNat t.index) :
    w.named i = Uri.cString path := by
  have hindex : (w.server.observers i).resourceIndex.toNat = t.index := by
    obtain ⟨hlt, -⟩ := List.getElem?_eq_some_iff.1 (findTarget_index hfind)
    have hres := cfg.resources_lt
    have hlen := h.observing.length
    rw [hhere, UInt8.toNat_ofNat']
    omega
  have hr : w.server.resources[(w.server.observers i).resourceIndex.toNat]? =
      some t.resource := by
    rw [hindex]
    exact findTarget_index hfind
  have hplain : t.resource.isTemplate = false :=
    Bool.eq_false_iff.2 fun hr' => htmpl ⟨t.resource, hr, hr'⟩
  -- the path of the resource is both
  obtain ⟨⟨r, hrr, -, hrnamed⟩, -⟩ := h.inv i hi t.resource hr hplain
  obtain ⟨⟨r', hrr', -, hrpath⟩, -⟩ := found_plain hfind hplain
  rw [hindex] at hrr
  obtain rfl : r = r' := Option.some.inj (hrr.symm.trans hrr')
  exact hrnamed.symm.trans hrpath

/-- What `notify` does for an observable resource. -/
theorem notify_found {s : Server cfg} {path : Bytes} {t : Target}
    (hfind : s.findTarget path = some t) (hobservable : t.resource.observable = true)
    (payload : Bytes) (contentFormat : ContentFormat) (confirmable : Bool) :
    (s.notify path payload contentFormat confirmable).2.1 = true ∧
      datagrams (s.notify path payload contentFormat confirmable).2.2 =
        (numbered s.observers t.index s.nextMessageId (List.finRange _)).filterMap
          (pushed cfg s.observers (t.resource.observeSequence + 1) payload contentFormat
            confirmable) := by
  unfold notify
  rw [hfind]
  dsimp only
  rw [if_neg (by simp [hobservable])]
  exact ⟨rfl, notifyFrom_datagrams ..⟩

/-- Without one it does nothing. -/
theorem notify_missing {s : Server cfg} {path : Bytes}
    (hnone : ∀ t, s.findTarget path = some t → ¬ t.resource.observable = true)
    (payload : Bytes) (contentFormat : ContentFormat) (confirmable : Bool) :
    s.notify path payload contentFormat confirmable = (s, false, []) := by
  unfold notify
  cases hfind : s.findTarget path with
  | none => rfl
  | some t =>
    dsimp only
    rw [if_pos (by simpa using hnone t hfind)]

/-- **Whom a notification reaches.** In every state of a run `notify` delivers to exactly those
who named its path if and only if their notifications fit and no template is in the way. The
payload, the format and the type of the notification are arbitrary. -/
theorem delivers_iff {P : Naming cfg → Action → Prop} {hist : List ServerEvent} {w : Naming cfg}
    (r : (machine cfg).Run P hist w) (path payload : Bytes) (contentFormat : ContentFormat)
    (confirmable : Bool) :
    w.DeliversExactly path payload contentFormat confirmable ↔
      w.Reaches path payload contentFormat := by
  have hok := ok_of_run r
  have hkeyed := hok.observing.keyed
  have ht := hok.tokens.observers
  by_cases hfound : ∃ t, w.server.findTarget path = some t ∧ t.resource.observable = true
  · obtain ⟨t, hfind, hobservable⟩ := hfound
    obtain ⟨htrue, hsent⟩ := notify_found hfind hobservable payload contentFormat confirmable
    have hmem : ∀ i, (w.server.observers i).active = true →
        (w.server.observers i).resourceIndex = UInt8.ofNat t.index → ∃ k,
        (i, k) ∈ numbered w.server.observers t.index w.server.nextMessageId
          (List.finRange _) := by
      intro i hi hhere
      obtain ⟨n, hn, rfl⟩ := List.mem_map.1 (mem_numbered.2 ⟨List.mem_finRange i, hi, hhere⟩)
      exact ⟨n.2, hn⟩
    unfold DeliversExactly
    dsimp only
    rw [htrue, hsent]
    -- each observer of the resource is sent one message, and nobody else any
    constructor
    · rintro ⟨hdelivers, -⟩ t' hfind' -
      obtain rfl : t = t' := Option.some.inj (hfind.symm.trans hfind')
      obtain ⟨⟨v, hsubs⟩, hothers, -⟩ := hdelivers rfl
      intro i hi fits here
      refine ⟨fun hnamed => ?_, fun _ => ⟨fun hnamed => ?_, fun hhere hfits => ?_⟩⟩
      · -- what it was sent has the Observe option
        obtain ⟨m, hcarried, -, hv⟩ := hsubs i hi hnamed
        obtain ⟨-, hfits, hshown⟩ := numbered_of_carried ht hkeyed hi
          (hcarried ▸ List.mem_singleton_self m)
        exact ⟨hfits, hshown.1 (by rw [hv]; rfl)⟩
      · obtain ⟨m, hcarried, -⟩ := hsubs i hi hnamed
        exact (numbered_of_carried ht hkeyed hi (hcarried ▸ List.mem_singleton_self m)).1
      · -- it was sent its notification, and everything sent is for someone who named the path
        obtain ⟨k, hk⟩ := hmem i hi hhere
        obtain ⟨d, hd⟩ := Option.isSome_iff_exists.1 ((pushed_isSome ht
          (t.resource.observeSequence + 1) payload contentFormat confirmable (i, k)).2 hfits)
        obtain ⟨m, hdec, hdest, htok, -⟩ := pushed_some ht hd
        obtain ⟨j, m', hj, hnamed, hdec', hdest', htok'⟩ :=
          hothers d (List.mem_filterMap.2 ⟨(i, k), hk, hd⟩)
        obtain rfl : m = m' := congrArg Prod.snd (hdec.symm.trans hdec')
        obtain rfl : i = j := hkeyed i j hi hj
          (Prod.ext (hdest.symm.trans hdest') (htok.symm.trans htok'))
        exact hnamed
    · intro hreaches
      have hall := hreaches t hfind hobservable
      refine ⟨fun _ => ⟨⟨t.resource.observeSequence + 1, fun i hi hnamed => ?_⟩, fun d hd => ?_,
        sentIds_nodup ht⟩, (fun hfalse => nomatch hfalse)⟩
      · obtain ⟨hsize, htmpl⟩ := hall i hi
        obtain ⟨hfits, hmax⟩ := hsize hnamed
        have hhere : (w.server.observers i).resourceIndex = UInt8.ofNat t.index := by
          by_cases hby : w.ByTemplate i
          · exact (htmpl hby).1 hnamed
          · exact hok.here hfind hi hby hnamed
        obtain ⟨k, hk⟩ := hmem i hi hhere
        obtain ⟨m, hcarried, hpayload, hvalue, hshown⟩ := carried_numbered ht hkeyed hk hfits
        obtain ⟨v, hv⟩ := Option.isSome_iff_exists.1 (hshown.2 hmax)
        exact ⟨m, hcarried, hpayload, by rw [hv, hvalue v hv]⟩
      · obtain ⟨n, hn, hpush⟩ := List.mem_filterMap.1 hd
        obtain ⟨-, hi, hhere⟩ := mem_numbered.1 (List.mem_map_of_mem hn)
        obtain ⟨m, hdec, hdest, htok, -⟩ := pushed_some ht hpush
        have hfits := (pushed_isSome ht (t.resource.observeSequence + 1) payload contentFormat
          confirmable n).1 (Option.isSome_iff_exists.2 ⟨d, hpush⟩)
        refine ⟨n.1, m, hi, ?_, hdec, hdest, htok⟩
        by_cases hby : w.ByTemplate n.1
        · exact ((hall n.1 hi).2 hby).2 hhere hfits
        · exact hok.named_of_here hfind hi hby hhere
  · -- the path finds no observable resource, and nothing is sent
    have hmissing : w.server.notify path payload contentFormat confirmable =
        (w.server, false, []) :=
      notify_missing (fun t hfind hobservable => hfound ⟨t, hfind, hobservable⟩) payload
        contentFormat confirmable
    unfold DeliversExactly
    rw [hmissing]
    refine ⟨fun _ t hfind hobservable => absurd ⟨t, hfind, hobservable⟩ hfound, fun _ => ?_⟩
    exact ⟨(fun hfalse => nomatch hfalse), fun _ => ⟨rfl, rfl⟩⟩

-- ===========================================================================
-- Two paths of one template
-- ===========================================================================

/-- `/a/:x`, `/a/1` and `/a/2`. -/
def templatePath : Bytes := [0x2F, 0x61, 0x2F, 0x3A, 0x78]
def firstPath : Bytes := [0x2F, 0x61, 0x2F, 0x31]
def secondPath : Bytes := [0x2F, 0x61, 0x2F, 0x32]

/-- A registration for `/a/1`, with token 7. -/
def observeFirst : Bytes := [0x41, 0x01, 0x00, 0x01, 0x07, 0x60, 0x51, 0x61, 0x01, 0x31]

/-- The resource is added, and one endpoint registers. -/
def templateRun : List Action :=
  [.call (.addResource (some templatePath) methodGet (some 1) none true),
    .poll 0 (some ({ port := 1 }, observeFirst)), .handlerReturns { payload := [0x78] }]

def templateServer : Naming Config.default := ((machine Config.default).exec [] {} templateRun).2

theorem delivers_iff_first :
    templateServer.DeliversExactly firstPath [0x79] .textPlain false ↔
      templateServer.Reaches firstPath [0x79] .textPlain :=
  delivers_iff (P := fun _ _ => True)
    (.exec .start (Machine.meets_of_forall (fun _ _ => trivial) _ templateRun)) ..

/-- **A notification reaches others, or nobody**: the one for `/a/2` is sent to the observer of
`/a/1`, and for `/a/1` itself 256 bytes are too many. -/
theorem not_delivers :
    (∃ hist, (machine Config.default).Run (fun _ _ => True) hist templateServer) ∧
      ¬ templateServer.DeliversExactly secondPath [0x79] .textPlain false ∧
      ¬ templateServer.DeliversExactly firstPath (List.replicate 256 0x79) .textPlain false := by
  refine ⟨⟨_, .exec .start (Machine.meets_of_forall (fun _ _ => trivial) _ templateRun)⟩,
    fun h => ?_, fun h => ?_⟩
  · have hd : ({ port := 1 },
        [0x51, 0x45, 0x00, 0x01, 0x07, 0x61, 0x01, 0x60, 0xFF, 0x79]) ∈ datagrams
        (templateServer.server.notify secondPath [0x79] .textPlain false).2.2 := by
      decide +kernel
    obtain ⟨i, m, hi, hnamed, -⟩ := (h.1 (by decide +kernel)).others _ hd
    exact (by decide +kernel : ∀ i, (templateServer.server.observers i).active = true →
      templateServer.named i ≠ Uri.cString secondPath) i hi hnamed
  · obtain ⟨v, hsubs⟩ := (h.1 (by decide +kernel)).subscribers
    obtain ⟨m, hm, -⟩ := hsubs ⟨0, by decide⟩ (by decide +kernel) (by decide +kernel)
    have hnone : carried Config.default (templateServer.server.observers ⟨0, by decide⟩)
        (datagrams (templateServer.server.notify firstPath (List.replicate 256 0x79) .textPlain
          false).2.2) = [] := by decide +kernel
    rw [hnone] at hm
    cases hm

end Naming

end Server

end PulseCoap
