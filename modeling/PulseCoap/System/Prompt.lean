import PulseCoap.Exchange.Turn
import PulseCoap.Lib.Path
import PulseCoap.System.Model

/-!
# PulseCoAP — a network that delivers

What the parties come to when nothing is late: each datagram is polled as it is
sent, a `poll()` of the client runs to its end, and a handler returns. Such turns
are paths of the system, for whatever condition its steps are held to.

What a turn comes to is a matter of the parties, and is proved of them alone; here
it is turned into a path of the system. The calls among the events are singled out
because a result about a path says which handlers were called in it, and how often.

* `Server.Offers` — the resource is there.
* `InTime` — the steps of such a turn.
* `calls` — the calls of the application's code among the events.
* `server_path`, `poll_path` — a step of the server, and a poll of the client.
-/

namespace PulseCoap

variable {cfg : Config}

namespace Server

-- ===========================================================================
-- The resource
-- ===========================================================================

/-- Under this path there is a resource of the application that allows these methods. -/
def Offers (s : Server cfg) (path : Bytes) (methods : List Code) : Prop :=
  ∃ t ∈ s.findTarget path, t.resource.handler ≠ .wellKnownCore ∧
    ∀ method ∈ methods, ∃ mask ∈ requestedMask method, t.resource.methods &&& mask ≠ 0

instance (s : Server cfg) (path : Bytes) (methods : List Code) : Decidable (s.Offers path methods) :=
  inferInstanceAs (Decidable (∃ t ∈ s.findTarget path, _))

variable {s : Server cfg} {path : Bytes} {methods : List Code}

theorem Offers.congr {s' : Server cfg} (h : s.Offers path methods)
    (hres : s'.resources = s.resources) : s'.Offers path methods := by
  unfold Offers findTarget at h ⊢
  rw [hres]
  exact h

/-- A request for it is admitted. -/
theorem Offers.admitted (h : s.Offers path methods) {msg : Message} (hcode : msg.code ∈ methods)
    (hjoin : Uri.joinUriPath msg cfg.maxUriPathLen = some path) :
    ∃ t, s.admitted msg = some t ∧ t.resource.handler ≠ .wellKnownCore ∧
      isMethodCode msg.code = true := by
  obtain ⟨t, ht, happ, hallowed⟩ := h
  obtain ⟨mask, hmask, hallows⟩ := hallowed msg.code hcode
  refine ⟨t, ?_, happ, isMethodCode_of_mask hmask⟩
  unfold Server.admitted
  rw [hjoin]
  dsimp only [Option.bind_eq_bind, Option.bind_some]
  rw [ht]
  dsimp only [Option.bind_some]
  rw [hmask]
  dsimp only [Option.bind_some]
  rw [if_neg hallows]

end Server

namespace System

variable {P : System cfg → Action → Prop}

-- ===========================================================================
-- Steps and calls
-- ===========================================================================

/-- Both parties poll at this time, what they send is sent, and the handler returns this. -/
def InTime (nowMs : UInt32) (res : Response) : Action → Prop
  | .client (.poll now rx) | .server (.poll now rx) => now = nowMs ∧ rx.isSome = true
  | .client (.resume sendOk) => sendOk = true
  | .server (.handlerReturns r) => r = res
  | .client (.call ..) | .server (.call _) => False

instance (nowMs : UInt32) (res : Response) : (a : Action) → Decidable (InTime nowMs res a)
  | .client (.poll ..) | .server (.poll ..) => inferInstanceAs (Decidable (_ ∧ _))
  | .client (.resume _) => inferInstanceAs (Decidable (_ = _))
  | .server (.handlerReturns _) => inferInstanceAs (Decidable (_ = _))
  | .client (.call ..) | .server (.call _) => .isFalse id

/-- The application's code is called. -/
def Event.isCall : Event → Bool
  | .client (.response ..) | .client (.timeout ..) | .client (.discovered ..) => true
  | .server (.handled ..) => true
  | .client (.sent ..) | .client (.accepted _) | .server (.sent ..) | .server (.returned _) => false

def calls (events : List Event) : List Event := events.filter Event.isCall

@[simp] theorem calls_append (ev ev' : List Event) : calls (ev ++ ev') = calls ev ++ calls ev' :=
  List.filter_append ..

/-- The ACK of a message calls nothing. -/
theorem calls_ack (cfg : Config) (sender : Endpoint) (msg : Message) (ackOk : Bool) :
    calls ((Client.ackEvents cfg sender msg ackOk).map .client) = [] := by
  unfold Client.ackEvents
  split
  · split <;> rfl
  · rfl

-- ===========================================================================
-- Turns
-- ===========================================================================

/-- A step of the server whose result is known. -/
theorem server_path (link : Link) (start : System cfg) {sys : System cfg} {a : Server.Action} {s' : Server cfg}
    {ev : List ServerEvent} (hP : P sys (.server a)) (hstep : sys.server.step a = (s', ev)) :
    (machine link start).Path P sys (ev.map .server)
      { sys with server := s', toClient := sys.toClient ++ serverData link.client ev } := by
  have hnext : (machine link start).next sys (.server a) =
      ({ sys with server := s', toClient := sys.toClient ++ serverData link.client ev },
        ev.map .server) := by
    show sys.next link (.server a) = _
    unfold next
    dsimp only
    rw [hstep]
  have hpath := Machine.Path.cons hP hnext (.refl _)
  rwa [List.append_nil] at hpath

/-- What the client does by itself. -/
theorem client_path (link : Link) (start : System cfg) (as : List Client.Action) :
    ∀ (h : List ClientEvent) (sys : System cfg),
      (∀ a ∈ as, ∀ sys' : System cfg, sys'.toClient = sys.toClient → P sys' (.client a)) →
        ∃ ev, ((Client.machine cfg).exec h sys.client as).1 = h ++ ev ∧
          (machine link start).Path P sys (ev.map .client)
            { sys with
              client := ((Client.machine cfg).exec h sys.client as).2
              toServer := sys.toServer ++ clientData link.server ev } := by
  induction as with
  | nil =>
    intro h sys _
    refine ⟨[], (List.append_nil h).symm, ?_⟩
    rw [show clientData link.server [] = [] from rfl, List.append_nil]
    exact .refl sys
  | cons a as ih =>
    intro h sys hall
    obtain ⟨ha, has⟩ := List.forall_mem_cons.1 hall
    let sys₁ : System cfg := (sys.next link (.client a)).1
    obtain ⟨ev, hev, hpath⟩ := ih (h ++ (sys.client.step a).2) sys₁ has
    refine ⟨(sys.client.step a).2 ++ ev, ?_, ?_⟩
    · rw [← List.append_assoc]
      exact hev
    · have hdata : clientData link.server ((sys.client.step a).2 ++ ev) =
          clientData link.server (sys.client.step a).2 ++ clientData link.server ev :=
        List.filterMap_append
      rw [List.map_append, hdata, ← List.append_assoc]
      exact .cons (ha sys rfl) rfl hpath

/-- **A poll of the client**, with all that it leads to: the poll and its segments are steps of
the system one after the other. -/
theorem poll_path (link : Link) (start : System cfg) {sys : System cfg} {nowMs : UInt32} {data : Bytes}
    (hpoll : ∀ sys' : System cfg, sys'.toClient = sys.toClient →
      P sys' (.client (.poll nowMs (some (link.server, data)))))
    (hresume : ∀ sys' : System cfg, sys'.toClient = sys.toClient →
      P sys' (.client (.resume true))) {ev : List ClientEvent} {c' : Client cfg}
    (hturn : (Client.machine cfg).exec [] sys.client
      (Client.wholePoll cfg nowMs (link.server, data)) = (ev, c')) :
    (machine link start).Path P sys (ev.map .client)
      { sys with client := c', toServer := sys.toServer ++ clientData link.server ev } := by
  have hall : ∀ a ∈ Client.wholePoll cfg nowMs (link.server, data), ∀ sys' : System cfg,
      sys'.toClient = sys.toClient → P sys' (.client a) := by
    intro a ha
    rcases List.mem_cons.1 ha with rfl | ha
    · exact hpoll
    · rw [List.eq_of_mem_replicate ha]
      exact hresume
  obtain ⟨ev', hev, hpath⟩ := client_path link start _ [] sys hall
  rw [hturn] at hev hpath
  obtain rfl : ev = ev' := hev
  exact hpath

end System

end PulseCoap
