import PulseCoap.Client.Spec
import PulseCoap.Server.Spec

/-!
# PulseCoAP — a client and a server

Both parties with the network between them. A datagram that one of them hands to its
transport for the other is kept for ever, and a `poll()` may be given any of them at
any time: so datagrams are lost, delayed, duplicated and reordered.

Nothing is ever taken off the network, which is the strongest network there is: what
has been lost is what is never delivered. Both parties put out the events of their
own machines, wrapped in `Event`, so a property of a run of the system can be
compared with one of either party's run.

* `System` — the parties and the datagrams.
* `Carried` — what the network may deliver. The server also has other peers.
* `mem_clientData`, `mem_serverData` — the datagrams of a step that are for the
  other party.
-/

namespace PulseCoap

/-- The addresses of the two parties. -/
structure Link where
  client : Endpoint
  server : Endpoint
deriving DecidableEq, Repr

/-- A client, a server and all that they have sent to each other. -/
structure System (cfg : Config) where
  client   : Client cfg := {}
  server   : Server cfg := {}
  toServer : List Bytes := []
  toClient : List Bytes := []

namespace System

variable {cfg : Config}

-- ===========================================================================
-- Steps
-- ===========================================================================

/-- A step of one of the parties. -/
inductive Action where
  | client (a : Client.Action)
  | server (a : Server.Action)
deriving DecidableEq, Repr

/-- What the party does in it. -/
inductive Event where
  | client (e : ClientEvent)
  | server (e : ServerEvent)
deriving DecidableEq, Repr

/-- The datagrams for `dest` among the events of the client, and of the server. -/
def clientData (dest : Endpoint) (events : List ClientEvent) : List Bytes :=
  events.filterMap fun
    | .sent dest' data => if dest' = dest then some data else none
    | _ => none
def serverData (dest : Endpoint) (events : List ServerEvent) : List Bytes :=
  events.filterMap fun
    | .sent dest' data => if dest' = dest then some data else none
    | _ => none

/-- One step. -/
def next (link : Link) (sys : System cfg) : Action → System cfg × List Event
  | .client a =>
    let r := sys.client.step a
    ({ sys with
        client := r.1, toServer := sys.toServer ++ clientData link.server r.2 },
      r.2.map .client)
  | .server a =>
    let r := sys.server.step a
    ({ sys with
        server := r.1, toClient := sys.toClient ++ serverData link.client r.2 },
      r.2.map .server)

/-- The runs from a given system. -/
def machine (link : Link) (start : System cfg) : Machine (System cfg) Action Event where
  init := start
  next := next link

/-- The client only hears the server, and neither hears of the other what that has not sent. -/
def Carried (link : Link) (sys : System cfg) : Action → Prop
  | .client (.poll _ (some (sender, data))) => sender = link.server ∧ data ∈ sys.toClient
  | .server (.poll _ (some (sender, data))) => sender = link.client → data ∈ sys.toServer
  | _ => True

instance (link : Link) (sys : System cfg) : (a : Action) → Decidable (Carried link sys a)
  | .client (.poll _ (some _)) => inferInstanceAs (Decidable (_ ∧ _))
  | .server (.poll _ (some _)) => inferInstanceAs (Decidable (_ → _))
  | .client (.poll _ none) | .client (.call ..) | .client (.resume _) => .isTrue trivial
  | .server (.poll _ none) | .server (.call _) | .server (.handlerReturns _) => .isTrue trivial

-- ===========================================================================
-- What a step adds to the network
-- ===========================================================================

/-- The datagrams for a peer are those sent to it. -/
theorem mem_clientData {dest : Endpoint} {events : List ClientEvent} {data : Bytes} :
    data ∈ clientData dest events ↔ .sent dest data ∈ events := by
  unfold clientData
  rw [List.mem_filterMap]
  constructor
  · rintro ⟨e, he, hdata⟩
    cases e with
    | sent dest' data' =>
      dsimp only at hdata
      split at hdata
      · next hdest => rwa [← hdest, ← Option.some.inj hdata]
      · cases hdata
    | accepted | response | timeout | discovered => cases hdata
  · exact fun he => ⟨_, he, if_pos rfl⟩

theorem mem_serverData {dest : Endpoint} {events : List ServerEvent} {data : Bytes} :
    data ∈ serverData dest events ↔ .sent dest data ∈ events := by
  unfold serverData
  rw [List.mem_filterMap]
  constructor
  · rintro ⟨e, he, hdata⟩
    cases e with
    | sent dest' data' =>
      dsimp only at hdata
      split at hdata
      · next hdest => rwa [← hdest, ← Option.some.inj hdata]
      · cases hdata
    | handled | returned => cases hdata
  · exact fun he => ⟨_, he, if_pos rfl⟩

theorem serverData_nil (dest : Endpoint) : serverData dest [] = [] := rfl

theorem serverData_append (dest : Endpoint) (ev ev' : List ServerEvent) :
    serverData dest (ev ++ ev') = serverData dest ev ++ serverData dest ev' :=
  List.filterMap_append

end System

end PulseCoap
