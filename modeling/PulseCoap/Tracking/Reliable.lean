import PulseCoap.Tracking.Client
import PulseCoap.Tracking.Server
import PulseCoap.Client.Correlation

/-!
# PulseCoAP — every Confirmable datagram is tracked while the pool has room

Both sides hand each Confirmable datagram they send for the first time to
`TransactionPool::start`, without a look at its result. The pool has
`PULSECOAP_MAX_TRANSACTIONS` slots; the tables that lead to a Confirmable
message are freed at other times, and on the server they are larger.

The result of `start` is an index or -1, and `sendRequest`, `sendBlock1`,
`sendBlock2Request`, `notify` and `respond` all go on without it. The condition
of `tracked_iff` is on the pool before the call; it is `callOut`, computed from
the state before, that tells how many datagrams there will be.

* `tracked_iff` — what is sent is tracked exactly when the pool has room.
* `not_tracked` — four answered requests leave no slot for the fifth.
-/

namespace PulseCoap

open TransactionPool

variable {cfg : Config}

/-- After this call every Confirmable datagram it has sent is tracked. -/
def Client.CallTracked (c : Client cfg) (sendOk : Bool) (call : ClientCall) : Prop :=
  ∀ d ∈ confirmableSent (c.call sendOk call).2.2, (c.call sendOk call).1.transactions.Tracks d

/-- `poll` is about to send a block follow-up. -/
def Client.AtFollowUp (c : Client cfg) (k : Cont cfg) : Prop :=
  (∃ i, k = .block1 i ∨ k = .block2 i) ∧ ∃ b, c.control = .polling k b

/-- After the block follow-up it is tracked. -/
def Client.FollowUpTracked (c : Client cfg) (sendOk : Bool) (k : Cont cfg) : Prop :=
  ∀ d ∈ confirmableSent (c.resume k sendOk).2, (c.resume k sendOk).1.transactions.Tracks d

/-- After this call every Confirmable datagram it has sent is tracked. -/
def Server.CallTracked (s : Server cfg) (call : ServerCall) : Prop :=
  ∀ d ∈ confirmableSent (s.call call).2.2, (s.call call).1.txPool.Tracks d

/-- A call of the client sends one Confirmable datagram at most. -/
theorem Client.callOut_nodup (c : Client cfg) (sendOk : Bool) (call : ClientCall) :
    (c.callOut sendOk call).Nodup := by
  have hissue : ∀ (c : Client cfg) a, (c.issueOut a sendOk).Nodup := by
    intro c a
    unfold issueOut
    split
    · exact List.nodup_nil
    · split
      · rename_i i _ _
        cases c.issueDatagram i a sendOk with
        | none => exact List.nodup_nil
        | some buf => exact List.nodup_singleton _
      · exact List.nodup_nil
  unfold callOut
  split
  · exact hissue c _
  · split
    · exact List.nodup_nil
    · exact hissue _ _
  · exact List.nodup_nil
  · exact List.nodup_nil

theorem Client.followUpOut_nodup (c : Client cfg) (sendOk : Bool) (k : Cont cfg) :
    (c.followUpOut sendOk k).Nodup := by
  unfold followUpOut
  split
  · rename_i i
    cases c.block1Datagram (c.slots i).upload sendOk with
    | none => exact List.nodup_nil
    | some buf => exact List.nodup_singleton _
  · rename_i i
    cases c.block2Datagram i sendOk with
    | none => exact List.nodup_nil
    | some buf => exact List.nodup_singleton _
  · exact List.nodup_nil

/-- **Confirmable datagrams are tracked exactly when there is room.** For every
client and every server reached in a run: the Confirmable datagrams of a call,
or of a block follow-up, are all tracked on return if and only if those beyond
the free slots of the pool were tracked before. -/
theorem tracked_iff (cfg : Config) :
    (∀ h c, (Client.machine cfg).Run (fun _ _ => True) h c →
      (∀ sendOk call,
        c.CallTracked sendOk call ↔ c.transactions.RoomFor (c.callOut sendOk call)) ∧
      ∀ sendOk k, c.AtFollowUp k →
        (c.FollowUpTracked sendOk k ↔ c.transactions.RoomFor (c.followUpOut sendOk k))) ∧
    ∀ h s, (Server.machine cfg).Run (fun _ _ => True) h s →
      ∀ call, s.CallTracked call ↔ s.txPool.RoomFor (s.callOut call) := by
  refine ⟨fun h c r => ⟨fun sendOk call => ?_, fun sendOk k hk => ?_⟩, fun h s r call => ?_⟩
  · obtain ⟨hstarts, hsent⟩ := c.call_starts sendOk call
    unfold Client.CallTracked
    rw [hsent]
    exact hstarts.tracks_iff (c.callOut_nodup sendOk call)
  · have t := Client.tokensFit_of_run r
    obtain ⟨⟨i, hk⟩, b, hctl⟩ := hk
    -- a further block is requested for an active slot, whose token has one byte
    have hfollow : (∃ i, k = .block1 i) ∨
        ∃ i, k = .block2 i ∧ (c.slots i).pending.token.length ≤ kMaxTokenLen := by
      rcases hk with hk | hk
      · exact .inl ⟨i, hk⟩
      · rw [hk] at hctl
        have hone := t.token i (t.asks i b hctl).2
        exact .inr ⟨i, hk, by rw [hone]; decide⟩
    obtain ⟨hstarts, hsent⟩ := c.followUp_starts sendOk hfollow
    unfold Client.FollowUpTracked
    rw [hsent]
    exact hstarts.tracks_iff (c.followUpOut_nodup sendOk k)
  · obtain ⟨hstarts, hsent⟩ := Server.call_starts (Server.tokensFit_of_run r) call
    unfold Server.CallTracked
    rw [hsent]
    exact hstarts.tracks_iff (s.callOut_nodup call)

namespace Client

instance (c : Client cfg) (sendOk : Bool) (call : ClientCall) :
    Decidable (c.CallTracked sendOk call) := inferInstanceAs (Decidable (∀ _ ∈ _, _))

/-- A Confirmable `get`. -/
def getA : ClientCall := .get localServer pathA none none true

theorem tracked_iff_getA :
    (∀ sendOk call,
        ((machine .default).next {} (.call getA true)).1.CallTracked sendOk call ↔
          ((machine .default).next {} (.call getA true)).1.transactions.RoomFor
            (((machine .default).next {} (.call getA true)).1.callOut sendOk call)) ∧
      ((Server.machine .default).init.CallTracked (.notify pathA [] .textPlain true) ↔
        (Server.machine .default).init.txPool.RoomFor
          ((Server.machine .default).init.callOut (.notify pathA [] .textPlain true))) :=
  ⟨((tracked_iff .default).1 _ _ (Machine.Run.start.step trivial)).1,
    (tracked_iff .default).2 _ _ .start _⟩

/-- A `get` under token and message ID `b`, and its answer in a message of its
own. -/
def exchangeNon (b : UInt8) : List Action :=
  [.call getA true, .poll 0 (some (localServer, [0x51, 0x45, 0x00, b, b, 0xFF, 0x2A]))] ++
    List.replicate 8 (.resume true)

/-- **The fifth request is not tracked.** The answers have given back the
slots of the requests, not those of their transactions. -/
theorem not_tracked : ¬ ∀ h c, (machine .default).Run (fun _ _ => True) h c →
    ∀ sendOk call, (c.call sendOk call).2.1 = true → c.CallTracked sendOk call := by
  intro hall
  have r := Machine.Run.start.exec (Machine.meets_of_forall (M := machine .default)
    (P := fun _ _ => True) (fun _ _ => trivial) (machine .default).init
    (exchangeNon 1 ++ exchangeNon 2 ++ exchangeNon 3 ++ exchangeNon 4))
  have htracked := hall _ _ r true getA (by decide +kernel)
  exact absurd htracked (by decide +kernel)

end Client

end PulseCoap
