import PulseCoap.Codec.Header
import PulseCoap.Client.Spec

/-!
# PulseCoAP — which datagrams the pool tracks

`TransactionPool::start` refuses when every slot is taken, and no caller looks
at its result. `Starts pool ds pool'` says that the datagrams `ds` were handed
to `start` one after the other.

A datagram counts as tracked if some transaction has its remote, its bytes and
the message ID in these bytes; two transactions for one datagram would do as
well. So a datagram that was tracked before it is sent once more stays tracked
when there is no room for it, and `RoomFor` says how much room the others need.

* `Tracks` — some transaction waits for the ACK of a datagram.
* `Starts.tracks_iff` — all of them are tracked afterwards exactly when those
  beyond the free slots were tracked before.
-/

namespace PulseCoap

/-- A destination and the bytes. -/
abbrev Datagram := Endpoint × Bytes

/-- The datagram is a Confirmable message. -/
def IsConfirmable (d : Datagram) : Prop := datagramType d.2 = some .confirmable

instance (d : Datagram) : Decidable (IsConfirmable d) := inferInstanceAs (Decidable (_ = _))

variable {cfg : Config}

/-! ## Headers -/

/-- The datagram has this type and message ID, and `start` takes its length. -/
structure Header (cfg : Config) (type : MessageType) (messageId : UInt16) (buf : Bytes) :
    Prop where
  type   : datagramType buf = some type
  id     : datagramId buf = some messageId
  length : buf.length ≤ cfg.maxMsgSize

/-- The first lines of every request. -/
def opened (type : MessageType) (messageId : UInt16) (token : Bytes) (code : Code) : Message :=
  (((Message.reset.setType type).setMessageId messageId).setToken token).1.setCode code

/-- A token is cut to the eight bytes of its array. -/
theorem opened_token (type : MessageType) (messageId : UInt16) (token : Bytes) (code : Code) :
    (opened type messageId token code).token.length ≤ kMaxTokenLen := by
  unfold opened Message.setToken
  split
  · exact Nat.zero_le _
  · rename_i hlen
    exact Nat.not_lt.1 hlen

/-- What is built behind these lines is sent under their type and message ID. -/
theorem header_of_opened {type : MessageType} {messageId : UInt16} (token : Bytes) (code : Code)
    {m : Message} (hm : Message.SameHeader (opened type messageId token code) m) {buf : Bytes}
    (henc : m.encode cfg.maxMsgSize = .ok buf) : Header cfg type messageId buf := by
  have htype : m.type = type := by
    rw [hm.type]
    unfold opened Message.setToken
    split <;> rfl
  have hid : m.messageId = messageId := by
    rw [hm.messageId]
    unfold opened Message.setToken
    split <;> rfl
  have htoken : m.token.length ≤ kMaxTokenLen := by
    rw [hm.token]
    exact opened_token ..
  refine ⟨?_, ?_, (Message.encode_ok henc).2⟩
  · rw [Message.encode_type henc htoken, htype]
  · rw [Message.encode_id henc, hid]

/-- A datagram is confirmable if its header says so. -/
theorem isConfirmable_iff {type : MessageType} {messageId : UInt16} {buf : Bytes}
    (h : Header cfg type messageId buf) (dest : Endpoint) :
    IsConfirmable (dest, buf) ↔ type = .confirmable := by
  unfold IsConfirmable
  rw [h.type, Option.some.injEq]

/-- The client's tokens have one byte. -/
theorem oneByte_fits (b : UInt8) : [b].length ≤ kMaxTokenLen := by
  rw [List.length_singleton]
  decide

namespace TransactionPool

/-! ## Tracking -/

/-- A transaction with that remote, the message ID in these bytes and exactly
these bytes waits for its ACK. -/
def Tracks (pool : TransactionPool cfg) (d : Datagram) : Prop :=
  ∃ i, Awaiting (pool i) ∧ (pool i).remote = d.1 ∧ datagramId d.2 = some (pool i).messageId ∧
    (pool i).message = d.2

instance (pool : TransactionPool cfg) (d : Datagram) : Decidable (pool.Tracks d) :=
  inferInstanceAs (Decidable (∃ _, _))

/-- How many slots are free. -/
def freeSlots (pool : TransactionPool cfg) : Nat := pool.count fun t => t.state = .free

/-- Every datagram beyond the free slots is tracked already. -/
def RoomFor (pool : TransactionPool cfg) (ds : List Datagram) : Prop :=
  ∀ d ∈ ds.drop pool.freeSlots, pool.Tracks d

/-- `start` was called for each datagram in turn. -/
inductive Starts : TransactionPool cfg → List Datagram → TransactionPool cfg → Prop where
  | done (pool : TransactionPool cfg) : Starts pool [] pool
  | start {pool pool' : TransactionPool cfg} {remote : Endpoint} {messageId : UInt16}
      {token data : Bytes} {nowMs : UInt32} {owner : Call} {ds : List Datagram}
      (htoken : token.length ≤ kMaxTokenLen) (hlen : data.length ≤ cfg.maxMsgSize)
      (hid : datagramId data = some messageId)
      (rest : Starts (pool.start remote messageId token data nowMs owner).1 ds pool') :
      Starts pool ((remote, data) :: ds) pool'

/-! ## One `start` -/

/-- A full pool takes no transaction. -/
theorem start_full {pool : TransactionPool cfg} (hfull : pool.freeSlots = 0) (remote : Endpoint)
    (messageId : UInt16) (token message : Bytes) (nowMs : UInt32) (owner : Call) :
    (pool.start remote messageId token message nowMs owner).1 = pool := by
  rcases start_cases pool remote messageId token message nowMs owner with h | ⟨i, hi, -⟩
  · exact h
  · have hpos := Table.count_pos (p := fun t : Transaction => t.state = .free) hi
    unfold freeSlots at hfull
    omega

/-- With a free slot, `start` takes it. -/
theorem start_room {pool : TransactionPool cfg} (hroom : 0 < pool.freeSlots) (remote : Endpoint)
    (messageId : UInt16) {token message : Bytes} (htoken : token.length ≤ kMaxTokenLen)
    (hlen : message.length ≤ cfg.maxMsgSize) (nowMs : UInt32) (owner : Call) :
    ∃ i, (pool i).state = .free ∧ (pool.start remote messageId token message nowMs owner).1 =
      pool.set i (started cfg remote messageId token message nowMs owner) := by
  obtain ⟨i, hi⟩ : ∃ i, (pool i).state = .free := by
    unfold freeSlots Table.count at hroom
    obtain ⟨i, hi⟩ := Finset.card_pos.1 hroom
    exact ⟨i, (Finset.mem_filter.1 hi).2⟩
  obtain ⟨j, hj⟩ := Table.find?_isSome (p := fun t : Transaction => t.state == .free)
    (t := pool) (i := i) (by simpa using hi)
  refine ⟨j, by simpa using Table.find?_spec hj, ?_⟩
  unfold start
  rw [if_neg (by omega), if_neg (by omega), hj]
  rfl

theorem awaiting_started (cfg : Config) (remote : Endpoint) (messageId : UInt16)
    (token message : Bytes) (nowMs : UInt32) (owner : Call) :
    Awaiting (started cfg remote messageId token message nowMs owner) := rfl

/-- Writing a free slot adds what is written there. -/
theorem tracks_set {pool : TransactionPool cfg} {i : Fin cfg.maxTransactions}
    (hi : (pool i).state = .free) {t : Transaction} (ht : Awaiting t) (d : Datagram) :
    Tracks (pool.set i t) d ↔ pool.Tracks d ∨
      (t.remote = d.1 ∧ datagramId d.2 = some t.messageId ∧ t.message = d.2) := by
  constructor
  · rintro ⟨j, hj⟩
    by_cases hji : j = i
    · subst hji
      rw [Table.set_self] at hj
      exact .inr hj.2
    · rw [Table.set_ne _ _ hji] at hj
      exact .inl ⟨j, hj⟩
  · rintro (⟨j, hj⟩ | hd)
    · -- a free slot is not the one that waits
      have hji : j ≠ i := by
        rintro rfl
        rw [Awaiting, hi] at hj
        cases hj.1
      exact ⟨j, by rwa [Table.set_ne _ _ hji]⟩
    · exact ⟨i, by rw [Table.set_self]; exact ⟨ht, hd⟩⟩

/-! ## A list of them -/

/-- **One datagram** handed to `start`: tracked if there was a free entry. Message ID, remote
and bytes are those of the datagram. -/
theorem starts_one {pool : TransactionPool cfg} {type : MessageType} {messageId : UInt16}
    {buf token : Bytes} (h : Header cfg type messageId buf) (htoken : token.length ≤ kMaxTokenLen)
    (remote : Endpoint) (nowMs : UInt32) (owner : Call) :
    Starts pool [(remote, buf)] (pool.start remote messageId token buf nowMs owner).1 :=
  .start htoken h.length h.id (.done _)

theorem Starts.append {pool pool' pool'' : TransactionPool cfg} {ds ds' : List Datagram}
    (h : Starts pool ds pool') (h' : Starts pool' ds' pool'') : Starts pool (ds ++ ds') pool'' := by
  induction h with
  | done pool => exact h'
  | start htoken hlen hid rest ih => exact .start htoken hlen hid (ih h')

/-- A full pool stays as it is. -/
theorem Starts.full {pool pool' : TransactionPool cfg} {ds : List Datagram}
    (h : Starts pool ds pool') (hfull : pool.freeSlots = 0) : pool' = pool := by
  induction h with
  | done pool => rfl
  | start htoken hlen hid rest ih =>
    rw [start_full hfull] at ih
    exact ih hfull

/-- What is tracked stays tracked. -/
theorem Starts.keeps {pool pool' : TransactionPool cfg} {ds : List Datagram}
    (h : Starts pool ds pool') {d : Datagram} (hd : pool.Tracks d) : pool'.Tracks d := by
  induction h with
  | done pool => exact hd
  | start htoken hlen hid rest ih =>
    refine ih ?_
    rename_i pool _ remote messageId token data nowMs owner _
    rcases start_cases pool remote messageId token data nowMs owner with heq | ⟨i, hi, heq⟩
    · rwa [heq]
    · rw [heq]
      exact (tracks_set hi (awaiting_started ..) d).2 (.inl hd)

/-- **What `start` makes of a list of datagrams**: all of them are tracked exactly when there is
a free entry for each one. The datagrams are different, so none is counted for another. -/
theorem Starts.tracks_iff {pool pool' : TransactionPool cfg} {ds : List Datagram}
    (h : Starts pool ds pool') (hnodup : ds.Nodup) :
    (∀ d ∈ ds, pool'.Tracks d) ↔ pool.RoomFor ds := by
  induction h with
  | done pool => exact iff_of_true (fun _ hd => nomatch hd) fun _ hd => by simp at hd
  | start htoken hlen hid rest ih =>
    rename_i pool pool' remote messageId token data nowMs owner ds
    obtain ⟨hhead, hnodup⟩ := List.nodup_cons.1 hnodup
    rcases Nat.eq_zero_or_pos pool.freeSlots with hfull | hroom
    · -- nothing is started any more
      rw [start_full hfull] at rest
      unfold RoomFor
      rw [rest.full hfull, hfull]
      rfl
    obtain ⟨i, hi, heq⟩ := start_room hroom remote messageId htoken hlen nowMs owner
    rw [heq] at ih rest
    have hcount : freeSlots (pool.set i (started cfg remote messageId token data nowMs owner)) + 1 =
        pool.freeSlots :=
      Table.count_set_off (p := fun t : Transaction => t.state = .free) hi (by simp [started])
    have hnew : Tracks (pool.set i (started cfg remote messageId token data nowMs owner))
        (remote, data) := (tracks_set hi (awaiting_started ..) _).2 (.inr ⟨rfl, hid, rfl⟩)
    have hsplit : (∀ d ∈ (remote, data) :: ds, pool'.Tracks d) ↔ ∀ d ∈ ds, pool'.Tracks d := by
      constructor
      · intro h d hd
        exact h d (List.mem_cons_of_mem _ hd)
      · intro h d hd
        rcases List.mem_cons.1 hd with rfl | hd
        · exact rest.keeps hnew
        · exact h d hd
    rw [hsplit, ih hnodup]
    unfold RoomFor
    rw [← hcount, List.drop_succ_cons]
    refine forall₂_congr fun d hd => ?_
    rw [tracks_set hi (awaiting_started ..) d]
    constructor
    · rintro (h | ⟨hremote, -, hmessage⟩)
      · exact h
      · -- `d` would be the datagram just started
        exact absurd (List.mem_of_mem_drop hd) (by
          rw [show d = (remote, data) from Prod.ext hremote.symm hmessage.symm]
          exact hhead)
    · exact .inl

end TransactionPool

end PulseCoap
