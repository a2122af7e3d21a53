import PulseCoap.Server.LastSent
import PulseCoap.Server.Matching
import PulseCoap.Server.Registration
import PulseCoap.Server.Sends

/-!
# PulseCoAP — what `notify` sends

The loop of `notify` goes over the observers once. Each observer of the resource
takes the next message ID, and its notification is sent if it fits; an ID whose
notification does not fit is used up.

The table does not change while the loop runs but for the ID that is noted in
each entry, so what an observer is sent depends on its place among those of the
resource alone. The sequence number is one for the whole call.

* `numbered` — the observers of the resource and the IDs they take.
* `notifyFrom_datagrams` — the datagrams are those of `numbered` that fit.
* `carried_numbered` — what an observer is sent.
-/

namespace PulseCoap

namespace Server

open Noting (notificationSize)

variable {cfg : Config}

/-! ## The loop -/

/-- The observers of the resource that are left, with the message IDs of their notifications. An
ID is drawn for each of them, before it is known whether the notification fits. -/
def numbered (observers : Table cfg.maxObservers Observer) (index : Nat) :
    (messageId : UInt16) → List (Fin cfg.maxObservers) → List (Fin cfg.maxObservers × UInt16)
  | _, [] => []
  | messageId, i :: rest =>
    if (observers i).active ∧ (observers i).resourceIndex = UInt8.ofNat index then
      (i, messageId) :: numbered observers index (messageId + 1) rest
    else numbered observers index messageId rest

/-- The datagram with the notification for an observer, if it fits. All of them share the
sequence number and the payload; the token is the entry's own. -/
def pushed (cfg : Config) (observers : Table cfg.maxObservers Observer) (sequence : UInt32)
    (payload : Bytes) (contentFormat : ContentFormat) (confirmable : Bool)
    (n : Fin cfg.maxObservers × UInt16) : Option (Endpoint × Bytes) :=
  (encoded cfg (notification cfg (observers n.1) n.2 sequence payload contentFormat
    confirmable)).map fun buf => ((observers n.1).remote, buf)

/-- One notification leaves of the observers all but the noted ID. It is written whether the
datagram goes out or not, for Confirmable and other notifications alike. -/
theorem notifyObserver_table (s : Server cfg) (i : Fin cfg.maxObservers) (sequence : UInt32)
    (payload : Bytes) (contentFormat : ContentFormat) (confirmable : Bool) :
    (s.notifyObserver i sequence payload contentFormat confirmable).1.observers =
        s.observers.set i { s.observers i with lastSentMessageId := s.nextMessageId } ∧
      (s.notifyObserver i sequence payload contentFormat confirmable).1.nextMessageId =
        s.nextMessageId + 1 := by
  unfold notifyObserver
  dsimp only
  split
  · exact ⟨rfl, rfl⟩
  · cases confirmable <;> exact ⟨rfl, rfl⟩

/-- The datagram for one observer, if it encodes. That the pool may be full makes no difference
to what is sent. -/
theorem notifyObserver_datagrams (s : Server cfg) (i : Fin cfg.maxObservers) (sequence : UInt32)
    (payload : Bytes) (contentFormat : ContentFormat) (confirmable : Bool) :
    datagrams (s.notifyObserver i sequence payload contentFormat confirmable).2 =
      (pushed cfg s.observers sequence payload contentFormat confirmable
        (i, s.nextMessageId)).toList := by
  unfold notifyObserver pushed
  dsimp only
  cases encoded cfg (notification cfg (s.observers i) s.nextMessageId sequence payload
    contentFormat confirmable) <;> rfl

/-- Neither depends on the noted IDs, so the loop may read the table as it was when `notify` was
called. -/
theorem numbered_congr {observers observers' : Table cfg.maxObservers Observer}
    (h : ∀ i, ∃ id, observers' i = { observers i with lastSentMessageId := id }) (index : Nat)
    (is : List (Fin cfg.maxObservers)) :
    ∀ id, numbered observers' index id is = numbered observers index id is := by
  induction is with
  | nil => exact fun _ => rfl
  | cons i is ih =>
    intro id
    obtain ⟨_, hi⟩ := h i
    rw [numbered, numbered, hi, ih, ih]

theorem pushed_congr {observers observers' : Table cfg.maxObservers Observer}
    (h : ∀ i, ∃ id, observers' i = { observers i with lastSentMessageId := id })
    (sequence : UInt32) (payload : Bytes) (contentFormat : ContentFormat) (confirmable : Bool) :
    pushed cfg observers' sequence payload contentFormat confirmable =
      pushed cfg observers sequence payload contentFormat confirmable := by
  funext n
  obtain ⟨_, hn⟩ := h n.1
  unfold pushed
  rw [hn]
  rfl

/-- **The loop sends the notifications that fit, in the order of the table**, each under an ID
of its own. One that does not fit takes an ID all the same. -/
theorem notifyFrom_datagrams (index : Nat) (sequence : UInt32) (payload : Bytes)
    (contentFormat : ContentFormat) (confirmable : Bool) (is : List (Fin cfg.maxObservers)) :
    ∀ s : Server cfg,
      datagrams (s.notifyFrom index sequence payload contentFormat confirmable is).2 =
        (numbered s.observers index s.nextMessageId is).filterMap
          (pushed cfg s.observers sequence payload contentFormat confirmable) := by
  induction is with
  | nil => exact fun _ => rfl
  | cons i is ih =>
    intro s
    unfold notifyFrom numbered
    by_cases hmine : (s.observers i).active = true ∧
        (s.observers i).resourceIndex = UInt8.ofNat index
    · rw [if_pos hmine, if_pos hmine]
      dsimp only
      obtain ⟨hobs, hid⟩ := s.notifyObserver_table i sequence payload contentFormat confirmable
      -- an entry that is notified notes the ID, which the later ones do not read
      have hsame : ∀ j, ∃ id,
          (s.notifyObserver i sequence payload contentFormat confirmable).1.observers j =
            { s.observers j with lastSentMessageId := id } := by
        intro j
        rw [hobs, Table.set_apply]
        split
        · rename_i hji
          exact ⟨s.nextMessageId, by rw [hji]⟩
        · exact ⟨(s.observers j).lastSentMessageId, rfl⟩
      rw [datagrams_append, ih, notifyObserver_datagrams, numbered_congr hsame,
        pushed_congr hsame, hid, List.filterMap_cons]
      cases pushed cfg s.observers sequence payload contentFormat confirmable
        (i, s.nextMessageId) <;> rfl
    · rw [if_neg hmine, if_neg hmine]
      exact ih s

/-! ## Who is numbered -/

/-- Who is numbered is an active observer of the resource, and the other way round. The index is
compared as a byte. -/
theorem mem_numbered {observers : Table cfg.maxObservers Observer} {index : Nat}
    {is : List (Fin cfg.maxObservers)} {i : Fin cfg.maxObservers} : ∀ {id : UInt16},
    i ∈ (numbered observers index id is).map Prod.fst ↔
      i ∈ is ∧ (observers i).active = true ∧
        (observers i).resourceIndex = UInt8.ofNat index := by
  induction is with
  | nil => exact ⟨(fun h => nomatch h), fun h => nomatch h.1⟩
  | cons j is ih =>
    intro id
    unfold numbered
    split
    · rename_i hmine
      rw [List.map_cons, List.mem_cons, List.mem_cons, ih]
      refine ⟨?_, ?_⟩
      · rintro (rfl | ⟨hi, h⟩)
        · exact ⟨.inl rfl, hmine⟩
        · exact ⟨.inr hi, h⟩
      · rintro ⟨rfl | hi, h⟩
        · exact .inl rfl
        · exact .inr ⟨hi, h⟩
    · rename_i hmine
      rw [List.mem_cons, ih]
      refine ⟨fun h => ⟨.inr h.1, h.2⟩, ?_⟩
      rintro ⟨rfl | hi, h⟩
      · exact absurd h hmine
      · exact ⟨hi, h⟩

/-- Nobody is numbered twice, because the loop comes to each entry once. -/
theorem numbered_nodup {observers : Table cfg.maxObservers Observer} {index : Nat}
    {is : List (Fin cfg.maxObservers)} (hnodup : is.Nodup) : ∀ id : UInt16,
    ((numbered observers index id is).map Prod.fst).Nodup := by
  induction is with
  | nil => exact fun _ => List.nodup_nil
  | cons i is ih =>
    intro id
    obtain ⟨hnew, hnodup⟩ := List.nodup_cons.1 hnodup
    unfold numbered
    split
    · exact List.nodup_cons.2 ⟨fun hmem => hnew (mem_numbered.1 hmem).1, ih hnodup _⟩
    · exact ih hnodup id

/-- The message IDs are drawn one after the other, from the counter of the server. -/
theorem numbered_ids (observers : Table cfg.maxObservers Observer) (index : Nat)
    (is : List (Fin cfg.maxObservers)) : ∀ id : UInt16, ∃ k ≤ is.length,
    (numbered observers index id is).map Prod.snd =
      (List.range k).map fun j => id + UInt16.ofNat j := by
  induction is with
  | nil => exact fun _ => ⟨0, Nat.le_refl 0, rfl⟩
  | cons i is ih =>
    intro id
    unfold numbered
    split
    · obtain ⟨k, hk, hids⟩ := ih (id + 1)
      refine ⟨k + 1, Nat.succ_le_succ hk, ?_⟩
      rw [List.map_cons, hids, List.range_succ_eq_map, List.map_cons, List.map_map]
      refine congrArg₂ List.cons (by simp) (List.map_congr_left fun j _ => ?_)
      show id + 1 + UInt16.ofNat j = id + UInt16.ofNat (j + 1)
      rw [Nat.add_comm j 1, UInt16.ofNat_add, UInt16.add_assoc]
      rfl
    · obtain ⟨k, hk, hids⟩ := ih id
      exact ⟨k, Nat.le_succ_of_le hk, hids⟩

/-- Fewer than 2^16 of them do not come round, and a table of observers is never that long. -/
theorem numbered_ids_nodup (observers : Table cfg.maxObservers Observer) (index : Nat)
    {is : List (Fin cfg.maxObservers)} (hlen : is.length ≤ 2 ^ 16) (id : UInt16) :
    ((numbered observers index id is).map Prod.snd).Nodup := by
  obtain ⟨k, hk, hids⟩ := numbered_ids observers index is id
  rw [hids]
  refine List.Nodup.map_on (fun a ha b hb hab => ?_) List.nodup_range
  rw [List.mem_range] at ha hb
  have hnat := congrArg UInt16.toNat hab
  simp only [UInt16.toNat_add, UInt16.toNat_ofNat'] at hnat
  omega

/-! ## What an observer is sent -/

/-- The datagrams for an observer, decoded: its remote and its token. This is what the client
can tell of them on the wire. -/
def carried (cfg : Config) (o : Observer) (ds : List (Endpoint × Bytes)) : List Message :=
  ds.filterMap fun d =>
    match Message.decode cfg d.2 with
    | (.none, m) => if d.1 = o.remote ∧ m.token = o.token then some m else none
    | _ => none

/-- The message IDs of what is sent, as the receiver reads them. -/
def sentIds (cfg : Config) (ds : List (Endpoint × Bytes)) : List UInt16 :=
  ds.map fun d => (Message.decode cfg d.2).2.messageId

/-- The Observe value of a message. -/
def observeOf (m : Message) : Option UInt32 :=
  (m.findOption OptionNumber.observe).map Message.optionAsUint

/-- A notification says what it was built from. The Observe option is there if the table has
room for any option at all. -/
theorem pushed_some {observers : Table cfg.maxObservers Observer}
    (ht : ∀ i, (observers i).token.length ≤ kMaxTokenLen) {sequence : UInt32} {payload : Bytes}
    {contentFormat : ContentFormat} {confirmable : Bool} {n : Fin cfg.maxObservers × UInt16}
    {d : Endpoint × Bytes}
    (h : pushed cfg observers sequence payload contentFormat confirmable n = some d) :
    ∃ m, Message.decode cfg d.2 = (.none, m) ∧ d.1 = (observers n.1).remote ∧
      m.token = (observers n.1).token ∧ m.messageId = n.2 ∧ m.payloadBytes = payload ∧
      (∀ v, observeOf m = some v → v = sequence) ∧
      ((observeOf m).isSome ↔ 1 ≤ cfg.maxOptions) := by
  have hcarries := carries_notification cfg (observers n.1) (ht n.1) n.2 sequence payload
    contentFormat confirmable
  obtain ⟨buf, henc, rfl⟩ := Option.map_eq_some_iff.1 h
  obtain ⟨-, rfl⟩ := (encoded_iff hcarries.built buf).1 henc
  obtain ⟨m, hdec, -, hid, htok, -, -, hpayload⟩ := hcarries.decodes
  have hm : m = (Message.decode cfg (Message.wire _)).2 := congrArg Prod.snd hdec.symm
  refine ⟨m, hdec, rfl, htok, hid, hpayload, fun v hv => ?_, ?_⟩
  · obtain ⟨o, ho, rfl⟩ := Option.map_eq_some_iff.1 hv
    rw [hm] at ho
    obtain ⟨v, hmem, hv'⟩ := hcarries.findOption ho
    rw [hv']
    -- the other option is Content-Format
    rcases List.mem_cons.1 hmem with hmem | hmem
    · exact congrArg Prod.snd hmem
    · have hnum := congrArg Prod.fst (List.mem_singleton.1 hmem)
      exact absurd hnum (by decide : OptionNumber.observe ≠ OptionNumber.contentFormat)
  · have hshows := hcarries.findObserve
    rw [← hm] at hshows
    rw [observeOf, Option.isSome_map, hshows, showsObserve]
    cases hmax : cfg.maxOptions with
    | zero => simp
    | succ k =>
      rw [List.take_succ_cons, List.any_cons]
      simp

/-- It is sent when it fits. The size is that of the header, the token, the two options and the
payload. -/
theorem pushed_isSome {observers : Table cfg.maxObservers Observer}
    (ht : ∀ i, (observers i).token.length ≤ kMaxTokenLen) (sequence : UInt32) (payload : Bytes)
    (contentFormat : ContentFormat) (confirmable : Bool) (n : Fin cfg.maxObservers × UInt16) :
    (pushed cfg observers sequence payload contentFormat confirmable n).isSome ↔
      notificationSize cfg (observers n.1) sequence payload contentFormat ≤ cfg.maxMsgSize := by
  have hcarries := carries_notification cfg (observers n.1) (ht n.1) n.2 sequence payload
    contentFormat confirmable
  have hsize := hcarries.size
  unfold pushed notificationSize
  rw [Option.isSome_map, Option.isSome_iff_exists, ← hsize]
  constructor
  · rintro ⟨buf, henc⟩
    exact ((encoded_iff hcarries.built buf).1 henc).1
  · intro hfits
    exact ⟨_, (encoded_iff hcarries.built _).2 ⟨hfits, rfl⟩⟩

/-- One entry of a list of pairs with different first components. -/
theorem filterMap_fst {α β γ : Type} {l : List (α × β)} (hnodup : (l.map Prod.fst).Nodup)
    {f : α × β → Option γ} {a : α} {b : β} (hmem : (a, b) ∈ l)
    (hother : ∀ p ∈ l, p.1 ≠ a → f p = none) : l.filterMap f = (f (a, b)).toList := by
  induction l with
  | nil => cases hmem
  | cons p l ih =>
    rw [List.map_cons, List.nodup_cons] at hnodup
    rw [List.filterMap_cons]
    rcases List.mem_cons.1 hmem with rfl | hmem
    · have hrest : l.filterMap f = [] := by
        refine List.filterMap_eq_nil_iff.2 fun q hq => ?_
        refine hother q (List.mem_cons_of_mem _ hq) fun hqa => hnodup.1 ?_
        exact List.mem_map.2 ⟨q, hq, hqa⟩
      rw [hrest]
      cases f (a, b) <;> rfl
    · have hpa : p.1 ≠ a := fun heq => hnodup.1 (by
        rw [heq]
        exact List.mem_map.2 ⟨(a, b), hmem, rfl⟩)
      rw [hother p (List.mem_cons_self ..) hpa]
      exact ih hnodup.2 hmem fun q hq => hother q (List.mem_cons_of_mem _ hq)

section

variable {observers : Table cfg.maxObservers Observer} {index : Nat} {id : UInt16}
  {sequence : UInt32} {payload : Bytes} {contentFormat : ContentFormat} {confirmable : Bool}
  (ht : ∀ i, (observers i).token.length ≤ kMaxTokenLen)
  (hkeyed : observers.Keyed (fun o => o.active = true) fun o => (o.remote, o.token))

include ht hkeyed

/-- **An observer of the resource is sent its own notification and no other.** Tokens and
remotes tell the observers apart. -/
theorem carried_numbered {i : Fin cfg.maxObservers} {k : UInt16}
    (hi : (i, k) ∈ numbered observers index id (List.finRange _))
    (hfits : notificationSize cfg (observers i) sequence payload contentFormat ≤
      cfg.maxMsgSize) :
    ∃ m, carried cfg (observers i) ((numbered observers index id (List.finRange _)).filterMap
        (pushed cfg observers sequence payload contentFormat confirmable)) = [m] ∧
      m.payloadBytes = payload ∧ (∀ v, observeOf m = some v → v = sequence) ∧
      ((observeOf m).isSome ↔ 1 ≤ cfg.maxOptions) := by
  have hactive : ∀ n ∈ numbered observers index id (List.finRange _),
      (observers n.1).active = true := fun n hn => (mem_numbered.1 (List.mem_map_of_mem hn)).2.1
  obtain ⟨d, hd⟩ := Option.isSome_iff_exists.1
    ((pushed_isSome ht sequence payload contentFormat confirmable (i, k)).2 hfits)
  obtain ⟨m, hdec, hdest, htok, -, hpayload, hvalue, hshown⟩ := pushed_some ht hd
  refine ⟨m, ?_, hpayload, hvalue, hshown⟩
  unfold carried
  rw [List.filterMap_filterMap, filterMap_fst (numbered_nodup (List.nodup_finRange _) id) hi]
  · rw [hd, Option.bind_some, hdec]
    dsimp only
    rw [if_pos ⟨hdest, htok⟩]
    rfl
  · -- another observer has another key
    intro n hn hne
    refine Option.bind_eq_none_iff.2 fun d' hd' => ?_
    obtain ⟨m', hdec', hdest', htok', -⟩ := pushed_some ht hd'
    rw [hdec']
    refine if_neg fun hsame => hne ?_
    exact hkeyed n.1 i (hactive n hn) (hactive (i, k) hi)
      (Prod.ext (hdest'.symm.trans hsame.1) (htok'.symm.trans hsame.2))

/-- What an observer is sent comes from its own entry: two entries with one remote and one token
do not exist. -/
theorem numbered_of_carried {i : Fin cfg.maxObservers} {m : Message}
    (hi : (observers i).active = true)
    (hm : m ∈ carried cfg (observers i)
      ((numbered observers index id (List.finRange _)).filterMap
        (pushed cfg observers sequence payload contentFormat confirmable))) :
    (observers i).resourceIndex = UInt8.ofNat index ∧
      notificationSize cfg (observers i) sequence payload contentFormat ≤ cfg.maxMsgSize ∧
      ((observeOf m).isSome ↔ 1 ≤ cfg.maxOptions) := by
  obtain ⟨d, hd, hmd⟩ := List.mem_filterMap.1 hm
  obtain ⟨n, hn, hpush⟩ := List.mem_filterMap.1 hd
  obtain ⟨m', hdec, hdest, htok, -, -, -, hshown⟩ := pushed_some ht hpush
  obtain ⟨-, hactive, hindex⟩ := mem_numbered.1 (List.mem_map_of_mem hn)
  rw [hdec] at hmd
  dsimp only at hmd
  split at hmd
  · rename_i hsame
    obtain rfl : m' = m := Option.some.inj hmd
    obtain rfl : n.1 = i := hkeyed n.1 i hactive hi
      (Prod.ext (hdest.symm.trans hsame.1) (htok.symm.trans hsame.2))
    refine ⟨hindex, ?_, hshown⟩
    exact (pushed_isSome ht sequence payload contentFormat confirmable n).1
      (Option.isSome_iff_exists.2 ⟨d, hpush⟩)
  · cases hmd

omit hkeyed

/-- The message IDs of the notifications are different. -/
theorem sentIds_nodup :
    (sentIds cfg ((numbered observers index id (List.finRange _)).filterMap
      (pushed cfg observers sequence payload contentFormat confirmable))).Nodup := by
  have hsub : ∀ l : List (Fin cfg.maxObservers × UInt16),
      (sentIds cfg (l.filterMap (pushed cfg observers sequence payload contentFormat
        confirmable))).Sublist (l.map Prod.snd) := by
    intro l
    induction l with
    | nil => exact List.Sublist.refl _
    | cons n l ih =>
      rw [List.filterMap_cons, List.map_cons]
      split
      · exact ih.cons _
      · rename_i d hd
        obtain ⟨m, hdec, -, -, hid, -⟩ := pushed_some ht hd
        rw [sentIds, List.map_cons, hdec, hid]
        exact ih.cons_cons _
  have hlen : (List.finRange cfg.maxObservers).length ≤ 2 ^ 16 := by
    have := cfg.observers_lt
    rw [List.length_finRange]
    omega
  exact (numbered_ids_nodup observers index hlen id).sublist (hsub _)

end

end Server

end PulseCoap
