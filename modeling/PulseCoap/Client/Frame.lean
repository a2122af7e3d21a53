import PulseCoap.Client.Spec

/-!
# PulseCoAP — steps that register nothing

Most of what the client does only takes entries away: a slot or a transaction
is freed, a discovery expires, a timer or a counter moves. `Narrows c c'` says
that every entry of `c'` is an entry of `c`; the lemmas say it of each such
operation, so that an invariant about the entries is kept by all of them for
one reason.

Two kinds of segments do more than that: an accepted call, and the two block
follow-ups, which start a transaction. `resume_cases` separates them from all
the others, and most invariants of the client are proved along it.
-/

namespace PulseCoap

namespace Client

open TransactionPool

variable {cfg : Config}

/-- `c'` has no active slot, discovery or waiting transaction that `c` has not. -/
structure Narrows (c c' : Client cfg) : Prop where
  slots        : ∀ i, (c'.slots i).pending.active = true →
    (c'.slots i).pending = (c.slots i).pending
  uploads      : ∀ i, (c'.slots i).pending.active = true → (c'.slots i).upload.active = true →
    (c.slots i).upload.active = true ∧ (c'.slots i).upload.token = (c.slots i).upload.token
  discovers    : ∀ i, (c'.discovers i).active = true → c'.discovers i = c.discovers i
  transactions : ∀ t, Awaiting (c'.transactions t) → Awaiting (c.transactions t) ∧
    (c'.transactions t).remote = (c.transactions t).remote ∧
    (c'.transactions t).messageId = (c.transactions t).messageId ∧
    (c'.transactions t).token = (c.transactions t).token ∧
    (c'.transactions t).owner = (c.transactions t).owner
  calls        : c'.calls = c.calls

/-- A slot that is active after is active before. -/
theorem Narrows.active {c c' : Client cfg} (n : Narrows c c') {i : Fin cfg.maxTransactions}
    (hi : (c'.slots i).pending.active = true) : (c.slots i).pending.active = true := by
  rw [← n.slots i hi]
  exact hi

/-- Nothing but fields outside the tables has changed. -/
theorem narrows_of_eq {c c' : Client cfg} (hs : c'.slots = c.slots)
    (hd : c'.discovers = c.discovers) (ht : c'.transactions = c.transactions)
    (hc : c'.calls = c.calls) : Narrows c c' where
  slots i _ := by rw [hs]
  uploads i _ hu := by
    rw [hs] at hu ⊢
    exact ⟨hu, rfl⟩
  discovers i _ := by rw [hd]
  transactions t ha := by
    rw [ht] at ha ⊢
    exact ⟨ha, rfl, rfl, rfl, rfl⟩
  calls := hc

theorem Narrows.refl (c : Client cfg) : Narrows c c := narrows_of_eq rfl rfl rfl rfl

theorem Narrows.trans {c c' c'' : Client cfg} (n : Narrows c c') (n' : Narrows c' c'') :
    Narrows c c'' where
  slots i hi := (n'.slots i hi).trans (n.slots i (n'.active hi))
  uploads i hi hu := by
    obtain ⟨hu', htok'⟩ := n'.uploads i hi hu
    obtain ⟨hu, htok⟩ := n.uploads i (n'.active hi) hu'
    exact ⟨hu, htok'.trans htok⟩
  discovers i hi := by
    have h' := n'.discovers i hi
    rw [h'] at hi ⊢
    exact n.discovers i hi
  transactions t ha := by
    obtain ⟨ha', hr', hm', htok', ho'⟩ := n'.transactions t ha
    obtain ⟨ha, hr, hm, htok, ho⟩ := n.transactions t ha'
    exact ⟨ha, hr'.trans hr, hm'.trans hm, htok'.trans htok, ho'.trans ho⟩
  calls := n'.calls.trans n.calls

/-- Writing one slot without registering anything there. -/
theorem narrows_setSlot (c : Client cfg) (i : Fin cfg.maxTransactions) {s : ClientSlot}
    (hp : s.pending.active = true → s.pending = (c.slots i).pending)
    (hu : s.pending.active = true → s.upload.active = true →
      (c.slots i).upload.active = true ∧ s.upload.token = (c.slots i).upload.token) :
    Narrows c { c with slots := c.slots.set i s } where
  slots j hj := by
    by_cases hji : j = i
    · subst hji
      simp only [Table.set_self] at hj ⊢
      exact hp hj
    · simp only [Table.set_ne _ _ hji]
  uploads j hj huj := by
    by_cases hji : j = i
    · subst hji
      simp only [Table.set_self] at hj huj ⊢
      exact hu hj huj
    · simp only [Table.set_ne _ _ hji] at huj ⊢
      exact ⟨huj, trivial⟩
  discovers _ _ := rfl
  transactions _ ha := ⟨ha, rfl, rfl, rfl, rfl⟩
  calls := rfl

/-- Writing one transaction without starting one. -/
theorem narrows_setTransaction (c : Client cfg) (i : Fin cfg.maxTransactions) {t : Transaction}
    (ht : Awaiting t → Awaiting (c.transactions i) ∧ t.remote = (c.transactions i).remote ∧
      t.messageId = (c.transactions i).messageId ∧ t.token = (c.transactions i).token ∧
      t.owner = (c.transactions i).owner) : Narrows c (c.setTransaction i t) where
  slots _ _ := rfl
  uploads _ _ hu := ⟨hu, rfl⟩
  discovers _ _ := rfl
  transactions j ha := by
    by_cases hji : j = i
    · subst hji
      simp only [setTransaction, Table.set_self] at ha ⊢
      exact ht ha
    · simp only [setTransaction, Table.set_ne _ _ hji] at ha ⊢
      exact ⟨ha, trivial, trivial, trivial, trivial⟩
  calls := rfl

/-! ## The operations -/

/-- The control is none of the tables. -/
theorem narrows_at (c : Client cfg) (k : Cont cfg) (inCallback : Bool) :
    Narrows c (c.at' k inCallback) := narrows_of_eq rfl rfl rfl rfl

/-- Nor is the counter of message IDs. -/
theorem narrows_withId (c : Client cfg) (id : UInt16) : Narrows c (c.withId id) :=
  narrows_of_eq rfl rfl rfl rfl

theorem narrows_atTime (c : Client cfg) (nowMs : UInt32) : Narrows c (c.atTime nowMs) :=
  narrows_of_eq rfl rfl rfl rfl

theorem narrows_release (c : Client cfg) (i : Fin cfg.maxTransactions) : Narrows c (c.release i) :=
  narrows_setSlot c i (fun ha => by cases ha) fun ha => by cases ha

/-- A slot is given up in the middle of a transfer. -/
theorem narrows_abandon (c : Client cfg) (i : Fin cfg.maxTransactions) : Narrows c (c.abandon i) :=
  narrows_setSlot c i (fun ha => by cases ha) fun ha => by cases ha

/-- The state of a transfer moves on within its slot. -/
theorem narrows_setBlocks (c : Client cfg) (i : Fin cfg.maxTransactions) {up : Block1UploadState}
    (hup : up.active = true → (c.slots i).upload.active = true)
    (htok : up.token = (c.slots i).upload.token) (recv : Block2RecvState) :
    Narrows c (c.setBlocks i up recv) :=
  narrows_setSlot c i (fun _ => rfl) fun _ hu => ⟨hup hu, htok⟩

/-- A slot is closed behind its handler, unless the response was a notification. -/
theorem narrows_close (c : Client cfg) (i : Fin cfg.maxTransactions) (fragmented : Bool) :
    Narrows c (c.close i fragmented) := by
  rw [close_eq]
  refine narrows_setSlot c i (fun ha => ?_) fun _ hu => ⟨hu, rfl⟩
  -- the slot is still active only if it observes, and then it is untouched
  cases ho : (c.slots i).pending.observing with
  | true => simp [closedSlot, ho]
  | false => simp [closedSlot, ho] at ha

/-- An ACK frees a transaction. -/
theorem narrows_completed (c : Client cfg) (remote : Endpoint) (messageId : UInt16) :
    Narrows c (c.completed remote messageId) := by
  rcases complete_cases c.transactions remote messageId with ⟨-, hc⟩ | ⟨i, -, hc⟩
  · exact narrows_of_eq rfl rfl hc rfl
  · have h := narrows_setTransaction c i (t := { c.transactions i with state := .free })
      fun ha => by cases ha
    unfold completed
    rw [hc]
    exact h

theorem narrows_freed (c : Client cfg) (i : Fin cfg.maxTransactions) : Narrows c (c.freed i) :=
  narrows_setTransaction c i fun ha => by cases ha

/-- A transaction is sent again and is the same but for its timer. -/
theorem narrows_resent {c : Client cfg} {i : Fin cfg.maxTransactions}
    (ha : Awaiting (c.transactions i)) : Narrows c (c.resent i) :=
  narrows_setTransaction c i fun _ => ⟨ha, rfl, rfl, rfl, rfl⟩

/-- A discovery whose time is over. -/
theorem narrows_expireDiscovers (c : Client cfg) : Narrows c c.expireDiscovers where
  slots _ _ := rfl
  uploads _ _ hu := ⟨hu, rfl⟩
  discovers i hi := by
    simp only [expireDiscovers] at hi ⊢
    split at hi
    · cases hi
    · rename_i hlate
      rw [if_neg hlate]
  transactions _ ha := ⟨ha, rfl, rfl, rfl, rfl⟩
  calls := rfl

/-- A refused call registers nothing. -/
theorem Refused.narrows {c c' : Client cfg} (r : Refused c c') : Narrows c c' where
  slots i hi := by
    rcases r.slots i with heq | ⟨-, hoff⟩
    · rw [heq]
    · rw [hoff] at hi
      cases hi
  uploads i hi hu := by
    rcases r.slots i with heq | ⟨-, hoff⟩
    · rw [heq] at hu ⊢
      exact ⟨hu, rfl⟩
    · rw [hoff] at hi
      cases hi
  discovers i _ := by rw [r.discovers]
  transactions t ha := by
    rw [r.transactions] at ha ⊢
    exact ⟨ha, rfl, rfl, rfl, rfl⟩
  calls := r.calls

/-! ## The segments of `poll` -/

/-- Nor does a callback by itself; its calls are steps of their own. -/
theorem narrows_fireTimeout (c : Client cfg) (call : Call) (ctx : Option Ref) (k : Cont cfg) :
    Narrows c (c.fireTimeout call ctx k).1 := by
  rw [fireTimeout_eq]
  exact narrows_at ..

/-- Nor does the dispatch of a response. -/
theorem narrows_dispatchResponse (c : Client cfg) (sender : Endpoint) (msg : Message) :
    Narrows c (c.dispatchResponse sender msg).1 := by
  rcases dispatchResponse_cases c sender msg with ⟨i, -, heq⟩ | ⟨i, -, -, heq⟩ | ⟨-, -, heq⟩
  · rw [heq]
    exact narrows_at ..
  · rw [heq]
    obtain ⟨up, recv, hup, htok, hp⟩ := dispatchPending_cases c i sender msg
    have hblocks := narrows_setBlocks c i hup htok recv
    rcases hp with ⟨-, -, hp⟩ | ⟨-, hp⟩ | ⟨res, fragmented, hp⟩
    · rw [hp]
      exact hblocks.trans (narrows_at ..)
    · rw [hp]
      exact hblocks.trans (narrows_at ..)
    · rw [hp, fireResponse_eq]
      exact hblocks.trans (narrows_at ..)
  · rw [heq]
    exact narrows_at ..

theorem narrows_handleReset (c : Client cfg) (sender : Endpoint) (messageId : UInt16) :
    Narrows c (c.handleReset sender messageId).1 := by
  have hdone := narrows_completed c sender messageId
  rcases handleReset_cases c sender messageId with heq | ⟨t, i, -, -, heq⟩
  · rw [heq]
    exact hdone.trans (narrows_at ..)
  · rw [heq]
    exact (hdone.trans (narrows_release _ i)).trans (narrows_fireTimeout ..)

/-- A poll up to its first cut registers nothing. -/
theorem narrows_poll (c : Client cfg) (nowMs : UInt32) (rx : Option (Endpoint × Bytes)) :
    Narrows c (c.poll nowMs rx).1 := by
  have htime := narrows_atTime c nowMs
  rcases poll_cases c nowMs rx with heq | ⟨sender, data, msg, -, -, heq⟩
  · rw [heq]
    exact htime.trans (narrows_at ..)
  rw [heq]
  rcases handleMessage_cases (c.atTime nowMs) sender msg with ⟨-, hm⟩ | ⟨c', hc', hm⟩
  · rw [hm]
    exact htime.trans (narrows_handleReset ..)
  have hc : Narrows c c' := by
    rcases hc' with rfl | rfl
    · exact htime
    · exact htime.trans (narrows_completed ..)
  rcases hm with hm | hm
  · rw [hm]
    exact hc.trans (narrows_at ..)
  · rw [hm]
    exact hc.trans (narrows_at ..)

/-- Nor does an entry of the scan. -/
theorem narrows_tickAt (c : Client cfg) (i : Fin cfg.maxTransactions) (sendOk : Bool) :
    Narrows c (c.tickAt i sendOk).1 := by
  rcases tickAt_cases c i sendOk with ⟨-, heq⟩ | ⟨ha, -, -, heq⟩ | ⟨-, -, -, heq⟩
  · rw [heq]
    exact narrows_at ..
  · rw [heq]
    exact (narrows_resent ha).trans (narrows_at ..)
  rw [heq]
  have hfree := narrows_freed c i
  rcases timeoutTrampoline_cases (c.freed i) (c.transactions i).token
    (c.transactions i).owner (.tick (i + 1)) with ⟨j, -, ht⟩ | ⟨-, ht⟩
  · rw [ht]
    exact (hfree.trans (narrows_release _ j)).trans (narrows_fireTimeout ..)
  · rw [ht]
    exact hfree.trans (narrows_fireTimeout ..)

/-- **Only a further block adds an entry.** Any other segment of `poll` narrows: it frees
entries and adds none. -/
theorem resume_cases (c : Client cfg) (k : Cont cfg) (sendOk : Bool) :
    Narrows c (c.resume k sendOk).1 ∨
      (∃ i buf, k = .block1 i ∧ c.block1Datagram (c.slots i).upload sendOk = some buf ∧
        (c.resume k sendOk).1 = (c.block1Sent i buf).at' .expire false) ∨
      (∃ i buf, k = .block2 i ∧ c.block2Datagram i sendOk = some buf ∧
        (c.resume k sendOk).1 = (c.block2Sent i buf).at' .expire false) := by
  cases k with
  | dispatch sender msg => exact .inl (narrows_dispatchResponse c sender msg)
  | block1 i =>
    -- a slot given up narrows; a block sent is the second case
    rcases continueUpload_cases c i sendOk with ⟨-, id, heq⟩ | ⟨buf, hd, heq⟩
    · refine .inl ?_
      show Narrows c (c.continueUpload i sendOk).1
      rw [heq]
      exact ((narrows_withId c id).trans (narrows_abandon _ i)).trans (narrows_fireTimeout ..)
    · refine .inr (.inl ⟨i, buf, rfl, hd, ?_⟩)
      show (c.continueUpload i sendOk).1 = _
      rw [heq]
  | block2 i =>
    rcases resumeBlock2_cases c i sendOk with ⟨-, heq⟩ | ⟨buf, hd, heq⟩
    · refine .inl ?_
      rw [heq]
      exact (narrows_withId c _).trans (narrows_at ..)
    · refine .inr (.inr ⟨i, buf, rfl, hd, ?_⟩)
      rw [heq]
  | close i fragmented call => exact .inl ((narrows_close c i fragmented).trans (narrows_at ..))
  | expire => exact .inl ((narrows_expireDiscovers c).trans (narrows_at ..))
  | tick index =>
    refine .inl ?_
    rw [resume_tick]
    split
    · exact narrows_tickAt ..
    · exact narrows_of_eq rfl rfl rfl rfl
  | ret => exact .inl (narrows_of_eq rfl rfl rfl rfl)

end Client

end PulseCoap
