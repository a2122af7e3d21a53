import PulseCoap.Server.Frame
import PulseCoap.Tracking.Server

/-!
# PulseCoAP — what holds of the server's tables

The observers, the upload sessions and the pool are arrays that a dozen branches
write, some with values from the wire. `TablesOk` is what holds of them in every
state a server can reach: the entries are found by keys that are keys, what they
refer to exists, and the numbers the code goes on to compute with stay in range.

Each table gets a structure of its own, and each branch that writes the table a
lemma for that structure. `BackedOff` compares a timeout with the
retransmissions so far, in 32 bits. What the numbers are bounded for
is the code behind them: an index of a resource must fit a byte, and the length
of a body its buffer.

* `Observing`, `Uploading`, `BackedOff` — the invariant of each table, with what
  one step preserves.
* `tables_of_run` — every state of every run.
-/

namespace PulseCoap

namespace Server

open TransactionPool

variable {cfg : Config}

/-- The initial timeout of a transaction. It is a function of the message ID, so it can be
computed again from the entry. -/
def initialTimeoutOf (cfg : Config) (t : Transaction) : UInt32 :=
  computeInitialTimeoutMs cfg t.messageId.toUInt32

/-- The tables are in order: keys are unique, indices point to something, and counters are
within their ranges. -/
structure TablesOk (s : Server cfg) : Prop where
  /-- No two active observers have the same remote and token. -/
  observerKeys : s.observers.Keyed (fun o => o.active = true) fun o => (o.remote, o.token)
  /-- Their resource exists and is observable. -/
  named        : ∀ i, (s.observers i).active = true →
    ∃ h : (s.observers i).resourceIndex.toNat < s.resources.length,
      s.resources[(s.observers i).resourceIndex.toNat].observable = true
  tokens       : ∀ i, (s.observers i).active = true → (s.observers i).token.length ≤ 8
  /-- No two active sessions have the same remote and token. -/
  sessionKeys  : s.block1sessions.Keyed (fun b => b.active = true) fun b => (b.remote, b.token)
  expected     : ∀ i, (s.block1sessions i).active = true →
    1 ≤ (s.block1sessions i).nextExpectedNum.toNat ∧
      (s.block1sessions i).nextExpectedNum.toNat ≤ 2 ^ 20
  held         : ∀ i, (s.block1sessions i).active = true →
    (s.block1sessions i).buffer.length ≤ cfg.block1MaxBody
  /-- The number echoed for a block out of turn is a block number. -/
  echoed       : ∀ i, (s.block1sessions i).active = true →
    ((s.block1sessions i).nextExpectedNum - 1).toNat + 1 =
        (s.block1sessions i).nextExpectedNum.toNat ∧
      ((s.block1sessions i).nextExpectedNum - 1).toNat < 2 ^ 20
  retries      : ∀ i, Awaiting (s.txPool i) → (s.txPool i).retriesSent ≤ cfg.maxRetransmit
  /-- In the arithmetic of `uint32_t`. -/
  timeout      : ∀ i, Awaiting (s.txPool i) → (s.txPool i).currentTimeoutMs =
    initialTimeoutOf cfg (s.txPool i) * 2 ^ (s.txPool i).retriesSent
  /-- And in numbers, wherever the product is one. -/
  timeoutMs    : ∀ i, Awaiting (s.txPool i) →
    (initialTimeoutOf cfg (s.txPool i)).toNat * 2 ^ (s.txPool i).retriesSent < 2 ^ 32 →
    (s.txPool i).currentTimeoutMs.toNat =
      (initialTimeoutOf cfg (s.txPool i)).toNat * 2 ^ (s.txPool i).retriesSent

/-! ## The observers -/

/-- Observers have keys and refer to observable resources. The index in an entry is a byte, and
the bound on the resources makes it enough. -/
structure Observing (s : Server cfg) : Prop where
  keyed  : s.observers.Keyed (fun o => o.active = true) fun o => (o.remote, o.token)
  named  : ∀ i, (s.observers i).active = true →
    ∃ r, s.resources[(s.observers i).resourceIndex.toNat]? = some r ∧ r.observable = true
  length : s.resources.length ≤ cfg.maxResources

/-- No entry is new, and no resource is lost. Most steps are of this kind. -/
theorem Observing.moves {s s' : Server cfg} (h : s.Observing)
    (hobs : ∀ i, ObserverMoves (s.observers i) (s'.observers i))
    (hres : Continues s.resources s'.resources) (hlen : s'.resources.length ≤ cfg.maxResources) :
    s'.Observing := by
  refine ⟨h.keyed.mono fun i ha => ?_, fun i ha => ?_, hlen⟩
  · obtain ⟨hold, hrem, htok, -⟩ := hobs i ha
    exact ⟨hold, by rw [hrem, htok]⟩
  · obtain ⟨hold, -, -, hidx⟩ := hobs i ha
    obtain ⟨r, hr, hobservable⟩ := h.named i hold
    obtain ⟨r', hr', hsame⟩ := hres _ r hr
    exact ⟨r', by rw [hidx]; exact hr', hsame.trans hobservable⟩

/-- The fields it is about. -/
theorem Observing.congr {s s' : Server cfg} (h : s.Observing)
    (hobs : s'.observers = s.observers) (hres : s'.resources = s.resources) : s'.Observing := by
  refine h.moves (fun i => ?_) ?_ ?_
  · rw [hobs]
    exact .refl _
  · rw [hres]
    exact .refl _
  · rw [hres]
    exact h.length

/-- A registration keeps the table keyed: an entry with its key is the one it
writes. -/
theorem Observing.register {s : Server cfg} (h : s.Observing) {t : Target}
    (ht : s.resources[t.index]? = some t.resource) (hobservable : t.resource.observable = true)
    (remote : Endpoint) (token : Bytes) (messageId : UInt16) :
    ((s.registerObserver (UInt8.ofNat t.index) remote token).noteReply remote token
      messageId).Observing := by
  rcases s.register_cases (UInt8.ofNat t.index) remote token messageId with ⟨i, hi, heq⟩ |
    ⟨-, -, heq⟩
  · rw [heq]
    have hindex : (UInt8.ofNat t.index).toNat = t.index := by
      obtain ⟨hlt, -⟩ := List.getElem?_eq_some_iff.1 ht
      have hres := cfg.resources_lt
      have hlen := h.length
      rw [UInt8.toNat_ofNat']
      omega
    refine ⟨h.keyed.set fun j hji hj hkey => ?_, fun j hj => ?_, h.length⟩
    · obtain ⟨hrem, htok⟩ : (s.observers j).remote = remote ∧ (s.observers j).token = token :=
        Prod.mk.inj hkey
      have hmatch : observes remote token (s.observers j) = true := observes_iff.2 ⟨hj, hrem, htok⟩
      rcases hi with hf | ⟨hf, -⟩
      · -- the entry that is refreshed has this key already
        obtain ⟨hact, hrem', htok'⟩ := observes_iff.1 (Table.find?_spec hf)
        exact hji (h.keyed j i hj hact (by dsimp only; rw [hrem, htok, hrem', htok']))
      · rw [Table.find?_eq_none.1 hf j] at hmatch
        cases hmatch
    · by_cases hji : j = i
      · subst hji
        refine ⟨t.resource, ?_, hobservable⟩
        show s.resources[((s.observers.set j _) j).resourceIndex.toNat]? = _
        rw [Table.set_self]
        show s.resources[(UInt8.ofNat t.index).toNat]? = _
        rw [hindex]
        exact ht
      · have hset : (s.observers.set i (registered (s.observers i) (UInt8.ofNat t.index) remote
            token messageId)) j = s.observers j := Table.set_ne _ _ hji
        have hj' : (s.observers j).active = true := by rw [← hset]; exact hj
        show ∃ r, s.resources[((s.observers.set i _) j).resourceIndex.toNat]? = some r ∧ _
        rw [hset]
        exact h.named j hj'
  · rw [heq]
    exact h

/-- A registration is for a resource that is in the table, because the request was matched to it
in the same step. -/
theorem Observing.handleObserve {s : Server cfg} (h : s.Observing) {t : Target}
    (ht : s.resources[t.index]? = some t.resource) (msg : Message) (sender : Endpoint) :
    (s.handleObserve t msg sender).1.Observing := by
  rcases s.handleObserve_cases t msg sender with ⟨hreg, heq⟩ | ⟨-, heq⟩ | ⟨-, -, heq⟩
  · rw [heq]
    exact h.register ht hreg.1 sender msg.token msg.messageId
  · rw [heq]
    exact h.moves (s.removeObserver_moves sender msg.token) (.refl _) h.length
  · rw [heq]
    exact h

/-- A datagram keeps the entries in order: it registers, deregisters, rejects a notification, or
leaves them alone. -/
theorem Observing.receive {s : Server cfg} (h : s.Observing) (rx : Option (Endpoint × Bytes)) :
    (s.receive rx).1.Observing := by
  rcases s.receive_cases rx with heq | ⟨sender, data, msg, -, -, -, heq⟩ |
    ⟨sender, data, msg, -, -, -, heq⟩ | ⟨sender, data, msg, -, -, -, heq⟩
  · rw [heq]
    exact h
  · rw [heq]
    obtain ⟨obs, hobs⟩ := s.handleReset_spec sender msg.messageId
    refine h.moves (s.handleReset_moves sender msg.messageId) ?_ ?_
    · rw [hobs]
      exact .refl _
    · rw [hobs]
      exact h.length
  · rw [heq]
    exact h.congr rfl rfl
  · rw [heq]
    rcases s.keepsTables_request msg sender with ⟨-, hk⟩ | ⟨t, had, hk⟩
    · exact h.congr hk.observers hk.resources
    · obtain ⟨path, -, hfind⟩ := admitted_path had
      exact (h.handleObserve (findTarget_index hfind) msg sender).congr hk.observers hk.resources

/-- **What one step preserves**, for the observers: no two have one remote and token, and each
is under a resource of the table. -/
theorem Observing.step {s : Server cfg} (h : s.Observing) (a : Action) : (s.step a).1.Observing := by
  cases a with
  | call call =>
    obtain ⟨hres, hlen⟩ := s.call_resources call h.length
    exact h.moves (s.call_observers call) hres hlen
  | poll nowMs rx =>
    have hscanned : (s.scanned nowMs).Observing := by
      refine h.moves (s.scanned_observers nowMs) ?_ ?_
      · rw [scanned_resources]
        exact .refl _
      · rw [scanned_resources]
        exact h.length
    cases hctl : s.control with
    | idle =>
      rw [step_poll_state hctl]
      exact hscanned.receive rx
    | handling hd =>
      rw [step_poll_busy hctl]
      exact h
  | handlerReturns res =>
    unfold Server.step
    dsimp only
    split
    · exact h
    · rename_i hd _
      have hk := keepsTables_finish { s with control := .idle } hd res
      exact h.congr hk.observers hk.resources

/-! ## The upload sessions -/

/-- Sessions have keys, and count and hold what they have accepted. A session is opened with its
first block, so it never expects block 0. -/
structure Uploading (s : Server cfg) : Prop where
  keyed    : s.block1sessions.Keyed (fun b => b.active = true) fun b => (b.remote, b.token)
  expected : ∀ i, (s.block1sessions i).active = true →
    1 ≤ (s.block1sessions i).nextExpectedNum.toNat ∧
      (s.block1sessions i).nextExpectedNum.toNat ≤ 2 ^ 20
  held     : ∀ i, (s.block1sessions i).active = true →
    (s.block1sessions i).buffer.length ≤ cfg.block1MaxBody

/-- Sessions stay as they are or are closed. A closed one has nothing to satisfy. -/
theorem Uploading.closes {s s' : Server cfg} (h : s.Uploading)
    (hsess : ∀ i, s'.block1sessions i = s.block1sessions i ∨
      (s'.block1sessions i).active = false) : s'.Uploading := by
  have hkept : ∀ i, (s'.block1sessions i).active = true →
      s'.block1sessions i = s.block1sessions i := by
    intro i ha
    rcases hsess i with heq | hidle
    · exact heq
    · rw [hidle] at ha
      cases ha
  refine ⟨h.keyed.mono fun i ha => ?_, fun i ha => ?_, fun i ha => ?_⟩
  · rw [← hkept i ha]
    exact ⟨ha, rfl⟩
  · have hold := hkept i ha
    rw [hold] at ha ⊢
    exact h.expected i ha
  · have hold := hkept i ha
    rw [hold] at ha ⊢
    exact h.held i ha

theorem Uploading.congr {s s' : Server cfg} (h : s.Uploading)
    (hsess : s'.block1sessions = s.block1sessions) : s'.Uploading :=
  h.closes fun i => .inl (by rw [hsess])

/-- A block that a session takes is the next one, and there are 2^20 numbers, so the counter
does not wrap; a body that would not fit closes the session instead. -/
theorem Uploading.takes {s : Server cfg} (h : s.Uploading) {opt : CoapOption} {b1 : BlockOption}
    (hb1 : BlockOption.fromOption opt = some b1) {i : Fin cfg.maxBlock1Sessions} {b : Block1Session}
    {t : Target} {msg : Message} {sender : Endpoint} {r : Server cfg × List ServerEvent}
    (htakes : s.TakesBlock b1 i b t msg sender r) : r.1.Uploading := by
  obtain ⟨hmeets, hnum, htakes, hfits⟩ := htakes
  obtain ⟨hrem, htok, -⟩ := hmeets.owner
  have hlt := BlockOption.fromOption_num hb1
  -- in all outcomes it is one session that is written, closed or one block longer
  obtain ⟨b', hset, hkey, hnext⟩ : ∃ b', r.1.block1sessions = s.block1sessions.set i b' ∧
      (b'.remote = sender ∧ b'.token = msg.token) ∧
      (b'.active = true → b'.nextExpectedNum = b.nextExpectedNum + 1) := by
    rcases htakes with ⟨hset, -⟩ | ⟨-, hset, -⟩ | ⟨-, -, hset | hset⟩
    · exact ⟨_, hset, ⟨hrem, htok⟩, nofun⟩
    · exact ⟨_, hset, ⟨hrem, htok⟩, fun _ => rfl⟩
    · exact ⟨_, hset, ⟨hrem, htok⟩, fun _ => rfl⟩
    · exact ⟨_, hset, ⟨hrem, htok⟩, nofun⟩
  have hother : ∀ {j}, j ≠ i → r.1.block1sessions j = s.block1sessions j := by
    intro j hji
    rw [hset, Table.set_ne _ _ hji]
  have hself : r.1.block1sessions i = b' := by rw [hset, Table.set_self]
  refine ⟨?_, fun j hj => ?_, fun j hj => ?_⟩
  · rw [hset]
    refine h.keyed.set fun j hji hj hkey' => ?_
    obtain ⟨hjrem, hjtok⟩ : (s.block1sessions j).remote = b'.remote ∧
      (s.block1sessions j).token = b'.token := Prod.mk.inj hkey'
    have hmatch : ((s.block1sessions j).active && (s.block1sessions j).remote == sender &&
        (s.block1sessions j).token == msg.token) = true := by
      simp [hj, hjrem, hjtok, hkey.1, hkey.2]
    rcases hmeets with ⟨hf, -⟩ | ⟨hf, -, -⟩
    · obtain ⟨hact, hrem', htok'⟩ := findBlock1Session_spec hf
      refine hji (h.keyed j i hj hact ?_)
      dsimp only
      rw [hjrem, hjtok, hkey.1, hkey.2, hrem', htok']
    · rw [Table.find?_eq_none.1 hf j] at hmatch
      cases hmatch
  · by_cases hji : j = i
    · subst hji
      rw [hself] at hj ⊢
      have h1 : (1 : UInt32).toNat = 1 := rfl
      rw [hnext hj, ← hnum, UInt32.toNat_add, h1]
      omega
    · rw [hother hji] at hj ⊢
      exact h.expected j hj
  · by_cases hji : j = i
    · subst hji
      exact hfits hj
    · rw [hother hji] at hj ⊢
      exact h.held j hj

/-- **A datagram keeps the sessions in order**: a new one is opened only if there is none for
the remote and token. -/
theorem Uploading.receive {s : Server cfg} (h : s.Uploading) (rx : Option (Endpoint × Bytes)) :
    (s.receive rx).1.Uploading := by
  rcases s.receive_cases rx with heq | ⟨sender, data, msg, -, -, -, heq⟩ |
    ⟨sender, data, msg, -, -, -, heq⟩ | ⟨sender, data, msg, -, -, -, heq⟩
  · rw [heq]
    exact h
  · obtain ⟨obs, hobs⟩ := s.handleReset_spec sender msg.messageId
    rw [heq, hobs]
    exact h.congr rfl
  · rw [heq]
    exact h.congr rfl
  rcases s.handleRequest_cases msg sender with ⟨-, code, hr⟩ | ⟨t, -, hr⟩
  · obtain ⟨⟨id, hid⟩, -⟩ := s.justReplies_error msg sender code
    rw [heq, hr, hid]
    exact h.congr rfl
  rw [heq, hr]
  rcases s.handleTarget_cases t msg sender with ⟨-, obs, hrun⟩ | ⟨opt, -, hrun⟩
  · obtain ⟨hsess, -⟩ := runHandler_sessions (s.withObservers obs) t msg sender
      (s.handleObserve t msg sender).2 none
    rw [hrun]
    exact h.congr (hsess.elim id id)
  · rw [hrun]
    rcases s.handleBlock1_cases opt t msg sender none with ⟨hsess, -⟩ | ⟨b1, i, b, hb1, htakes⟩
    · exact h.congr hsess
    · exact h.takes hb1 htakes

/-- **What one step preserves**, for the sessions; of the steps only a poll and the return of a
handler change them. -/
theorem Uploading.step {s : Server cfg} (h : s.Uploading) (a : Action) : (s.step a).1.Uploading := by
  cases a with
  | call call => exact h.congr (s.call_keeps call).sessions
  | poll nowMs rx =>
    have hscanned : (s.scanned nowMs).Uploading := h.congr (s.scanned_sessions nowMs)
    cases hctl : s.control with
    | idle =>
      rw [step_poll_state hctl]
      exact hscanned.receive rx
    | handling hd =>
      rw [step_poll_busy hctl]
      exact h
  | handlerReturns res =>
    unfold Server.step
    dsimp only
    split
    · exact h
    · rename_i hd _
      obtain ⟨⟨id, hstate⟩, -⟩ := finish_spec { s with control := .idle } hd res
      refine h.closes fun i => ?_
      rw [hstate]
      cases hd.session with
      | none => exact .inl rfl
      | some j =>
        by_cases hij : i = j
        · subst hij
          refine .inr ?_
          show ((s.block1sessions.set i _) i).active = false
          rw [Table.set_self]
        · exact .inl (Table.set_ne _ _ hij)

/-! ## The pool -/

/-- A transaction has backed off once for each of its retries, and there were no more than the
build allows. -/
def BackedOff (cfg : Config) (t : Transaction) : Prop :=
  Awaiting t → t.retriesSent ≤ cfg.maxRetransmit ∧
    t.currentTimeoutMs = initialTimeoutOf cfg t * 2 ^ t.retriesSent

/-- A transaction that begins has its first timeout, and has not been sent again. One that goes
on is untouched. -/
theorem backedOff_begins {now : UInt32} {t t' : Transaction} (h : BackedOff cfg t)
    (hb : Begins cfg now t t') : BackedOff cfg t' := by
  rcases hb with rfl | ⟨-, remote, messageId, token, message, rfl⟩
  · exact h
  · intro _
    refine ⟨Nat.zero_le _, ?_⟩
    show computeInitialTimeoutMs cfg messageId.toUInt32 =
      computeInitialTimeoutMs cfg messageId.toUInt32 * 2 ^ 0
    rw [UInt32.pow_zero, UInt32.mul_one]

/-- One that is sent again has twice the timeout. One that is given up has none any more. -/
theorem backedOff_tick {now : UInt32} {t : Transaction} (h : BackedOff cfg t) :
    BackedOff cfg (tickSlot cfg now t).1 := by
  rcases tickSlot_cases cfg now t with ⟨heq, -⟩ | ⟨ha, -, hretry, heq⟩ | ⟨-, -, -, heq⟩
  · rw [heq]
    exact h
  · obtain ⟨-, htimeout⟩ := h ha
    rw [heq]
    intro _
    refine ⟨hretry, ?_⟩
    show t.currentTimeoutMs * 2 = initialTimeoutOf cfg t * 2 ^ (t.retriesSent + 1)
    rw [htimeout, UInt32.pow_succ, UInt32.mul_assoc]
  · rw [heq]
    exact nofun

/-- **What one step preserves**, for the pool: a resend doubles the timeout and counts, and a
new entry starts with the first one. -/
theorem backedOff_step {s : Server cfg} (h : ∀ i, BackedOff cfg (s.txPool i)) (a : Action)
    (i : Fin cfg.maxTransactions) : BackedOff cfg ((s.step a).1.txPool i) := by
  cases a with
  | call call => exact backedOff_begins (h i) (s.call_begins call i)
  | poll nowMs rx =>
    unfold Server.step
    dsimp only
    split
    · have hscan : BackedOff cfg ((s.scanned nowMs).txPool i) := by
        rw [scanned_pool]
        exact backedOff_tick (h i)
      show BackedOff cfg (((s.scanned nowMs).receive rx).1.txPool i)
      rcases ((s.scanned nowMs).receive_pool rx).2 i with heq | hfree
      · rw [heq]
        exact hscan
      · exact fun ha => absurd ha hfree
    · exact h i
  | handlerReturns res =>
    unfold Server.step
    dsimp only
    split
    · exact h i
    · rename_i hd _
      have hk := keepsTables_finish { s with control := .idle } hd res
      rw [hk.txPool]
      exact h i

/-- A product of words that is a word is the product of the numbers. -/
theorem toNat_mul_two_pow {a : UInt32} {k : Nat} (h : a.toNat * 2 ^ k < 2 ^ 32) :
    (a * 2 ^ k).toNat = a.toNat * 2 ^ k := by
  induction k with
  | zero => rw [UInt32.pow_zero, UInt32.mul_one, Nat.pow_zero, Nat.mul_one]
  | succ k ih =>
    have hk : a.toNat * 2 ^ k * 2 < 2 ^ 32 := by rw [Nat.mul_assoc, ← Nat.pow_succ]; exact h
    have h2 : (2 : UInt32).toNat = 2 := rfl
    rw [UInt32.pow_succ, ← UInt32.mul_assoc, UInt32.toNat_mul, ih (by omega), h2,
      Nat.mod_eq_of_lt hk, Nat.mul_assoc, ← Nat.pow_succ]

/-! ## Every run -/

/-- **The tables are in order.** In every state of every run, between two operations and while a
handler runs; the bytes of the datagrams are arbitrary. -/
theorem tables_of_run {P : Server cfg → Action → Prop} {hist : List ServerEvent} {s : Server cfg}
    (r : (machine cfg).Run P hist s) : s.TablesOk := by
  -- one invariant for each table
  have hobs : s.Observing := r.invariant (I := fun _ s => s.Observing)
    ⟨fun _ _ h => (nomatch h), fun _ h => (nomatch h), Nat.zero_le _⟩ fun _ h _ => h.step _
  have hup : s.Uploading := r.invariant (I := fun _ s => s.Uploading)
    ⟨fun _ _ h => (nomatch h), fun _ h => (nomatch h), fun _ h => (nomatch h)⟩
    fun _ h _ => h.step _
  have hempty : BackedOff cfg {} := fun (h : TransactionState.free = .awaitingAck) => nomatch h
  have hpool : ∀ i, BackedOff cfg (s.txPool i) :=
    r.invariant (I := fun _ s => ∀ i, BackedOff cfg (s.txPool i)) (fun _ => hempty)
      fun _ h _ => backedOff_step h _
  refine
    { observerKeys := hobs.keyed
      named := fun i ha => ?_
      tokens := fun i _ => (tokensFit_of_run r).observers i
      sessionKeys := hup.keyed
      expected := hup.expected
      held := hup.held
      echoed := fun i ha => ?_
      retries := fun i ha => (hpool i ha).1
      timeout := fun i ha => (hpool i ha).2
      timeoutMs := fun i ha hfits => ?_ }
  · obtain ⟨q, hq, hobservable⟩ := hobs.named i ha
    obtain ⟨hlt, rfl⟩ := List.getElem?_eq_some_iff.1 hq
    exact ⟨hlt, hobservable⟩
  · -- an active session has had its block 0
    obtain ⟨hone, hmax⟩ := hup.expected i ha
    have h1 : (1 : UInt32).toNat = 1 := rfl
    have hsub : ((s.block1sessions i).nextExpectedNum - 1).toNat =
        (s.block1sessions i).nextExpectedNum.toNat - 1 :=
      UInt32.toNat_sub_of_le _ _ (UInt32.le_iff_toNat_le.2 (by rw [h1]; exact hone))
    rw [hsub]
    omega
  · rw [(hpool i ha).2]
    exact toNat_mul_two_pow hfits

/-- A server with an observer that has been sent a Confirmable notification. -/
def notifyingActions : List Action :=
  [.call (.addResource (some [Uri.slash]) methodGet (some 0) none true),
    .poll 0 (some ({}, [0x41, 0x01, 0x00, 0x07, 0xA0, 0x60])), .handlerReturns {},
    .call (.notify [Uri.slash] [0x2A] .textPlain true)]

def notifyingServer : Server Config.default :=
  ((machine Config.default).exec [] {} notifyingActions).2

theorem tables_of_run_notifying :
    (notifyingServer.observers ⟨0, by decide⟩).active = true ∧
      Awaiting (notifyingServer.txPool ⟨0, by decide⟩) ∧ notifyingServer.TablesOk :=
  ⟨by decide +kernel, by decide +kernel,
    tables_of_run (Machine.Run.start.exec (Machine.meets_of_forall (P := fun _ _ => True)
      (fun _ _ => trivial) _ notifyingActions))⟩

end Server

end PulseCoap
