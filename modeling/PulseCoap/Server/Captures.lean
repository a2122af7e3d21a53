import PulseCoap.Exchange.Buffer
import PulseCoap.Server.Template

/-!
# PulseCoAP — the captures in memory

The way of the captures from `matchTemplate` to a handler once more, on the
arrays they are kept in: `tmp` and `params` of `findResource`, `params_` of the
request. Each array notes the indices it is accessed at, and each string of an
entry the offsets it is stored to. What is behind an array is arbitrary.

The matcher stops storing at the end of the array and goes on counting, and the
count is all that the later loops look at.

`matchTemplate` fills `tmp`, `findResource` copies it to `params` entry by
entry, and `handleRequest` copies that to the request; all three loops run up to
the count. The count is a `uint8_t`, so a template with 256 captures more has
the same one, and the condition is on the count as the code has it. `Shows`
compares an array with a list of captures by what `strcmp` sees of the entries.

* `matchInto_spec` — the matcher stores inside, whatever the template.
* `handed_spec` — the arrays show what the lists of the model hold.
* `captures_inside_iff` — when the later loops stay inside.
* `EntryArray`, `EntryBuffer` — the arrays, with what they have been accessed at.
-/

namespace PulseCoap

namespace Resource

open Uri (slash OutBuffer)

variable {cfg : Config}

-- ===========================================================================
-- Arrays of entries
-- ===========================================================================

/-- `struct PathParamEntry` in memory. -/
structure EntryBuffer where
  name  : OutBuffer
  value : OutBuffer

/-- An array of entries with the memory behind it, and the indices it has been accessed at. -/
structure EntryArray where
  entries : Nat → EntryBuffer
  indices : List Nat := []

/-- What `= {}` makes of the two strings. -/
def EntryBuffer.zero : EntryBuffer where
  name  := { bytes := fun _ => 0 }
  value := { bytes := fun _ => 0 }

/-- `PathParamEntry[PULSECOAP_MAX_PATH_PARAMS]` where it is declared. -/
def EntryArray.fresh (cfg : Config) (behind : Nat → EntryBuffer) : EntryArray where
  entries i := if i < cfg.maxPathParams then EntryBuffer.zero else behind i

/-- `memcpy` of a name or a value, and its terminator. -/
def storeString (cfg : Config) (b : OutBuffer) (s : Bytes) : OutBuffer :=
  let nCopy := if s.length < cfg.maxPathParamLen - 1 then s.length else cfg.maxPathParamLen - 1
  (b.copy 0 (s.take nCopy)).write nCopy 0

/-- The stores to `params[i]` in `matchTemplate`. -/
def EntryArray.store (cfg : Config) (a : EntryArray) (i : Nat) (name value : Bytes) :
    EntryArray where
  entries j :=
    if j = i then
      { name := storeString cfg (a.entries i).name name
        value := storeString cfg (a.entries i).value value }
    else a.entries j
  indices := a.indices ++ [i]

/-- An access that stores nothing. -/
def EntryArray.read (a : EntryArray) (i : Nat) : EntryArray := { a with indices := a.indices ++ [i] }

/-- `dst[j] = src[j]`, on `src` and `dst`. -/
def assign (arrays : EntryArray × EntryArray) (j : Nat) : EntryArray × EntryArray :=
  (arrays.1.read j,
    { entries := fun k => if k = j then arrays.1.entries j else arrays.2.entries k
      indices := arrays.2.indices ++ [j] })

/-- `for (uint8_t j = 0; j < count; ++j) dst[j] = src[j]`. -/
def copyEntries (count : UInt8) (src dst : EntryArray) : EntryArray × EntryArray :=
  (List.range count.toNat).foldl assign (src, dst)

-- ===========================================================================
-- The code on them
-- ===========================================================================

/-- The loop of `matchTemplate`, with `params` in memory; `false` is its `return false`. -/
def matchInto (cfg : Config) : (fuel : Nat) → (tmpl path : Bytes) → EntryArray → UInt8 →
    Bool × EntryArray × UInt8
  | 0, _, _, params, count => (false, params, count)
  | _ + 1, [], [], params, count => (true, params, count)
  | _ + 1, [], _ :: _, params, count => (false, params, count)
  | fuel + 1, t :: tmpl, path, params, count =>
    if t = slash then
      match path with
      | p :: path =>
        if p = slash then matchInto cfg fuel tmpl path params count else (false, params, count)
      | [] => (false, params, count)
    else if path = [] then (false, params, count)
    else if t = colon then
      let value := segmentOf path
      if value = [] then (false, params, count)
      else
        let params :=
          if count.toNat < cfg.maxPathParams then
            params.store cfg count.toNat (segmentOf tmpl) value
          else params
        matchInto cfg fuel (afterSegment tmpl) (afterSegment path) params (count + 1)
    else if segmentOf (t :: tmpl) = segmentOf path then
      matchInto cfg fuel (afterSegment (t :: tmpl)) (afterSegment path) params count
    else (false, params, count)

/-- `tmp`, `params` and `req.params_` when the handler is called, and `req.paramCount_`. -/
structure Handed where
  tmp       : EntryArray
  params    : EntryArray
  reqParams : EntryArray
  count     : UInt8

/-- `handleRequest` from the return of `findResource` on: the copy to the request. -/
def handOn (cfg : Config) (behind : Nat → EntryBuffer) (tmp params : EntryArray) (count : UInt8) :
    Handed :=
  let copied := copyEntries count params (.fresh cfg behind)
  { tmp, params := copied.1, reqParams := copied.2, count }

/-- The second phase of `findResource` from index `i` on, and the copies. -/
def handTemplate (cfg : Config) (behind : Nat → EntryBuffer) (path : Bytes) :
    (i : Nat) → List Resource → Option (Nat × Handed)
  | _, [] => none
  | i, r :: rest =>
    if r.isTemplate then
      match matchInto cfg (r.path.length + 1) r.path path (.fresh cfg behind) 0 with
      | (true, tmp, count) =>
        let copied := copyEntries count tmp (.fresh cfg behind)
        some (i, handOn cfg behind copied.1 copied.2 count)
      | (false, _) => handTemplate cfg behind path (i + 1) rest
    else handTemplate cfg behind path (i + 1) rest

/-- `findResource` called by `handleRequest`, and what is handed to the handler. -/
def handed (cfg : Config) (behind : Nat → EntryBuffer) (resources : List Resource) (path : Bytes) :
    Option (Nat × Handed) :=
  match resources.findIdx? fun r => !r.isTemplate && r.path == path with
  | some i => some (i, handOn cfg behind (.fresh cfg behind) (.fresh cfg behind) 0)
  | none => handTemplate cfg behind path 0 resources

/-- What `strcmp` sees of a string of an entry. -/
def stringOf (cfg : Config) (b : OutBuffer) : Bytes :=
  Uri.cString ((List.range cfg.maxPathParamLen).map b.bytes)

/-- The loop of `pathParam` over the indices that are left. -/
def scanFrom (cfg : Config) (name : Bytes) : List Nat → EntryArray → EntryArray × Option Bytes
  | [], params => (params, none)
  | i :: rest, params =>
    if stringOf cfg (params.entries i).name = name then
      (params.read i, some (stringOf cfg (params.entries i).value))
    else scanFrom cfg name rest (params.read i)

/-- `Request::pathParam`. -/
def pathParamIn (cfg : Config) (h : Handed) (name : Bytes) : EntryArray × Option Bytes :=
  scanFrom cfg name (List.range h.count.toNat) h.reqParams

-- ===========================================================================
-- What has to hold
-- ===========================================================================

/-- A string that was stored inside its array, with a terminator in it. -/
def StringInside (cfg : Config) (b : OutBuffer) : Prop :=
  b.Within cfg.maxPathParamLen ∧ ∃ n < cfg.maxPathParamLen, b.bytes n = 0

/-- All accesses inside the array, and both strings of each entry inside theirs. -/
structure EntryArray.Inside (cfg : Config) (a : EntryArray) : Prop where
  indices : ∀ i ∈ a.indices, i < cfg.maxPathParams
  strings : ∀ i < cfg.maxPathParams,
    StringInside cfg (a.entries i).name ∧ StringInside cfg (a.entries i).value

/-- The captures are inside, and so is each scan for a name. -/
structure Handed.Inside (cfg : Config) (h : Handed) : Prop where
  count     : h.count.toNat ≤ cfg.maxPathParams
  tmp       : h.tmp.Inside cfg
  params    : h.params.Inside cfg
  reqParams : h.reqParams.Inside cfg
  scanned   : ∀ name, (pathParamIn cfg h name).1.Inside cfg

/-- The `':'` segments of a template. -/
def paramSegments (tmpl : Bytes) : Nat :=
  (tmpl.splitOn slash).countP fun t => t.head? = some colon

/-- The template that answers the path, if one does, has few enough of them. The count is a
`uint8_t`. -/
def FewParams (cfg : Config) (rs : List Resource) (path : Bytes) : Prop :=
  ∀ i r, FoundAt rs path i → rs[i]? = some r → r.isTemplate = true →
    paramSegments r.path % 256 ≤ cfg.maxPathParams

/-- The array holds the strings of these entries. -/
def Shows (a : EntryArray) (params : List PathParamEntry) : Prop :=
  ∀ i e, params[i]? = some e →
    (a.entries i).name.Holds (e.name ++ [0]) ∧ (a.entries i).value.Holds (e.value ++ [0])

-- ===========================================================================
-- One entry
-- ===========================================================================

/-- A buffer of zeros holds the empty string. -/
theorem StringInside.zero (hlen : 0 < cfg.maxPathParamLen) :
    StringInside cfg { bytes := fun _ => 0 } :=
  ⟨fun _ h => (nomatch h), 0, hlen, rfl⟩

/-- What is copied, and where the terminator goes. -/
theorem storeString_eq (cfg : Config) (b : OutBuffer) (s : Bytes) :
    ∃ n, n ≤ cfg.maxPathParamLen - 1 ∧ (s.take (cfg.maxPathParamLen - 1)).length = n ∧
      storeString cfg b s = (b.copy 0 (s.take (cfg.maxPathParamLen - 1))).write n 0 := by
  refine ⟨_, ?_, rfl, ?_⟩
  · rw [List.length_take]
    exact Nat.min_le_left _ _
  · unfold storeString
    rw [List.length_take]
    split
    · next hshort =>
      dsimp only
      rw [List.take_of_length_le (Nat.le_of_lt hshort), List.take_length,
        Nat.min_eq_right (Nat.le_of_lt hshort)]
    · next hlong => rw [Nat.min_eq_left (Nat.not_lt.1 hlong)]

/-- A string is stored inside its buffer, whatever its length. -/
theorem storeString_inside (hlen : 0 < cfg.maxPathParamLen) {b : OutBuffer}
    (h : b.Within cfg.maxPathParamLen) (s : Bytes) : StringInside cfg (storeString cfg b s) := by
  obtain ⟨n, hn, hcopied, heq⟩ := storeString_eq cfg b s
  have hlt : n < cfg.maxPathParamLen := by omega
  rw [heq]
  refine ⟨(h.copy ?_).write hlt 0, n, hlt, if_pos rfl⟩
  rw [hcopied]
  omega

/-- What is stored is the string, cut to its buffer, and a terminator. -/
theorem storeString_holds (b : OutBuffer) (s : Bytes) :
    (storeString cfg b s).Holds (s.take (cfg.maxPathParamLen - 1) ++ [0]) := by
  obtain ⟨n, -, hcopied, heq⟩ := storeString_eq cfg b s
  have hnothing : b.Holds [] := fun _ _ h => nomatch h
  have hheld : (b.copy 0 (s.take (cfg.maxPathParamLen - 1))).Holds
      (s.take (cfg.maxPathParamLen - 1)) := hnothing.copy
  rw [heq, ← hcopied]
  exact hheld.write 0

-- ===========================================================================
-- One access
-- ===========================================================================

/-- The entries of a fresh array are inside. -/
theorem inside_fresh (hlen : 0 < cfg.maxPathParamLen) (behind : Nat → EntryBuffer) :
    (EntryArray.fresh cfg behind).Inside cfg where
  indices _ h := nomatch h
  strings i hi := by
    have hzero : (EntryArray.fresh cfg behind).entries i = EntryBuffer.zero := if_pos hi
    rw [hzero]
    exact ⟨StringInside.zero hlen, StringInside.zero hlen⟩

/-- One more index. -/
theorem forall_indices {a : EntryArray} (h : a.Inside cfg) {i : Nat}
    (hi : i < cfg.maxPathParams) : ∀ j ∈ a.indices ++ [i], j < cfg.maxPathParams := by
  intro j hj
  rcases List.mem_append.1 hj with hold | hnew
  · exact h.indices j hold
  · rwa [List.mem_singleton.1 hnew]

/-- Storing a capture at an index of the array. -/
theorem EntryArray.Inside.store (hlen : 0 < cfg.maxPathParamLen) {a : EntryArray}
    (h : a.Inside cfg) {i : Nat} (hi : i < cfg.maxPathParams) (name value : Bytes) :
    (a.store cfg i name value).Inside cfg where
  indices := forall_indices h hi
  strings j hj := by
    unfold EntryArray.store
    dsimp only
    split
    · obtain ⟨hname, hvalue⟩ := h.strings i hi
      exact ⟨storeString_inside hlen hname.1 name, storeString_inside hlen hvalue.1 value⟩
    · exact h.strings j hj

theorem EntryArray.Inside.read {a : EntryArray} (h : a.Inside cfg) {i : Nat}
    (hi : i < cfg.maxPathParams) : (a.read i).Inside cfg where
  indices := forall_indices h hi
  strings := h.strings

/-- The entry that is stored is the one the list is given. -/
theorem Shows.store {a : EntryArray} {params : List PathParamEntry} (h : Shows a params) (i : Nat)
    (name value : Bytes) :
    Shows (a.store cfg i name value) (params.set i (paramEntry cfg name value)) := by
  intro j e hj
  unfold EntryArray.store
  dsimp only
  rw [List.getElem?_set] at hj
  by_cases hji : j = i
  · rw [if_pos hji.symm] at hj
    rw [if_pos hji]
    split at hj
    · cases hj
      exact ⟨storeString_holds _ _, storeString_holds _ _⟩
    · cases hj
  · rw [if_neg (Ne.symm hji)] at hj
    rw [if_neg hji]
    exact h j e hj

-- ===========================================================================
-- The matcher
-- ===========================================================================

/-- What the matcher comes to in memory, against what it comes to on lists. -/
def Mirrors (r : Option (List PathParamEntry × UInt8)) (m : Bool × EntryArray × UInt8) : Prop :=
  match r with
  | none => m.1 = false
  | some (params, count) => m.1 = true ∧ m.2.2 = count ∧ Shows m.2.1 params

/-- One pass over a template that is not at its end. -/
theorem matchInto_cons (fuel : Nat) (t : UInt8) (tmpl path : Bytes) (a : EntryArray)
    (count : UInt8) :
    matchInto cfg (fuel + 1) (t :: tmpl) path a count =
      if t = slash then
        match path with
        | p :: path =>
          if p = slash then matchInto cfg fuel tmpl path a count else (false, a, count)
        | [] => (false, a, count)
      else if path = [] then (false, a, count)
      else if t = colon then
        if segmentOf path = [] then (false, a, count)
        else
          matchInto cfg fuel (afterSegment tmpl) (afterSegment path)
            (if count.toNat < cfg.maxPathParams then
              a.store cfg count.toNat (segmentOf tmpl) (segmentOf path)
            else a)
            (count + 1)
      else if segmentOf (t :: tmpl) = segmentOf path then
        matchInto cfg fuel (afterSegment (t :: tmpl)) (afterSegment path) a count
      else (false, a, count) := rfl

/-- **The matcher in memory**: it comes to what it comes to on lists, and stores inside, whether
it matches or not. A store beyond the last entry is not made; only the count goes on. -/
theorem matchInto_spec (hlen : 0 < cfg.maxPathParamLen) : ∀ {fuel : Nat} {tmpl path : Bytes}
    {a : EntryArray} {params : List PathParamEntry} {count : UInt8},
    a.Inside cfg → Shows a params →
      (matchInto cfg fuel tmpl path a count).2.1.Inside cfg ∧
        Mirrors (matchFrom cfg fuel tmpl path params count)
          (matchInto cfg fuel tmpl path a count) := by
  intro fuel
  induction fuel with
  | zero => exact fun h _ => ⟨h, rfl⟩
  | succ fuel ih =>
    intro tmpl path a params count hinside hshows
    -- both scans take the same branch; what they store into is kept in step by the induction
    cases tmpl with
    | nil =>
      cases path with
      | nil => exact ⟨hinside, rfl, rfl, hshows⟩
      | cons p path => exact ⟨hinside, rfl⟩
    | cons t tmpl =>
      rw [matchFrom_cons, matchInto_cons]
      by_cases hslash : t = slash
      · rw [if_pos hslash, if_pos hslash]
        cases path with
        | nil => exact ⟨hinside, rfl⟩
        | cons p path =>
          dsimp only
          by_cases hp : p = slash
          · rw [if_pos hp, if_pos hp]
            exact ih hinside hshows
          · rw [if_neg hp, if_neg hp]
            exact ⟨hinside, rfl⟩
      rw [if_neg hslash, if_neg hslash]
      by_cases hempty : path = []
      · rw [if_pos hempty, if_pos hempty]
        exact ⟨hinside, rfl⟩
      rw [if_neg hempty, if_neg hempty]
      by_cases hcolon : t = colon
      · rw [if_pos hcolon, if_pos hcolon]
        by_cases hvalue : segmentOf path = []
        · rw [if_pos hvalue, if_pos hvalue]
          exact ⟨hinside, rfl⟩
        rw [if_neg hvalue, if_neg hvalue]
        -- there is an entry left for the capture
        by_cases hroom : count.toNat < cfg.maxPathParams
        · rw [if_pos hroom, if_pos hroom]
          exact ih (hinside.store hlen hroom _ _) (hshows.store _ _ _)
        · -- it stops storing, and goes on counting
          rw [if_neg hroom, if_neg hroom]
          exact ih hinside hshows
      rw [if_neg hcolon, if_neg hcolon]
      by_cases hsame : segmentOf (t :: tmpl) = segmentOf path
      · rw [if_pos hsame, if_pos hsame]
        exact ih hinside hshows
      · rw [if_neg hsame, if_neg hsame]
        exact ⟨hinside, rfl⟩

/-- The entries of a fresh array are empty. -/
theorem shows_fresh (cfg : Config) (behind : Nat → EntryBuffer) :
    Shows (.fresh cfg behind) (List.replicate cfg.maxPathParams {}) := by
  intro i e hi
  obtain ⟨hlt, he⟩ := List.getElem?_eq_some_iff.1 hi
  rw [List.length_replicate] at hlt
  rw [List.getElem_replicate] at he
  have hzero : (EntryArray.fresh cfg behind).entries i = EntryBuffer.zero := if_pos hlt
  have hholds : ({ bytes := fun _ => 0 } : OutBuffer).Holds [0] := by
    intro k v hk
    exact (List.mem_singleton.1 (List.mem_of_getElem? hk)).symm
  rw [hzero, ← he]
  exact ⟨hholds, hholds⟩

-- ===========================================================================
-- The copies and the scan
-- ===========================================================================

/-- What has been copied, index by index. -/
theorem assigned_entries : ∀ (js : List Nat) (arrays : EntryArray × EntryArray),
    (js.foldl assign arrays).1.entries = arrays.1.entries ∧
      ∀ k, (js.foldl assign arrays).2.entries k =
        if k ∈ js then arrays.1.entries k else arrays.2.entries k := by
  intro js
  induction js with
  | nil => exact fun arrays => ⟨rfl, fun k => (if_neg List.not_mem_nil).symm⟩
  | cons j js ih =>
    intro arrays
    obtain ⟨hsrc, hdst⟩ := ih (assign arrays j)
    refine ⟨hsrc, fun k => (hdst k).trans ?_⟩
    by_cases hk : k ∈ js
    · rw [if_pos hk, if_pos (List.mem_cons_of_mem _ hk)]
      rfl
    · rw [if_neg hk]
      show (if k = j then arrays.1.entries j else arrays.2.entries k) = _
      by_cases hkj : k = j
      · rw [if_pos hkj, if_pos (by rw [hkj]; exact List.mem_cons_self ..), hkj]
      · rw [if_neg hkj, if_neg (by rw [List.mem_cons]; exact not_or.2 ⟨hkj, hk⟩)]

/-- Copying the entries one by one, by induction over the indices. -/
theorem assigned_inside : ∀ {js : List Nat}, (∀ j ∈ js, j < cfg.maxPathParams) →
    ∀ {arrays : EntryArray × EntryArray}, arrays.1.Inside cfg → arrays.2.Inside cfg →
      (js.foldl assign arrays).1.Inside cfg ∧ (js.foldl assign arrays).2.Inside cfg := by
  intro js
  induction js with
  | nil => exact fun _ _ hsrc hdst => ⟨hsrc, hdst⟩
  | cons j js ih =>
    intro hjs arrays hsrc hdst
    have hj := hjs j (List.mem_cons_self ..)
    refine ih (fun k hk => hjs k (List.mem_cons_of_mem _ hk)) (hsrc.read hj)
      ⟨forall_indices hdst hj, fun k hk => ?_⟩
    have hentry : (assign arrays j).2.entries k =
        if k = j then arrays.1.entries j else arrays.2.entries k := rfl
    rw [hentry]
    by_cases hkj : k = j
    · rw [if_pos hkj]
      exact hsrc.strings j hj
    · rw [if_neg hkj]
      exact hdst.strings k hk

/-- The indices of a loop up to a count that is small enough. -/
theorem range_inside {count : UInt8} (h : count.toNat ≤ cfg.maxPathParams) :
    ∀ j ∈ List.range count.toNat, j < cfg.maxPathParams :=
  fun _ hj => Nat.lt_of_lt_of_le (List.mem_range.1 hj) h

/-- The copy of as many entries as there are captures. -/
theorem copied_inside {count : UInt8} (h : count.toNat ≤ cfg.maxPathParams) {src dst : EntryArray}
    (hsrc : src.Inside cfg) (hdst : dst.Inside cfg) :
    (copyEntries count src dst).1.Inside cfg ∧ (copyEntries count src dst).2.Inside cfg :=
  assigned_inside (range_inside h) hsrc hdst

/-- The destination shows what the source shows, up to the count. -/
theorem Shows.copied {src : EntryArray} {params : List PathParamEntry} (h : Shows src params)
    (count : UInt8) (dst : EntryArray) :
    Shows (copyEntries count src dst).2 (params.take count.toNat) := by
  intro i e hi
  have hlt : i < count.toNat := by
    have hlen := (List.getElem?_eq_some_iff.1 hi).1
    rw [List.length_take] at hlen
    omega
  rw [List.getElem?_take_of_lt hlt] at hi
  have hentry := (assigned_entries (List.range count.toNat) (src, dst)).2 i
  rw [if_pos (List.mem_range.2 hlt)] at hentry
  unfold copyEntries
  rw [hentry]
  exact h i e hi

/-- The scan of `pathParam` reads inside, by induction over the indices. -/
theorem scanned_inside {name : Bytes} : ∀ {js : List Nat}, (∀ j ∈ js, j < cfg.maxPathParams) →
    ∀ {a : EntryArray}, a.Inside cfg → (scanFrom cfg name js a).1.Inside cfg := by
  intro js
  induction js with
  | nil => exact fun _ _ h => h
  | cons j js ih =>
    intro hjs a h
    have hread := h.read (hjs j (List.mem_cons_self ..))
    rw [scanFrom]
    split
    · exact hread
    · exact ih (fun k hk => hjs k (List.mem_cons_of_mem _ hk)) hread

-- ===========================================================================
-- On to the handler
-- ===========================================================================

/-- What is handed on against what `find` gives. -/
def MirrorsFound (cfg : Config) (r : Option (Nat × List PathParamEntry × UInt8))
    (m : Option (Nat × Handed)) : Prop :=
  match r with
  | none => m = none
  | some (i, params, count) => ∃ h, m = some (i, h) ∧ h.count = count ∧
      Shows h.reqParams (params.take count.toNat) ∧
      (count.toNat ≤ cfg.maxPathParams → h.Inside cfg)

/-- The last copy, and the scans. -/
theorem handOn_inside (hlen : 0 < cfg.maxPathParamLen) {behind : Nat → EntryBuffer}
    {tmp params : EntryArray} {count : UInt8} (hcount : count.toNat ≤ cfg.maxPathParams)
    (htmp : tmp.Inside cfg) (hparams : params.Inside cfg) :
    (handOn cfg behind tmp params count).Inside cfg := by
  obtain ⟨hsrc, hdst⟩ := copied_inside hcount hparams (inside_fresh hlen behind)
  exact ⟨hcount, htmp, hsrc, hdst, fun _ => scanned_inside (range_inside hcount) hdst⟩

/-- **The scan for a template** finds what the model's does, and its stores are inside. The
array of each attempt is a new one, as on the stack of the source. -/
theorem handTemplate_spec (hlen : 0 < cfg.maxPathParamLen) (behind : Nat → EntryBuffer)
    (path : Bytes) : ∀ (rs : List Resource) (i : Nat),
    MirrorsFound cfg (findTemplate cfg path i rs) (handTemplate cfg behind path i rs) := by
  intro rs
  induction rs with
  | nil => exact fun _ => rfl
  | cons r rs ih =>
    intro i
    rw [findTemplate, handTemplate]
    by_cases htemplate : r.isTemplate = true
    · rw [if_pos htemplate, if_pos htemplate]
      -- `params` of the matcher and of `find` are new arrays for each template
      have hfresh := inside_fresh hlen behind
      obtain ⟨hinside, hmirrors⟩ :
          (matchInto cfg (r.path.length + 1) r.path path (.fresh cfg behind) 0).2.1.Inside cfg ∧
            Mirrors (matchFrom cfg (r.path.length + 1) r.path path
                (List.replicate cfg.maxPathParams {}) 0)
              (matchInto cfg (r.path.length + 1) r.path path (.fresh cfg behind) 0) :=
        matchInto_spec hlen hfresh (shows_fresh cfg behind)
      have hmatch : matchFrom cfg (r.path.length + 1) r.path path
          (List.replicate cfg.maxPathParams {}) 0 = matchTemplate cfg r.path path := rfl
      rw [hmatch] at hmirrors
      generalize matchInto cfg (r.path.length + 1) r.path path (.fresh cfg behind) 0 = m
        at hinside hmirrors
      obtain ⟨matched, tmp, count⟩ := m
      cases hresult : matchTemplate cfg r.path path with
      | none =>
        rw [hresult] at hmirrors
        obtain rfl : matched = false := hmirrors
        exact ih (i + 1)
      | some result =>
        obtain ⟨params, count'⟩ := result
        rw [hresult] at hmirrors
        obtain ⟨rfl, rfl, hshows⟩ : matched = true ∧ count = count' ∧ Shows tmp params := hmirrors
        refine ⟨_, rfl, rfl, ?_, fun hcount => ?_⟩
        · -- copied from the matcher to `find`, and on to the request
          have hcopied := (hshows.copied count (.fresh cfg behind)).copied count (.fresh cfg behind)
          rwa [List.take_take, Nat.min_self] at hcopied
        · obtain ⟨hsrc, hdst⟩ := copied_inside hcount hinside hfresh
          exact handOn_inside hlen hcount hsrc hdst
    · rw [if_neg htemplate, if_neg htemplate]
      exact ih (i + 1)

/-- **What is handed to the handler** is what `find` gives, and inside if the count is. The
copies run up to the count, which the matcher does not bound. -/
theorem handed_spec (hlen : 0 < cfg.maxPathParamLen) (behind : Nat → EntryBuffer)
    (rs : List Resource) (path : Bytes) :
    MirrorsFound cfg (find cfg rs path) (handed cfg behind rs path) := by
  unfold find handed
  cases rs.findIdx? fun r => !r.isTemplate && r.path == path with
  | none => exact handTemplate_spec hlen behind path rs 0
  | some i =>
    refine ⟨_, rfl, rfl, fun _ _ h => (nomatch h), fun hcount => ?_⟩
    exact handOn_inside hlen hcount (inside_fresh hlen behind) (inside_fresh hlen behind)

-- ===========================================================================
-- The count
-- ===========================================================================

/-- The count of a match is that of the captures, in eight bits. -/
theorem stores_count : ∀ (cs : List (Bytes × Bytes)) (params : List PathParamEntry) (count : UInt8),
    (stores cfg params count cs).2.toNat = (count.toNat + cs.length) % 256 := by
  intro cs
  induction cs with
  | nil => exact fun _ count => (Nat.mod_eq_of_lt count.toNat_lt).symm
  | cons c cs ih =>
    intro params count
    rw [stores, ih, UInt8.toNat_add, List.length_cons]
    show ((count.toNat + 1) % 256 + cs.length) % 256 = _
    omega

/-- A match captures each `':'` segment of the template. -/
theorem namedSegments_length {ts ps : List Bytes} (h : List.Forall₂ MatchesSegment ts ps) :
    (namedSegments ts ps).length = ts.countP fun t => t.head? = some colon := by
  induction h with
  | nil => rfl
  | @cons t p ts ps _ _ ih =>
    rw [namedSegments_cons, List.countP_cons]
    by_cases hcolon : t.head? = some colon
    · rw [if_pos hcolon, if_pos (by simpa using hcolon), List.length_cons, ih]
    · rw [if_neg hcolon, if_neg (by simpa using hcolon), ih, Nat.add_zero]

/-- The count of what is found: none for a plain resource. -/
theorem found_count {rs : List Resource} {path : Bytes} {i : Nat} {params : List PathParamEntry}
    {count : UInt8} (h : find cfg rs path = some (i, params, count)) {r : Resource}
    (hr : rs[i]? = some r) :
    count.toNat = if r.isTemplate then paramSegments r.path % 256 else 0 := by
  obtain ⟨r', hr', hcases⟩ := find_cases h
  obtain rfl : r = r' := Option.some.inj (hr.symm.trans hr')
  rcases hcases with ⟨hplain, -, -, rfl⟩ | ⟨htemplate, hmatch⟩
  · rw [hplain]
    rfl
  · obtain ⟨hall, hstored⟩ := matchTemplate_some_iff.1 hmatch
    have hcount : count = (stores cfg (List.replicate cfg.maxPathParams {}) 0
        (pathParams r.path path)).2 := congrArg Prod.snd hstored
    rw [if_pos htemplate, hcount, stores_count, UInt8.toNat_zero, Nat.zero_add]
    exact congrArg (· % 256) (namedSegments_length hall)

/-- **Captures in bounds**: all that is done with the captures of a request stays inside exactly
when the template that answers it has few enough of them. A handler gets the count and the
captures of these arrays. What is behind the arrays is arbitrary. -/
theorem captures_inside_iff (hlen : 0 < cfg.maxPathParamLen) (behind : Nat → EntryBuffer) :
    (∀ rs path, (∀ i h, handed cfg behind rs path = some (i, h) → h.Inside cfg) ↔
      FewParams cfg rs path) ∧
    ∀ (s : Server cfg) nowMs sender data index handler req ctx,
      .handled index handler req ctx ∈ (s.poll nowMs (some (sender, data))).2 →
      ∃ msg path h, Message.decode cfg data = (.none, msg) ∧
        Uri.joinUriPath msg cfg.maxUriPathLen = some path ∧
        handed cfg behind s.resources (Uri.cString path) = some (index, h) ∧
        req.paramCount = h.count ∧
        Shows h.reqParams (req.params.take req.paramCount.toNat) := by
  constructor
  · intro rs path
    have hspec := handed_spec hlen behind rs path
    constructor
    -- the list of the model and the count of the arrays are found together
    · -- a template that is found has as many captures as the handler is told
      intro hall i r hfound hr htemplate
      obtain ⟨params, count, hfind⟩ := ((find_iff cfg rs path).1 i).2 hfound
      rw [hfind] at hspec
      obtain ⟨h, hhanded, hcount, -, -⟩ := hspec
      have hle := (hall i h hhanded).count
      rwa [hcount, found_count hfind hr, if_pos htemplate] at hle
    · -- a path without parameters has none
      intro hfew i h hhanded
      cases hfind : find cfg rs path with
      | none =>
        rw [hfind] at hspec
        have hnone : handed cfg behind rs path = none := hspec
        rw [hhanded] at hnone
        cases hnone
      | some found =>
        obtain ⟨j, params, count⟩ := found
        rw [hfind] at hspec
        obtain ⟨h', hhanded', -, -, hinside⟩ := hspec
        obtain ⟨rfl, rfl⟩ := Prod.mk.inj (Option.some.inj (hhanded.symm.trans hhanded'))
        refine hinside ?_
        obtain ⟨r, hr, -⟩ := find_cases hfind
        rw [found_count hfind hr]
        split
        · next htemplate =>
          exact hfew i r (((find_iff cfg rs path).1 i).1 ⟨params, count, hfind⟩) hr htemplate
        · exact Nat.zero_le _
  · intro s nowMs sender data index handler req ctx hmem
    obtain ⟨msg, path, params, count, hdec, hjoin, hfind, -, -, rfl, rfl⟩ :=
      Server.handled_of_poll hmem
    have hspec := handed_spec hlen behind s.resources (Uri.cString path)
    rw [hfind] at hspec
    obtain ⟨h, hhanded, hcount, hshows, -⟩ := hspec
    exact ⟨msg, path, h, hdec, hjoin, hhanded, hcount.symm, hshows⟩

/-- The server with a resource for this path. -/
def tableOf (path : Bytes) : List Resource :=
  (({} : Server .default).addResource (some path) methodGet (some (.app 0)) none false).1.resources

/-- `"/:a/:b"` on `"/1/2"`. -/
theorem captures_inside_two :
    ∃ h, handed .default (fun _ => .zero) (tableOf [0x2F, 0x3A, 0x61, 0x2F, 0x3A, 0x62])
      [0x2F, 0x31, 0x2F, 0x32] = some (0, h) ∧ h.count = 2 ∧ h.Inside .default := by
  have htwo : (handed .default (fun _ => .zero) (tableOf [0x2F, 0x3A, 0x61, 0x2F, 0x3A, 0x62])
      [0x2F, 0x31, 0x2F, 0x32]).map (fun r => (r.1, r.2.count)) = some (0, 2) := by
    decide +kernel
  obtain ⟨⟨i, h⟩, hhanded, hshape⟩ := Option.map_eq_some_iff.1 htwo
  obtain ⟨rfl, hcount⟩ := Prod.mk.inj hshape
  refine ⟨h, hhanded, hcount,
    ((captures_inside_iff (by decide) _).1 _ _).2 (fun i r _ hr _ => ?_) 0 h hhanded⟩
  obtain rfl := List.mem_singleton.1 (List.mem_of_getElem? hr)
  decide

/-- `"/:a/:b/:c/:d/:e"` on `"/1/2/3/4/5"`: five captures for four entries. -/
theorem not_captures_inside :
    ¬ ∀ tmpl path i h, handed .default (fun _ => .zero) (tableOf tmpl) path = some (i, h) →
      h.Inside .default := by
  intro hall
  have hfive : (handed .default (fun _ => .zero)
      (tableOf [0x2F, 0x3A, 0x61, 0x2F, 0x3A, 0x62, 0x2F, 0x3A, 0x63, 0x2F, 0x3A, 0x64, 0x2F, 0x3A,
        0x65])
      [0x2F, 0x31, 0x2F, 0x32, 0x2F, 0x33, 0x2F, 0x34, 0x2F, 0x35]).map (fun r => r.2.count) =
        some 5 := by decide +kernel
  obtain ⟨⟨i, h⟩, hhanded, hcount⟩ := Option.map_eq_some_iff.1 hfive
  have hle := (hall _ _ i h hhanded).count
  rw [show h.count = 5 from hcount] at hle
  revert hle
  decide

end Resource

end PulseCoap
