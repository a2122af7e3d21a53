import Mathlib.Order.Bounds.Basic
import PulseCoap.Server.Routing

/-!
# PulseCoAP — template matching

`matchTemplate` scans template and path with two cursors. Both are lists of
segments between slashes, and what it decides is decided segment by segment.

The cursors move over single characters, and a `':'` at the start of a segment
makes them skip to the next slash on both sides. `splitOn` gives the segments
that they pass; the induction is on the fuel, which is the length of the
template, and comes to a shorter template in each case.

* `matchFrom_eq` — the scan against the segments.
* `matchFrom_terminates` — each pass shortens what is left of the template.
* `find_iff` — the resource `findResource` gives.
* `pathParam_spec` — the captures a handler is given.
* `capture` — the segments of a template against those of a path.
* `matchTemplate_some_iff` — when the matcher succeeds, and what it stores.
-/

namespace PulseCoap

/-- `Request::pathParam`. -/
def Request.pathParam (req : Request) (name : Bytes) : Option Bytes :=
  ((req.params.take req.paramCount.toNat).find? (·.name == name)).map (·.value)

namespace Resource

open Uri (slash)

variable {cfg : Config}

-- ===========================================================================
-- Segment by segment
-- ===========================================================================

/-- A segment of a template takes this segment of a path. -/
def MatchesSegment (t p : Bytes) : Prop := (t.head? = some colon ∧ p ≠ []) ∨ t = p

/-- A template matches a path. -/
def MatchesPath (tmpl path : Bytes) : Prop :=
  List.Forall₂ MatchesSegment (tmpl.splitOn slash) (path.splitOn slash)

/-- The names of a template with the segments of the path they stand for. -/
def namedSegments (ts ps : List Bytes) : List (Bytes × Bytes) :=
  (ts.zip ps).filterMap fun s => if s.1.head? = some colon then some (s.1.tail, s.2) else none

/-- The parameters of a template on a path. -/
def pathParams (tmpl path : Bytes) : List (Bytes × Bytes) :=
  namedSegments (tmpl.splitOn slash) (path.splitOn slash)

/-- Both at once. -/
def capture : List Bytes → List Bytes → Option (List (Bytes × Bytes))
  | [], [] => some []
  | t :: ts, p :: ps =>
    if t.head? = some colon then
      if p = [] then none else (capture ts ps).map ((t.tail, p) :: ·)
    else if t = p then capture ts ps
    else none
  | _, _ => none

theorem namedSegments_cons (t p : Bytes) (ts ps : List Bytes) :
    namedSegments (t :: ts) (p :: ps) =
      if t.head? = some colon then (t.tail, p) :: namedSegments ts ps
      else namedSegments ts ps := by
  unfold namedSegments
  rw [List.zip_cons_cons, List.filterMap_cons]
  by_cases hcolon : t.head? = some colon
  · simp only [if_pos hcolon]
  · simp only [if_neg hcolon]

/-- **What is captured**, and when, segment by segment. -/
theorem capture_eq_some_iff : ∀ {ts ps : List Bytes} {cs : List (Bytes × Bytes)},
    capture ts ps = some cs ↔ List.Forall₂ MatchesSegment ts ps ∧ cs = namedSegments ts ps
  | [], [], _ => ⟨fun h => ⟨.nil, (Option.some.inj h).symm⟩, fun h => congrArg some h.2.symm⟩
  | [], _ :: _, _ => ⟨fun h => (nomatch h), fun h => nomatch h.1⟩
  | _ :: _, [], _ => ⟨fun h => (nomatch h), fun h => nomatch h.1⟩
  | t :: ts, p :: ps, cs => by
    rw [capture, List.forall₂_cons]
    by_cases hcolon : t.head? = some colon
    · -- a parameter takes any segment that is not empty
      have hseg : MatchesSegment t p ↔ p ≠ [] := by
        refine ⟨fun h => h.elim And.right ?_, fun h => .inl ⟨hcolon, h⟩⟩
        rintro rfl rfl
        cases hcolon
      rw [if_pos hcolon, namedSegments_cons, if_pos hcolon, hseg]
      by_cases hp : p = []
      · rw [if_pos hp]
        exact ⟨fun h => (nomatch h), fun h => absurd hp h.1.1⟩
      · rw [if_neg hp, Option.map_eq_some_iff]
        constructor
        · rintro ⟨cs', hcs', rfl⟩
          obtain ⟨hall, rfl⟩ := capture_eq_some_iff.1 hcs'
          exact ⟨⟨hp, hall⟩, rfl⟩
        · rintro ⟨⟨-, hall⟩, rfl⟩
          exact ⟨_, capture_eq_some_iff.2 ⟨hall, rfl⟩, rfl⟩
    · -- any other segment takes itself
      have hseg : MatchesSegment t p ↔ t = p :=
        ⟨fun h => h.elim (fun h => absurd h.1 hcolon) id, .inr⟩
      rw [if_neg hcolon, namedSegments_cons, if_neg hcolon, hseg]
      by_cases heq : t = p
      · rw [if_pos heq, capture_eq_some_iff]
        exact and_congr_left' (and_iff_right heq).symm
      · rw [if_neg heq]
        exact ⟨fun h => (nomatch h), fun h => absurd h.1.1 heq⟩

-- ===========================================================================
-- The scan
-- ===========================================================================

/-- The segments behind the one at the front. -/
def following : Bytes → List Bytes
  | [] => []
  | _ :: rest => rest.splitOn slash

/-- A path begins with an empty segment. -/
theorem splitOn_slash (s : Bytes) : (slash :: s).splitOn slash = [] :: s.splitOn slash := by
  rw [List.splitOn_cons_eq_if_modifyHead, if_pos (beq_self_eq_true _)]

/-- The first segment and the others. -/
theorem splitOn_eq (s : Bytes) : s.splitOn slash = segmentOf s :: following (afterSegment s) := by
  induction s with
  | nil => rfl
  | cons c s ih =>
    by_cases hc : c = slash
    · rw [hc, splitOn_slash]
      rfl
    · have hseg : segmentOf (c :: s) = c :: segmentOf s :=
        List.takeWhile_cons_of_pos (by simpa using hc)
      have hafter : afterSegment (c :: s) = afterSegment s :=
        List.dropWhile_cons_of_pos (by simpa using hc)
      rw [List.splitOn_cons_eq_if_modifyHead, if_neg (by simpa using hc), ih, hseg, hafter]
      rfl

/-- Behind a segment there is a slash or the end. -/
theorem splitOn_afterSegment (s : Bytes) :
    (afterSegment s).splitOn slash = [] :: following (afterSegment s) := by
  have hhead := List.head?_dropWhile_not (fun c : UInt8 => decide (c ≠ slash)) s
  unfold afterSegment
  cases hrest : s.dropWhile (fun c => decide (c ≠ slash)) with
  | nil => rfl
  | cons c rest =>
    rw [hrest] at hhead
    have hc : c = slash := by simpa using hhead
    rw [hc, splitOn_slash]
    rfl

theorem following_ne_nil {s : Bytes} (hs : s ≠ []) (hseg : segmentOf s = []) :
    following (afterSegment s) ≠ [] := by
  obtain ⟨c, rest, rfl⟩ := List.exists_cons_of_ne_nil hs
  by_cases hc : c = slash
  · have hafter : afterSegment (c :: rest) = c :: rest :=
      List.dropWhile_cons_of_neg (by simpa using hc)
    rw [hafter]
    exact List.splitOn_ne_nil slash rest
  · have hcons : segmentOf (c :: rest) = c :: segmentOf rest :=
      List.takeWhile_cons_of_pos (by simpa using hc)
    rw [hcons] at hseg
    cases hseg

/-- What the scan makes of the array and its count, given these captures. -/
def stores (cfg : Config) : List PathParamEntry → UInt8 → List (Bytes × Bytes) →
    List PathParamEntry × UInt8
  | params, count, [] => (params, count)
  | params, count, c :: cs =>
    stores cfg
      (if count.toNat < cfg.maxPathParams then params.set count.toNat (paramEntry cfg c.1 c.2)
      else params)
      (count + 1) cs

/-- One pass over a template that is not at its end. -/
theorem matchFrom_cons (fuel : Nat) (t : UInt8) (tmpl path : Bytes) (params : List PathParamEntry)
    (count : UInt8) :
    matchFrom cfg (fuel + 1) (t :: tmpl) path params count =
      if t = slash then
        match path with
        | p :: path => if p = slash then matchFrom cfg fuel tmpl path params count else none
        | [] => none
      else if path = [] then none
      else if t = colon then
        if segmentOf path = [] then none
        else
          matchFrom cfg fuel (afterSegment tmpl) (afterSegment path)
            (if count.toNat < cfg.maxPathParams then
              params.set count.toNat (paramEntry cfg (segmentOf tmpl) (segmentOf path))
            else params)
            (count + 1)
      else if segmentOf (t :: tmpl) = segmentOf path then
        matchFrom cfg fuel (afterSegment (t :: tmpl)) (afterSegment path) params count
      else none := rfl

/-- **The scan decides segment by segment**, and stores the parameters one after the other. The
induction is on the fuel, which covers the template. -/
theorem matchFrom_eq : ∀ {fuel : Nat} {tmpl path : Bytes} (params : List PathParamEntry)
    (count : UInt8), tmpl.length < fuel →
    matchFrom cfg fuel tmpl path params count =
      (capture (tmpl.splitOn slash) (path.splitOn slash)).map (stores cfg params count) := by
  -- on the fuel, which is more than what is left of the template
  intro fuel
  induction fuel with
  | zero => exact fun _ _ h => absurd h (Nat.not_lt_zero _)
  | succ fuel ih =>
    intro tmpl path params count hfuel
    -- behind a segment on both sides
    have hafter : ∀ (t p : Bytes) params count, t.length ≤ fuel →
        (afterSegment t).length < fuel →
        matchFrom cfg fuel (afterSegment t) (afterSegment p) params count =
          (capture (following (afterSegment t)) (following (afterSegment p))).map
            (stores cfg params count) := by
      intro t p params count _ hlt
      rw [ih params count hlt, splitOn_afterSegment, splitOn_afterSegment]
      rfl
    have hshort : ∀ s : Bytes, (afterSegment s).length ≤ s.length :=
      fun s => (List.dropWhile_sublist _).length_le
    cases tmpl with
    | nil =>
      cases path with
      | nil => rfl
      | cons p path =>
        -- the path goes on
        rw [splitOn_eq (p :: path)]
        show none = (if [] = segmentOf (p :: path) then _ else none : Option _).map _
        by_cases hseg : [] = segmentOf (p :: path)
        · obtain ⟨x, xs, hx⟩ := List.exists_cons_of_ne_nil
            (following_ne_nil (List.cons_ne_nil p path) hseg.symm)
          rw [if_pos hseg, hx]
          rfl
        · rw [if_neg hseg]
          rfl
    | cons t tmpl =>
      rw [List.length_cons] at hfuel
      rw [matchFrom_cons]
      by_cases hslash : t = slash
      · rw [if_pos hslash, hslash, splitOn_slash]
        cases path with
        | nil =>
          obtain ⟨x, xs, hx⟩ := List.exists_cons_of_ne_nil (List.splitOn_ne_nil slash tmpl)
          rw [hx]
          rfl
        | cons p path =>
          dsimp only
          by_cases hp : p = slash
          · rw [if_pos hp, hp, splitOn_slash, ih params count (by omega)]
            rfl
          · have hseg : segmentOf (p :: path) = p :: segmentOf path :=
              List.takeWhile_cons_of_pos (by simpa using hp)
            rw [if_neg hp, splitOn_eq (p :: path), hseg]
            rfl
      · have hseg : segmentOf (t :: tmpl) = t :: segmentOf tmpl :=
          List.takeWhile_cons_of_pos (by simpa using hslash)
        have hdrop : afterSegment (t :: tmpl) = afterSegment tmpl :=
          List.dropWhile_cons_of_pos (by simpa using hslash)
        have hlt : (afterSegment tmpl).length < fuel :=
          Nat.lt_of_le_of_lt (hshort tmpl) (by omega)
        rw [if_neg hslash, splitOn_eq (t :: tmpl), splitOn_eq path, hdrop, hseg, capture]
        by_cases hempty : path = []
        · -- the path has run out
          rw [if_pos hempty, hempty]
          show none = (if some t = some colon then none else none : Option _).map _
          split <;> rfl
        rw [if_neg hempty]
        by_cases hcolon : t = colon
        · have hhead : (t :: segmentOf tmpl).head? = some colon := congrArg some hcolon
          rw [if_pos hcolon, if_pos hhead]
          by_cases hvalue : segmentOf path = []
          · rw [if_pos hvalue, if_pos hvalue]
            rfl
          · rw [if_neg hvalue, if_neg hvalue, hafter tmpl path _ _ (by omega) hlt, Option.map_map]
            rfl
        · have hhead : ¬ (t :: segmentOf tmpl).head? = some colon :=
            fun h => hcolon (Option.some.inj h)
          rw [if_neg hcolon, if_neg hhead]
          by_cases heq : t :: segmentOf tmpl = segmentOf path
          · rw [if_pos heq, if_pos heq]
            exact hafter tmpl path _ _ (by omega) hlt
          · rw [if_neg heq, if_neg heq]
            rfl

/-- `matchTemplate` on a template and a path. -/
theorem matchTemplate_eq (cfg : Config) (tmpl path : Bytes) :
    matchTemplate cfg tmpl path =
      (capture (tmpl.splitOn slash) (path.splitOn slash)).map
        (stores cfg (List.replicate cfg.maxPathParams {}) 0) :=
  matchFrom_eq _ _ (Nat.lt_succ_self _)

/-- **`matchTemplate` succeeds exactly when** the segments match, and stores what they capture,
each name and value cut to its array. -/
theorem matchTemplate_some_iff {tmpl path : Bytes} {r : List PathParamEntry × UInt8} :
    matchTemplate cfg tmpl path = some r ↔ MatchesPath tmpl path ∧
      r = stores cfg (List.replicate cfg.maxPathParams {}) 0 (pathParams tmpl path) := by
  rw [matchTemplate_eq, Option.map_eq_some_iff]
  constructor
  · rintro ⟨cs, hcs, rfl⟩
    obtain ⟨hall, rfl⟩ := capture_eq_some_iff.1 hcs
    exact ⟨hall, rfl⟩
  · rintro ⟨hall, rfl⟩
    exact ⟨_, capture_eq_some_iff.2 ⟨hall, rfl⟩, rfl⟩

-- ===========================================================================
-- Its end
-- ===========================================================================

/-- The locals of the scan. -/
structure Scan where
  tmpl   : Bytes
  path   : Bytes
  params : List PathParamEntry
  count  : UInt8
deriving DecidableEq, Repr

/-- One pass of the loop: it goes on, or returns. -/
def pass (cfg : Config) : Scan → Scan ⊕ Option (List PathParamEntry × UInt8)
  | ⟨[], [], params, count⟩ => .inr (some (params, count))
  | ⟨[], _ :: _, _, _⟩ => .inr none
  | ⟨t :: tmpl, path, params, count⟩ =>
    if t = slash then
      match path with
      | p :: path => if p = slash then .inl ⟨tmpl, path, params, count⟩ else .inr none
      | [] => .inr none
    else if path = [] then .inr none
    else if t = colon then
      let value := segmentOf path
      if value = [] then .inr none
      else
        let params :=
          if count.toNat < cfg.maxPathParams then
            params.set count.toNat (paramEntry cfg (segmentOf tmpl) value)
          else params
        .inl ⟨afterSegment tmpl, afterSegment path, params, count + 1⟩
    else if segmentOf (t :: tmpl) = segmentOf path then
      .inl ⟨afterSegment (t :: tmpl), afterSegment path, params, count⟩
    else .inr none

/-- At most `n` passes. -/
def passes (cfg : Config) : (n : Nat) → Scan → Scan ⊕ Option (List PathParamEntry × UInt8)
  | 0, scan => .inl scan
  | n + 1, scan =>
    match pass cfg scan with
    | .inl scan' => passes cfg n scan'
    | .inr r => .inr r

/-- Every pass that goes on has taken something off the template. -/
theorem pass_shortens {scan scan' : Scan} (h : pass cfg scan = .inl scan') :
    scan'.tmpl.length < scan.tmpl.length := by
  have hshort : ∀ s : Bytes, (afterSegment s).length ≤ s.length :=
    fun s => (List.dropWhile_sublist _).length_le
  obtain ⟨tmpl, path, params, count⟩ := scan
  cases tmpl with
  | nil => cases path <;> cases h
  | cons t tmpl =>
    unfold pass at h
    dsimp only at h
    split at h
    · split at h
      · split at h
        · cases h
          exact Nat.lt_succ_self _
        · cases h
      · cases h
    · next hslash =>
      -- a segment is one byte at least, as it begins with no slash
      have hdrop : afterSegment (t :: tmpl) = afterSegment tmpl :=
        List.dropWhile_cons_of_pos (by simpa using hslash)
      split at h
      · cases h
      · split at h
        · split at h
          · cases h
          · cases h
            exact Nat.lt_succ_of_le (hshort tmpl)
        · split at h
          · cases h
            show (afterSegment (t :: tmpl)).length < _
            rw [hdrop]
            exact Nat.lt_succ_of_le (hshort tmpl)
          · cases h

/-- The scan is its passes. -/
theorem matchFrom_pass (fuel : Nat) (scan : Scan) :
    matchFrom cfg (fuel + 1) scan.tmpl scan.path scan.params scan.count =
      match pass cfg scan with
      | .inl scan' => matchFrom cfg fuel scan'.tmpl scan'.path scan'.params scan'.count
      | .inr r => r := by
  obtain ⟨tmpl, path, params, count⟩ := scan
  cases tmpl with
  | nil => cases path <;> rfl
  | cons t tmpl =>
    rw [matchFrom_cons]
    unfold pass
    dsimp only
    -- the tests in the order of the loop
    by_cases hslash : t = slash
    · rw [if_pos hslash, if_pos hslash]
      cases path with
      | nil => rfl
      | cons p path =>
        dsimp only
        split <;> rfl
    rw [if_neg hslash, if_neg hslash]
    by_cases hempty : path = []
    · rw [if_pos hempty, if_pos hempty]
    rw [if_neg hempty, if_neg hempty]
    by_cases hcolon : t = colon
    · rw [if_pos hcolon, if_pos hcolon]
      by_cases hvalue : segmentOf path = []
      · rw [if_pos hvalue, if_pos hvalue]
      · rw [if_neg hvalue, if_neg hvalue]
    · rw [if_neg hcolon, if_neg hcolon]
      split <;> rfl

/-- **The loop ends**, after no more passes than the template has characters and one. Each pass
takes a character of the template or a whole segment. -/
theorem matchFrom_terminates : ∀ {fuel : Nat} {scan : Scan}, scan.tmpl.length < fuel →
    ∃ n ≤ scan.tmpl.length + 1,
      passes cfg n scan = .inr (matchFrom cfg fuel scan.tmpl scan.path scan.params scan.count) := by
  intro fuel
  induction fuel with
  | zero => exact fun h => absurd h (Nat.not_lt_zero _)
  | succ fuel ih =>
    intro scan hfuel
    rw [matchFrom_pass]
    cases hpass : pass cfg scan with
    | inr r =>
      refine ⟨1, by omega, ?_⟩
      show (match pass cfg scan with | .inl scan' => passes cfg 0 scan' | .inr r => .inr r) = _
      rw [hpass]
    | inl scan' =>
      have hlt := pass_shortens hpass
      obtain ⟨n, hn, heq⟩ := ih (show scan'.tmpl.length < fuel by omega)
      refine ⟨n + 1, by omega, ?_⟩
      show (match pass cfg scan with | .inl scan' => passes cfg n scan' | .inr r => .inr r) = _
      rw [hpass]
      exact heq

-- ===========================================================================
-- Lookup
-- ===========================================================================

/-- A resource without parameters under this path. -/
def PlainAt (rs : List Resource) (path : Bytes) (i : Nat) : Prop :=
  ∃ r, rs[i]? = some r ∧ r.isTemplate = false ∧ r.path = path

/-- A template that matches the path. -/
def TemplateAt (rs : List Resource) (path : Bytes) (i : Nat) : Prop :=
  ∃ r, rs[i]? = some r ∧ r.isTemplate = true ∧ MatchesPath r.path path

/-- The first resource without parameters under the path, or else the first template that matches
it. -/
def FoundAt (rs : List Resource) (path : Bytes) (i : Nat) : Prop :=
  IsLeast { i | PlainAt rs path i } i ∨
    (∀ j, ¬ PlainAt rs path j) ∧ IsLeast { i | TemplateAt rs path i } i

/-- One resource at most is found. -/
theorem FoundAt.unique {rs : List Resource} {path : Bytes} {i j : Nat} (h : FoundAt rs path i)
    (h' : FoundAt rs path j) : i = j := by
  rcases h with h | ⟨hnone, h⟩ <;> rcases h' with h' | ⟨hnone', h'⟩
  · exact h.unique h'
  · exact absurd h.1 (hnone' i)
  · exact absurd h'.1 (hnone j)
  · exact h.unique h'

/-- The search for a plain path takes the first one. -/
theorem findIdx_plain {rs : List Resource} {path : Bytes} {i : Nat} :
    rs.findIdx? (fun r => !r.isTemplate && r.path == path) = some i ↔
      IsLeast { i | PlainAt rs path i } i := by
  have hat : ∀ k (hk : k < rs.length), (!rs[k].isTemplate && rs[k].path == path) = true ↔
      PlainAt rs path k := by
    intro k hk
    rw [Bool.and_eq_true, Bool.not_eq_true', beq_iff_eq]
    refine ⟨fun h => ⟨rs[k], List.getElem?_eq_getElem hk, h⟩, ?_⟩
    rintro ⟨r, hr, h⟩
    rw [List.getElem?_eq_getElem hk] at hr
    rwa [Option.some.inj hr]
  rw [List.findIdx?_eq_some_iff_getElem]
  constructor
  · rintro ⟨hlt, hi, hbefore⟩
    refine ⟨(hat i hlt).1 hi, fun j hj => Nat.not_lt.1 fun hji => ?_⟩
    exact hbefore j hji ((hat j (Nat.lt_trans hji hlt)).2 hj)
  · rintro ⟨⟨r, hr, h⟩, hleast⟩
    obtain ⟨hlt, -⟩ := List.getElem?_eq_some_iff.1 hr
    refine ⟨hlt, (hat i hlt).2 ⟨r, hr, h⟩, fun j hji hj => ?_⟩
    exact absurd (hleast ((hat j (Nat.lt_trans hji hlt)).1 hj)) (Nat.not_le.2 hji)

theorem findTemplate_none {path : Bytes} : ∀ {rs : List Resource} {k : Nat},
    findTemplate cfg path k rs = none →
      ∀ r ∈ rs, r.isTemplate = true → matchTemplate cfg r.path path = none := by
  intro rs
  induction rs with
  | nil => exact fun _ _ h => nomatch h
  | cons r rs ih =>
    intro k h r' hr' htemplate
    rw [findTemplate] at h
    split at h
    · split at h
      · cases h
      · next hnone =>
        rcases List.mem_cons.1 hr' with rfl | hmem
        · exact hnone
        · exact ih h r' hmem htemplate
    · next hplain =>
      rcases List.mem_cons.1 hr' with rfl | hmem
      · exact absurd htemplate hplain
      · exact ih h r' hmem htemplate

/-- **What `findResource` gives**, and that it gives nothing only if there is nothing. The first
in the table wins in each of its two scans. -/
theorem find_iff (cfg : Config) (rs : List Resource) (path : Bytes) :
    (∀ i, (∃ params count, find cfg rs path = some (i, params, count)) ↔ FoundAt rs path i) ∧
      (find cfg rs path = none ↔ ∀ i, ¬ PlainAt rs path i ∧ ¬ TemplateAt rs path i) := by
  have hnotPlain : rs.findIdx? (fun r => !r.isTemplate && r.path == path) = none →
      ∀ j, ¬ PlainAt rs path j := by
    rintro hnone j ⟨r, hr, hplain, hpath⟩
    have hfalse := List.findIdx?_eq_none_iff.1 hnone r (List.mem_of_getElem? hr)
    rw [hplain, hpath] at hfalse
    simp at hfalse
  have hsome : ∀ i params count, find cfg rs path = some (i, params, count) →
      FoundAt rs path i := by
    intro i params count h
    unfold find at h
    split at h
    · next hexact =>
      cases h
      exact .inl (findIdx_plain.1 hexact)
    · next hnone =>
      -- a template is asked for after all paths, and is the first that matches
      obtain ⟨i, r, rfl, hget, htemplate, hmatch, hfirst⟩ := findTemplate_cases h
      rw [Nat.zero_add]
      refine .inr ⟨hnotPlain hnone, ⟨r, hget, htemplate, (matchTemplate_some_iff.1 hmatch).1⟩, ?_⟩
      rintro j ⟨r', hget', htemplate', hmatch'⟩
      by_contra hlt
      have hnone' := hfirst j (Nat.not_le.1 hlt) r' hget' htemplate'
      rw [matchTemplate_some_iff.2 ⟨hmatch', rfl⟩] at hnone'
      cases hnone'
  have hnone : find cfg rs path = none → ∀ i, ¬ PlainAt rs path i ∧ ¬ TemplateAt rs path i := by
    intro h i
    unfold find at h
    split at h
    · cases h
    · next hidx =>
      refine ⟨hnotPlain hidx i, ?_⟩
      rintro ⟨r, hr, htemplate, hmatch⟩
      have hfalse := findTemplate_none h r (List.mem_of_getElem? hr) htemplate
      rw [matchTemplate_some_iff.2 ⟨hmatch, rfl⟩] at hfalse
      cases hfalse
  have hfound : ∀ i, FoundAt rs path i → PlainAt rs path i ∨ TemplateAt rs path i :=
    fun i h => h.elim (fun h => .inl h.1) fun h => .inr h.2.1
  -- the resource found is the only one of its kind
  refine ⟨fun i => ⟨fun ⟨params, count, h⟩ => hsome i params count h, fun h => ?_⟩, hnone, fun h => ?_⟩
  · cases hfind : find cfg rs path with
    | none =>
      exact absurd (hfound i h) (not_or.2 (hnone hfind i))
    | some r =>
      obtain ⟨j, params, count⟩ := r
      obtain rfl := h.unique (hsome j params count hfind)
      exact ⟨params, count, rfl⟩
  · cases hfind : find cfg rs path with
    | none => rfl
    | some r =>
      exact absurd (hfound r.1 (hsome r.1 r.2.1 r.2.2 hfind)) (not_or.2 (h r.1))

-- ===========================================================================
-- The captures
-- ===========================================================================

/-- The array after storing what there is room for: the entries one after the other. -/
theorem stores_eq : ∀ {cs : List (Bytes × Bytes)} {params : List PathParamEntry} {count : UInt8},
    params.length = cfg.maxPathParams → count.toNat + cs.length ≤ cfg.maxPathParams →
      ∃ rest, stores cfg params count cs =
        (params.take count.toNat ++ cs.map (fun c => paramEntry cfg c.1 c.2) ++ rest,
          UInt8.ofNat (count.toNat + cs.length)) := by
  intro cs
  induction cs with
  | nil =>
    intro params count _ _
    refine ⟨params.drop count.toNat, ?_⟩
    rw [stores, List.map_nil, List.append_nil, List.take_append_drop]
    exact Prod.ext rfl UInt8.ofNat_toNat.symm
  | cons c cs ih =>
    intro params count hlen hroom
    rw [List.length_cons] at hroom
    have hlt := cfg.params_lt
    -- `paramCount` does not go around, as the array has fewer entries than it counts
    have hnext : (count + 1).toNat = count.toNat + 1 := by
      rw [UInt8.toNat_add]
      exact Nat.mod_eq_of_lt (show count.toNat + 1 < 256 by omega)
    rw [stores, if_pos (by omega)]
    obtain ⟨rest, heq⟩ := @ih (params.set count.toNat (paramEntry cfg c.1 c.2)) (count + 1)
      (by rw [List.length_set]; exact hlen) (by omega)
    refine ⟨rest, heq.trans ?_⟩
    -- the entry is written behind those before it
    have htake : (params.set count.toNat (paramEntry cfg c.1 c.2)).take (count.toNat + 1) =
        params.take count.toNat ++ [paramEntry cfg c.1 c.2] := by
      rw [List.take_add_one, List.take_set_of_le (Nat.le_refl _),
        List.getElem?_set_self (by omega), Option.toList_some]
    rw [hnext, htake, List.length_cons, List.map_cons]
    refine Prod.ext ?_ (congrArg UInt8.ofNat (by omega))
    simp only [List.append_assoc, List.cons_append, List.nil_append]

/-- Names and values that fit their arrays are stored whole. -/
theorem paramEntry_eq {name value : Bytes} (hname : name.length < cfg.maxPathParamLen)
    (hvalue : value.length < cfg.maxPathParamLen) : paramEntry cfg name value = ⟨name, value⟩ := by
  unfold paramEntry
  rw [List.take_of_length_le (by omega), List.take_of_length_le (by omega)]

/-- Looking a name up among entries with different names. -/
theorem find_entry : ∀ {cs : List (Bytes × Bytes)}, (cs.map Prod.fst).Nodup →
    (∀ c ∈ cs, ((cs.map fun c => PathParamEntry.mk c.1 c.2).find? (·.name == c.1)).map
        (·.value) = some c.2) ∧
      ∀ name, name ∉ cs.map Prod.fst →
        ((cs.map fun c => PathParamEntry.mk c.1 c.2).find? (·.name == name)).map (·.value) = none
  | [], _ => ⟨(fun _ h => nomatch h), fun _ _ => rfl⟩
  | c :: cs, hnodup => by
    obtain ⟨hnew, hnodup⟩ := List.nodup_cons.1 hnodup
    obtain ⟨hfind, hnone⟩ := find_entry hnodup
    refine ⟨fun d hd => ?_, fun name hname => ?_⟩
    · rcases List.mem_cons.1 hd with rfl | hd
      · rw [List.map_cons, List.find?_cons_of_pos (by simp)]
        rfl
      · have hne : c.1 ≠ d.1 := fun heq => hnew (heq ▸ List.mem_map_of_mem hd)
        rw [List.map_cons, List.find?_cons_of_neg (by simpa using hne)]
        exact hfind d hd
    · have hne : c.1 ≠ name := fun heq => hname (heq ▸ List.mem_cons_self ..)
      rw [List.map_cons, List.find?_cons_of_neg (by simpa using hne)]
      exact hnone name fun hmem => hname (List.mem_cons_of_mem _ hmem)

/-- **What `pathParam` gives** on the captures of a match that fit: for each name its segment,
and for any other name nothing. -/
theorem pathParam_spec {tmpl path : Bytes} {req : Request}
    (hmatch : matchTemplate cfg tmpl path = some (req.params, req.paramCount))
    (hcount : (pathParams tmpl path).length ≤ cfg.maxPathParams)
    (hnames : ((pathParams tmpl path).map Prod.fst).Nodup)
    (hfits : ∀ c ∈ pathParams tmpl path,
      c.1.length < cfg.maxPathParamLen ∧ c.2.length < cfg.maxPathParamLen) :
    (∀ c ∈ pathParams tmpl path, req.pathParam c.1 = some c.2) ∧
      ∀ name, name ∉ (pathParams tmpl path).map Prod.fst → req.pathParam name = none := by
  have hstored := (matchTemplate_some_iff.1 hmatch).2
  have hroom : (0 : UInt8).toNat + (pathParams tmpl path).length ≤ cfg.maxPathParams := by
    simpa using hcount
  obtain ⟨rest, heq⟩ := stores_eq List.length_replicate hroom
  rw [heq] at hstored
  obtain ⟨hparams, hpcount⟩ := Prod.mk.inj hstored
  have hlt := cfg.params_lt
  -- all are stored, and none is cut
  have hn : req.paramCount.toNat = (pathParams tmpl path).length := by
    rw [hpcount, UInt8.toNat_ofNat']
    simp only [UInt8.toNat_zero, Nat.zero_add]
    exact Nat.mod_eq_of_lt (by omega)
  have hentries : req.params.take req.paramCount.toNat =
      (pathParams tmpl path).map fun c => PathParamEntry.mk c.1 c.2 := by
    rw [hn, hparams]
    have hmap : (pathParams tmpl path).map (fun c => paramEntry cfg c.1 c.2) =
        (pathParams tmpl path).map fun c => PathParamEntry.mk c.1 c.2 :=
      List.map_congr_left fun c hc => paramEntry_eq (hfits c hc).1 (hfits c hc).2
    rw [hmap]
    simp
  unfold Request.pathParam
  rw [hentries]
  exact find_entry hnames

/-- **Templates**: `findResource` gives the first resource without parameters under the path, or
else the first template whose segments take those of the path; the scan ends; and a handler reads
from `pathParam` the segments that the parameters of its template stand for. -/
theorem template_matching (cfg : Config) :
    (∀ (rs : List Resource) (path : Bytes),
      (∀ i, (∃ params count, find cfg rs path = some (i, params, count)) ↔ FoundAt rs path i) ∧
        (find cfg rs path = none ↔ ∀ i, ¬ PlainAt rs path i ∧ ¬ TemplateAt rs path i)) ∧
    (∀ tmpl path : Bytes, ∃ n ≤ tmpl.length + 1,
      passes cfg n ⟨tmpl, path, List.replicate cfg.maxPathParams {}, 0⟩ =
        .inr (matchTemplate cfg tmpl path)) ∧
    ∀ (s : Server cfg) nowMs sender data msg path index handler req ctx r,
      Message.decode cfg data = (.none, msg) →
      Uri.joinUriPath msg cfg.maxUriPathLen = some path →
      .handled index handler req ctx ∈ (s.poll nowMs (some (sender, data))).2 →
      s.resources[index]? = some r → r.isTemplate = true →
      let params := pathParams r.path (Uri.cString path)
      params.length ≤ cfg.maxPathParams → (params.map Prod.fst).Nodup →
      (∀ c ∈ params, c.1.length < cfg.maxPathParamLen ∧ c.2.length < cfg.maxPathParamLen) →
      (∀ c ∈ params, req.pathParam c.1 = some c.2) ∧
        ∀ name, name ∉ params.map Prod.fst → req.pathParam name = none := by
  refine ⟨fun rs path => find_iff cfg rs path, fun tmpl path => ?_, ?_⟩
  · exact @matchFrom_terminates cfg (tmpl.length + 1) ⟨tmpl, path, _, 0⟩ (Nat.lt_succ_self _)
  · intro s nowMs sender data msg path index handler req ctx r hdec hjoin h hr htemplate
    obtain ⟨msg', path', params, count, hdec', hjoin', hfind, -, -, rfl, rfl⟩ :=
      Server.handled_of_poll h
    obtain rfl : msg = msg' := congrArg Prod.snd (hdec.symm.trans hdec')
    obtain rfl : path = path' := Option.some.inj (hjoin.symm.trans hjoin')
    obtain ⟨r', hr', hcases⟩ := find_cases hfind
    obtain rfl : r = r' := Option.some.inj (hr.symm.trans hr')
    -- a template answers by the match of its own path
    rcases hcases with ⟨hplain, -⟩ | ⟨-, hmatch⟩
    · rw [htemplate] at hplain
      cases hplain
    · exact fun hcount hnames hfits => pathParam_spec hmatch hcount hnames hfits

/-- The template `/l/:i`, a GET for `/l/k`, and the request its handler is called with. -/
def lamps : Server .default :=
  (({} : Server .default).addResource (some [0x2F, 0x6C, 0x2F, 0x3A, 0x69]) methodGet (some (.app 0))
    none false).1
def getLamp : Bytes := [0x40, 0x01, 0x00, 0x01, 0xB1, 0x6C, 0x01, 0x6B]
def lampRequest : Request where
  method := Code.get
  message := (Message.decode .default getLamp).2
  remote := { port := 1 }
  deferHandle := 0
  block1Body := none
  params := { name := [0x69], value := [0x6B] } :: List.replicate 3 {}
  paramCount := 1

theorem template_matching_lamp :
    .handled 0 (.app 0) lampRequest none ∈ (lamps.poll 0 (some ({ port := 1 }, getLamp))).2 ∧
      lampRequest.pathParam [0x69] = some [0x6B] ∧ lampRequest.pathParam [0x6B] = none := by
  have hmem : .handled 0 (.app 0) lampRequest none ∈
      (lamps.poll 0 (some ({ port := 1 }, getLamp))).2 := by decide +kernel
  have hdec : Message.decode .default getLamp = (.none, (Message.decode .default getLamp).2) := by
    decide +kernel
  obtain ⟨r, hr⟩ : ∃ r, lamps.resources[0]? = some r := ⟨_, rfl⟩
  have htemplate : r.isTemplate = true ∧ r.path = [0x2F, 0x6C, 0x2F, 0x3A, 0x69] := by
    cases hr
    decide
  have hparams : pathParams r.path (Uri.cString [0x2F, 0x6C, 0x2F, 0x6B]) = [([0x69], [0x6B])] := by
    rw [htemplate.2]
    decide +kernel
  obtain ⟨hcaptured, hothers⟩ := (template_matching .default).2.2 lamps 0 { port := 1 } getLamp _
    [0x2F, 0x6C, 0x2F, 0x6B] 0 (.app 0) lampRequest none r hdec (by decide +kernel) hmem hr
    htemplate.1 (by rw [hparams]; decide) (by rw [hparams]; decide) (by rw [hparams]; decide)
  rw [hparams] at hcaptured hothers
  exact ⟨hmem, hcaptured _ (List.mem_singleton_self _), hothers _ (by decide)⟩

end Resource

end PulseCoap
