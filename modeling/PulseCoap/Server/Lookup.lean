import PulseCoap.Server.Subscribers

/-!
# PulseCoAP — lookup by registration string

`setResourceType` and `notify` are given the path a resource was registered
under, and look it up the way a request is looked up. For a path without
parameters that is the first resource registered under it. A template is taken
for a path: its segments are matched against the templates before it, and a
`':'` segment takes any of them.

A registration string is what the application wrote; a path is what a client
asks for. The lookup is the same for both, which is the point: the segments of a
template are looked up as if they were values.

* `marked_of_run` — a resource is a template when its path has parameters.
* `found_iff_unshadowed` — when the lookup comes to the first registration.
* `actsOn_iff` — when the two calls act on it.
-/

namespace PulseCoap

namespace Resource

variable {cfg : Config}

-- ===========================================================================
-- The first registration
-- ===========================================================================

/-- A resource registered with exactly this path. -/
def RegisteredAt (rs : List Resource) (path : Bytes) (i : Nat) : Prop :=
  ∃ r, rs[i]? = some r ∧ r.path = path

/-- The first one. -/
def FirstAt (rs : List Resource) (path : Bytes) (i : Nat) : Prop :=
  IsLeast { i | RegisteredAt rs path i } i

/-- The path has no parameters, or no template before index `i` takes it. -/
def Unshadowed (rs : List Resource) (path : Bytes) (i : Nat) : Prop :=
  hasParam path = true → ∀ j < i, ¬ TemplateAt rs path j

/-- What `addResource` notes of a path. -/
def Marked (rs : List Resource) : Prop := ∀ r ∈ rs, r.isTemplate = hasParam r.path

/-- A template takes itself. -/
theorem matchesPath_self (tmpl : Bytes) : MatchesPath tmpl tmpl := by
  unfold MatchesPath
  induction tmpl.splitOn Uri.slash with
  | nil => exact .nil
  | cons t ts ih => exact .cons (.inr rfl) ih

/-- A path without parameters is looked up by comparison. -/
theorem plainAt_iff {rs : List Resource} (hmarked : Marked rs) {path : Bytes}
    (hplain : hasParam path = false) (i : Nat) : PlainAt rs path i ↔ RegisteredAt rs path i := by
  constructor
  · rintro ⟨r, hr, -, hpath⟩
    exact ⟨r, hr, hpath⟩
  · rintro ⟨r, hr, hpath⟩
    refine ⟨r, hr, ?_, hpath⟩
    rw [hmarked r (List.mem_of_getElem? hr), hpath, hplain]

/-- A template is not. -/
theorem not_plainAt {rs : List Resource} (hmarked : Marked rs) {path : Bytes}
    (htemplate : hasParam path = true) (i : Nat) : ¬ PlainAt rs path i := by
  rintro ⟨r, hr, hplain, hpath⟩
  rw [hmarked r (List.mem_of_getElem? hr), hpath, htemplate] at hplain
  cases hplain

/-- **The lookup comes to the first registration** exactly when no template in front takes the
path. For a path without parameters that is always so, as the comparison of paths comes first. -/
theorem found_iff_unshadowed {rs : List Resource} (hmarked : Marked rs) {path : Bytes} {i : Nat}
    (hfirst : FirstAt rs path i) : FoundAt rs path i ↔ Unshadowed rs path i := by
  unfold FirstAt at hfirst
  cases hparam : hasParam path with
  | false =>
    -- by comparison
    have hsame : { i | PlainAt rs path i } = { i | RegisteredAt rs path i } :=
      Set.ext (plainAt_iff hmarked hparam)
    refine iff_of_true (.inl ?_) fun htemplate => ?_
    · rwa [hsame]
    · rw [hparam] at htemplate
      cases htemplate
  | true =>
    -- as a template, which takes itself
    obtain ⟨⟨r, hr, hpath⟩, -⟩ := hfirst
    have hself : TemplateAt rs path i := by
      refine ⟨r, hr, ?_, ?_⟩
      · rw [hmarked r (List.mem_of_getElem? hr), hpath, hparam]
      · rw [hpath]
        exact matchesPath_self path
    have hnone := not_plainAt hmarked hparam
    constructor
    · rintro (hplain | ⟨-, -, hleast⟩) _ j hj htemplate
      · exact hnone i hplain.1
      · exact absurd (hleast htemplate) (Nat.not_le.2 hj)
    · intro hunshadowed
      refine .inr ⟨hnone, hself, fun j hj => Nat.not_lt.1 fun hji => ?_⟩
      exact hunshadowed hparam j hji hj

end Resource

namespace Server

open Resource (FirstAt Marked Unshadowed)

variable {cfg : Config}

-- ===========================================================================
-- What the two calls act on
-- ===========================================================================

/-- The server with the type of the resource at index `i` set. -/
def annotated (s : Server cfg) (i : Nat) (rt : Option Bytes) : Server cfg :=
  match s.resources[i]? with
  | some r => { s with resources := s.resources.set i { r with resourceType := rt } }
  | none => s

/-- A notification to the observers of the resource at index `i`, and what `notify` returns. -/
def notifyResource (s : Server cfg) (i : Nat) (payload : Bytes) (contentFormat : ContentFormat)
    (confirmable : Bool) : Server cfg × Bool × List ServerEvent :=
  match s.resources[i]? with
  | none => (s, false, [])
  | some r =>
    if !r.observable then (s, false, [])
    else
      let sequence := r.observeSequence + 1
      let s := { s with resources := s.resources.set i { r with observeSequence := sequence } }
      let n := s.notifyFrom i sequence payload contentFormat confirmable (List.finRange _)
      (n.1, true, n.2)

/-- `setResourceType` and `notify` with this path act on the resource at index `i`. -/
structure ActsOn (s : Server cfg) (path : Bytes) (i : Nat) : Prop where
  annotates : ∀ rt, s.setResourceType path rt = (s.annotated i rt, true)
  notifies  : ∀ payload contentFormat confirmable,
    s.notify path payload contentFormat confirmable =
      s.notifyResource i payload contentFormat confirmable

/-- A resource that is found is annotated. -/
theorem setResourceType_eq {s : Server cfg} {path : Bytes} {t : Target}
    (h : s.findTarget path = some t) (rt : Option Bytes) :
    s.setResourceType path rt = (s.annotated t.index rt, true) := by
  unfold setResourceType annotated
  rw [h, findTarget_index h]

/-- A resource that is found is notified of, if it is observable. -/
theorem notify_eq {s : Server cfg} {path : Bytes} {t : Target} (h : s.findTarget path = some t)
    (payload : Bytes) (contentFormat : ContentFormat) (confirmable : Bool) :
    s.notify path payload contentFormat confirmable =
      s.notifyResource t.index payload contentFormat confirmable := by
  unfold notify notifyResource
  rw [h, findTarget_index h]

/-- A type that is not there yet shows where it has been set. -/
theorem annotated_index {s : Server cfg} {i j : Nat} {r : Resource}
    (hr : s.resources[i]? = some r) {rt : Option Bytes} (hnew : rt ≠ r.resourceType)
    (h : s.annotated j rt = s.annotated i rt) : j = i := by
  by_contra hne
  have hentry : (s.annotated j rt).resources[i]? = (s.annotated i rt).resources[i]? := by rw [h]
  obtain ⟨hlt, -⟩ := List.getElem?_eq_some_iff.1 hr
  have hset : (s.annotated i rt).resources[i]? = some { r with resourceType := rt } := by
    unfold annotated
    rw [hr]
    exact List.getElem?_set_self hlt
  have hkept : (s.annotated j rt).resources[i]? = some r := by
    unfold annotated
    split
    · exact (List.getElem?_set_ne hne).trans hr
    · exact hr
  rw [hset, hkept] at hentry
  exact hnew (congrArg Resource.resourceType (Option.some.inj hentry)).symm

/-- **Both calls act on what the lookup comes to**: `notify` and the request use one function. -/
theorem actsOn_iff_found {s : Server cfg} {path : Bytes} {i : Nat} {r : Resource}
    (hr : s.resources[i]? = some r) :
    s.ActsOn path i ↔ Resource.FoundAt s.resources (Uri.cString path) i := by
  constructor
  · intro h
    obtain ⟨rt, hnew⟩ := exists_ne r.resourceType
    have hset := h.annotates rt
    cases htarget : s.findTarget path with
    | none =>
      unfold setResourceType at hset
      rw [htarget] at hset
      exact absurd (congrArg Prod.snd hset) Bool.false_ne_true
    | some t =>
      rw [setResourceType_eq htarget] at hset
      rw [← annotated_index hr hnew (congrArg Prod.fst hset)]
      exact Naming.findTarget_found htarget
  · intro hfound
    obtain ⟨params, count, hfind⟩ := ((Resource.find_iff cfg s.resources _).1 i).2 hfound
    have htarget : s.findTarget path = some ⟨i, r, params, count⟩ := by
      unfold findTarget
      rw [hfind]
      simp only [Option.bind_eq_bind, Option.bind_some, hr]
    exact ⟨setResourceType_eq htarget, notify_eq htarget⟩

-- ===========================================================================
-- Tables built by `addResource`
-- ===========================================================================

/-- No call registers a template that is not marked. -/
theorem marked_call {s : Server cfg} (h : Marked s.resources) (call : ServerCall) :
    Marked (s.call call).1.resources := by
  refine forall_resources_call (fun _ hentered => hentered.marked) (fun r r' hupdated hr => ?_) h call
  rw [hupdated.isTemplate, hupdated.path]
  exact hr

/-- **Every table** has its templates marked, whatever has happened. The mark is made when a
resource is added and never changed. -/
theorem marked_of_run {hist : List ServerEvent} {s : Server cfg}
    (run : (machine cfg).Run (fun _ _ => True) hist s) : Marked s.resources := by
  refine run.invariant (I := fun _ s => Marked s.resources)
    (fun r hr => absurd hr List.not_mem_nil) ?_
  intro _ s a _ h _
  cases a with
  | call call => exact marked_call h call
  | poll nowMs rx =>
    have hkept : (s.step (.poll nowMs rx)).1.resources = s.resources := resources_step nofun
    show Marked (s.step (.poll nowMs rx)).1.resources
    rwa [hkept]
  | handlerReturns res =>
    have hkept : (s.step (.handlerReturns res)).1.resources = s.resources := resources_step nofun
    show Marked (s.step (.handlerReturns res)).1.resources
    rwa [hkept]

/-- **Lookup by registration string**: in every table that `addResource` has built, both calls
act on the first resource registered under the path exactly when no template in front of it
takes the path. -/
theorem actsOn_iff {hist : List ServerEvent} {s : Server cfg}
    (run : (machine cfg).Run (fun _ _ => True) hist s) {path : Bytes} {i : Nat}
    (hfirst : FirstAt s.resources (Uri.cString path) i) :
    s.ActsOn path i ↔ Unshadowed s.resources (Uri.cString path) i := by
  obtain ⟨⟨r, hr, -⟩, -⟩ := id hfirst
  exact (actsOn_iff_found hr).trans (Resource.found_iff_unshadowed (marked_of_run run) hfirst)

/-- `begin`, and one resource for each of these paths. -/
def tableRun (paths : List Bytes) : List ServerEvent × Server .default :=
  (machine .default).exec [] (machine .default).init
    (.call (.begin true) ::
      paths.map fun path => .call (.addResource (some path) methodGet (some 0) none true))

theorem run_tableRun (paths : List Bytes) :
    (machine .default).Run (fun _ _ => True) (tableRun paths).1 (tableRun paths).2 :=
  Machine.Run.exec .start (Machine.meets_of_forall (fun _ _ => trivial) _ _)

/-- `"/:a"` and `"/:b"`. -/
def firstParam : Bytes := [0x2F, 0x3A, 0x61]
def secondParam : Bytes := [0x2F, 0x3A, 0x62]

/-- The first of the two is found under its own path. -/
theorem actsOn_first : (tableRun [firstParam, secondParam]).2.ActsOn firstParam 1 := by
  have hfirst : FirstAt (tableRun [firstParam, secondParam]).2.resources
      (Uri.cString firstParam) 1 := by
    refine ⟨⟨_, rfl, by decide⟩, ?_⟩
    rintro j ⟨r, hr, hpath⟩
    match j with
    | 0 =>
      cases hr
      revert hpath
      decide
    | j + 1 => exact Nat.succ_le_succ (Nat.zero_le j)
  refine (actsOn_iff (run_tableRun _) hfirst).2 ?_
  rintro - j hj ⟨r, hr, htemplate, -⟩
  obtain rfl : j = 0 := by omega
  cases hr
  revert htemplate
  decide

/-- The second one is not: its path is taken by the first. -/
theorem not_actsOn_second :
    ¬ ∀ paths path i, FirstAt (tableRun paths).2.resources (Uri.cString path) i →
      (tableRun paths).2.ActsOn path i := by
  intro hall
  have hfirst : FirstAt (tableRun [firstParam, secondParam]).2.resources
      (Uri.cString secondParam) 2 := by
    refine ⟨⟨_, rfl, by decide⟩, ?_⟩
    rintro j ⟨r, hr, hpath⟩
    match j with
    | 0 | 1 =>
      cases hr
      revert hpath
      decide
    | j + 2 => exact Nat.le_add_left 2 j
  have hset := (hall _ _ _ hfirst).annotates (some [])
  have htype := congrArg (fun r => (r.1.resources[1]?).bind (·.resourceType)) hset
  revert htype
  decide +kernel

end Server

end PulseCoap
