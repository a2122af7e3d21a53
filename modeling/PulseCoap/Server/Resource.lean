import PulseCoap.Uri
import PulseCoap.Transaction

/-!
# PulseCoAP — resources of the server

The resource table of `PulseCoAPServer.h` and `.cpp`: registration, exact and
template lookup, and the CoRE Link Format document. `resources_` is the list of
its first `resourceCount_` entries. A path is the bytes of its C string.

A resource is never removed, and its index is its place in the list.
`findResource` scans the list twice, for an exact match and then for a template.
-/

namespace PulseCoap

/-- `struct PathParamEntry`, without the terminators. -/
structure PathParamEntry where
  name  : Bytes := []
  value : Bytes := []
deriving DecidableEq, Repr

/-- `enum MethodMask`. -/
def methodGet : UInt8 := 1
def methodPost : UInt8 := 2
def methodPut : UInt8 := 4
def methodDelete : UInt8 := 8

/-- A resource handler: the server's own or one of the application. -/
inductive Handler where
  | wellKnownCore
  | app (handler : Ref)
deriving DecidableEq, Repr

/-- `Server::Resource`. -/
structure Resource where
  path            : Bytes
  methods         : UInt8
  handler         : Handler
  userContext     : Option Ref
  observable      : Bool
  isTemplate      : Bool
  observeSequence : UInt32 := 0
  resourceType    : Option Bytes := none
deriving DecidableEq, Repr

namespace Resource

open Uri (slash)

/-- `':'`. -/
def colon : UInt8 := 0x3A

/-- `strstr(path, "/:") != nullptr`. -/
def hasParam : Bytes → Bool
  | a :: b :: rest => (a == slash && b == colon) || hasParam (b :: rest)
  | _ => false

/-! ## Template matching -/

/-- Up to the next `'/'`, and from there on. -/
def segmentOf (s : Bytes) : Bytes := s.takeWhile (· ≠ slash)
def afterSegment (s : Bytes) : Bytes := s.dropWhile (· ≠ slash)

/-- The entry a capture writes, cut to its array. -/
def paramEntry (cfg : Config) (name value : Bytes) : PathParamEntry where
  name  := name.take (cfg.maxPathParamLen - 1)
  value := value.take (cfg.maxPathParamLen - 1)

/-- The loop of `matchTemplate`. Each pass takes at least one character of the
template, so a `fuel` above its length never runs out. -/
def matchFrom (cfg : Config) : (fuel : Nat) → (tmpl path : Bytes) → List PathParamEntry → UInt8 →
    Option (List PathParamEntry × UInt8)
  | 0, _, _, _, _ => none
  | _ + 1, [], [], params, count => some (params, count)
  | _ + 1, [], _ :: _, _, _ => none
  | fuel + 1, t :: tmpl, path, params, count =>
    if t = slash then
      match path with
      | p :: path => if p = slash then matchFrom cfg fuel tmpl path params count else none
      | [] => none
    else if path = [] then none
    else if t = colon then
      let value := segmentOf path
      if value = [] then none
      else
        let params :=
          if count.toNat < cfg.maxPathParams then
            params.set count.toNat (paramEntry cfg (segmentOf tmpl) value)
          else params
        matchFrom cfg fuel (afterSegment tmpl) (afterSegment path) params (count + 1)
    else if segmentOf (t :: tmpl) = segmentOf path then
      matchFrom cfg fuel (afterSegment (t :: tmpl)) (afterSegment path) params count
    else none

/-- `matchTemplate`: the array of captures and their count. -/
def matchTemplate (cfg : Config) (tmpl path : Bytes) : Option (List PathParamEntry × UInt8) :=
  matchFrom cfg (tmpl.length + 1) tmpl path (List.replicate cfg.maxPathParams {}) 0

/-! ## Lookup -/

/-- The second phase of `findResource`, from index `i` on. -/
def findTemplate (cfg : Config) (path : Bytes) : (i : Nat) → List Resource →
    Option (Nat × List PathParamEntry × UInt8)
  | _, [] => none
  | i, r :: rest =>
    if r.isTemplate then
      match matchTemplate cfg r.path path with
      | some (params, count) => some (i, params, count)
      | none => findTemplate cfg path (i + 1) rest
    else findTemplate cfg path (i + 1) rest

/-- `Server::findResource`: the index, the captures and their count. -/
def find (cfg : Config) (resources : List Resource) (path : Bytes) :
    Option (Nat × List PathParamEntry × UInt8) :=
  match resources.findIdx? fun r => !r.isTemplate && r.path == path with
  | some i => some (i, [], 0)
  | none => findTemplate cfg path 0 resources

/-! ## CoRE Link Format -/

/-- `";rt=\""`, `";obs"` and the single characters of the document. -/
def rtOpen : Bytes := [0x3B, 0x72, 0x74, 0x3D, 0x22]
def obsAttribute : Bytes := [0x3B, 0x6F, 0x62, 0x73]
def comma : UInt8 := 0x2C
def less : UInt8 := 0x3C
def greater : UInt8 := 0x3E
def quote : UInt8 := 0x22

/-- The attributes of one entry, each written only if it fits. -/
def linkAttributes (cap : Nat) (r : Resource) (out : Bytes) : Bytes :=
  let out := match r.resourceType with
    | some rt => if out.length + 6 + rt.length < cap then out ++ rtOpen ++ rt ++ [quote] else out
    | none => out
  if r.observable ∧ out.length + 4 < cap then out ++ obsAttribute else out

/-- The loop of `buildLinkFormat`; it stops at the first entry that does not fit. -/
def linkEntries (cap : Nat) : (first : Bool) → List Resource → Bytes → Bytes
  | _, [], out => out
  | first, r :: rest, out =>
    if r.path = Uri.wellKnownCore then linkEntries cap first rest out
    else if !first ∧ out.length + 1 ≥ cap then out
    else
      let out := if first then out else out ++ [comma]
      if out.length + r.path.length + 2 ≥ cap then out
      else linkEntries cap false rest (linkAttributes cap r (out ++ [less] ++ r.path ++ [greater]))

/-- `Server::buildLinkFormat`: the text in `linkFormatBuffer_`. -/
def buildLinkFormat (cfg : Config) (resources : List Resource) : Bytes :=
  linkEntries cfg.maxLinkFormatLen true resources []

end Resource

end PulseCoap
