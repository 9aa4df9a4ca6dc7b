import TaintScan.Location
import TaintScan.OrderedMap
import TaintScan.Schema.Object

namespace TaintScan

structure SchemaFolder where
  directory : FilePath
  limits : Limits

namespace SchemaFolder

def lastPart (uri : List Char) : List Char :=
  let trimmed := (uri.reverse.dropWhile (· == '/')).reverse
  ((Text.pieces (fun c => c == '/' || c == '\\') trimmed).getLast?).getD []

def stem (uri : String) : List Char :=
  let name := (lastPart uri.toList).takeWhile (· != '.')
  if name.isEmpty then "stylesheet".toList else name

def fileName (key : SchemaKey) : String :=
  String.ofList (stem key.stylesheet) ++ "-v" ++ numberText key.version.toNat ++ ".json"

def fileOf (folder : SchemaFolder) (key : SchemaKey) : FilePath :=
  folder.directory.child (fileName key)

def load (folder : SchemaFolder) (files : Files) (key : SchemaKey) : Except Error Schema := do
  let path := folder.fileOf key
  let text ← (Location.file path).load folder.limits files
  let schema ← Schema.ofJsonText text
  if schema.key = key then return schema
  else .error (.schema (.foreignFile path.text schema.key key))

end SchemaFolder

abbrev SchemaCache := OrderedMap SchemaKey Schema

namespace SchemaCache

/-- A look-up on its way. Look-ups may take their steps in any order between each other. -/
inductive Lookup
  | begun (key : SchemaKey)
  | missed (key : SchemaKey)
  | loaded (key : SchemaKey) (schema : Schema)
  | done (key : SchemaKey) (result : Except Error Schema)

def keep (cache : SchemaCache) (key : SchemaKey) (schema : Schema) : Schema × SchemaCache :=
  match cache.get? key with
  | some kept => (kept, cache)
  | none => (schema, cache.insert key schema)

def step (folder : SchemaFolder) (files : Files) (cache : SchemaCache) :
    Lookup → Lookup × SchemaCache
  | .begun key =>
    match cache.get? key with
    | some schema => (.done key (.ok schema), cache)
    | none => (.missed key, cache)
  | .missed key =>
    match folder.load files key with
    | .ok schema => (.loaded key schema, cache)
    | .error e => (.done key (.error e), cache)
  | .loaded key schema =>
    let (kept, cache) := cache.keep key schema
    (.done key (.ok kept), cache)
  | .done key result => (.done key result, cache)

def get (folder : SchemaFolder) (files : Files) (cache : SchemaCache) (key : SchemaKey) :
    Except Error Schema × SchemaCache :=
  match cache.get? key with
  | some schema => (.ok schema, cache)
  | none =>
    match folder.load files key with
    | .error e => (.error e, cache)
    | .ok schema =>
      let (kept, cache) := cache.keep key schema
      (.ok kept, cache)

def steps (folder : SchemaFolder) (files : Files) :
    Nat → Lookup × SchemaCache → Lookup × SchemaCache
  | 0, now => now
  | n + 1, now => steps folder files n (now.2.step folder files now.1)

theorem steps_begun (folder : SchemaFolder) (files : Files) (cache : SchemaCache)
    (key : SchemaKey) :
    steps folder files 3 (.begun key, cache) =
      (.done key (cache.get folder files key).1, (cache.get folder files key).2) := by
  cases hc : cache.get? key with
  | some schema => simp [get, steps, step, hc]
  | none =>
    cases hl : folder.load files key with
    | error e => simp [get, steps, step, hc, hl]
    | ok schema => simp [get, steps, step, hc, hl]

end SchemaCache

end TaintScan
