import DefTable.Cache.Basic
import DefTable.Compile

/-!
# The compile service

A request names a source and perhaps a path; the answer is a table with its build, or a refusal.
The service looks into the cache first, compiles on a miss, and puts what it compiled.  Requests are
handled step by step on a world that all of them share, so that steps of different requests may come
in any order.
-/

namespace DefTable
namespace Service

def name : String := "asc.Compiler"

def announcement (address : String) : String :=
  s!"asc {name} listening on {address}"

/-! ## Requests and answers -/

structure Request where
  source : String
  path : String
deriving DecidableEq, Repr

def Request.label (r : Request) : String :=
  if r.path = "" then "<request>" else r.path

inductive Refusal where
  | noSource
  | sourceNotText
  | faulty (texts : List Text)
deriving DecidableEq, Repr

def Refusal.message : Refusal → Text
  | noSource => "missing \"source\" field"
  | sourceNotText => "\"source\" must be a string"
  | faulty texts => Text.join [.char '\n'] texts

/-- The request that a message holds; fields other than the source and the path are left alone. -/
def Request.ofMessage (fields : List (String × Data)) : Except Refusal Request :=
  match fields.lookup "source" with
  | none => .error .noSource
  | some (.string source) => .ok ⟨source, ((fields.lookup "path").bind Data.string?).getD ""⟩
  | some _ => .error .sourceNotText

structure Response where
  build : Cache.Build
  cached : Bool
  table : Table

def Response.message (r : Response) : List (String × Data) :=
  [("build_id", .string (Cache.buildName r.build)), ("cached", .bool r.cached),
   ("ir", .map (Wire.ofEntries r.table))]

/-! ## Steps -/

/-- What requests share: the cache, if there is one, the builds numbered so far and the log. -/
structure World where
  cache : Option Cache
  nextBuild : Cache.Build
  log : List String

def World.start (cache : Option Cache) : World := ⟨cache, 1, []⟩

def World.note (w : World) (line : String) : World :=
  { w with log := w.log ++ [line] }

/-- How far a request has come. -/
inductive Phase where
  | received
  | found (entry : Cache.Found)
  | missed
  | compiled (table : Table)
  | faulty (texts : List Text)
  | stored (build : Cache.Build) (table : Table)
  | answered (answer : Except Refusal Response)

/-- Look into the cache.  A failing look-up counts as a miss. -/
def lookUp (builtins : List String) (r : Request) (w : World) : Phase × World :=
  match w.cache with
  | none => (.missed, w)
  | some c =>
    match c.get (Text.bytes r.source) builtins with
    | .error fault => (.missed, w.note s!"cache lookup failed: {fault.message}")
    | .ok none => (.missed, w)
    | .ok (some entry) => (.found entry, w)

def compiled (builtins : List String) (r : Request) : Phase :=
  let c := compile none r.path r.source builtins
  match c.errors, c.table with
  | [], some table => .compiled table
  | errors, _ => .faulty (errors.map Diagnostic.text)

/-- Put the table into the cache.  The build is numbered even if that fails. -/
def keep (builtins : List String) (r : Request) (table : Table) (w : World) : Phase × World :=
  let build := w.nextBuild
  let numbered := { w with nextBuild := build + 1 }
  match w.cache with
  | none => (.stored build table, numbered)
  | some c =>
    match c.put build (Text.bytes r.source) builtins table with
    | .error fault => (.stored build table, numbered.note s!"cache store failed: {fault.message}")
    | .ok (_, c) => (.stored build table, { numbered with cache := some c })

def step (builtins : List String) (r : Request) : Phase → World → Phase × World
  | .received, w => lookUp builtins r w
  | .found entry, w =>
    (.answered (.ok ⟨entry.build, true, entry.table⟩),
      w.note s!"compile {r.label}: cached build {Cache.buildName entry.build}")
  | .missed, w => (compiled builtins r, w)
  | .faulty texts, w =>
    (.answered (.error (.faulty texts)), w.note s!"compile {r.label}: {texts.length} error(s)")
  | .compiled table, w => keep builtins r table w
  | .stored build table, w =>
    (.answered (.ok ⟨build, false, table⟩),
      w.note s!"compile {r.label}: {table.length} definitions, build {Cache.buildName build}")
  | .answered answer, w => (.answered answer, w)

def stepLimit : Nat := 4

def steps (builtins : List String) (r : Request) : Nat → Phase → World → Phase × World
  | 0, p, w => (p, w)
  | n + 1, p, w =>
    let (p, w) := step builtins r p w
    steps builtins r n p w

def Phase.answer? : Phase → Option (Except Refusal Response)
  | answered a => some a
  | _ => none

def handle (builtins : List String) (r : Request) (w : World) :
    Option (Except Refusal Response) × World :=
  let (p, w) := steps builtins r stepLimit .received w
  (p.answer?, w)

def handleMessage (builtins : List String) (fields : List (String × Data)) (w : World) :
    Option (Except Refusal Response) × World :=
  match Request.ofMessage fields with
  | .error refusal => (some (.error refusal), w)
  | .ok r => handle builtins r w

/-! ## The client

A client reads the response from its binary form, in which infinite numbers do not survive.
-/

inductive ClientError where
  | refused (why : Refusal)
  | unreadable (why : Wire.Fault)
  /-- The service broke off, or the response holds no table. -/
  | noTable

def ClientError.message : ClientError → Text
  | refused why => why.message
  | unreadable why => "decoding response: " ++ why.message
  | noTable => "response has no \"ir\" field"

def Response.received (r : Response) : Except ClientError Response :=
  match (Struct.read (Struct.write r.message)).bind (·.lookup "ir") with
  | some (.map entries) =>
    match Table.ofEntries entries with
    | .ok table => .ok { r with table := table }
    | .error why => .error (.unreadable why)
  | _ => .error .noTable

def call (builtins : List String) (r : Request) (w : World) : Except ClientError Response × World :=
  match handle builtins r w with
  | (some (.ok response), w) => (response.received, w)
  | (some (.error why), w) => (.error (.refused why), w)
  | (none, w) => (.error .noTable, w)

def serve (builtins : List String) (address : String) (requests : List Request) (w : World) :
    List (Except ClientError Response) × World :=
  let w := if requests.isEmpty then w else w.note (announcement address)
  requests.foldl (fun (done, w) r =>
    let (result, w) := call builtins r w
    (done ++ [result], w)) ([], w)

end Service
end DefTable
