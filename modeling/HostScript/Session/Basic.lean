import HostScript.Analysis.Resolve
import HostScript.Code.Fingerprint
import HostScript.Emission.Script
import HostScript.Machine.Run

/-!
# Sessions

A session compiles scripts of a dialect and runs them.
-/

namespace HostScript

/-- A result with the text it was made from. -/
structure CacheEntry (α : Type) where
  key : Text
  source : Text
  result : α

/-- Entries, the most recently used first. -/
structure Cache (α : Type) where
  capacity : Nat
  entries : List (CacheEntry α) := []

namespace Cache

def touch? (cache : Cache α) (key : Text) : Option (CacheEntry α × Cache α) :=
  match cache.entries.find? fun entry => entry.key == key with
  | none => none
  | some entry =>
    let others := cache.entries.filter fun other => other.key != key
    some (entry, { cache with entries := entry :: others })

/-- Keeps a result; what exceeds the capacity goes. -/
def add (cache : Cache α) (entry : CacheEntry α) : Cache α :=
  let others := cache.entries.filter fun other => other.key != entry.key
  { cache with entries := (entry :: others).take cache.capacity }

def find? (keyOf : Text → Text) (cache : Cache α) (source : Text) : Option α × Cache α :=
  match cache.touch? (keyOf source) with
  | none => (none, cache)
  | some (entry, touched) => (if entry.source = source then some entry.result else none, touched)

def insert (keyOf : Text → Text) (cache : Cache α) (source : Text) (result : α) : Cache α :=
  cache.add { key := keyOf source, source, result }

end Cache

namespace Dialect

def readFailure (fault : ReadFault) : CompileFailure :=
  .classified fault.stage fault.offset (.cause (.reading fault))

def compileTree (dialect : Dialect) (root : Tree.Block) : Except CompileFailure Program := do
  let analysed ← Analysis.script dialect root
  dialect.program analysed

def compile (dialect : Dialect) (source : Text) : Except CompileFailure Program :=
  match Tree.parse source with
  | .ok root => dialect.compileTree root
  | .error fault => .error (readFailure fault)

end Dialect

/-- Counts of compilations and invocations by their outcome. -/
structure Metrics where
  compiled : Nat := 0
  notCompiled : Nat := 0
  succeeded : Nat := 0
  failed : Nat := 0
  deriving Repr, DecidableEq

/-- A compiler with what it has made so far. -/
structure Session where
  dialect : Dialect
  limit : Nat := 0
  /-- The functions made so far; a function is known by its place. -/
  functions : Array Function := #[]
  cache : Option (Cache Nat) := none
  /-- Names given to functions, in the order of first use. -/
  names : List (Text × Nat) := []
  metrics : Metrics := {}

namespace Session

/-- A session with a cache of a size; zero is none. -/
def start (dialect : Dialect) (limit cacheSize : Nat) : Session :=
  { dialect, limit
    cache := if cacheSize = 0 then none else some { capacity := cacheSize } }

def finish (session : Session) (result : Except CompileFailure Program) :
    Except CompileFailure Nat × Session :=
  match result with
  | .error failure =>
    let metrics := { session.metrics with notCompiled := session.metrics.notCompiled + 1 }
    (.error failure, { session with metrics })
  | .ok program =>
    let function : Function :=
      { program, name := program.fingerprint, limit := session.limit }
    let metrics := { session.metrics with compiled := session.metrics.compiled + 1 }
    (.ok session.functions.size,
      { session with functions := session.functions.push function, metrics })

def compileTree (session : Session) (root : Tree.Block) : Except CompileFailure Nat × Session :=
  session.finish (session.dialect.compileTree root)

/-- The key under which a cache keeps what a source compiles to: its hash in base sixteen. -/
def sourceKey (source : Text) : Text :=
  (Nat.toDigits 16 (Xxh64.hash source).toNat).map Text.byte

def compileKeyed (keyOf : Text → Text) (session : Session) (source : Text) :
    Except CompileFailure Nat × Session :=
  match session.cache with
  | none => session.finish (session.dialect.compile source)
  | some cache =>
    match cache.find? keyOf source with
    | (some number, touched) => (.ok number, { session with cache := some touched })
    | (none, touched) =>
      match session.finish (session.dialect.compile source) with
      | (.ok number, after) =>
        (.ok number, { after with cache := some (touched.insert keyOf source number) })
      | (.error failure, after) => (.error failure, { after with cache := some touched })

def compile (session : Session) (source : Text) : Except CompileFailure Nat × Session :=
  session.compileKeyed sourceKey source

/-- Runs a function of the session; the ending is missing when the invocation never ends. -/
def invoke (session : Session) (host : Host H) (number : Nat) (isCancelled : Bool)
    (world : World H) : Option Ending × Session × World H :=
  match session.functions[number]? with
  | none => (some (.ok ()), session, world)
  | some function =>
    let (ending, counted, after) := function.invoke host isCancelled world
    let metrics :=
      match ending with
      | some (.error _) => { session.metrics with failed := session.metrics.failed + 1 }
      | some (.ok _) => { session.metrics with succeeded := session.metrics.succeeded + 1 }
      | none => session.metrics
    (ending,
      { session with
        functions := session.functions.setIfInBounds number counted, metrics },
      after)

def function? (session : Session) (number : Nat) : Option Function :=
  session.functions[number]?

def nameOf? (session : Session) (number : Nat) : Option Text :=
  (session.names.find? fun entry => entry.2 = number).map Prod.fst

def nameFunction (session : Session) (name : Text) (number : Nat) : Session :=
  if (session.names.lookup name).isSome then
    { session with
      names := session.names.map fun entry => if entry.1 = name then (name, number) else entry }
  else { session with names := session.names ++ [(name, number)] }

end Session

end HostScript
