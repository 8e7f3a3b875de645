import BuildScript.Loading.World

/-!
# The cache of loaders

Loaders of compiled scripts are shared between builds. The cache keeps one loader for each id.
Asking for an id with another class path, parent or filter than its loader was made from replaces
the loader, so classes of an earlier compilation never live on.
-/

namespace BuildScript

/-- What a cached loader was made from. -/
structure LoaderSpec where
  roots : List Path
  parent : Option LoaderId
  filter : Option Filter
deriving DecidableEq, Repr

/-- Whether two class paths have the same roots in the same order. -/
def sameRoots : List Path → List Path → Bool
  | [], [] => true
  | p :: ps, q :: qs => p.same q && sameRoots ps qs
  | _, _ => false

/-- Whether a loader made from one will do for the other. -/
def LoaderSpec.same (s t : LoaderSpec) : Bool :=
  sameRoots s.roots t.roots && s.parent == t.parent && s.filter == t.filter

/-- What was asked of the cache, and what became of it. -/
inductive CacheRequest where
  | get (id : String)
  | remove (id : String) (found : Bool)
deriving DecidableEq, Repr

/-- The request in one line. -/
def CacheRequest.text : CacheRequest → String
  | get id => "get " ++ id
  | remove id found => "remove " ++ id ++ if found then " true" else " false"

structure LoaderCache where
  /-- The live loaders by id. -/
  entries : List (String × LoaderSpec × LoaderId) := []
  hits : Nat := 0
  misses : Nat := 0
  /-- The requests so far, last first. -/
  requests : List CacheRequest := []
deriving Repr, Inhabited

namespace LoaderCache

/-- The id under which the loader of a script class is kept. -/
def scriptId (scope className : String) : String := scope ++ ":" ++ className

/-- Makes a loader. A filter stands between it and its parent, if it has one. -/
def create (spec : LoaderSpec) (w : World) : LoaderId × World :=
  match spec.parent, spec.filter with
  | some parent, some filter =>
    let (between, w) := w.addFilter parent filter
    w.addClassPath spec.roots (some between)
  | parent, _ => w.addClassPath spec.roots parent

/-- The loader of an id, made anew if there is none or if it was made from something else. -/
def get (cache : LoaderCache) (w : World) (id : String) (spec : LoaderSpec) :
    LoaderId × LoaderCache × World :=
  let cache := { cache with requests := .get id :: cache.requests }
  let renew : LoaderId × LoaderCache × World :=
    let (loader, w) := create spec w
    let entries := (id, spec, loader) :: cache.entries.filter (·.1 != id)
    (loader, { cache with entries, misses := cache.misses + 1 }, w)
  match cache.entries.lookup id with
  | some (made, loader) =>
    if made.same spec then (loader, { cache with hits := cache.hits + 1 }, w) else renew
  | none => renew

/-- Forgets the loader of an id, and says whether there was one. -/
def remove (cache : LoaderCache) (id : String) : Bool × LoaderCache :=
  let found := (cache.entries.lookup id).isSome
  (found,
    { cache with
      entries := cache.entries.filter (·.1 != id)
      requests := .remove id found :: cache.requests })

def size (cache : LoaderCache) : Nat := cache.entries.length

/-- The share of hits among all requests; zero before the first one. -/
def hitRatio (cache : LoaderCache) : Binary64 :=
  if cache.hits + cache.misses = 0 then .zero
  else (Binary64.ofInt cache.hits).div (Binary64.ofInt (cache.hits + cache.misses))

end LoaderCache

end BuildScript
