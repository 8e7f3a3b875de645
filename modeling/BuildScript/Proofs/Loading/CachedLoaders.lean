import Mathlib.Data.Set.Card
import BuildScript.Loading.Cache
import BuildScript.Proofs.Loading.DefinedClasses

/-!
# Cached loaders

What a cache does is told by the calls that it has answered: for an id only the last call counts,
and the loader that it returned is returned again if it will do. `LoaderCache.Run` lists the calls
of a cache that was empty at first, while the world around it may change between them, and
`LoaderCache.answers_of_run` says what comes next.

A cache remembers loaders, not classes. So what has to be shown of the world is only that loaders
stay what they are once they were made: the roots and the parent of a class path loader, and what a
filtering loader lets through.
-/

namespace BuildScript

open Relation

/-! ## What loaders are made from -/

/-- What counts of a path when paths are compared. -/
def Path.shape (p : Path) : Bool × List String := (p.isAbsolute, p.components)

theorem Path.same_iff {p q : Path} : p.same q = true ↔ p.shape = q.shape := by
  rw [same, shape, shape, Bool.and_eq_true, beq_iff_eq, beq_iff_eq, Prod.mk.injEq]

theorem sameRoots_iff {ps qs : List Path} :
    sameRoots ps qs = true ↔ ps.map Path.shape = qs.map Path.shape := by
  induction ps generalizing qs with
  | nil => cases qs <;> simp [sameRoots]
  | cons p ps ih =>
    cases qs with
    | nil => simp [sameRoots]
    | cons q qs =>
      rw [sameRoots, Bool.and_eq_true, Path.same_iff, ih, List.map_cons, List.map_cons,
        List.cons.injEq]

/-- The class paths are the same as lists of paths, and parent and filter are the same. -/
def LoaderSpec.Agrees (s t : LoaderSpec) : Prop :=
  s.roots.map Path.shape = t.roots.map Path.shape ∧ s.parent = t.parent ∧ s.filter = t.filter

theorem LoaderSpec.same_iff {s t : LoaderSpec} : s.same t = true ↔ s.Agrees t := by
  rw [same, Agrees, Bool.and_eq_true, Bool.and_eq_true, sameRoots_iff, beq_iff_eq, beq_iff_eq,
    and_assoc]

theorem LoaderSpec.Agrees.symm {s t : LoaderSpec} (h : s.Agrees t) : t.Agrees s :=
  ⟨h.1.symm, h.2.1.symm, h.2.2.symm⟩

theorem LoaderSpec.Agrees.trans {s t u : LoaderSpec} (h : s.Agrees t) (h' : t.Agrees u) : s.Agrees u :=
  ⟨h.1.trans h'.1, h.2.1.trans h'.2.1, h.2.2.trans h'.2.2⟩

/-! ## Loaders stay what they are -/

namespace World

variable {w w' : World} {id loader : LoaderId} {spec : LoaderSpec}

theorem History.size_le (h : w.History w') : w.loaders.size ≤ w'.loaders.size := by
  refine h.keeps (P := fun s ↦ w.loaders.size ≤ s.loaders.size) (fun s s' hdefine hs ↦ ?_)
    (fun _ hs ↦ hs) (fun s l _ hs ↦ ?_) (fun _ _ hs ↦ hs) (Nat.le_refl _)
  · rwa [Defines.size_eq (.single hdefine)]
  · rw [World.addLoader, Array.size_push]
    exact Nat.le_succ_of_le hs

theorem History.filtering (h : w.History w') {delegate : LoaderId} {filter : Filter}
    (hloader : w.loader? id = some (.filtering delegate filter)) :
    w'.loader? id = some (.filtering delegate filter) := by
  refine h.keeps (P := fun s ↦ s.loader? id = some (.filtering delegate filter))
    (fun s s' hdefine hs ↦ ?_) (fun _ hs ↦ hs) (fun s l _ hs ↦ ?_) (fun _ _ hs ↦ hs) hloader
  · obtain ⟨other, file, superclass⟩ := hdefine
    rcases loader?_defineIn s other file superclass id with heq | ⟨rfl, _, _, _, hs', -⟩
    · exact heq.trans hs
    · cases hs.symm.trans hs'
  · exact (loader?_addLoader_of_lt l (lt_size_of_loader? hs)).trans hs

/-- The loader has the class path of the specification. If there are a parent and a filter, then a
filtering loader in front of the parent is its parent, and else the parent itself. -/
def BuiltFrom (w : World) (loader : LoaderId) (spec : LoaderSpec) (defined : List (String × Class)) :
    Prop :=
  ∃ parent, w.loader? loader = some (.classPath spec.roots parent defined) ∧
    match spec.parent, spec.filter with
    | some p, some filter =>
      ∃ between, parent = some between ∧ w.loader? between = some (.filtering p filter)
    | p, _ => parent = p

theorem BuiltFrom.history {defined : List (String × Class)} (h : w.BuiltFrom loader spec defined)
    (hw : w.History w') : ∃ defined', w'.BuiltFrom loader spec defined' := by
  obtain ⟨parent, hloader, hparent⟩ := h
  obtain ⟨added, hloader', -, -⟩ := hw.adds hloader
  refine ⟨defined ++ added, parent, hloader', ?_⟩
  split at hparent
  next =>
    obtain ⟨between, rfl, hbetween⟩ := hparent
    exact ⟨between, rfl, hw.filtering hbetween⟩
  next => exact hparent

/-- From the first loader the second is reached through parents and filters. -/
def Reaches (w : World) : LoaderId → LoaderId → Prop :=
  ReflTransGen fun id other ↦ ∃ l, w.loader? id = some l ∧ other ∈ l.asks

theorem BuiltFrom.reaches {defined : List (String × Class)} (h : w.BuiltFrom loader spec defined)
    {p : LoaderId} (hp : spec.parent = some p) : w.Reaches loader p := by
  obtain ⟨parent, hloader, hparent⟩ := h
  rw [hp] at hparent
  cases hfilter : spec.filter with
  | none =>
    rw [hfilter] at hparent
    obtain rfl : parent = some p := hparent
    exact .single ⟨_, hloader, List.mem_singleton_self p⟩
  | some filter =>
    rw [hfilter] at hparent
    obtain ⟨between, rfl, hbetween⟩ := hparent
    exact .head ⟨_, hloader, List.mem_singleton_self between⟩
      (.single ⟨_, hbetween, List.mem_singleton_self p⟩)

end World

namespace LoaderCache

variable {w w' : World}

/-- Either a filtering loader is made first, or the parent is that of the specification. -/
theorem create_cases (spec : LoaderSpec) (w : World) :
    (∃ p filter, spec.parent = some p ∧ spec.filter = some filter ∧
      create spec w = (w.addFilter p filter).2.addClassPath spec.roots (some w.loaders.size)) ∨
    ((spec.parent = none ∨ spec.filter = none) ∧
      create spec w = w.addClassPath spec.roots spec.parent) := by
  obtain ⟨roots, _ | p, _ | filter⟩ := spec
  · exact .inr ⟨.inl rfl, rfl⟩
  · exact .inr ⟨.inl rfl, rfl⟩
  · exact .inr ⟨.inr rfl, rfl⟩
  · exact .inl ⟨p, filter, rfl, rfl, rfl⟩

theorem lt_size_addFilter (w : World) (p : LoaderId) (filter : Filter) :
    w.loaders.size < (w.addFilter p filter).2.loaders.size := by
  rw [World.addFilter, World.addLoader, Array.size_push]
  exact Nat.lt_succ_self _

/-- A loader is made behind all that are there. -/
theorem create_builds (spec : LoaderSpec) (w : World) :
    (create spec w).2.BuiltFrom (create spec w).1 spec [] ∧ w.loaders.size ≤ (create spec w).1 ∧
      (create spec w).1 < (create spec w).2.loaders.size := by
  rcases create_cases spec w with ⟨p, filter, hparent, hfilter, heq⟩ | ⟨hnone, heq⟩
  · rw [heq]
    refine ⟨⟨some w.loaders.size, World.loader?_addLoader_self _ _, ?_⟩, ?_,
      World.lt_size_of_loader? (World.loader?_addLoader_self _ _)⟩
    · rw [hparent, hfilter]
      refine ⟨w.loaders.size, rfl, ?_⟩
      exact (World.loader?_addLoader_of_lt _ (lt_size_addFilter w p filter)).trans
        (World.loader?_addLoader_self _ _)
    · exact Nat.le_of_lt (lt_size_addFilter w p filter)
  · rw [heq]
    refine ⟨⟨spec.parent, World.loader?_addLoader_self _ _, ?_⟩, Nat.le_refl _,
      World.lt_size_of_loader? (World.loader?_addLoader_self _ _)⟩
    rcases hnone with hnone | hnone
    · rw [hnone]
    · rw [hnone]
      cases spec.parent <;> rfl

/-- Making a loader is an event of the world, or two of them. -/
theorem history_create {spec : LoaderSpec} {w : World}
    (hparent : ∀ p, spec.parent = some p → p < w.loaders.size) : w.History (create spec w).2 := by
  rcases create_cases spec w with ⟨p, filter, hp, -, heq⟩ | ⟨-, heq⟩
  · rw [heq]
    refine .tail (.single (.addLoader w _ ?_)) (.addLoader _ _ ?_)
    · exact List.forall_mem_singleton.mpr (hparent p hp)
    · exact List.forall_mem_singleton.mpr (lt_size_addFilter w p filter)
  · rw [heq]
    exact .single (.addLoader w _ fun other hother ↦ hparent other (Option.mem_toList.mp hother))

/-- Either the loader of the id will do, or a new one takes its place. -/
theorem get_cases (cache : LoaderCache) (w : World) (id : String) (spec : LoaderSpec) :
    (∃ made loader, cache.entries.lookup id = some (made, loader) ∧ made.Agrees spec ∧
      cache.get w id spec = (loader,
        { cache with hits := cache.hits + 1, requests := .get id :: cache.requests }, w)) ∨
    ((∀ made loader, cache.entries.lookup id = some (made, loader) → ¬made.Agrees spec) ∧
      cache.get w id spec = ((create spec w).1,
        { cache with
          entries := (id, spec, (create spec w).1) :: cache.entries.filter (·.1 != id)
          misses := cache.misses + 1
          requests := .get id :: cache.requests }, (create spec w).2)) := by
  rw [get]
  dsimp only
  split
  next made loader hlookup =>
    by_cases hsame : made.same spec = true
    · rw [if_pos hsame]
      exact .inl ⟨made, loader, hlookup, LoaderSpec.same_iff.mp hsame, rfl⟩
    · rw [if_neg hsame]
      refine .inr ⟨fun made' loader' hlookup' hagrees ↦ ?_, rfl⟩
      cases hlookup.symm.trans hlookup'
      exact hsame (LoaderSpec.same_iff.mpr hagrees)
  next hlookup =>
    refine .inr ⟨fun made loader hlookup' ↦ ?_, rfl⟩
    cases hlookup.symm.trans hlookup'

end LoaderCache

/-! ## Calls -/

/-- A call of a cache together with its answer. -/
inductive CacheCall where
  | get (id : String) (spec : LoaderSpec) (loader : LoaderId)
  | remove (id : String) (found : Bool)

namespace CacheCall

def id : CacheCall → String
  | get id _ _ | remove id _ => id

def isGet : CacheCall → Bool
  | get _ _ _ => true
  | remove _ _ => false

/-- The loader that a call has returned for the id. -/
def loader? (id : String) : CacheCall → Option LoaderId
  | get other _ loader => if other = id then some loader else none
  | remove _ _ => none

/-- The last call for an id; calls are listed last first. -/
def last? (calls : List CacheCall) (id : String) : Option CacheCall := calls.find? (·.id == id)

/-- What is cached after a call for its id: a loader that was returned, made from something that
agrees with what was asked for, or nothing. -/
def Leaves (cached : Option (LoaderSpec × LoaderId)) : CacheCall → Prop
  | get _ spec loader => ∃ made, cached = some (made, loader) ∧ made.Agrees spec
  | remove _ _ => cached = none

/-- The loader that the last `get` for an id has returned. -/
def lastLoader? (calls : List CacheCall) (id : String) : Option LoaderId :=
  calls.findSome? (loader? id)

/-- How many calls have returned the loader that the `get` before for the id had returned. -/
def identicalReturns : List CacheCall → Nat
  | [] => 0
  | get id _ loader :: calls =>
    identicalReturns calls + if lastLoader? calls id = some loader then 1 else 0
  | remove _ _ :: calls => identicalReturns calls

variable {calls : List CacheCall} {c : CacheCall} {id : String} {spec : LoaderSpec}
  {loader : LoaderId}

theorem last?_cons_self (c : CacheCall) (calls : List CacheCall) :
    last? (c :: calls) c.id = some c :=
  List.find?_cons_of_pos (p := fun d : CacheCall ↦ d.id == c.id) (beq_self_eq_true c.id)

theorem last?_cons_of_ne (h : c.id ≠ id) (calls : List CacheCall) :
    last? (c :: calls) id = last? calls id := by
  rw [last?, last?, List.find?_cons_of_neg (by simpa using h)]

theorem id_of_last? (h : last? calls id = some c) : c.id = id := by
  simpa using List.find?_some h

theorem loader?_of_ne (h : c.id ≠ id) : c.loader? id = none := by
  cases c with
  | get other spec loader => exact if_neg h
  | remove other found => rfl

theorem lastLoader?_of_last? (h : last? calls id = some (.get id spec loader)) :
    lastLoader? calls id = some loader := by
  induction calls with
  | nil => cases h
  | cons c calls ih =>
    rw [lastLoader?, List.findSome?_cons]
    by_cases hc : c.id = id
    · have hself := last?_cons_self c calls
      rw [hc] at hself
      obtain rfl := Option.some.inj (hself.symm.trans h)
      rw [loader?, if_pos rfl]
    · rw [loader?_of_ne hc]
      rw [last?_cons_of_ne hc] at h
      exact ih h

theorem mem_of_lastLoader? (h : lastLoader? calls id = some loader) :
    ∃ spec, .get id spec loader ∈ calls := by
  obtain ⟨c, hc, hloader⟩ := List.exists_of_findSome?_eq_some h
  cases c with
  | get other spec loader' =>
    rw [loader?] at hloader
    split at hloader
    next heq =>
      cases hloader
      exact ⟨spec, heq ▸ hc⟩
    next => cases hloader
  | remove => cases hloader

end CacheCall

namespace LoaderCache

open CacheCall

variable {w₀ w w' : World} {calls : List CacheCall} {cache : LoaderCache} {id other : String}
  {spec : LoaderSpec} {loader : LoaderId}

/-- The calls that a cache has answered since it was empty, last first. A parent is a loader that is
there, and anything may happen to the world between two calls. -/
inductive Run (w₀ : World) : List CacheCall → LoaderCache → World → Prop
  | start : Run w₀ [] {} w₀
  | get {calls : List CacheCall} {cache : LoaderCache} {w : World} (h : Run w₀ calls cache w)
    (id : String) (spec : LoaderSpec) (hparent : ∀ p, spec.parent = some p → p < w.loaders.size) :
    Run w₀ (.get id spec (cache.get w id spec).1 :: calls) (cache.get w id spec).2.1
      (cache.get w id spec).2.2
  | remove {calls : List CacheCall} {cache : LoaderCache} {w : World} (h : Run w₀ calls cache w)
    (id : String) : Run w₀ (.remove id (cache.remove id).1 :: calls) (cache.remove id).2 w
  | between {calls : List CacheCall} {cache : LoaderCache} {w w' : World}
    (h : Run w₀ calls cache w) (hw : w.History w') : Run w₀ calls cache w'

/-- A cache and the calls that it has answered. -/
structure Answered (calls : List CacheCall) (cache : LoaderCache) (w : World) : Prop where
  nodup : (cache.entries.map Prod.fst).Nodup
  last : ∀ id, (last? calls id).elim (cache.entries.lookup id = none)
    (Leaves (cache.entries.lookup id))
  built : ∀ id made loader, cache.entries.lookup id = some (made, loader) →
    ∃ defined, w.BuiltFrom loader made defined
  returned : ∀ id spec loader, .get id spec loader ∈ calls → loader < w.loaders.size
  gets : cache.hits + cache.misses = calls.countP isGet
  hits : cache.hits = identicalReturns calls

/-! ### Entries by id -/

theorem lookup_filter_of_ne (h : other ≠ id) (entries : List (String × LoaderSpec × LoaderId)) :
    (entries.filter (·.1 != id)).lookup other = entries.lookup other := by
  induction entries with
  | nil => rfl
  | cons x entries ih =>
    obtain ⟨key, value⟩ := x
    by_cases hkey : key = id
    · subst hkey
      rw [List.filter_cons_of_neg (by simp), ih, List.lookup_cons, beq_false_of_ne h]
    · rw [List.filter_cons_of_pos (by simpa using hkey), List.lookup_cons, List.lookup_cons, ih]

theorem lookup_cons_filter_of_ne (h : other ≠ id) (value : LoaderSpec × LoaderId)
    (entries : List (String × LoaderSpec × LoaderId)) :
    ((id, value) :: entries.filter (·.1 != id)).lookup other = entries.lookup other := by
  rw [List.lookup_cons, beq_false_of_ne h]
  exact lookup_filter_of_ne h entries

theorem lookup_remove_self (cache : LoaderCache) (id : String) :
    (cache.remove id).2.entries.lookup id = none :=
  lookup_filter_self cache.entries id

theorem lookup_remove_of_ne (h : other ≠ id) (cache : LoaderCache) :
    (cache.remove id).2.entries.lookup other = cache.entries.lookup other :=
  lookup_filter_of_ne h cache.entries

/-- A call for one id leaves what is cached for the others. -/
theorem lookup_get_of_ne (h : other ≠ id) (cache : LoaderCache) (w : World) (spec : LoaderSpec) :
    (cache.get w id spec).2.1.entries.lookup other = cache.entries.lookup other := by
  rcases get_cases cache w id spec with ⟨_, _, -, -, heq⟩ | ⟨-, heq⟩
  · rw [heq]
  · rw [heq]
    exact lookup_cons_filter_of_ne h _ cache.entries

theorem nodup_filter (id : String) {entries : List (String × LoaderSpec × LoaderId)}
    (h : (entries.map Prod.fst).Nodup) : ((entries.filter (·.1 != id)).map Prod.fst).Nodup :=
  h.sublist (List.filter_sublist.map _)

namespace Answered

theorem start (w : World) : Answered [] {} w where
  nodup := .nil
  last _ := rfl
  built _ _ _ h := by cases h
  returned _ _ _ h := by cases h
  gets := rfl
  hits := rfl

theorem between (h : Answered calls cache w) (hw : w.History w') : Answered calls cache w' where
  nodup := h.nodup
  last := h.last
  built id made loader hlookup := by
    obtain ⟨_, hbuilt⟩ := h.built id made loader hlookup
    exact hbuilt.history hw
  returned id spec loader hmem := Nat.lt_of_lt_of_le (h.returned id spec loader hmem) hw.size_le
  gets := h.gets
  hits := h.hits

/-- A call counts for its id, and for the others the calls before do. -/
theorem last_cons (h : Answered calls cache w) {c : CacheCall} {cache' : LoaderCache}
    (hself : c.Leaves (cache'.entries.lookup c.id))
    (hother : ∀ other ≠ c.id, cache'.entries.lookup other = cache.entries.lookup other) (id : String) :
    (last? (c :: calls) id).elim (cache'.entries.lookup id = none)
      (Leaves (cache'.entries.lookup id)) := by
  by_cases hid : c.id = id
  · subst hid
    rw [last?_cons_self]
    exact hself
  · rw [last?_cons_of_ne hid, hother id (Ne.symm hid)]
    exact h.last id

theorem remove (h : Answered calls cache w) (id : String) (found : Bool) :
    Answered (.remove id found :: calls) (cache.remove id).2 w where
  nodup := nodup_filter id h.nodup
  last := h.last_cons (lookup_remove_self cache id) fun _ hother ↦ lookup_remove_of_ne hother cache
  built other made loader hlookup := by
    by_cases hother : other = id
    · subst hother
      rw [lookup_remove_self] at hlookup
      cases hlookup
    · rw [lookup_remove_of_ne hother] at hlookup
      exact h.built other made loader hlookup
  returned other spec loader hmem := by
    rcases List.mem_cons.mp hmem with heq | hmem
    · cases heq
    · exact h.returned other spec loader hmem
  gets := h.gets
  hits := h.hits

/-- What is cached is what the last call for the id has returned. -/
theorem lookup_iff (h : Answered calls cache w) :
    (∃ made, cache.entries.lookup id = some (made, loader) ∧ made.Agrees spec) ↔
      ∃ asked, last? calls id = some (.get id asked loader) ∧ asked.Agrees spec := by
  have hlast := h.last id
  constructor
  · rintro ⟨made, hlookup, hagrees⟩
    rw [hlookup] at hlast
    rcases heq : last? calls id with _ | ⟨other, asked, loader'⟩ | ⟨other, found⟩
    · rw [heq] at hlast
      cases hlast
    · obtain rfl : other = id := id_of_last? heq
      rw [heq] at hlast
      obtain ⟨made', hmade, hagrees'⟩ := hlast
      cases hmade
      exact ⟨asked, rfl, hagrees'.symm.trans hagrees⟩
    · rw [heq] at hlast
      cases hlast
  · rintro ⟨asked, heq, hagrees⟩
    rw [heq] at hlast
    obtain ⟨made, hlookup, hagrees'⟩ := hlast
    exact ⟨made, hlookup, hagrees'.trans hagrees⟩

theorem lt_of_lastLoader? (h : Answered calls cache w) (hlast : lastLoader? calls id = some loader) :
    loader < w.loaders.size := by
  obtain ⟨spec, hmem⟩ := mem_of_lastLoader? hlast
  exact h.returned id spec loader hmem

/-- A hit returns what was returned before. -/
theorem get_hit (h : Answered calls cache w) {made : LoaderSpec}
    (hlookup : cache.entries.lookup id = some (made, loader)) (hagrees : made.Agrees spec) :
    Answered (.get id spec loader :: calls)
      { cache with hits := cache.hits + 1, requests := .get id :: cache.requests } w where
  nodup := h.nodup
  last := h.last_cons ⟨made, hlookup, hagrees⟩ fun _ _ ↦ rfl
  built := h.built
  returned other asked loader' hmem := by
    obtain ⟨asked', hlast, -⟩ := h.lookup_iff.mp ⟨made, hlookup, hagrees⟩
    rcases List.mem_cons.mp hmem with heq | hmem
    · cases heq
      exact h.lt_of_lastLoader? (lastLoader?_of_last? hlast)
    · exact h.returned other asked loader' hmem
  gets := by
    rw [List.countP_cons_of_pos rfl, ← h.gets]
    exact Nat.add_right_comm _ _ _
  hits := by
    obtain ⟨asked, hlast, -⟩ := h.lookup_iff.mp ⟨made, hlookup, hagrees⟩
    rw [identicalReturns, if_pos (lastLoader?_of_last? hlast), ← h.hits]

/-- A miss returns a loader that no call has returned. -/
theorem get_miss (h : Answered calls cache w)
    (hparent : ∀ p, spec.parent = some p → p < w.loaders.size) :
    Answered (.get id spec (create spec w).1 :: calls)
      { cache with
        entries := (id, spec, (create spec w).1) :: cache.entries.filter (·.1 != id)
        misses := cache.misses + 1
        requests := .get id :: cache.requests } (create spec w).2 := by
  -- The new loader is behind all loaders of `w`, and those that were returned are among these.
  obtain ⟨hbuilt, hnew, hlt⟩ := create_builds spec w
  have hw := history_create hparent
  exact
    { nodup := by
        refine List.nodup_cons.mpr ⟨fun hmem ↦ ?_, nodup_filter id h.nodup⟩
        obtain ⟨x, hx, hid⟩ := List.mem_map.mp hmem
        exact bne_iff_ne.mp (List.mem_filter.mp hx).2 hid
      last := h.last_cons ⟨spec, List.lookup_cons_self, rfl, rfl, rfl⟩ fun _ hother ↦
        lookup_cons_filter_of_ne hother _ cache.entries
      built := fun other made loader hlookup ↦ by
        by_cases hother : other = id
        · subst hother
          rw [List.lookup_cons_self] at hlookup
          cases hlookup
          exact ⟨[], hbuilt⟩
        · rw [lookup_cons_filter_of_ne hother] at hlookup
          exact (h.between hw).built other made loader hlookup
      returned := fun other asked loader hmem ↦ by
        rcases List.mem_cons.mp hmem with heq | hmem
        · cases heq
          exact hlt
        · exact (h.between hw).returned other asked loader hmem
      gets := by
        rw [List.countP_cons_of_pos rfl, ← h.gets]
        rfl
      hits := by
        have hne : lastLoader? calls id ≠ some (create spec w).1 := fun hlast ↦
          absurd (h.lt_of_lastLoader? hlast) (Nat.not_lt.mpr hnew)
        rw [identicalReturns, if_neg hne, ← h.hits]
        rfl }

theorem get (h : Answered calls cache w) (id : String) (spec : LoaderSpec)
    (hparent : ∀ p, spec.parent = some p → p < w.loaders.size) :
    Answered (.get id spec (cache.get w id spec).1 :: calls) (cache.get w id spec).2.1
      (cache.get w id spec).2.2 := by
  rcases get_cases cache w id spec with ⟨made, loader, hlookup, hagrees, heq⟩ | ⟨-, heq⟩
  · rw [heq]
    exact h.get_hit hlookup hagrees
  · rw [heq]
    exact h.get_miss hparent

end Answered

theorem Run.answered (h : Run w₀ calls cache w) : Answered calls cache w := by
  induction h with
  | start => exact .start w₀
  | get _ id spec hparent ih => exact ih.get id spec hparent
  | remove _ id ih => exact ih.remove id _
  | between _ hw ih => exact ih.between hw

/-! ## Answers -/

theorem remove_fst (cache : LoaderCache) (id : String) :
    (cache.remove id).1 = true ↔ ∃ made loader, cache.entries.lookup id = some (made, loader) := by
  rw [LoaderCache.remove, Option.isSome_iff_exists, Prod.exists]

/-- There is an entry for an id if the last call for it was a `get`. -/
theorem Answered.exists_lookup_iff (h : Answered calls cache w) :
    (∃ made loader, cache.entries.lookup id = some (made, loader)) ↔
      ∃ spec loader, last? calls id = some (.get id spec loader) := by
  constructor
  · rintro ⟨made, loader, hlookup⟩
    obtain ⟨asked, hlast, -⟩ := h.lookup_iff.mp ⟨made, hlookup, rfl, rfl, rfl⟩
    exact ⟨asked, loader, hlast⟩
  · rintro ⟨spec, loader, hlast⟩
    obtain ⟨made, hlookup, -⟩ := h.lookup_iff.mpr ⟨spec, hlast, rfl, rfl, rfl⟩
    exact ⟨made, loader, hlookup⟩

theorem Answered.size_eq (h : Answered calls cache w) :
    cache.size = {id | ∃ spec loader, last? calls id = some (.get id spec loader)}.ncard := by
  have hkeys : {id | ∃ spec loader, last? calls id = some (.get id spec loader)} =
      ((cache.entries.map Prod.fst).toFinset : Set String) := by
    ext id
    rw [Set.mem_ofPred_eq, ← h.exists_lookup_iff, List.coe_toFinset, Set.mem_ofPred_eq,
      ← Prod.exists (p := fun x ↦ cache.entries.lookup id = some x), ← Option.isSome_iff_exists,
      List.lookup_isSome_iff, List.mem_map]
    exact exists_congr fun x ↦ and_congr_right fun _ ↦ beq_iff_eq.trans eq_comm
  rw [hkeys, Set.ncard_coe_finset, List.toFinset_card_of_nodup h.nodup, List.length_map, size]

/-- What a cache answers after any calls. `get` returns the loader of the `get` before for the id if
and only if that was the last call for the id and agrees with this one, and else a loader that no
call has returned, made of what is asked for. `remove` has something to remove if the last call for
the id was a `get`, and the size is the number of such ids. The hits are the calls that returned the
loader of the call before. A call for one id leaves the other entries alone, and what is noted
beside a loader is what it was made from; as long as it is cached, its parent can be reached from
it. -/
theorem answers_of_run (h : Run w₀ calls cache w) :
    (∀ id spec,
      (∀ previous, lastLoader? calls id = some previous →
        ((cache.get w id spec).1 = previous ↔
          ∃ asked, last? calls id = some (.get id asked previous) ∧ asked.Agrees spec)) ∧
      ((∀ asked loader, last? calls id = some (.get id asked loader) → ¬asked.Agrees spec) →
        (∀ other asked, .get other asked (cache.get w id spec).1 ∉ calls) ∧
        w.loader? (cache.get w id spec).1 = none ∧
        (cache.get w id spec).2.2.BuiltFrom (cache.get w id spec).1 spec [])) ∧
    (∀ id, (cache.remove id).1 = true ↔
      ∃ spec loader, last? calls id = some (.get id spec loader)) ∧
    cache.size = {id | ∃ spec loader, last? calls id = some (.get id spec loader)}.ncard ∧
    cache.hits + cache.misses = calls.countP isGet ∧ cache.hits = identicalReturns calls ∧
    (∀ id other, other ≠ id → (∀ spec, (cache.get w id spec).2.1.entries.lookup other =
        cache.entries.lookup other) ∧
      (cache.remove id).2.entries.lookup other = cache.entries.lookup other) ∧
    ∀ id made loader, cache.entries.lookup id = some (made, loader) →
      (∃ defined, w.BuiltFrom loader made defined) ∧
      ∀ p, made.parent = some p → w.Reaches loader p := by
  have h := h.answered
  refine ⟨fun id spec ↦ ⟨fun previous hprevious ↦ ?_, fun hlast ↦ ?_⟩, fun id ↦ ?_, h.size_eq, h.gets,
    h.hits, fun id other hother ↦ ⟨fun spec ↦ lookup_get_of_ne hother cache w spec,
      lookup_remove_of_ne hother cache⟩, fun id made loader hlookup ↦ ?_⟩
  · rw [← h.lookup_iff]
    rcases get_cases cache w id spec with ⟨made, loader, hlookup, hagrees, heq⟩ | ⟨hlacks, heq⟩
    · rw [heq]
      refine ⟨fun hloader ↦ ⟨made, hloader ▸ hlookup, hagrees⟩, fun ⟨made', hlookup', _⟩ ↦ ?_⟩
      cases hlookup.symm.trans hlookup'
      rfl
    · rw [heq]
      refine ⟨fun hloader ↦ ?_, fun ⟨made, hlookup, hagrees⟩ ↦ (hlacks made _ hlookup hagrees).elim⟩
      exact absurd (hloader ▸ h.lt_of_lastLoader? hprevious) (Nat.not_lt.mpr (create_builds spec w).2.1)
  · rcases get_cases cache w id spec with ⟨made, loader, hlookup, hagrees, -⟩ | ⟨-, heq⟩
    · obtain ⟨asked, hasked, hagrees⟩ := h.lookup_iff.mp ⟨made, hlookup, hagrees⟩
      exact (hlast asked loader hasked hagrees).elim
    · rw [heq]
      obtain ⟨hbuilt, hnew, -⟩ := create_builds spec w
      refine ⟨fun other asked hmem ↦ ?_, Array.getElem?_eq_none hnew, hbuilt⟩
      exact absurd (h.returned other asked _ hmem) (Nat.not_lt.mpr hnew)
  · rw [remove_fst, h.exists_lookup_iff]
  · obtain ⟨defined, hbuilt⟩ := h.built id made loader hlookup
    exact ⟨⟨defined, hbuilt⟩, fun p hp ↦ hbuilt.reaches hp⟩

/-! Two requests for the same class path, written in two ways. -/

def plainSpec : LoaderSpec := ⟨[⟨"/c"⟩], some 0, none⟩

def slashSpec : LoaderSpec := ⟨[⟨"/c/"⟩], some 0, none⟩

/-- The second request is a hit, and there is a loader to be removed afterwards. -/
theorem second_request_hits : ∃ calls cache w, Run (World.start []).2 calls cache w ∧
    cache.hits = 1 ∧
    cache.size = {id | ∃ spec loader, last? calls id = some (.get id spec loader)}.ncard ∧
    (cache.remove "a").1 = true := by
  have hvalid : ∀ p, some 0 = some p → p < 1 := by
    rintro _ ⟨⟩
    exact Nat.one_pos
  have hstart : Run (World.start []).2 [] {} (World.start []).2 := .start
  have hrun := (hstart.get "a" plainSpec hvalid).get "a" slashSpec fun p hp ↦
    Nat.lt_succ_of_lt (hvalid p hp)
  obtain ⟨-, hremove, hsize, -, hhits, -⟩ := answers_of_run hrun
  exact ⟨_, _, _, hrun, hhits.trans rfl, hsize, (hremove "a").mpr ⟨slashSpec, _, rfl⟩⟩

/-- Loaders that are in use: those that a cached loader reaches, and the parent to be asked for. -/
def InUse (cache : LoaderCache) (w : World) (spec : LoaderSpec) (loader : LoaderId) : Prop :=
  spec.parent = some loader ∨
    ∃ id made cached, cache.entries.lookup id = some (made, cached) ∧ w.Reaches cached loader

/-- Parents can be compared by address, if no two loaders that are in use have the same: a cached
loader keeps its parent in use. -/
theorem parent_eq_iff_address (h : Run w₀ calls cache w) {made : LoaderSpec}
    (hlookup : cache.entries.lookup id = some (made, loader)) {address : LoaderId → Nat}
    (haddress : ∀ x y, InUse cache w spec x → InUse cache w spec y → address x = address y → x = y) :
    made.parent.map address = spec.parent.map address ↔ made.parent = spec.parent := by
  refine ⟨fun heq ↦ ?_, fun heq ↦ by rw [heq]⟩
  obtain ⟨_, hbuilt⟩ := h.answered.built id made loader hlookup
  cases hmade : made.parent with
  | none =>
    rw [hmade, Option.map_none, eq_comm, Option.map_eq_none_iff] at heq
    exact heq.symm
  | some p =>
    rw [hmade, Option.map_some, eq_comm, Option.map_eq_some_iff] at heq
    obtain ⟨q, hq, heq⟩ := heq
    rw [hq, haddress q p (.inl hq) (.inr ⟨id, made, loader, hlookup, hbuilt.reaches hmade⟩) heq]

end LoaderCache

end BuildScript
