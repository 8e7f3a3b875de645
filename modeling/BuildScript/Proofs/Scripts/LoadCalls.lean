import BuildScript.Proofs.Loading.NamedClasses
import BuildScript.Scripts.CompiledScript

/-!
# Calls of a handle

The class of a script is loaded at most once: a handle is made without a class, it keeps the class
that it has loaded, and it keeps nothing of a call that fails. So of the earlier calls of a handle
only one thing matters, whether one of them has answered with a class. Until then each call asks the
cache for the loader of the script and the loader for the class, in the files and with the cache as
they are at that time; from then on the files and the cache are not looked at any more.

Calls are made in any builds whatever, so everything may have changed between two of them. A search
that does not end is given up and marked (`World.endless`), and what is said of its answer is
without meaning, as everything is that comes after it.
-/

namespace BuildScript

namespace CompiledScript

variable {α : Type}

/-! ## One call -/

section Call

variable (s : CompiledScript α) (b : Build)

/-- The script is empty and has no methods. -/
def hasNothingToLoad : Bool := s.flags.isEmpty && !s.flags.hasMethods

/-- The call of a handle in a build: the answer, the handle and the build afterwards. -/
def call : Except ScriptError Class × CompiledScript α × Build :=
  match s.loadClass.run b with
  | (.ok (c, s'), b') => (.ok c, s', b')
  | (.error e, b') => (.error e, s, b')

/-- What the cache gives for the script. -/
def askCache : LoaderId × LoaderCache × World :=
  b.loaders.get b.world s.loaderId ⟨[s.directory], some s.parent, none⟩

/-- What the loader that the cache gives answers for the class of the script. -/
def answer : Except LoadError Class × World :=
  (s.askCache b).2.2.load (s.askCache b).1 s.source.className

/-- The class that the loader has answered with, if it extends the base class. -/
def found : Except LoadError Class := (s.answer b).1.bind (·.asSubclass s.base)

/-- The build in which the cache and the loader were asked. -/
def asked : Build := { b with loaders := (s.askCache b).2.1, world := (s.answer b).2 }

/-- Where the class file of the script is expected. -/
def artifact : Path := s.directory.classFile s.source.className

/-- The error of a class that was not found. -/
def failure (files : FileTree) (cause : LoadError) : ScriptError :=
  if files.isFile s.artifact then .compiledArtifactUnloadable s.source.displayName cause
  else .compiledArtifactMissing s.source.displayName s.artifact cause

variable {s b} {c : Class} {cause : LoadError} {files : FileTree}

theorem failure_of_missing (h : files.isFile s.artifact = false) :
    s.failure files cause =
      .compiledArtifactMissing s.source.displayName s.artifact cause := by
  rw [failure, h, if_neg Bool.false_ne_true]

theorem failure_of_present (h : files.isFile s.artifact = true) :
    s.failure files cause = .compiledArtifactUnloadable s.source.displayName cause := by
  rw [failure, h, if_pos rfl]

/-- Neither the cache nor the loader changes files. -/
theorem files_asked : (s.asked b).world.files = b.world.files := by
  have hcache : (s.askCache b).2.2.files = b.world.files := by
    rw [askCache]
    rcases LoaderCache.get_cases b.loaders b.world s.loaderId ⟨[s.directory], some s.parent, none⟩
      with ⟨_, _, -, -, heq⟩ | ⟨-, heq⟩
    · rw [heq]
    · rw [heq]
      rfl
  exact World.keptByLoading_files _ _ _ _ hcache

/-- The cache is asked once. -/
theorem requests_asked :
    (s.asked b).loaders.requests = .get s.loaderId :: b.loaders.requests := by
  change (s.askCache b).2.1.requests = _
  rw [askCache]
  rcases LoaderCache.get_cases b.loaders b.world s.loaderId ⟨[s.directory], some s.parent, none⟩
    with ⟨_, _, -, -, heq⟩ | ⟨-, heq⟩
  all_goals rw [heq]

theorem run_load_eq :
    s.load.run b = ((s.found b).mapError (s.failure b.world.files), s.asked b) := by
  have hfiles := files_asked (s := s) (b := b)
  rcases hget : s.askCache b with ⟨loader, loaders, world⟩
  rcases hload : world.load loader s.source.className with ⟨answered, world'⟩
  have hanswer : s.answer b = (answered, world') := by
    rw [answer, hget]
    exact hload
  rw [asked, hget, hanswer] at hfiles
  rw [found, asked, hget, hanswer]
  rw [askCache] at hget
  rw [load, run_bind_ok (run_get b), hget]
  dsimp only
  rw [hload]
  dsimp only
  rw [run_bind_ok (run_set b _)]
  cases answered.bind (·.asSubclass s.base) with
  | ok c => rfl
  | error cause =>
    dsimp only [Except.mapError]
    rw [failure, ← hfiles, artifact]
    split <;> rfl

theorem call_of_nothing (h : s.hasNothingToLoad = true) :
    s.call b = (.error .unloadableEmptyScript, s, b) := by
  rw [hasNothingToLoad] at h
  rw [call, loadClass, if_pos h]
  rfl

theorem call_of_loaded (h : s.hasNothingToLoad = false) (hloaded : s.loaded = some c) :
    s.call b = (.ok c, s, b) := by
  rw [hasNothingToLoad] at h
  rw [call, loadClass, if_neg (Bool.eq_false_iff.mp h), hloaded]
  rfl

theorem run_loadClass_eq (h : s.hasNothingToLoad = false) (hloaded : s.loaded = none) :
    s.loadClass.run b = (do
      let c ← s.load
      return (c, { s with loaded := some c }) : BuildM _).run b := by
  rw [hasNothingToLoad] at h
  rw [loadClass, if_neg (Bool.eq_false_iff.mp h), hloaded]

theorem call_of_found (h : s.hasNothingToLoad = false) (hloaded : s.loaded = none)
    (hfound : s.found b = .ok c) : s.call b = (.ok c, { s with loaded := some c }, s.asked b) := by
  have hload : s.load.run b = (.ok c, s.asked b) := by
    rw [run_load_eq, hfound]
    rfl
  rw [call, run_loadClass_eq h hloaded, run_bind_ok hload]
  rfl

theorem call_of_error (h : s.hasNothingToLoad = false) (hloaded : s.loaded = none)
    (hfound : s.found b = .error cause) :
    s.call b = (.error (s.failure b.world.files cause), s, s.asked b) := by
  have hload : s.load.run b = (.error (s.failure b.world.files cause), s.asked b) := by
    rw [run_load_eq, hfound]
    rfl
  rw [call, run_loadClass_eq h hloaded, run_bind_error hload]

/-- What was found has the name that was asked for, and it extends the base class. -/
theorem spec_of_found (hnames : (s.askCache b).2.2.AnswersByName) (hfound : s.found b = .ok c) :
    c.name = s.source.className ∧ ∃ e ∈ c.chain, e.name = s.base.name := by
  rw [found, answer] at hfound
  generalize hload : (World.load _ _ _).1 = answered at hfound
  cases answered with
  | error cause => cases hfound
  | ok c' =>
    change c'.asSubclass s.base = .ok c at hfound
    rw [Class.asSubclass] at hfound
    split at hfound
    next hdescends =>
      cases hfound
      refine ⟨hnames _ _ _ hload, ?_⟩
      rw [Class.descendsFrom, List.any_eq_true] at hdescends
      exact hdescends.imp fun e he ↦ he.imp_right beq_iff_eq.mp
    next => cases hfound

end Call

/-! ## Many calls -/

/-- The handle after calls in some builds. -/
def after (s : CompiledScript α) (builds : List Build) : CompiledScript α :=
  builds.foldl (fun s b ↦ (s.call b).2.1) s

/-- The answers to these calls. -/
def answers (s : CompiledScript α) : List Build → List (Except ScriptError Class)
  | [] => []
  | b :: builds => (s.call b).1 :: (s.call b).2.1.answers builds

variable {s : CompiledScript α} {c : Class}

theorem after_of_nothing (h : s.hasNothingToLoad = true) (builds : List Build) :
    s.after builds = s := by
  induction builds with
  | nil => rfl
  | cons b builds ih => rwa [after, List.foldl_cons, call_of_nothing h]

/-- A handle that has a class answers with it. -/
theorem calls_of_loaded (h : s.hasNothingToLoad = false) (hloaded : s.loaded = some c)
    (builds : List Build) : s.after builds = s ∧ ∀ r ∈ s.answers builds, r = .ok c := by
  induction builds with
  | nil => exact ⟨rfl, fun _ hr ↦ absurd hr List.not_mem_nil⟩
  | cons b builds ih =>
    rw [after, List.foldl_cons, answers, call_of_loaded h hloaded]
    refine ⟨ih.1, fun r hr ↦ ?_⟩
    rcases List.mem_cons.mp hr with rfl | hr
    · rfl
    · exact ih.2 r hr

/-- Either all calls have failed and the handle is what it was, or the handle has the class that was
found in one of the builds, and no other class was the answer to a call. -/
theorem calls_of_new (h : s.hasNothingToLoad = false) (hnew : s.loaded = none)
    (builds : List Build) :
    (s.after builds = s ∧ ∀ c, .ok c ∉ s.answers builds) ∨
    ∃ c, s.after builds = { s with loaded := some c } ∧ (∃ b ∈ builds, s.found b = .ok c) ∧
      ∀ c', .ok c' ∈ s.answers builds ↔ c' = c := by
  -- A failed call leaves the handle as it is, so the calls behind it are those of a new handle; a
  -- call that succeeds gives the handle a class, and then `calls_of_loaded` takes over.
  induction builds with
  | nil => exact .inl ⟨rfl, fun _ ↦ List.not_mem_nil⟩
  | cons b builds ih =>
    cases hfound : s.found b with
    | error cause =>
      have hanswers (c : Class) : .ok c ∈ s.answers (b :: builds) ↔ .ok c ∈ s.answers builds := by
        rw [answers, call_of_error h hnew hfound, List.mem_cons]
        exact or_iff_right nofun
      have hafter : s.after (b :: builds) = s.after builds := by
        rw [after, List.foldl_cons, call_of_error h hnew hfound]
        rfl
      rw [hafter]
      refine ih.imp ?_ ?_
      · exact fun ⟨hsame, hnone⟩ ↦ ⟨hsame, fun c ↦ mt (hanswers c).mp (hnone c)⟩
      · exact fun ⟨c, hloaded, ⟨b', hb', hfound'⟩, hunique⟩ ↦
          ⟨c, hloaded, ⟨b', List.mem_cons_of_mem b hb', hfound'⟩,
            fun c' ↦ (hanswers c').trans (hunique c')⟩
    | ok c =>
      obtain ⟨hafter, hanswers⟩ :=
        calls_of_loaded (s := { s with loaded := some c }) h rfl builds
      refine .inr ⟨c, ?_, ⟨b, List.mem_cons_self, hfound⟩, fun c' ↦ ?_⟩
      · rw [after, List.foldl_cons, call_of_found h hnew hfound]
        exact hafter
      · rw [answers, call_of_found h hnew hfound, List.mem_cons]
        refine ⟨fun hc' ↦ ?_, fun hc' ↦ .inl (congrArg _ hc')⟩
        rcases hc' with heq | hmem
        · exact Except.ok.inj heq
        · exact Except.ok.inj (hanswers _ hmem)

/-- The next call of a handle, after any calls in any builds. A script without anything to load has
no class, whatever the cache holds. Otherwise a class that was the answer once is the answer again,
and the build stays as it is. As long as there was none, the handle is what it was, the cache is
asked once, and the call succeeds if the loader finds a class now. The class has the name of the
source and extends the base class. A call that fails leaves the handle as it is, and its error tells
whether there is a file where the class file is expected, and why there is no class. -/
theorem loadClass_calls (hnew : s.loaded = none) (earlier : List Build) (b : Build)
    (hnames : ∀ b' ∈ b :: earlier, (s.askCache b').2.2.AnswersByName) :
    (s.hasNothingToLoad = true →
      (s.after earlier).call b = (.error .unloadableEmptyScript, s, b)) ∧
    (s.hasNothingToLoad = false →
      (∀ c, .ok c ∈ s.answers earlier →
        (s.after earlier).call b = (.ok c, s.after earlier, b)) ∧
      ((∀ c, .ok c ∉ s.answers earlier) →
        s.after earlier = s ∧ ((s.after earlier).call b).2.2 = s.asked b ∧
        (s.asked b).loaders.requests = .get s.loaderId :: b.loaders.requests ∧
        (s.asked b).world.files = b.world.files ∧
        ∀ c, ((s.after earlier).call b).1 = .ok c ↔ s.found b = .ok c) ∧
      (∀ c, ((s.after earlier).call b).1 = .ok c →
        c.name = s.source.className ∧ ∃ e ∈ c.chain, e.name = s.base.name) ∧
      ∀ e, ((s.after earlier).call b).1 = .error e →
        ((s.after earlier).call b).2.1 = s.after earlier ∧
        ∃ cause, s.found b = .error cause ∧
          (b.world.files.isFile s.artifact = false →
            e = .compiledArtifactMissing s.source.displayName s.artifact cause) ∧
          (b.world.files.isFile s.artifact = true →
            e = .compiledArtifactUnloadable s.source.displayName cause)) := by
  refine ⟨fun h ↦ ?_, fun h ↦ ?_⟩
  · rw [after_of_nothing h, call_of_nothing h]
  rcases calls_of_new h hnew earlier with
    ⟨hafter, hnone⟩ | ⟨c, hafter, ⟨b₀, hb₀, hfound⟩, hunique⟩
  case inl =>
    have hnot {c : Class} (hc : .ok c ∈ s.answers earlier) : False := hnone c hc
    rw [hafter]
    cases hfound : s.found b with
    | ok c =>
      rw [call_of_found h hnew hfound]
      refine ⟨fun _ hc ↦ (hnot hc).elim,
        fun _ ↦ ⟨rfl, rfl, requests_asked, files_asked, fun c' ↦ ?_⟩, ?_, nofun⟩
      · exact ⟨fun hc ↦ congrArg _ (Except.ok.inj hc), fun hc ↦ congrArg _ (Except.ok.inj hc)⟩
      intro c' hc'
      rw [← Except.ok.inj hc']
      exact spec_of_found (hnames b List.mem_cons_self) hfound
    | error cause =>
      rw [call_of_error h hnew hfound]
      refine ⟨fun _ hc ↦ (hnot hc).elim,
        fun _ ↦ ⟨rfl, rfl, requests_asked, files_asked, fun _ ↦ ⟨nofun, nofun⟩⟩, nofun, ?_⟩
      intro e he
      rw [← Except.error.inj he]
      exact ⟨rfl, cause, rfl, failure_of_missing, failure_of_present⟩
  case inr =>
    have hcall : (s.after earlier).call b = (.ok c, s.after earlier, b) := by
      rw [hafter]
      exact call_of_loaded h rfl
    rw [hcall]
    refine ⟨fun c' hc' ↦ ?_, fun hnone ↦ ?_, ?_, nofun⟩
    · rw [(hunique c').mp hc']
    · exact absurd ((hunique c).mpr rfl) (hnone c)
    · intro c' hc'
      rw [← Except.ok.inj hc']
      exact spec_of_found (hnames b₀ (List.mem_cons_of_mem b hb₀)) hfound

/-! A script of which the class file is missing at first, then broken, then there, then gone. -/

def gradually : CompiledScript Unit where
  flags := ⟨false, false⟩
  loaderId := "build:A"
  base := .native 0 scriptClassName none []
  directory := ⟨"/c"⟩
  parent := 0
  source := .ofText "script 'a'" none (some "A") none
  data := none

def withoutArtifact : Build := { world := (World.start []).2 }

def withArtifact (bytes : List UInt8) : Build :=
  let files := ((FileTree.writeBelow ⟨"/c/A.class"⟩ bytes).run {}).2
  { world := { (World.start []).2 with files } }

/-- The builds before the last one. -/
def gradualBuilds : List Build :=
  [withoutArtifact, withArtifact [0],
    withArtifact (ClassFile.empty "A" (some scriptClassName)).encode]

/-- The third call succeeds, and the fourth one does not need the file any more. -/
theorem gradually_loads :
    (gradually.loaded = none ∧
      ∀ b' ∈ withoutArtifact :: gradualBuilds, (gradually.askCache b').2.2.AnswersByName) ∧
    (gradually.hasNothingToLoad = false ∧
      (gradually.answers gradualBuilds).map (fun r ↦ r.toOption.map (·.name)) =
        [none, none, some "A"]) ∧
    ∃ c, .ok c ∈ gradually.answers gradualBuilds ∧
      (gradually.after gradualBuilds).call withoutArtifact =
        (.ok c, gradually.after gradualBuilds, withoutArtifact) ∧
      c.name = "A" ∧ ∃ e ∈ c.chain, e.name = scriptClassName := by
  have hnamed : ∀ b' ∈ withoutArtifact :: gradualBuilds, b'.world.Named := by
    simp only [gradualBuilds, List.forall_mem_cons]
    exact ⟨World.named_start [], World.named_start [], World.named_start [], World.named_start [],
      fun _ hb' ↦ absurd hb' List.not_mem_nil⟩
  have hnames : ∀ b' ∈ withoutArtifact :: gradualBuilds,
      (gradually.askCache b').2.2.AnswersByName := fun b' hb' ↦
    (LoaderCache.named_get (hnamed b' hb') _ _ _).answersByName
  have hanswers : (gradually.answers gradualBuilds).map (fun r ↦ r.toOption.map (·.name)) =
      [none, none, some "A"] := by decide +kernel
  obtain ⟨c, hc⟩ : ∃ c, .ok c ∈ gradually.answers gradualBuilds := by
    have hlast : some "A" ∈ (gradually.answers gradualBuilds).map
        fun r ↦ r.toOption.map (·.name) := by
      rw [hanswers]
      decide
    obtain ⟨r, hr, hname⟩ := List.mem_map.mp hlast
    cases r with
    | error e => cases hname
    | ok c => exact ⟨c, hr⟩
  obtain ⟨hagain, -, hspec, -⟩ := (loadClass_calls rfl gradualBuilds withoutArtifact hnames).2 rfl
  exact ⟨⟨rfl, hnames⟩, ⟨rfl, hanswers⟩, c, hc, hagain c hc,
    hspec c (congrArg Prod.fst (hagain c hc))⟩

end CompiledScript

end BuildScript
