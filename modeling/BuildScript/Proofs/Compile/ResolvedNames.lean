import BuildScript.Proofs.Compile.LocalNames
import BuildScript.Proofs.Compile.ResolutionRule
import BuildScript.Proofs.Syntax.ParsedNames
import Mathlib.Data.List.Forall2

/-!
# Resolved names of parsed scripts

In a parsed script the names that resolution tries are chains of segments: a variable, or property
accesses on one. The rule of resolution can be told by them alone, and it agrees with code generation
about what a local is: resolution changes no slot of a method, and no place that loads one.
-/

namespace BuildScript

/-! ## Chains -/

namespace Expr

/-- The segments of a variable with property accesses on it. -/
def chain? : Expr → Option (List String)
  | .var name _ => some [name]
  | .property object name _ => object.chain?.map (· ++ [name])
  | _ => none

/-- The dotted name by which an expression may stand for a class: that of a chain whose last segment
begins with a capital and whose first segment is no local. -/
def className? (locals : List String) (e : Expr) : Option String :=
  match e.chain? with
  | none => none
  | some path =>
    if isClassLike (path.getLastD "") ∧ path.headD "" ∉ locals then some (".".intercalate path)
    else none

theorem chain?_ne_nil {e : Expr} {path : List String} (h : e.chain? = some path) : path ≠ [] := by
  cases e with
  | var name =>
    cases h
    exact List.cons_ne_nil _ _
  | property object name =>
    rw [chain?, Option.map_eq_some_iff] at h
    obtain ⟨front, -, rfl⟩ := h
    exact List.append_ne_nil_of_right_ne_nil _ (List.cons_ne_nil _ _)
  | _ => cases h

theorem dottedName?_eq_chain? (e : Expr) : e.dottedName? = e.chain?.map (".".intercalate ·) := by
  cases e with
  | var => rfl
  | property object name =>
    rw [dottedName?, chain?, dottedName?_eq_chain? object, Option.map_map, Option.map_map]
    cases hobject : object.chain? with
    | none => rfl
    | some path =>
      simp [String.intercalate_append_of_ne_nil (chain?_ne_nil hobject) (List.cons_ne_nil name [])]
  | _ => rfl

/-- The head of a chain is a variable of the expression. -/
theorem head_of_chain? {N : String → Prop} {e : Expr} {path : List String} (he : e.Named N)
    (h : e.chain? = some path) : N (path.headD "") := by
  cases e with
  | var name =>
    cases h
    exact named_var.mp he
  | property object name =>
    rw [chain?, Option.map_eq_some_iff] at h
    obtain ⟨front, hfront, rfl⟩ := h
    have hhead := head_of_chain? (named_property.mp he) hfront
    cases front with
    | nil => exact absurd rfl (chain?_ne_nil hfront)
    | cons first front => exact hhead
  | _ => cases h

/-- What stands in front of the first dot of a chain's name is its first segment. -/
theorem takeWhile_intercalate {path : List String} (hpath : path ≠ [])
    (hhead : '.' ∉ (path.headD "").toList) :
    String.ofList ((".".intercalate path).toList.takeWhile (· != '.')) = path.headD "" := by
  cases path with
  | nil => exact absurd rfl hpath
  | cons first rest =>
    have hfirst : ∀ c ∈ first.toList, (c != '.') = true := by
      intro c hc
      rw [bne_iff_ne]
      rintro rfl
      exact hhead hc
    cases rest with
    | nil =>
      rw [String.intercalate_singleton, ← List.append_nil first.toList,
        List.takeWhile_append_of_pos hfirst, List.takeWhile_nil, List.append_nil,
        String.ofList_toList, List.headD_cons]
    | cons second rest =>
      rw [String.intercalate_cons_cons, String.toList_append, String.toList_append,
        List.append_assoc, List.takeWhile_append_of_pos hfirst]
      simp

/-- For expressions whose variables have no dots in their names, what resolution tries are the names
of chains. -/
theorem candidateIn_eq_className? {e : Expr} (he : e.Named fun name ↦ '.' ∉ name.toList)
    (locals : List String) : e.candidateIn locals = e.className? locals := by
  cases e with
  | var name =>
    simp [candidateIn, classCandidate?, className?, chain?]
  | property object name span =>
    rw [candidateIn, classCandidate?, className?, dottedName?_eq_chain?]
    cases hchain : (property object name span).chain? with
    | none => simp
    | some path =>
      have hlast : path.getLastD "" = name := by
        rw [chain?, Option.map_eq_some_iff] at hchain
        obtain ⟨front, -, rfl⟩ := hchain
        simp
      have hfirst := takeWhile_intercalate (chain?_ne_nil hchain) (head_of_chain? he hchain)
      simp only [Option.map_some, Option.filter_some, hlast, hfirst]
      generalize path.headD "" = first
      by_cases hlocal : first ∈ locals
      · simp [hlocal]
      · simp [hlocal]
  | _ => rfl

end Expr

/-! ## Reads of locals -/

/-- The slots that code generation gives to a method's locals. -/
def Method.slots (m : Method) : Except CompileError Slots := do
  let parameters ← addSlots m.name {} (m.parameters.map (·.name))
  addSlots m.name parameters (declaredNames m.body)

theorem Method.lists_slots {m : Method} {slots : Slots} (h : m.slots = .ok slots) :
    slots.Lists m.localNames := by
  rw [Method.slots, bind_eq_ok] at h
  obtain ⟨parameters, hparameters, hdeclared⟩ := h
  exact (Slots.Lists.empty.addSlots hparameters).addSlots hdeclared

/-- The variable that a node is, with its place, if it is one of the given. -/
def Node.read? (isLocal : String → Bool) : Node → Option (String × Span)
  | .expr (.var name span) => if isLocal name then some (name, span) else none
  | _ => none

/-- The places where nodes read one of the given variables, in order. -/
def readsOf (isLocal : String → Bool) (nodes : List Node) : List (String × Span) :=
  nodes.filterMap (Node.read? isLocal)

/-- The reads of variables for which code generation loads a local, in order. -/
def Method.localLoads (m : Method) (slots : Slots) : List (String × Span) :=
  readsOf (fun name ↦ (slots.slot? name).isSome) (Stmt.nodesOfAll m.body)

section Reads

variable {isLocal : String → Bool} {f : Expr → Option Expr}

theorem readsOf_cons (node : Node) (nodes : List Node) :
    readsOf isLocal (node :: nodes) = (node.read? isLocal).toList ++ readsOf isLocal nodes := by
  rw [readsOf, List.filterMap_cons]
  cases node.read? isLocal <;> rfl

theorem readsOf_append (nodes more : List Node) :
    readsOf isLocal (nodes ++ more) = readsOf isLocal nodes ++ readsOf isLocal more :=
  List.filterMap_append

/-- A chain reads its first segment only. -/
theorem Expr.readsOf_chain? {e : Expr} {path : List String} (h : e.chain? = some path)
    (hhead : isLocal (path.headD "") = false) : readsOf isLocal e.nodes = [] := by
  induction e using Expr.chain?.induct generalizing path with
  | case1 name =>
    cases h
    rw [readsOf]
    simpa [Node.read?] using hhead
  | case2 object name span ih =>
    rw [chain?, Option.map_eq_some_iff] at h
    obtain ⟨front, hfront, rfl⟩ := h
    have hobject : readsOf isLocal object.nodes = [] := by
      refine ih hfront ?_
      cases front with
      | nil => exact absurd rfl (chain?_ne_nil hfront)
      | cons first front => exact hhead
    simp [readsOf_cons, Node.read?, hobject]
  | case3 e hvar hproperty =>
    cases e with
    | var => exact absurd rfl (hvar _ _)
    | property => exact absurd rfl (hproperty _ _ _)
    | _ => cases h

mutual

/-- A rule that neither replaces a read of the given variables nor puts one in place of anything
leaves these reads as they are. -/
theorem Expr.readsOf_replace
    (hf : ∀ e e', f e = some e' → readsOf isLocal e.nodes = [] ∧ readsOf isLocal e'.nodes = []) :
    ∀ e : Expr, readsOf isLocal (e.replace f).nodes = readsOf isLocal e.nodes := by
  intro e
  rw [replace.eq_def]
  split
  next e' heq => rw [(hf e e' heq).1, (hf e e' heq).2]
  next =>
    cases e with
    | constant | var | classRef => rfl
    | property object | unary _ object | assign _ object =>
      simp [readsOf_cons, Node.read?, object.readsOf_replace hf]
    | call _ elements | list elements =>
      simp [readsOf_cons, Node.read?, Expr.readsOf_replaceAll hf elements]
    | invoke receiver _ arguments =>
      simp [readsOf_cons, readsOf_append, Node.read?, receiver.readsOf_replace hf,
        Expr.readsOf_replaceAll hf arguments]
    | binary _ left right =>
      simp [readsOf_cons, readsOf_append, Node.read?, left.readsOf_replace hf,
        right.readsOf_replace hf]

theorem Expr.readsOf_replaceAll
    (hf : ∀ e e', f e = some e' → readsOf isLocal e.nodes = [] ∧ readsOf isLocal e'.nodes = []) :
    ∀ es : List Expr, readsOf isLocal (Expr.nodesOfAll (Expr.replaceAll f es)) =
      readsOf isLocal (Expr.nodesOfAll es)
  | [] => rfl
  | e :: es => by
    simp [Expr.replaceAll, readsOf_append, e.readsOf_replace hf, Expr.readsOf_replaceAll hf es]

end

mutual

theorem Stmt.readsOf_replace
    (hf : ∀ e e', f e = some e' → readsOf isLocal e.nodes = [] ∧ readsOf isLocal e'.nodes = []) :
    ∀ s : Stmt, readsOf isLocal (s.replace f).nodes = readsOf isLocal s.nodes := by
  intro s
  have hexpr (e : Expr) : readsOf isLocal (e.replace f).nodes = readsOf isLocal e.nodes :=
    e.readsOf_replace hf
  cases s with
  | expression e => simp [replace, readsOf_cons, Node.read?, hexpr]
  | declare _ value | result value =>
    cases value with
    | none => rfl
    | some e => simp [replace, readsOf_cons, Node.read?, hexpr]
  | ifThen _ body | loop _ body =>
    simp [replace, readsOf_cons, readsOf_append, Node.read?, hexpr, body.readsOf_replace hf]
  | ifElse _ body alternative =>
    simp [replace, readsOf_cons, readsOf_append, Node.read?, hexpr, body.readsOf_replace hf,
      alternative.readsOf_replace hf]
  | block body => simp [replace, readsOf_cons, Node.read?, Stmt.readsOf_replaceAll hf body]

theorem Stmt.readsOf_replaceAll
    (hf : ∀ e e', f e = some e' → readsOf isLocal e.nodes = [] ∧ readsOf isLocal e'.nodes = []) :
    ∀ ss : List Stmt, readsOf isLocal (Stmt.nodesOfAll (Stmt.replaceAll f ss)) =
      readsOf isLocal (Stmt.nodesOfAll ss)
  | [] => rfl
  | s :: ss => by
    simp [Stmt.replaceAll, readsOf_append, s.readsOf_replace hf, Stmt.readsOf_replaceAll hf ss]

end

end Reads

section

variable {N : String → Prop} {f : Expr → Option Expr}

mutual

/-- What a rule is tried on has variables of the whole. -/
theorem Expr.named_reached : ∀ e : Expr, e.Named N → ∀ part ∈ e.reached f, part.Named N := by
  intro e h
  rw [reached.eq_def, List.forall_mem_cons]
  refine ⟨h, ?_⟩
  split
  next => simp
  next =>
    cases e with
    | constant | var | classRef => simp
    | property object => exact object.named_reached (named_property.mp h)
    | unary _ operand => exact operand.named_reached (named_unary.mp h)
    | assign _ value => exact value.named_reached (named_assign.mp h)
    | call _ arguments => exact Expr.allNamed_reached arguments (named_call.mp h)
    | list elements => exact Expr.allNamed_reached elements (named_list.mp h)
    | invoke receiver _ arguments =>
      obtain ⟨hreceiver, harguments⟩ := named_invoke.mp h
      exact List.forall_mem_append.mpr
        ⟨receiver.named_reached hreceiver, Expr.allNamed_reached arguments harguments⟩
    | binary _ left right =>
      obtain ⟨hleft, hright⟩ := named_binary.mp h
      exact List.forall_mem_append.mpr ⟨left.named_reached hleft, right.named_reached hright⟩

theorem Expr.allNamed_reached : ∀ es : List Expr, AllNamed N es →
    ∀ part ∈ Expr.reachedOfAll f es, part.Named N
  | [], _ => by simp [Expr.reachedOfAll]
  | e :: es, h => by
    obtain ⟨hhead, htail⟩ := allNamed_cons.mp h
    exact List.forall_mem_append.mpr ⟨e.named_reached hhead, Expr.allNamed_reached es htail⟩

end

mutual

theorem Stmt.named_reached : ∀ s : Stmt, s.Named N → ∀ part ∈ s.reached f, part.Named N := by
  intro s h
  cases s with
  | expression e => exact e.named_reached (named_expression.mp h)
  | declare _ value =>
    cases value with
    | none => simp [reached]
    | some e => exact e.named_reached (named_declare.mp h)
  | result value =>
    cases value with
    | none => simp [reached]
    | some e => exact e.named_reached (named_result.mp h)
  | ifThen condition body =>
    obtain ⟨hcondition, hbody⟩ := named_ifThen.mp h
    exact List.forall_mem_append.mpr ⟨condition.named_reached hcondition, body.named_reached hbody⟩
  | loop condition body =>
    obtain ⟨hcondition, hbody⟩ := named_loop.mp h
    exact List.forall_mem_append.mpr ⟨condition.named_reached hcondition, body.named_reached hbody⟩
  | ifElse condition body alternative =>
    obtain ⟨hcondition, hbody, halternative⟩ := named_ifElse.mp h
    refine List.forall_mem_append.mpr ⟨condition.named_reached hcondition, ?_⟩
    exact List.forall_mem_append.mpr ⟨body.named_reached hbody, alternative.named_reached halternative⟩
  | block body => exact Stmt.allNamed_reached body (named_block.mp h)

theorem Stmt.allNamed_reached : ∀ ss : List Stmt, AllNamed N ss →
    ∀ part ∈ Stmt.reachedOfAll f ss, part.Named N
  | [], _ => by simp [Stmt.reachedOfAll]
  | s :: ss, h => by
    obtain ⟨hhead, htail⟩ := allNamed_cons.mp h
    exact List.forall_mem_append.mpr ⟨s.named_reached hhead, Stmt.allNamed_reached ss htail⟩

end

end

section

variable {script : Script} {known : String → Bool}

theorem Script.readsOf_classRule {isLocal : String → Bool} {locals : List String}
    (hlocal : ∀ name, isLocal name = true → name ∈ locals) {e e' : Expr}
    (h : script.classRule known (Expr.className? locals) e = some e') :
    readsOf isLocal e.nodes = [] ∧ readsOf isLocal e'.nodes = [] := by
  rw [classRule, Option.map_eq_some_iff] at h
  obtain ⟨binary, hbinary, rfl⟩ := h
  refine ⟨?_, rfl⟩
  rw [Option.bind_eq_some_iff] at hbinary
  obtain ⟨name, hname, -⟩ := hbinary
  rw [Expr.className?] at hname
  split at hname
  · cases hname
  next path hpath =>
    split at hname
    next hrule =>
      refine Expr.readsOf_chain? hpath (Bool.eq_false_iff.mpr fun hhead ↦ ?_)
      exact hrule.2 (hlocal _ hhead)
    next => cases hname

/-- With its class references a method has the same slots and loads the same locals. -/
theorem Script.slots_withClasses (m : Method) :
    let body := script.bodyWithClasses known Expr.className? (m.parameters.map (·.name)) m.body
    Method.slots { m with body } = m.slots ∧
      ∀ slots, m.slots = .ok slots →
        Method.localLoads { m with body } slots = m.localLoads slots := by
  intro body
  have hdeclared : declaredNames body = declaredNames m.body := declaredNames_replaceAll m.body
  refine ⟨by rw [Method.slots, Method.slots, hdeclared], fun slots hslots ↦ ?_⟩
  refine Stmt.readsOf_replaceAll (fun e e' h ↦ readsOf_classRule (fun name hname ↦ ?_) h) m.body
  rw [List.mem_append, ← Method.mem_localNames, ← Decidable.not_not (p := name ∈ m.localNames),
    ← (Method.lists_slots hslots).slot?_eq_none_iff]
  intro hnone
  rw [hnone] at hname
  cases hname

/-! ## The rule for parsed scripts -/

theorem Script.body_eq_className? (known : String → Bool) (parameters : List String) {body : List Stmt}
    (h : Stmt.AllNamed (fun name ↦ '.' ∉ name.toList) body) :
    script.bodyWithClasses known Expr.candidateIn parameters body =
        script.bodyWithClasses known Expr.className? parameters body ∧
      script.bodyLookups known Expr.candidateIn parameters body =
        script.bodyLookups known Expr.className? parameters body := by
  let locals := parameters ++ declaredNames body
  have hreading : ∀ part ∈ Stmt.reachedOfAll (script.classRule known (Expr.candidateIn locals)) body,
      part.candidateIn locals = part.className? locals := fun part hpart ↦
    Expr.candidateIn_eq_className? (Stmt.allNamed_reached body h part hpart) locals
  have hrule : ∀ part ∈ Stmt.reachedOfAll (script.classRule known (Expr.candidateIn locals)) body,
      script.classRule known (Expr.candidateIn locals) part =
        script.classRule known (Expr.className? locals) part := by
    intro part hpart
    rw [classRule, hreading part hpart, ← classRule]
  obtain ⟨hbody, hreached⟩ := Stmt.replaceAll_congr body hrule
  refine ⟨hbody, ?_⟩
  rw [bodyLookups, bodyLookups, ← hreached]
  exact List.filterMap_congr hreading

theorem Script.withClasses_eq_className? (known : String → Bool)
    (h : script.Named fun name ↦ '.' ∉ name.toList) :
    script.withClasses known Expr.candidateIn = script.withClasses known Expr.className? ∧
      script.probes known Expr.candidateIn = script.probes known Expr.className? := by
  have hmethods : ∀ m ∈ script.methods, _ := fun m hm ↦
    script.body_eq_className? known (m.parameters.map (·.name)) (h.methods m hm)
  have hstatements := script.body_eq_className? known [] h.statements
  constructor
  · rw [withClasses, withClasses, hstatements.1,
      List.map_congr_left fun m hm ↦ by rw [(hmethods m hm).1]]
  · rw [probes, probes, lookups, lookups, bodies, List.flatMap_cons, List.flatMap_cons,
      List.flatMap_map, List.flatMap_map]
    dsimp only
    rw [hstatements.2, List.flatMap_congr fun m hm ↦ (hmethods m hm).2]

end

/-- For a parsed script and a resolver with a fixed set of names, resolution is the rule. The errors
are those of the imports without a class. A chain whose last segment begins with a capital and whose
first is no local becomes a reference to the first known candidate, if there is one, and otherwise
its parts are looked at. The resolver is asked for the candidates in order up to the first known
one, once for each name. And in the script's methods, its body among them, the same variables have
slots, and all places that load them remain. -/
theorem Script.resolve_of_parse {σ : Type} {P : σ → Prop} {r : Resolver σ} {text : String}
    (hparse : parse text = .ok script) (hr : r.Knows P known) {s : σ} (hs : P s) :
    script.resolve r s =
        (importErrors known script.imports, script.withClasses known Expr.className?,
          r.after (script.probes known Expr.className?) s) ∧
      ∀ name base, List.Forall₂ (fun m m' ↦ m'.slots = m.slots ∧
          ∀ slots, m.slots = .ok slots → m'.localLoads slots = m.localLoads slots)
        (ClassNode.ofScript name base script).methods
        (ClassNode.ofScript name base (script.withClasses known Expr.className?)).methods := by
  obtain ⟨hclasses, hprobes⟩ := script.withClasses_eq_className? known
    (named_of_parse hparse)
  constructor
  · rw [script.resolve_eq hr hs, hclasses, hprobes]
  · intro name base
    refine List.rel_append ?_ (.cons (slots_withClasses ⟨ClassNode.runMethod, [], _, _⟩) .nil)
    exact List.forall₂_map_right_iff.mpr (List.forall₂_same.mpr fun m _ ↦ slots_withClasses m)

/-- A text whose import brings a class under an alias, and where a local hides another class. -/
theorem Script.resolve_of_parse_alias :
    ∃ script, parse "import org.acme.Thing as T\ndef Map = 1\nMap.Entry\nT.Inner" = .ok script ∧
      script.resolve (.recording ["org.acme.Thing"]) [] =
        (importErrors ["org.acme.Thing"].contains script.imports,
          script.withClasses ["org.acme.Thing"].contains Expr.className?,
          (Resolver.recording ["org.acme.Thing"]).after
            (script.probes ["org.acme.Thing"].contains Expr.className?) []) := by
  have hok : (parse "import org.acme.Thing as T\ndef Map = 1\nMap.Entry\nT.Inner").isOk = true := by
    decide +kernel
  cases hparse : parse "import org.acme.Thing as T\ndef Map = 1\nMap.Entry\nT.Inner" with
  | error errors =>
    rw [hparse] at hok
    cases hok
  | ok script =>
    refine ⟨script, rfl, ?_⟩
    exact (resolve_of_parse hparse (P := fun _ ↦ True) ⟨fun _ _ _ ↦ trivial, fun _ _ _ ↦ rfl⟩
      trivial).1

end BuildScript
