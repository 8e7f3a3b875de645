import BuildScript.Proofs.Syntax.JoinedStatements
import BuildScript.Proofs.Syntax.ReadScripts

/-!
# Scripts with fewer newlines

A newline in front of `else` may be left out of a text that parses, unless it ends a `return`
without a value: the script is the same then but for its places. Imports and methods are read token
by token as expressions are, and an item that ends at a newline ends where the newline is missing
too: no item begins with `else`, so the next one would have failed.
-/

namespace BuildScript

open Grammar

/-- The two are the same but for their places. -/
def Script.Same (script script' : Script) : Prop := script'.eraseSpans = script.eraseSpans

namespace Script

variable {script script' : Script}

theorem same_iff : script.Same script' ↔
    script'.package.map Named.eraseSpan = script.package.map Named.eraseSpan ∧
    script'.imports.map Import.eraseSpan = script.imports.map Import.eraseSpan ∧
    script'.starImports.map StarImport.eraseSpan = script.starImports.map StarImport.eraseSpan ∧
    Stmt.eraseAllSpans script'.statements = Stmt.eraseAllSpans script.statements ∧
    script'.methods.map Method.eraseSpans = script.methods.map Method.eraseSpans := by
  simp only [Same, eraseSpans, mk.injEq, and_true]

theorem Same.addStarImport (h : script.Same script') {package : String} {span span' : Span} :
    Same { script with starImports := script.starImports ++ [⟨package, span⟩] }
      { script' with starImports := script'.starImports ++ [⟨package, span'⟩] } := by
  rw [same_iff] at h ⊢
  simpa [StarImport.eraseSpan] using h

theorem Same.addImport (h : script.Same script') {className localName : String}
    {span span' : Span} :
    Same { script with imports := script.imports ++ [⟨className, localName, span⟩] }
      { script' with imports := script'.imports ++ [⟨className, localName, span'⟩] } := by
  rw [same_iff] at h ⊢
  simpa [Import.eraseSpan] using h

theorem Same.addPackage (h : script.Same script') {name name' : BuildScript.Named}
    (hname : name'.name = name.name) :
    Same { script with package := some name } { script' with package := some name' } := by
  rw [same_iff] at h ⊢
  simpa [Named.eraseSpan, hname] using h.2

theorem Same.addStatement (h : script.Same script') {s s' : Stmt} (hs : s.Same s') :
    Same { script with statements := s :: script.statements }
      { script' with statements := s' :: script'.statements } := by
  rw [same_iff] at h ⊢
  refine ⟨h.1, h.2.1, h.2.2.1, ?_, h.2.2.2.2⟩
  exact Stmt.AllSame.cons hs h.2.2.2.1

theorem Same.addMethod (h : script.Same script') {m m' : Method} (hm : m.Same m') :
    Same { script with methods := m :: script.methods }
      { script' with methods := m' :: script'.methods } := by
  rw [same_iff] at h ⊢
  refine ⟨h.1, h.2.1, h.2.2.1, h.2.2.2.1, ?_⟩
  rw [List.map_cons, List.map_cons, hm, h.2.2.2.2]

/-- Statements and methods in the order of the text. -/
theorem Same.turned (h : script.Same script') {span span' : Span} :
    Same { script with
        statements := script.statements.reverse, methods := script.methods.reverse, span }
      { script' with
        statements := script'.statements.reverse, methods := script'.methods.reverse
        span := span' } := by
  rw [same_iff] at h ⊢
  refine ⟨h.1, h.2.1, h.2.2.1, Stmt.AllSame.reverse h.2.2.2.1, ?_⟩
  rw [List.map_reverse, List.map_reverse, h.2.2.2.2]

theorem Same.isBlankScript_eq (h : script.Same script') :
    isBlankScript script' = isBlankScript script := by
  have heq (script : Script) : isBlankScript script = isBlankScript script.eraseSpans := by
    simp [isBlankScript, eraseSpans, Stmt.eraseAllSpans_eq_map]
  rw [heq, heq script, h]

end Script

namespace Grammar

/-! ## Headers and methods -/

section

variable {n m ℓ : Nat}

theorem keeps_nameTail (star : Bool) {start start' : Named} (hstart : start'.name = start.name)
    (hm : ℓ + 1 ≤ m) :
    Keeps ℓ (nameTail star n start) (nameTail star m start') fun n n' ↦ n'.name = n.name := by
  induction n generalizing m ℓ start start' with
  | zero =>
    rw [Keeps, nameTail]
    exact .tooDeep
  | succ n ih =>
    obtain ⟨m, rfl⟩ := exists_eq_succ_of_enough hm
    rw [nameTail, nameTail]
    refine mirrors_accept_bind (plain_symbol _) (fun hpos ↦ ?_) (.pure hstart fun _ _ ↦ id)
    have hsegment : Mirrors (Near (ℓ - 1)) (do
        let segment ← identifier .name
        nameTail star n ⟨start.name ++ "." ++ segment.name, segment.span⟩) (do
        let segment ← identifier .name
        nameTail star m ⟨start'.name ++ "." ++ segment.name, segment.span⟩)
        (fun n n' ↦ n'.name = n.name) fun _ ↦ Near ℓ := by
      refine consumes_identifier.bind ?_
      rintro segment segment' ⟨hsegment, -⟩
      refine (ih ?_ (by omega)).leaving (by omega)
      rw [hstart, hsegment]
    refine mirrors_current (fun t t' heq _ ↦ ?_) fun t t' ht ht' ↦ ?_
    · rw [heq]
      refine .ite (fun _ ↦ ?_) fun _ ↦ ?_
      · refine mirrors_advance.bind fun _ _ _ ↦ .pure_le ?_ (by omega)
        rw [hstart]
      · exact hsegment.ahead
    · rw [ht, ht', if_neg (by simp), if_neg (by simp)]
      exact hsegment

theorem consumes_qualifiedName (star : Bool) (hm : ℓ ≤ m) :
    Consumes ℓ (qualifiedName star n) (qualifiedName star m) fun n n' ↦ n'.name = n.name := by
  rw [qualifiedName, qualifiedName]
  refine consumes_identifier.bind ?_
  rintro start start' ⟨hstart, hpos⟩
  exact (keeps_nameTail star hstart (by omega)).imp (fun _ _ hn ↦ ⟨hn, hpos⟩) (Nat.le_refl _)

theorem consumes_package (hm : ℓ ≤ m) :
    Consumes ℓ (package n) (package m) fun n n' ↦ n'.name = n.name := by
  rw [package, package]
  refine (consumes_expect (plain_keyword (by decide))).bind ?_
  rintro _ _ ⟨-, hpos⟩
  refine (consumes_qualifiedName false (by omega)).bind ?_
  rintro name name' ⟨hname, -⟩
  exact .pure_le ⟨hname, hpos⟩ (by omega)

/-- The names of an import decide what is added to the script. -/
theorem consumes_importNames {script script' : Script} (hscript : script.Same script')
    (start start' : Span) (hm : ℓ ≤ m) :
    Consumes ℓ (do
      let name ← qualifiedName true n
      match name.name.toList.reverse with
      | '*' :: '.' :: package =>
        let package := StarImport.withDot (String.ofList package.reverse)
        return { script with starImports := script.starImports ++ [⟨package, start.merge name.span⟩] }
      | _ =>
        let localName ←
          if ← accept (.keyword .asWord) then identifier .importAlias
          else pure ⟨lastSegment name.name, name.span⟩
        let entry : Import := ⟨name.name, localName.name, start.merge localName.span⟩
        return { script with imports := script.imports ++ [entry] }) (do
      let name ← qualifiedName true m
      match name.name.toList.reverse with
      | '*' :: '.' :: package =>
        let package := StarImport.withDot (String.ofList package.reverse)
        return { script' with
          starImports := script'.starImports ++ [⟨package, start'.merge name.span⟩] }
      | _ =>
        let localName ←
          if ← accept (.keyword .asWord) then identifier .importAlias
          else pure ⟨lastSegment name.name, name.span⟩
        let entry : Import := ⟨name.name, localName.name, start'.merge localName.span⟩
        return { script' with imports := script'.imports ++ [entry] }) Script.Same := by
  refine (consumes_qualifiedName true hm).bind ?_
  rintro name name' ⟨hname, hpos⟩
  rw [hname]
  split
  next package hstar =>
    exact .pure ⟨hscript.addStarImport, hpos⟩ fun _ _ ↦ id
  next =>
    refine mirrors_accept_bind (plain_keyword (by decide)) (fun _ ↦ ?_) ?_
    · refine consumes_identifier.bind ?_
      rintro localName localName' ⟨hlocalName, -⟩
      dsimp only
      rw [hlocalName]
      exact .pure_le ⟨hscript.addImport, hpos⟩ (by omega)
    · exact .pure ⟨hscript.addImport, hpos⟩ fun _ _ ↦ id

theorem consumes_importInto {script script' : Script} (hscript : script.Same script')
    (hm : ℓ ≤ m) :
    Consumes ℓ (importInto script n) (importInto script' m) Script.Same := by
  rw [importInto, importInto]
  refine (consumes_expect (plain_keyword (by decide))).bind ?_
  rintro start start' ⟨-, hpos⟩
  have hnames := (consumes_importNames (n := n) (m := m) hscript start start'
    (Nat.le_trans (Nat.sub_le ℓ 1) hm)).imp (fun _ _ hs ↦ And.intro hs.1 hpos) (Nat.sub_le _ 1)
  refine mirrors_current (fun t t' heq _ ↦ ?_) fun t t' ht ht' ↦ ?_
  · rw [heq]
    dsimp only
    refine .ite (fun _ ↦ ?_) fun _ ↦ hnames.ahead
    rintro ts ts' hts a rest ⟨⟩
  · rw [ht, ht']
    exact hnames

theorem keeps_parameters {done done' : List Named} (hdone : done'.map (·.name) = done.map (·.name))
    (hm : ℓ + 1 ≤ m) :
    Keeps ℓ (parameters n done) (parameters m done') fun ps ps' ↦
      ps'.map (·.name) = ps.map (·.name) := by
  induction n generalizing m ℓ done done' with
  | zero =>
    rw [Keeps, parameters]
    exact .tooDeep
  | succ n ih =>
    obtain ⟨m, rfl⟩ := exists_eq_succ_of_enough hm
    have hany (name : String) :
        done'.any (·.name == name) = done.any (·.name == name) := by
      have hmap (ps : List Named) :
          ps.any (·.name == name) = (ps.map (·.name)).any (· == name) := by
        rw [List.any_map]
        rfl
      rw [hmap, hmap, hdone]
    rw [parameters, parameters]
    refine mirrors_nextIs_bind (plain_symbol _) (fun _ ↦ ?_) ?_
    · exact .pure (by rw [List.map_reverse, List.map_reverse, hdone]) fun _ _ ↦ id
    · refine consumes_identifier.bind ?_
      rintro parameter parameter' ⟨hparameter, hpos⟩
      have hcons : (parameter' :: done').map (·.name) = (parameter :: done).map (·.name) := by
        rw [List.map_cons, List.map_cons, hparameter, hdone]
      rw [hparameter, hany]
      dsimp only
      refine .ite (fun _ ↦ ?_) fun _ ↦ ?_
      · rintro ts ts' hts a rest ⟨⟩
      · refine keeps_skipNewlines.bind fun _ _ _ ↦ ?_
        refine mirrors_accept_bind (plain_symbol _) (fun _ ↦ ?_) ?_
        · refine keeps_skipNewlines.bind fun _ _ _ ↦ ?_
          exact (ih hcons (by omega)).leaving (by omega)
        · refine .pure_le ?_ (by omega)
          rw [List.map_reverse, List.map_reverse, hcons]

theorem consumes_method (hm : 8 * ℓ ≤ m) :
    Consumes ℓ (method n) (method m) Method.Same := by
  rw [method, method]
  refine (consumes_expect (plain_keyword (by decide))).bind ?_
  rintro start start' ⟨-, hpos⟩
  refine consumes_identifier.bind ?_
  rintro name name' ⟨hname, hpos'⟩
  refine (consumes_expect (plain_symbol _)).bind fun _ _ _ ↦ keeps_skipNewlines.bind fun _ _ _ ↦ ?_
  refine (keeps_parameters (show _ = [].map _ from rfl) (by omega)).bind fun ps ps' hps ↦ ?_
  refine (consumes_expect (plain_symbol _)).bind fun _ _ _ ↦ keeps_skipNewlines.bind fun _ _ _ ↦ ?_
  refine ((statementsMirror n).block (by omega)).bind ?_
  rintro ⟨body, span⟩ ⟨body', span'⟩ ⟨hbody, -⟩
  refine .pure_le ⟨?_, hpos⟩ (by omega)
  have hbody : Stmt.eraseAllSpans body' = Stmt.eraseAllSpans body := hbody
  rw [Method.Same, Method.eraseSpans, Method.eraseSpans, hname, Named.map_eraseSpan_congr hps, hbody]

end

/-! ## Items -/

section

variable {n m ℓ : Nat} {script script' : Script}

/-- A method or a statement. -/
theorem consumes_body (hscript : script.Same script') (hm : 8 * ℓ + 5 ≤ m) :
    Consumes ℓ (do
      if ← atMethod then
        let method ← method n
        return { script with methods := method :: script.methods }
      else
        let s ← statement n
        return { script with statements := s :: script.statements }) (do
      if ← atMethod then
        let method ← method m
        return { script' with methods := method :: script'.methods }
      else
        let s ← statement m
        return { script' with statements := s :: script'.statements }) Script.Same := by
  refine keeps_atMethod.bind ?_
  rintro _ b rfl
  refine .ite (fun _ ↦ ?_) fun _ ↦ ?_
  · refine (consumes_method (by omega)).bind ?_
    rintro method method' ⟨hmethod, hpos⟩
    exact .pure ⟨hscript.addMethod hmethod, hpos⟩ fun _ _ ↦ id
  · refine ((statementsMirror n).statement hm).bind ?_
    rintro s s' ⟨hs, hpos⟩
    exact .pure ⟨hscript.addStatement hs, hpos⟩ fun _ _ ↦ id

theorem consumes_item (hscript : script.Same script') (hm : 8 * ℓ + 5 ≤ m) :
    Consumes ℓ (item script n) (item script' m) Script.Same := by
  rw [item, item]
  refine mirrors_current (fun t t' heq hpos ↦ ?_) fun t t' ht ht' ↦ ?_
  · rw [heq]
    refine Mirrors.ahead ?_
    split
    next =>
      refine (consumes_package (by omega)).bind ?_
      rintro name name' ⟨hname, hpos⟩
      rw [hscript.isBlankScript_eq]
      exact .ite (fun _ ↦ .pure ⟨hscript.addPackage hname, hpos⟩ fun _ _ ↦ id) fun _ ↦ .fail
    next => exact consumes_importInto hscript (by omega)
    next => exact consumes_body hscript hm
  · rw [ht, ht']
    exact consumes_body hscript hm

theorem rejects_item : Rejects (item script n) := by
  rw [item]
  refine rejects_current fun t ht ↦ ?_
  rw [ht]
  intro ts hts a rest hrun
  obtain ⟨b, mid, hmethod, hrun⟩ := bind_eq_ok_iff.mp hrun
  rw [atMethod_eq] at hmethod
  obtain ⟨rfl, rfl⟩ := EStateM.Result.ok.inj hmethod
  have hno : ¬beginsMethod (ts.map (·.token)) = true := by
    rw [beginsMethod_iff, hts]
    exact fun h ↦ absurd h.1 (by decide)
  rw [if_neg hno] at hrun
  exact rejects_statement.bind ts hts a rest hrun

end

/-! ## Scripts -/

/-- Nothing is left but the end of the text. -/
def AtEnd (ts : List Located) : Prop := ts = [] ∨ ∃ span, ts = [⟨.eof, span⟩]

theorem Joined.atEnd_iff {ts ts' : List Located} (h : Joined ts ts') : AtEnd ts' ↔ AtEnd ts := by
  have heof (t : Located) (us : List Located) : AtEnd (t :: us) ↔ t.token = .eof ∧ us = [] := by
    obtain ⟨token, span⟩ := t
    simp [AtEnd]
  cases h with
  | nil => exact Iff.rfl
  | @cons t t' ts ts' token level rest =>
    rw [heof, heof, token]
    refine and_congr_right fun _ ↦ ?_
    constructor
    · rintro rfl
      cases rest with
      | nil => rfl
      | gap _ _ next => cases next
    · rintro rfl
      cases rest
      rfl
  | @gap newline ts _ token rest next =>
    rw [heof, token]
    refine iff_of_false ?_ nofun
    rintro (rfl | ⟨span, rfl⟩)
    · cases next
    · cases next

section

variable {n m rounds : Nat} {script script' last : Script} {errors : List SyntaxError}
  {ts ts' rest : List Located}

theorem items_of_atEnd (h : AtEnd (ts.dropWhile (·.token.isSeparator))) :
    items n (rounds + 1) script errors ts =
      (script, errors, ts.dropWhile (·.token.isSeparator)) := by
  rw [items]
  rcases h with h | ⟨span, h⟩
  · rw [h]
  · rw [h]

theorem items_of_not_atEnd (h : ¬AtEnd (ts.dropWhile (·.token.isSeparator))) :
    items n (rounds + 1) script errors ts =
      match item script n (ts.dropWhile (·.token.isSeparator)) with
      | .error e rest => items n rounds script (e :: errors) (recover rest)
      | .ok script rest =>
        match statementEnd false rest with
        | .error e rest => items n rounds script (e :: errors) (recover rest)
        | .ok _ rest => items n rounds script errors rest := by
  rw [items]
  split
  next hnil => exact absurd (.inl hnil) h
  next span heof => exact absurd (.inr ⟨span, heof⟩) h
  next => rfl

/-- An error that was found is kept. -/
theorem errors_ne_nil_of_items (h : errors ≠ []) : (items n rounds script errors ts).2.1 ≠ [] := by
  induction rounds generalizing script errors ts with
  | zero => exact h
  | succ rounds ih =>
    by_cases hend : AtEnd (ts.dropWhile (·.token.isSeparator))
    · rw [items_of_atEnd hend]
      exact h
    · rw [items_of_not_atEnd hend]
      split
      next => exact ih (List.cons_ne_nil _ _)
      next =>
        split
        next => exact ih (List.cons_ne_nil _ _)
        next => exact ih h

/-- Where no error is found, there is nothing left or an item with its end. -/
theorem items_succ_eq_ok (hend : ¬AtEnd (ts.dropWhile (·.token.isSeparator)))
    (h : items n (rounds + 1) script [] ts = (last, [], rest)) :
    ∃ script₁ rest₁, item script n (ts.dropWhile (·.token.isSeparator)) = .ok script₁ rest₁ ∧
      statementEnd false rest₁ = .ok () rest₁ ∧
      items n rounds script₁ [] rest₁ = (last, [], rest) := by
  have hkept {e : SyntaxError} {script : Script} {ts : List Located}
      (h : items n rounds script [e] ts = (last, [], rest)) : False :=
    errors_ne_nil_of_items (List.cons_ne_nil e []) (congrArg (·.2.1) h)
  rw [items_of_not_atEnd hend] at h
  split at h
  next => exact (hkept h).elim
  next script₁ rest₁ hitem =>
    split at h
    next => exact (hkept h).elim
    next mid hmid =>
      obtain ⟨rfl, hmid'⟩ := statementEnd_of_head_eq rfl hmid
      exact ⟨script₁, _, hitem, hmid', h⟩

/-- No item begins with the word. -/
theorem items_ne_of_else (hrounds : 0 < rounds)
    (hts : head (ts.dropWhile (·.token.isSeparator)) = .keyword .elseWord) :
    items n rounds script [] ts ≠ (last, [], rest) := by
  obtain ⟨rounds, rfl⟩ := exists_eq_succ_of_enough hrounds
  intro h
  have hend : ¬AtEnd (ts.dropWhile (·.token.isSeparator)) := by
    rintro (hnil | ⟨span, heof⟩)
    · rw [hnil] at hts
      cases hts
    · rw [heof] at hts
      cases hts
  obtain ⟨script₁, rest₁, hitem, -⟩ := items_succ_eq_ok hend h
  exact rejects_item _ hts script₁ rest₁ hitem

/-- An item takes at least one token: its run mirrors itself. -/
theorem length_lt_of_item (hn : 8 * ts.length + 5 ≤ n) (h : item script n ts = .ok last rest) :
    rest.length < ts.length := by
  obtain ⟨_, _, hself, ⟨-, hpos⟩, hrest⟩ :=
    consumes_item (show script.Same script from rfl) hn _ _ ⟨.refl _, Nat.le_refl _⟩ last rest h
  rw [h] at hself
  cases hself
  have hshort := hrest.short
  omega

theorem mirrors_items {rounds' : Nat} (hts : Joined ts ts') (hscript : script.Same script')
    (hn : 8 * ts.length + 5 ≤ n) (hm : 8 * ts'.length + 5 ≤ m) (hrounds : ts.length < rounds)
    (hrounds' : ts'.length < rounds') (h : items n rounds script [] ts = (last, [], rest)) :
    ∃ last' rest', items m rounds' script' [] ts' = (last', [], rest') ∧ last.Same last' := by
  induction rounds generalizing rounds' script script' ts ts' with
  | zero => exact absurd hrounds (Nat.not_lt_zero _)
  | succ rounds ih =>
    obtain ⟨rounds', rfl⟩ := exists_eq_succ_of_enough (Nat.succ_le_of_lt hrounds')
    have hskip := hts.dropWhile (p := Token.isSeparator) rfl
    have hfew := (List.dropWhile_sublist (·.token.isSeparator) (l := ts)).length_le
    have hfew' := (List.dropWhile_sublist (·.token.isSeparator) (l := ts')).length_le
    by_cases hend : AtEnd (ts.dropWhile (·.token.isSeparator))
    · rw [items_of_atEnd hend] at h
      rw [items_of_atEnd (hskip.atEnd_iff.mpr hend)]
      cases h
      exact ⟨script', _, rfl, hscript⟩
    · obtain ⟨script₁, rest₁, hitem, hstop, hmore⟩ := items_succ_eq_ok hend h
      have hbound : 8 * (ts'.dropWhile (·.token.isSeparator)).length + 5 ≤ m := by omega
      obtain ⟨script₁', rest₁', hitem', ⟨hscript₁, hpos'⟩, hrest⟩ :=
        consumes_item hscript hbound _ _ ⟨hskip, Nat.le_refl _⟩ script₁ rest₁ hitem
      have hshort := hrest.short
      have hshort₁ := length_lt_of_item (by omega) hitem
      rcases hrest.joined.head_eq with heq | ⟨-, helse⟩
      · obtain ⟨-, hstop'⟩ := statementEnd_of_head_eq heq hstop
        obtain ⟨last', rest', hitems', hlast⟩ := ih hrest.joined hscript₁ (by omega) (by omega)
          (by omega) (show rest₁'.length < rounds' by omega) hmore
        refine ⟨last', rest', ?_, hlast⟩
        rw [items_of_not_atEnd (mt hskip.atEnd_iff.mp hend), hitem']
        dsimp only
        rw [hstop']
        exact hitems'
      · exact absurd hmore (items_ne_of_else (by omega) (hrest.joined.head_dropWhile_of_else helse))

theorem mirrors_parseTokens (hts : Joined ts ts') (h : parseTokens ts = .ok script) :
    ∃ script', parseTokens ts' = .ok script' ∧ script.Same script' := by
  rw [parseTokens] at h ⊢
  rcases hitems : items (8 * (ts.length + 2)) (ts.length + 1)
    { span := (ts.headD ⟨.eof, .none⟩).span } [] ts with ⟨last, errors, rest⟩
  simp only [hitems] at h
  cases errors with
  | cons e errors => cases h
  | nil =>
    have hstart : Script.Same { span := (ts.headD ⟨.eof, .none⟩).span }
        { span := (ts'.headD ⟨.eof, .none⟩).span } := rfl
    obtain ⟨last', rest', hitems', hlast⟩ := mirrors_items (m := 8 * (ts'.length + 2))
      hts hstart (by omega) (by omega) (Nat.lt_succ_self _) (Nat.lt_succ_self _) hitems
    simp only [hitems']
    cases h
    exact ⟨_, rfl, hlast.turned⟩

end

end Grammar

end BuildScript
