import BuildScript.Proofs.Syntax.ReadStatements

/-!
# Reading scripts back

`parseTokens_tokens`: the tokens of a script, wherever they stand, are parsed, and what is read is
the script but for its places.

The items of a script are read one line at a time. What a line adds is told without places, so that
the lines of one kind are read by an induction over the list they come from (`ReadsItems.lines`),
and the kinds are put together in the order in which they are rendered.
-/

namespace BuildScript

open Grammar

/-! ## Dotted names -/

/-- A start and the segments behind it, a dot in front of each. -/
def dotted (start : String) (segments : List String) : String :=
  segments.foldl (fun name segment ↦ name ++ "." ++ segment) start

theorem toList_dotted (start : String) (segments : List String) :
    (dotted start segments).toList = start.toList ++ segments.flatMap ('.' :: ·.toList) := by
  induction segments generalizing start with
  | nil => simp [dotted]
  | cons segment segments ih =>
    rw [dotted, List.foldl_cons, ← dotted, ih]
    simp

theorem joinSegments_cons (separator : Char) (s : List Char) (ss : List (List Char)) :
    joinSegments separator (s :: ss) = s ++ ss.flatMap (separator :: ·) := by
  induction ss generalizing s with
  | nil => simp [joinSegments]
  | cons s' ss ih =>
    rw [joinSegments, ih, List.flatMap_cons, List.cons_append]
    simp

/-- The segments of a name, put together. -/
theorem exists_splitText (name : String) :
    ∃ first rest, splitText '.' name = first :: rest ∧ dotted first rest = name := by
  obtain ⟨s, ss, hsegments⟩ := List.exists_cons_of_ne_nil (segments_ne_nil '.' name.toList)
  refine ⟨String.ofList s, ss.map String.ofList, by rw [splitText, hsegments, List.map_cons], ?_⟩
  have hjoin := joinSegments_segments '.' name.toList
  rw [hsegments, joinSegments_cons] at hjoin
  rw [← String.toList_inj, toList_dotted, ← hjoin, List.flatMap_map]
  simp

section

variable {n : Nat} {t : Token} {ts rest : List Token} {star : Bool} {start : Named}

/-- `nameTail` reads segments, and goes on behind them. -/
theorem reads_nameTail (segments : List String) {Q : Named → Prop} (hn : segments.length ≤ n)
    (hrest : ∀ m name, name.name = dotted start.name segments → n ≤ m + segments.length →
      Reads (nameTail star m name) ts rest Q) :
    Reads (nameTail star n start) (segmentTokens segments ++ ts) rest Q := by
  induction segments generalizing n start with
  | nil => exact hrest n start rfl (Nat.le_refl n)
  | cons segment segments ih =>
    rw [List.length_cons] at hn
    obtain ⟨n, rfl⟩ := Nat.exists_eq_add_of_le' (show 1 ≤ n by omega)
    rw [nameTail]
    refine reads_accept_self.bind fun found hfound ↦ .ite_pos hfound ?_
    refine reads_current.bind fun next hnext ↦ .ite_neg (by simp [hnext]) ?_
    refine reads_identifier.bind fun name hname ↦ ih (by omega) fun m name' hname' hm ↦ ?_
    refine hrest m name' ?_ (by rw [List.length_cons]; omega)
    rw [hname', hname]
    rfl

theorem length_nameTokens {name first : String} {segments : List String}
    (h : splitText '.' name = first :: segments) : segments.length < (nameTokens name).length := by
  have hlength (ss : List String) : ss.length ≤ (segmentTokens ss).length := by
    induction ss with
    | nil => exact Nat.zero_le _
    | cons s ss ih =>
      rw [segmentTokens, List.flatMap_cons, ← segmentTokens]
      simp only [List.length_append, List.length_cons]
      omega
  have := hlength segments
  rw [nameTokens, h]
  simp only [List.length_cons]
  omega

theorem exists_head_nameTokens (name : String) :
    ∃ first more, nameTokens name = .identifier first :: more := by
  obtain ⟨first, segments, hsplit, -⟩ := exists_splitText name
  exact ⟨first, segmentTokens segments, by rw [nameTokens, hsplit]⟩

/-- `qualifiedName` reads a dotted name back. -/
theorem reads_qualifiedName {name : String} (ht : t ≠ .symbol .dot)
    (hn : (nameTokens name).length ≤ n) :
    Reads (qualifiedName star n) (nameTokens name ++ t :: rest) (t :: rest) (·.name = name) := by
  obtain ⟨first, segments, hsplit, hname⟩ := exists_splitText name
  have hlength := length_nameTokens hsplit
  rw [nameTokens, hsplit]
  refine reads_identifier.bind fun start hstart ↦ reads_nameTail segments (by omega)
    fun m read hread hm ↦ ?_
  obtain ⟨m, rfl⟩ := Nat.exists_eq_add_of_le' (show 1 ≤ m by omega)
  rw [nameTail]
  refine (reads_accept_ne ht).bind fun found hfound ↦ .ite_neg (by simp [hfound]) (.pure ?_)
  rw [hread, hstart, hname]

theorem reads_qualifiedName_star {name : String} (hn : (nameTokens name).length ≤ n) :
    Reads (qualifiedName true n) (nameTokens name ++ .symbol .dot :: .symbol .star :: rest) rest
      (·.name = name ++ ".*") := by
  obtain ⟨first, segments, hsplit, hname⟩ := exists_splitText name
  have hlength := length_nameTokens hsplit
  rw [nameTokens, hsplit]
  refine reads_identifier.bind fun start hstart ↦ reads_nameTail segments (by omega)
    fun m read hread hm ↦ ?_
  obtain ⟨m, rfl⟩ := Nat.exists_eq_add_of_le' (show 1 ≤ m by omega)
  rw [nameTail]
  refine reads_accept_self.bind fun found hfound ↦ .ite_pos hfound ?_
  refine reads_current.bind fun next hnext ↦ .ite_pos (by simp [hnext]) ?_
  refine reads_advance.seq fun _ ↦ .pure ?_
  rw [hread, hstart, hname]

end

/-! ## Items -/

namespace Script

/-- With imports behind those before, places left out. -/
def appendImports (is : List Import) (script : Script) : Script :=
  { script with imports := script.imports ++ is.map Import.eraseSpan }

def appendStarImports (is : List StarImport) (script : Script) : Script :=
  { script with starImports := script.starImports ++ is.map StarImport.eraseSpan }

/-- With statements in front of those before, the last one first. -/
def prependStatements (ss : List Stmt) (script : Script) : Script :=
  { script with statements := (ss.map Stmt.eraseSpans).reverse ++ script.statements }

def prependMethods (ms : List Method) (script : Script) : Script :=
  { script with methods := (ms.map Method.eraseSpans).reverse ++ script.methods }

end Script

/-- Whether an item of a script can begin with the token. -/
def Token.StartsItem (t : Token) : Prop :=
  t.isSeparator = false ∧ t ≠ .keyword .elseWord ∧ t ≠ .eof

/-- In front of a newline, `item` reads the tokens, and changes the script, places aside, by
`add`. -/
structure ReadsItem (ts : List Token) (add : Script → Script) : Prop where
  head : ∃ t more, ts = t :: more ∧ t.StartsItem
  reads : ∀ {script : Script} {rest : List Token} {n : Nat}, NoElse rest →
    8 * (ts ++ .newline :: rest).length + 5 ≤ n →
    Reads (item script n) (ts ++ .newline :: rest) (.newline :: rest)
      (·.eraseSpans = add script.eraseSpans)

theorem Token.StartsItem.ne_newline {t : Token} (h : t.StartsItem) : t ≠ .newline := by
  rintro rfl
  cases h.1

section

variable {n : Nat} {rest : List Token}

/-- The package comes in front of everything else. -/
theorem reads_item_package {script : Script} {name : String} (hblank : isBlankScript script = true)
    (hn : (nameTokens name).length ≤ n) :
    Reads (item script n) (.keyword .packageWord :: (nameTokens name ++ .newline :: rest))
      (.newline :: rest)
      (·.eraseSpans = { script.eraseSpans with package := some ⟨name, .none⟩ }) := by
  rw [item]
  refine reads_current.bind fun next hnext ↦ ?_
  rw [hnext]
  refine Reads.bind (Q := (·.name = name)) ?_ fun read hread ↦ .ite_pos hblank (.pure ?_)
  · rw [package]
    refine reads_expect.seq fun start ↦ ?_
    exact (reads_qualifiedName (by decide) hn).bind fun read hread ↦ .pure hread
  · simp [Script.eraseSpans, Named.eraseSpan, hread]

/-- The name of an import follows: the import is no static one. -/
theorem reads_current_nameTokens (name : String) (more : List Token) :
    Reads current (nameTokens name ++ more) (nameTokens name ++ more)
      fun next ↦ ¬ (next.token == .keyword .staticWord) = true := by
  obtain ⟨first, rest, hfirst⟩ := exists_head_nameTokens name
  rw [hfirst]
  exact reads_current.mono fun next hnext ↦ by simp [hnext]

/-- An import of a class: no `.*` ends its name. -/
theorem readsItem_import {i : Import} (h : i.Written) :
    ReadsItem i.tokens (Script.appendImports [i]) := by
  refine ⟨⟨_, _, rfl, rfl, by decide, by decide⟩, fun {script rest n} _ hn ↦ ?_⟩
  rw [Import.tokens] at hn ⊢
  simp only [List.cons_append, List.append_assoc, List.length_cons, List.length_append] at hn ⊢
  rw [item]
  refine reads_current.bind fun next hnext ↦ ?_
  rw [hnext]
  refine reads_expect.seq fun start ↦ (reads_current_nameTokens _ _).bind fun next hnext ↦ ?_
  refine .ite_neg hnext ?_
  obtain ⟨t, more, hmore, ht⟩ : ∃ t more, (if i.localName = lastSegment i.className then []
      else [.keyword .asWord, .identifier i.localName]) ++ .newline :: rest = t :: more ∧
        t ≠ .symbol .dot := by
    split <;> exact ⟨_, _, rfl, by decide⟩
  have hread : Reads (qualifiedName true n) (nameTokens i.className ++ t :: more) (t :: more)
      (·.name = i.className) := reads_qualifiedName ht (by omega)
  rw [← hmore] at hread
  refine hread.bind fun name hname ↦ ?_
  have hentry (place : Span) : ({ script with
      imports := script.imports ++ [⟨name.name, i.localName, place⟩] } : Script).eraseSpans =
        script.eraseSpans.appendImports [i] := by
    simp [Script.eraseSpans, Script.appendImports, Import.eraseSpan, hname]
  split
  next package heq =>
    refine absurd ⟨package.reverse, ?_⟩ h
    rw [← hname, ← List.reverse_reverse name.name.toList, heq]
    simp
  next =>
    split
    next hlocal =>
      refine (reads_accept_ne (by decide)).bind fun found hfound ↦ .ite_neg (by simp [hfound]) ?_
      refine Reads.bind (Q := (·.name = i.localName)) (.pure ?_) fun localName hlocalName ↦ .pure ?_
      · rw [hname, hlocal]
      · simp only [hlocalName]
        exact hentry _
    next =>
      refine reads_accept_self.bind fun found hfound ↦ .ite_pos hfound ?_
      refine reads_identifier.bind fun localName hlocalName ↦ .pure ?_
      simp only [hlocalName]
      exact hentry _

/-- An import of a package, whose name ends in the dot in front of the star. -/
theorem readsItem_starImport {i : StarImport} (h : i.Written) :
    ReadsItem i.tokens (Script.appendStarImports [i]) := by
  obtain ⟨package, hpackage, hlast⟩ := h
  refine ⟨⟨_, _, rfl, rfl, by decide, by decide⟩, fun {script rest n} _ hn ↦ ?_⟩
  have hname : String.ofList i.package.toList.dropLast = package := by simp [hpackage]
  rw [StarImport.tokens, hname] at hn ⊢
  simp only [List.cons_append, List.append_assoc, List.nil_append, List.length_cons,
    List.length_append] at hn ⊢
  rw [item]
  refine reads_current.bind fun next hnext ↦ ?_
  rw [hnext]
  refine reads_expect.seq fun start ↦ (reads_current_nameTokens _ _).bind fun next hnext ↦ ?_
  refine .ite_neg hnext ((reads_qualifiedName_star (by omega)).bind fun name hname ↦ ?_)
  have hreverse : name.name.toList.reverse = '*' :: '.' :: package.toList.reverse := by simp [hname]
  rw [hreverse]
  refine .pure ?_
  simp [Script.eraseSpans, Script.appendStarImports, StarImport.eraseSpan, StarImport.withDot,
    if_neg hlast, hpackage]

/-- A statement does not begin as a method does. -/
theorem beginsMethod_statement (rest : List Token) (s : Stmt) :
    beginsMethod (s.tokens ++ .newline :: rest) = false := by
  cases s with
  | expression e =>
    obtain ⟨t, more, hhead, hstarts⟩ := e.exists_head_tokens
    rw [Stmt.tokens, hhead]
    exact beginsMethod_of_ne (by rintro rfl; cases hstarts)
  | declare name initial => cases initial <;> rfl
  | result value => cases value <;> rfl
  | ifThen | ifElse | loop | block => rfl

theorem readsItem_statement {s : Stmt} (h : s.Written) :
    ReadsItem s.tokens (Script.prependStatements [s]) := by
  obtain ⟨t, more, hhead, hstarts⟩ := s.exists_head_tokens
  refine ⟨⟨t, more, hhead, Token.isSeparator_of_startsStatement hstarts,
    Token.ne_else_of_startsStatement hstarts, by rintro rfl; cases hstarts⟩,
    fun {script rest n} helse hn ↦ ?_⟩
  have hmethod : Reads atMethod (s.tokens ++ .newline :: rest) (s.tokens ++ .newline :: rest)
      (· = false) := by
    rw [← beginsMethod_statement rest s]
    exact reads_atMethod
  have hstatement := Stmt.readable_of_written s h (fun _ ↦ helse) hn
  have hrun : Reads (do
      if ← atMethod then
        let m ← method n
        return { script with methods := m :: script.methods }
      else
        let s ← statement n
        return { script with statements := s :: script.statements })
      (s.tokens ++ .newline :: rest) (.newline :: rest)
      (·.eraseSpans = script.eraseSpans.prependStatements [s]) := by
    refine hmethod.bind fun isMethod hisMethod ↦ .ite_neg (by simp [hisMethod]) ?_
    refine hstatement.bind fun s' hs' ↦ .pure ?_
    rw [Script.eraseSpans, Stmt.eraseAllSpans, hs']
    rfl
  rw [hhead] at hrun ⊢
  rw [item]
  refine reads_current.bind fun next hnext ↦ ?_
  rw [hnext]
  split
  next => cases hstarts
  next => cases hstarts
  next => exact hrun

theorem readsItem_method {m : Method} (h : m.Written) :
    ReadsItem m.tokens (Script.prependMethods [m]) := by
  refine ⟨⟨_, _, rfl, rfl, by decide, by decide⟩, fun {script rest n} _ hn ↦ ?_⟩
  rw [item]
  refine reads_current.bind fun next hnext ↦ ?_
  rw [hnext]
  refine reads_atMethod.bind fun isMethod hisMethod ↦ .ite_pos (by rw [hisMethod]; rfl) ?_
  refine (reads_method h (by omega)).bind fun m' hm' ↦ .pure ?_
  rw [Script.eraseSpans, List.map_cons, hm']
  rfl

end

/-! ## Lines -/

/-- From tokens that spell `ts`, behind any separators, items are added to the script up to the end
of the text, without an error and with a result that has the property `Q`. Each token of `ts` may
take a round. -/
def ReadsItems (script : Script) (ts : List Token) (Q : Script → Prop) : Prop :=
  ∀ (separators : List Token) (located : List Located) (n rounds : Nat),
    (∀ u ∈ separators, u.isSeparator = true) → located.map (·.token) = separators ++ ts →
    8 * ts.length + 5 ≤ n → ts.length ≤ rounds →
    ∃ script' left, items n rounds script [] located = (script', [], left) ∧ Q script'

/-- What follows the items begins with no `else` if its end does not. -/
theorem noElse_lines {α : Type} {tokens : α → List Token} {add : List α → Script → Script}
    {as : List α} {rest : List Token} (has : ∀ a ∈ as, ReadsItem (tokens a) (add [a])) (h : NoElse rest) :
    NoElse (lines (as.map tokens) ++ rest) := by
  cases as with
  | nil => exact h
  | cons a as =>
    obtain ⟨t, more, hhead, hstarts⟩ := (has a List.mem_cons_self).head
    rw [List.map_cons, lines_cons, hhead]
    exact noElse_cons hstarts.ne_newline hstarts.2.1

/-- Skipping separators, with and without places. -/
theorem map_dropWhile_separators {separators ts : List Token} {t : Token} {located : List Located}
    (hseparators : ∀ u ∈ separators, u.isSeparator = true) (ht : t.isSeparator = false)
    (h : located.map (·.token) = separators ++ t :: ts) :
    (located.dropWhile (·.token.isSeparator)).map (·.token) = t :: ts := by
  rw [← List.dropWhile_cons_of_neg (a := t) (p := Token.isSeparator) (by simp [ht]),
    ← List.dropWhile_append_of_pos hseparators, ← h, List.dropWhile_map]
  rfl

namespace ReadsItems

variable {script : Script} {ts rest : List Token} {Q R : Script → Prop}

/-- Nothing is added at the end of the text. -/
theorem eof (h : Q script) : ReadsItems script [.eof] Q := by
  intro separators located n rounds hseparators hlocated _ hrounds
  obtain ⟨rounds, rfl⟩ := Nat.exists_eq_add_of_le' (show 1 ≤ rounds from hrounds)
  have hleft := map_dropWhile_separators hseparators rfl hlocated
  obtain ⟨⟨token, place⟩, heq, heof⟩ := List.map_eq_singleton_iff.mp hleft
  cases heof
  refine ⟨script, [⟨.eof, place⟩], ?_, h⟩
  rw [items]
  simp only [heq]

/-- One line, and what is behind it. -/
theorem line (ts : List Token) (hhead : ∃ t more, ts = t :: more ∧ t.StartsItem)
    (hitem : ∀ n, 8 * (ts ++ .newline :: rest).length + 5 ≤ n →
      Reads (item script n) (ts ++ .newline :: rest) (.newline :: rest) R)
    (hrest : ∀ script', R script' → ReadsItems script' rest Q) :
    ReadsItems script (ts ++ .newline :: rest) Q := by
  intro separators located n rounds hseparators hlocated hn hrounds
  obtain ⟨t, more, rfl, hseparator, -, heof⟩ := hhead
  have hfront := map_dropWhile_separators hseparators hseparator hlocated
  obtain ⟨script', left, hitem, hleft, hscript⟩ := hitem n hn _ hfront
  obtain ⟨_, left', hend, hleft', -⟩ := reads_statementEnd false left hleft
  simp only [List.length_append, List.length_cons] at hn hrounds
  obtain ⟨rounds, rfl⟩ := Nat.exists_eq_add_of_le' (show 1 ≤ rounds by omega)
  obtain ⟨script'', left'', hrun, hQ⟩ := hrest script' hscript [.newline] left' n rounds
    (by simp [Token.isSeparator]) hleft' (by omega) (by omega)
  refine ⟨script'', left'', ?_, hQ⟩
  rw [items]
  generalize located.dropWhile (·.token.isSeparator) = front at hitem hfront
  split
  next => cases hfront
  next place => exact absurd (List.cons.inj hfront).1.symm heof
  next =>
    rw [hitem]
    simp only [hend]
    exact hrun

/-- The lines of one kind, and what is behind them. -/
theorem lines {α : Type} {tokens : α → List Token} {add : List α → Script → Script}
    (hnil : ∀ s, add [] s = s) (hcons : ∀ a as s, add (a :: as) s = add as (add [a] s))
    (as : List α) (has : ∀ a ∈ as, ReadsItem (tokens a) (add [a])) (hnoElse : NoElse rest)
    (hrest : ∀ script', script'.eraseSpans = add as script.eraseSpans → ReadsItems script' rest Q) :
    ReadsItems script (BuildScript.lines (as.map tokens) ++ rest) Q := by
  induction as generalizing script with
  | nil => exact hrest script (hnil _).symm
  | cons a as ih =>
    obtain ⟨ha, has⟩ := List.forall_mem_cons.mp has
    rw [List.map_cons, lines_cons, List.append_assoc, List.cons_append]
    refine line _ ha.head (fun n hn ↦ ha.reads (noElse_lines has hnoElse) hn)
      fun script' hscript' ↦ ih has fun script'' hscript'' ↦ ?_
    exact hrest script'' (by rw [hscript'', hscript', ← hcons])

end ReadsItems

/-! ## Whole scripts -/

/-- What is collected while a script is read: its statements and methods stand last first. -/
def Script.collected (script : Script) : Script :=
  { script.eraseSpans with
    statements := (script.statements.map Stmt.eraseSpans).reverse
    methods := (script.methods.map Method.eraseSpans).reverse }

/-- Behind the package. -/
theorem readsItems_body {script : Script} (h : script.Written) {start : Script}
    (hstart : start.eraseSpans = { package := script.package.map Named.eraseSpan, span := .none }) :
    ReadsItems start (lines (script.imports.map Import.tokens) ++
      (lines (script.starImports.map StarImport.tokens) ++
        (lines (script.statements.map Stmt.tokens) ++
          (lines (script.methods.map Method.tokens) ++ [.eof]))))
      (·.eraseSpans = script.collected) := by
  have hstarImports := fun i hi ↦ readsItem_starImport (h.starImports i hi)
  have hstatements := fun s hs ↦ readsItem_statement (h.statements s hs)
  have hmethods := fun m hm ↦ readsItem_method (h.methods m hm)
  have heof : NoElse [.eof] := noElse_cons (by decide) (by decide)
  have hbeforeMethods := noElse_lines hmethods heof
  have hbeforeStatements := noElse_lines hstatements hbeforeMethods
  refine .lines (by simp [Script.appendImports]) (by simp [Script.appendImports]) script.imports
    (fun i hi ↦ readsItem_import (h.imports i hi)) (noElse_lines hstarImports hbeforeStatements)
    fun s₁ h₁ ↦ ?_
  refine .lines (by simp [Script.appendStarImports]) (by simp [Script.appendStarImports])
    script.starImports hstarImports hbeforeStatements fun s₂ h₂ ↦ ?_
  refine .lines (by simp [Script.prependStatements]) (by simp [Script.prependStatements])
    script.statements hstatements hbeforeMethods fun s₃ h₃ ↦ ?_
  refine .lines (by simp [Script.prependMethods]) (by simp [Script.prependMethods])
    script.methods hmethods heof fun s₄ h₄ ↦ .eof ?_
  rw [h₄, h₃, h₂, h₁, hstart]
  simp [Script.appendImports, Script.appendStarImports, Script.prependStatements,
    Script.prependMethods, Script.collected, Script.eraseSpans]

theorem readsItems_tokens {script : Script} (h : script.Written) (span : Span) :
    ReadsItems { span } (script.tokens ++ [.eof]) (·.eraseSpans = script.collected) := by
  rw [Script.tokens]
  simp only [List.append_assoc]
  cases hpackage : script.package with
  | none =>
    refine readsItems_body h ?_
    rw [hpackage]
    rfl
  | some package =>
    simp only [Option.toList_some, List.map_cons, List.map_nil, lines_cons, lines_nil,
      List.append_assoc, List.cons_append, List.nil_append]
    rw [← List.cons_append]
    refine .line (.keyword .packageWord :: nameTokens package.name)
      ⟨_, _, rfl, rfl, by decide, by decide⟩ (fun n hn ↦ reads_item_package (by rfl) ?_)
      fun start hstart ↦ readsItems_body h ?_
    · simp only [List.cons_append, List.length_append, List.length_cons] at hn
      omega
    · rw [hstart, hpackage]
      rfl

/-- The tokens of a script, wherever they stand, are parsed, and what is read is the script but for
its places. -/
theorem parseTokens_tokens {script : Script} (h : script.Written) {located : List Located}
    (hlocated : located.map (·.token) = script.tokens ++ [Token.eof]) :
    ∃ read, parseTokens located = .ok read ∧ read.eraseSpans = script.eraseSpans := by
  have hlength : located.length = (script.tokens ++ [Token.eof]).length := by
    rw [← hlocated, List.length_map]
  obtain ⟨read, left, hrun, hread⟩ := readsItems_tokens h (located.headD ⟨.eof, .none⟩).span []
    located (8 * (located.length + 2)) (located.length + 1) (List.forall_mem_nil _) hlocated
    (by omega) (by omega)
  rw [parseTokens]
  simp only [hrun]
  refine ⟨_, rfl, ?_⟩
  simp only [Script.eraseSpans, Script.collected, Script.mk.injEq,
    Stmt.eraseAllSpans_eq_map] at hread ⊢
  simp [hread]

/-- A script whose first branch needs its braces, and whose sum needs its parentheses. -/
def nestedScript : Script where
  package := some ⟨"org.acme", .none⟩
  imports := [⟨"org.acme.Thing", "T", .none⟩]
  starImports := [⟨"java.util.", .none⟩]
  statements :=
    [.ifElse (.var "a" .none)
      (.block [.ifThen (.var "b" .none) (.expression (.call "f" [] .none)) .none] .none)
      (.expression (.assign "c" (.binary .multiply
        (.binary .add (.var "a" .none) (.var "b" .none) .none) (.var "c" .none) .none) .none)) .none]
  methods := [⟨"f", [⟨"x", .none⟩, ⟨"y", .none⟩], [.result (some (.var "x" .none)) .none], .none⟩]
  span := .none

theorem parseTokens_tokens_nestedScript :
    nestedScript.Written ∧
      ∃ read, parseTokens ((nestedScript.tokens ++ [Token.eof]).map (⟨·, .none⟩)) = .ok read ∧
        read.eraseSpans = nestedScript.eraseSpans := by
  have hwritten : nestedScript.Written :=
    { imports := List.forall_mem_singleton.mpr (show ¬ _ by decide)
      starImports := List.forall_mem_singleton.mpr ⟨"java.util", rfl, by decide⟩
      statements := List.forall_mem_singleton.mpr
        ⟨trivial, ⟨⟨trivial, trivial⟩, trivial⟩, rfl, ⟨trivial, trivial⟩, trivial⟩
      methods := List.forall_mem_singleton.mpr ⟨by decide, trivial, trivial⟩ }
  exact ⟨hwritten, parseTokens_tokens hwritten (by rw [List.map_map]; exact List.map_id _)⟩

end BuildScript
