import BuildScript.Proofs.Syntax.Reading

/-!
# Reading with fewer newlines

Two runs of the grammar side by side: one on tokens with newlines in front of some words `else`, the
other on the tokens without them. `Mirrors` is a judgement about two readers: if the first one
succeeds, the second one does, with a result that is related. Where the first run stands in front of
such a newline the second one sees the word, and the grammar almost never tells the two apart: an
expression ends in front of either. Behind `return` it does, since a newline ends the statement and
the word does not; so no such newline may follow a `return`.

The bound for the depth of calls is smaller for fewer tokens. So the judgement also counts: of the
tokens of the second run no more are left than it says.
-/

namespace BuildScript

namespace Grammar

/-! ## Tokens without some newlines -/

/-- The next token; behind the last one, the end of the text. -/
def head (ts : List Located) : Token := (ts.headD ⟨.eof, .none⟩).token

theorem head_eq_headD_map (ts : List Located) : head ts = (ts.map (·.token)).headD .eof := by
  cases ts <;> rfl

theorem head_dropWhile_ne (ts : List Located) {p : Token → Bool} (hnewline : p .newline = true) :
    head (ts.dropWhile fun t ↦ p t.token) ≠ .newline := by
  induction ts with
  | nil => exact nofun
  | cons t ts ih =>
    rw [List.dropWhile_cons]
    split
    · exact ih
    · next hp =>
      intro ht
      exact hp (by rwa [show t.token = .newline from ht])

/-- The second tokens are the first ones, at other places, without some newlines that stand in front
of `else` and not behind `return`. -/
inductive Joined : List Located → List Located → Prop
  | nil : Joined [] []
  | cons {t t' : Located} {ts ts' : List Located} (token : t'.token = t.token)
    (level : t.token = .keyword .returnWord → head ts' = head ts) (rest : Joined ts ts') :
    Joined (t :: ts) (t' :: ts')
  | gap {newline : Located} {ts ts' : List Located} (token : newline.token = .newline)
    (rest : Joined ts ts') (next : head ts' = .keyword .elseWord) : Joined (newline :: ts) ts'

namespace Joined

variable {ts ts' : List Located}

theorem refl (ts : List Located) : Joined ts ts := by
  induction ts with
  | nil => exact .nil
  | cons t ts ih => exact .cons rfl (fun _ ↦ rfl) ih

/-- Both runs see the same token, or the first one a newline and the second one the word. -/
theorem head_eq (h : Joined ts ts') :
    head ts' = head ts ∨ head ts = .newline ∧ head ts' = .keyword .elseWord := by
  cases h with
  | nil => exact .inl rfl
  | cons token => exact .inl token
  | gap token _ next => exact .inr ⟨token, next⟩

theorem head_iff {token : Token} (h : Joined ts ts') (hnewline : token ≠ .newline)
    (helse : token ≠ .keyword .elseWord) : head ts' = token ↔ head ts = token := by
  rcases h.head_eq with heq | ⟨hts, hts'⟩
  · rw [heq]
  · rw [hts, hts']
    exact iff_of_false helse.symm hnewline.symm

theorem head_eq_of_ne (h : Joined ts ts') (hne : head ts ≠ .newline) : head ts' = head ts :=
  h.head_eq.resolve_right fun hgap ↦ hne hgap.1

theorem drop_one (h : Joined ts ts') (hhead : head ts' = head ts) :
    Joined (ts.drop 1) (ts'.drop 1) := by
  cases h with
  | nil => exact .nil
  | cons _ _ rest => exact rest
  | gap token _ next =>
    rw [next] at hhead
    exact absurd (hhead.trans token) (by decide)

/-- Behind a `return` both runs see the same token. -/
theorem head_drop_one (h : Joined ts ts') (hts : head ts = .keyword .returnWord) :
    head (ts'.drop 1) = head (ts.drop 1) := by
  cases h with
  | nil => rfl
  | cons _ level => exact level hts
  | gap token => exact absurd (token.symm.trans hts) (by decide)

/-- Where newlines are skipped it does not matter that some are missing. -/
theorem dropWhile (h : Joined ts ts') {p : Token → Bool} (hnewline : p .newline = true) :
    Joined (ts.dropWhile fun t ↦ p t.token) (ts'.dropWhile fun t ↦ p t.token) := by
  induction h with
  | nil => exact .nil
  | @cons t t' ts ts' token level rest ih =>
    rw [List.dropWhile_cons, List.dropWhile_cons, token]
    split
    · exact ih
    · exact .cons token level rest
  | gap token rest next ih =>
    rw [List.dropWhile_cons, token, if_pos hnewline]
    exact ih

/-- Where the second run stands in front of the word, the first one has it behind the separators. -/
theorem head_dropWhile_of_else (h : Joined ts ts') (helse : head ts' = .keyword .elseWord) :
    head (ts.dropWhile (·.token.isSeparator)) = .keyword .elseWord := by
  have hskip := h.dropWhile (p := Token.isSeparator) rfl
  rw [← hskip.head_eq_of_ne (head_dropWhile_ne ts rfl)]
  cases ts' with
  | nil => cases helse
  | cons t ts' =>
    rw [List.dropWhile_cons_of_neg (by rw [show t.token = _ from helse]; decide)]
    exact helse

/-- The same tokens at other places. -/
theorem of_map_eq (h : ts'.map (·.token) = ts.map (·.token)) : Joined ts ts' := by
  induction ts generalizing ts' with
  | nil =>
    obtain rfl := List.map_eq_nil_iff.mp h
    exact .nil
  | cons t ts ih =>
    obtain ⟨t', ts', rfl, ht, hts⟩ := List.map_eq_cons_iff.mp h
    refine .cons ht (fun _ ↦ ?_) (ih hts)
    rw [head_eq_headD_map, head_eq_headD_map, hts]

/-- One newline is left out, at any place behind which a word `else` stands. -/
theorem of_map {front more : List Token}
    (hts : ts.map (·.token) = front ++ .newline :: .keyword .elseWord :: more)
    (hts' : ts'.map (·.token) = front ++ .keyword .elseWord :: more)
    (hreturn : front.getLast? ≠ some (.keyword .returnWord)) : Joined ts ts' := by
  induction front generalizing ts ts' with
  | nil =>
    obtain ⟨newline, ts, rfl, hnewline, hts⟩ := List.map_eq_cons_iff.mp hts
    refine .gap hnewline (of_map_eq (hts'.trans hts.symm)) ?_
    rw [head_eq_headD_map, hts']
    rfl
  | cons token front ih =>
    obtain ⟨t, ts, rfl, ht, hts⟩ := List.map_eq_cons_iff.mp hts
    obtain ⟨t', ts', rfl, ht', hts'⟩ := List.map_eq_cons_iff.mp hts'
    have hfront : front ≠ [] → front.getLast? ≠ some (.keyword .returnWord) := by
      intro hne
      rwa [List.getLast?_cons_of_ne_nil hne] at hreturn
    cases front with
    | nil =>
      refine .cons (ht'.trans ht.symm) (fun hword ↦ ?_) (ih hts hts' nofun)
      exact absurd (congrArg some (ht.symm.trans hword)) hreturn
    | cons next front =>
      refine .cons (ht'.trans ht.symm) (fun _ ↦ ?_) (ih hts hts' (hfront (List.cons_ne_nil _ _)))
      rw [head_eq_headD_map, head_eq_headD_map, hts, hts']
      rfl

end Joined

/-- The tokens of the second run are those of the first one without some newlines, and they are no
more than this. -/
structure Near (ℓ : Nat) (ts ts' : List Located) : Prop where
  joined : Joined ts ts'
  short : ts'.length ≤ ℓ

/-- Both runs see the token, and can go on behind it. -/
structure Ahead (token : Token) (ℓ : Nat) (ts ts' : List Located) : Prop where
  near : Near ℓ ts ts'
  head_eq : head ts = token
  head_eq' : head ts' = token

namespace Near

variable {ℓ : Nat} {ts ts' : List Located}

theorem drop_one (h : Near ℓ ts ts') (hhead : head ts' = head ts) :
    Near (ℓ - 1) (ts.drop 1) (ts'.drop 1) := by
  refine ⟨h.joined.drop_one hhead, ?_⟩
  rw [List.length_drop]
  exact Nat.sub_le_sub_right h.short 1

theorem dropWhile (h : Near ℓ ts ts') {p : Token → Bool} (hnewline : p .newline = true) :
    Near ℓ (ts.dropWhile fun t ↦ p t.token) (ts'.dropWhile fun t ↦ p t.token) :=
  ⟨h.joined.dropWhile hnewline,
    Nat.le_trans (List.dropWhile_sublist _).length_le h.short⟩

theorem mono (h : Near ℓ ts ts') {ℓ' : Nat} (hle : ℓ ≤ ℓ') : Near ℓ' ts ts' :=
  ⟨h.joined, Nat.le_trans h.short hle⟩

theorem pos_of_ne_eof (h : Near ℓ ts ts') (hne : head ts' ≠ .eof) : 0 < ℓ := by
  have hshort := h.short
  cases ts' with
  | nil => exact absurd rfl hne
  | cons t ts' => exact Nat.lt_of_lt_of_le (Nat.zero_lt_succ _) hshort

end Near

theorem bind_eq_ok_iff {α β : Type} {x : GrammarM α} {f : α → GrammarM β} {ts rest : List Located}
    {b : β} : (x >>= f) ts = .ok b rest ↔ ∃ a mid, x ts = .ok a mid ∧ f a mid = .ok b rest := by
  rw [show (x >>= f) ts = EStateM.bind x f ts from rfl, EStateM.bind]
  constructor
  · intro h
    split at h
    next a mid hfirst => exact ⟨a, mid, hfirst, h⟩
    next => cases h
  · rintro ⟨a, mid, hfirst, hsecond⟩
    rw [hfirst]
    exact hsecond

/-! ## The judgement -/

/-- Whenever the first reader succeeds, the second one does: from tokens related by `P`, with
results related by `R`, and leaving tokens related by `P'`. -/
def Mirrors {α : Type} (P : List Located → List Located → Prop) (x x' : GrammarM α)
    (R : α → α → Prop) (P' : α → List Located → List Located → Prop) : Prop :=
  ∀ ts ts', P ts ts' → ∀ a rest, x ts = .ok a rest →
    ∃ a' rest', x' ts' = .ok a' rest' ∧ R a a' ∧ P' a rest rest'

/-- Of so many tokens, as many may be left. -/
def Keeps {α : Type} (ℓ : Nat) (x x' : GrammarM α) (R : α → α → Prop) : Prop :=
  Mirrors (Near ℓ) x x' R fun _ ↦ Near ℓ

/-- Of so many tokens, at least one is read. -/
def Consumes {α : Type} (ℓ : Nat) (x x' : GrammarM α) (R : α → α → Prop) : Prop :=
  Mirrors (Near ℓ) x x' (fun a a' ↦ R a a' ∧ 0 < ℓ) fun _ ↦ Near (ℓ - 1)

section

variable {α β : Type} {P P₀ : List Located → List Located → Prop} {x x' y y' : GrammarM α}
  {R R₀ : α → α → Prop} {P' P₀' : α → List Located → List Located → Prop} {S : β → β → Prop}
  {Q : β → List Located → List Located → Prop} {ℓ ℓ' : Nat}

namespace Mirrors

theorem pure {a a' : α} (h : R a a') (hP : ∀ ts ts', P ts ts' → P' a ts ts') :
    Mirrors P (Pure.pure a) (Pure.pure a') R P' := by
  rintro ts ts' hts b rest hrun
  cases hrun
  exact ⟨a', ts', rfl, h, hP ts ts' hts⟩

theorem bind {f f' : α → GrammarM β} (hx : Mirrors P x x' R P')
    (hf : ∀ a a', R a a' → Mirrors (P' a) (f a) (f' a') S Q) :
    Mirrors P (x >>= f) (x' >>= f') S Q := by
  intro ts ts' hts b rest hrun
  obtain ⟨a, mid, hfirst, hsecond⟩ := bind_eq_ok_iff.mp hrun
  obtain ⟨a', mid', hfirst', hR, hmid⟩ := hx ts ts' hts a mid hfirst
  obtain ⟨b', rest', hsecond', hS, hrest⟩ := hf a a' hR mid mid' hmid b rest hsecond
  exact ⟨b', rest', bind_eq_ok_iff.mpr ⟨a', mid', hfirst', hsecond'⟩, hS, hrest⟩

/-- From fewer tokens, to a weaker relation. -/
theorem mono (h : Mirrors P x x' R P') (hP : ∀ ts ts', P₀ ts ts' → P ts ts')
    (hR : ∀ a a', R a a' → R₀ a a') (hP' : ∀ a ts ts', P' a ts ts' → P₀' a ts ts') :
    Mirrors P₀ x x' R₀ P₀' := by
  intro ts ts' hts a rest hrun
  obtain ⟨a', rest', hrun', ha, hrest⟩ := h ts ts' (hP ts ts' hts) a rest hrun
  exact ⟨a', rest', hrun', hR a a' ha, hP' a rest rest' hrest⟩

theorem ahead {token : Token} (h : Mirrors (Near ℓ) x x' R P') :
    Mirrors (Ahead token ℓ) x x' R P' :=
  h.mono (fun _ _ hts ↦ hts.near) (fun _ _ ↦ id) fun _ _ _ ↦ id

theorem imp (h : Mirrors P x x' R fun _ ↦ Near ℓ) (hR : ∀ a a', R a a' → R₀ a a')
    (hle : ℓ ≤ ℓ') : Mirrors P x x' R₀ fun _ ↦ Near ℓ' :=
  h.mono (fun _ _ ↦ id) hR fun _ _ _ hts ↦ hts.mono hle

theorem leaving (h : Mirrors P x x' R fun _ ↦ Near ℓ) (hle : ℓ ≤ ℓ') :
    Mirrors P x x' R fun _ ↦ Near ℓ' :=
  h.imp (fun _ _ ↦ id) hle

theorem pure_le {a a' : α} (h : R a a') (hle : ℓ ≤ ℓ') :
    Mirrors (Near ℓ) (Pure.pure a) (Pure.pure a') R fun _ ↦ Near ℓ' :=
  .pure h fun _ _ hts ↦ hts.mono hle

theorem ite {c : Prop} [Decidable c] (hx : c → Mirrors P x x' R P')
    (hy : ¬c → Mirrors P y y' R P') :
    Mirrors P (if c then x else y) (if c then x' else y') R P' := by
  split
  next h => exact hx h
  next h => exact hy h

/-- A reader that fails is mirrored by any other. -/
theorem fail {fault : SyntaxFault} {span : Span} :
    Mirrors P (Grammar.fail fault span : GrammarM α) x' R P' := by
  rintro ts ts' hts a rest ⟨⟩

theorem unexpected {wanted : Wanted} :
    Mirrors P (Grammar.unexpected wanted : GrammarM α) x' R P' := by
  rintro ts ts' hts a rest ⟨⟩

theorem tooDeep : Mirrors P (Grammar.tooDeep : GrammarM α) x' R P' := by
  rintro ts ts' hts a rest ⟨⟩

end Mirrors

/-! ## Single tokens -/

/-- The next token is the same for both readers, or a newline for the first one. -/
theorem mirrors_current {f f' : Located → GrammarM α}
    (hsame : ∀ t t' : Located, t'.token = t.token → (t.token ≠ .eof → 0 < ℓ) →
      Mirrors (Ahead t.token ℓ) (f t) (f' t') R P')
    (hgap : ∀ t t' : Located, t.token = .newline → t'.token = .keyword .elseWord →
      Mirrors (Near ℓ) (f t) (f' t') R P') :
    Mirrors (Near ℓ) (current >>= f) (current >>= f') R P' := by
  intro ts ts' hts a rest hrun
  rcases hts.joined.head_eq with heq | ⟨hnewline, helse⟩
  · refine hsame (ts.headD ⟨.eof, .none⟩) (ts'.headD ⟨.eof, .none⟩) heq (fun hne ↦ ?_) ts ts'
      ⟨hts, rfl, heq⟩ a rest hrun
    exact hts.pos_of_ne_eof (by rwa [heq])
  · exact hgap _ _ hnewline helse ts ts' hts a rest hrun

theorem mirrors_advance {token : Token} :
    Mirrors (Ahead token ℓ) advance advance (fun _ _ ↦ True) fun _ ↦ Near (ℓ - 1) := by
  rintro ts ts' hts a rest ⟨⟩
  exact ⟨_, _, rfl, trivial, hts.near.drop_one (hts.head_eq'.trans hts.head_eq.symm)⟩

variable {token : Token}

/-- It makes no difference for such a token whether a newline or the word stands in its place. -/
structure Plain (token : Token) : Prop where
  ne_newline : token ≠ .newline
  ne_else : token ≠ .keyword .elseWord
  ne_eof : token ≠ .eof

theorem plain_symbol (s : Symbol) : Plain (.symbol s) := ⟨nofun, nofun, nofun⟩

theorem plain_keyword {k : Keyword} (h : k ≠ .elseWord) : Plain (.keyword k) where
  ne_newline := nofun
  ne_else heq := h (Token.keyword.inj heq)
  ne_eof := nofun

/-- Both readers ask for the token. -/
theorem mirrors_currentIs {g g' : Located → GrammarM α} (h : Plain token)
    (htrue : ∀ t t' : Located, 0 < ℓ → Mirrors (Ahead token ℓ) (g t) (g' t') R P')
    (hfalse : Mirrors (Near ℓ) y y' R P') :
    Mirrors (Near ℓ) (do let t ← current; if t.token == token then g t else y)
      (do let t ← current; if t.token == token then g' t else y') R P' := by
  refine mirrors_current (fun t t' heq hpos ↦ ?_) fun t t' ht ht' ↦ ?_
  · rw [heq]
    refine .ite (fun htoken ↦ ?_) fun _ ↦ hfalse.ahead
    obtain rfl := eq_of_beq htoken
    exact htrue t t' (hpos h.ne_eof)
  · rw [ht, ht', if_neg (by simpa using h.ne_newline.symm), if_neg (by simpa using h.ne_else.symm)]
    exact hfalse

theorem mirrors_nextIs (h : Plain token) :
    Mirrors (Near ℓ) (nextIs token) (nextIs token) (fun b b' ↦ b' = b ∧ (b = true → 0 < ℓ))
      fun b ↦ if b then Ahead token ℓ else Near ℓ := by
  refine mirrors_current (fun t t' heq hpos ↦ ?_) fun t t' ht ht' ↦ ?_
  · rw [heq]
    by_cases htoken : t.token = token
    · rw [beq_iff_eq.mpr htoken, htoken]
      exact .pure ⟨rfl, fun _ ↦ hpos (htoken ▸ h.ne_eof)⟩ fun _ _ ↦ id
    · rw [beq_eq_false_iff_ne.mpr htoken]
      exact .pure ⟨rfl, nofun⟩ fun _ _ hts ↦ hts.near
  · rw [ht, ht', beq_eq_false_iff_ne.mpr h.ne_newline.symm, beq_eq_false_iff_ne.mpr h.ne_else.symm]
    exact .pure ⟨rfl, nofun⟩ fun _ _ ↦ id

theorem mirrors_accept (h : Plain token) :
    Mirrors (Near ℓ) (accept token) (accept token) (fun b b' ↦ b' = b ∧ (b = true → 0 < ℓ))
      fun b ↦ if b then Near (ℓ - 1) else Near ℓ := by
  refine (mirrors_nextIs h).bind ?_
  rintro _ b ⟨rfl, hpos⟩
  cases b with
  | true => exact mirrors_advance.bind fun _ _ _ ↦ .pure ⟨rfl, hpos⟩ fun _ _ ↦ id
  | false => exact .pure ⟨rfl, nofun⟩ fun _ _ ↦ id

/-- What is done behind a token that may be there. -/
theorem mirrors_accept_bind {f f' : Bool → GrammarM α} (h : Plain token)
    (htrue : 0 < ℓ → Mirrors (Near (ℓ - 1)) (f true) (f' true) R P')
    (hfalse : Mirrors (Near ℓ) (f false) (f' false) R P') :
    Mirrors (Near ℓ) (accept token >>= f) (accept token >>= f') R P' := by
  refine (mirrors_accept h).bind ?_
  rintro _ b ⟨rfl, hpos⟩
  cases b with
  | true => exact htrue (hpos rfl)
  | false => exact hfalse

/-- What is done in front of a token that may be there. -/
theorem mirrors_nextIs_bind {f f' : Bool → GrammarM α} (h : Plain token)
    (htrue : 0 < ℓ → Mirrors (Near ℓ) (f true) (f' true) R P')
    (hfalse : Mirrors (Near ℓ) (f false) (f' false) R P') :
    Mirrors (Near ℓ) (nextIs token >>= f) (nextIs token >>= f') R P' := by
  refine (mirrors_nextIs h).bind ?_
  rintro _ b ⟨rfl, hpos⟩
  cases b with
  | true => exact (htrue (hpos rfl)).ahead
  | false => exact hfalse

theorem consumes_expect (h : Plain token) :
    Consumes ℓ (expect token) (expect token) fun _ _ ↦ True := by
  refine mirrors_currentIs h (fun t t' hpos ↦ ?_) .unexpected
  exact mirrors_advance.bind fun _ _ _ ↦ .pure ⟨trivial, hpos⟩ fun _ _ ↦ id

theorem consumes_identifier {wanted : Wanted} :
    Consumes ℓ (identifier wanted) (identifier wanted) fun n n' ↦ n'.name = n.name := by
  refine mirrors_current (fun t t' heq hpos ↦ ?_) fun t t' ht ht' ↦ ?_
  · rw [heq]
    cases htoken : t.token with
    | identifier name =>
      exact mirrors_advance.bind fun _ _ _ ↦
        .pure ⟨rfl, hpos (by rw [htoken]; nofun)⟩ fun _ _ ↦ id
    | _ => exact .unexpected
  · rw [ht]
    exact .unexpected

theorem keeps_skipNewlines : Keeps ℓ skipNewlines skipNewlines fun _ _ ↦ True := by
  rintro ts ts' hts a rest ⟨⟩
  exact ⟨_, _, rfl, trivial, hts.dropWhile (p := (· == .newline)) rfl⟩

theorem keeps_skipSeparators : Keeps ℓ skipSeparators skipSeparators fun _ _ ↦ True := by
  rintro ts ts' hts a rest ⟨⟩
  exact ⟨_, _, rfl, trivial, hts.dropWhile (p := Token.isSeparator) rfl⟩

/-- A bound that is enough for anything is no zero. -/
theorem exists_eq_succ_of_enough {c m : Nat} (hm : c + 1 ≤ m) : ∃ k, m = k + 1 :=
  Nat.exists_eq_succ_of_ne_zero (Nat.pos_iff_ne_zero.mp (Nat.lt_of_lt_of_le c.succ_pos hm))

end

end Grammar

end BuildScript
