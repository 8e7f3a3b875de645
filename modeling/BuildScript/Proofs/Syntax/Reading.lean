import BuildScript.Syntax.Grammar

/-!
# Reading tokens

`Grammar.Reads x ts rest Q` says that the reader `x`, on located tokens that spell `ts`, succeeds,
leaves tokens that spell `rest`, and gives a result that satisfies `Q`. Where the tokens stand does
not matter. A program is checked against its spelling step by step: there is one rule for each
primitive of the grammar, and `Reads.bind` passes on what is left.
-/

namespace BuildScript

namespace Grammar

/-- From any tokens that spell `ts`, reading succeeds, gives something with the property `Q`, and
leaves tokens that spell `rest`. -/
def Reads {α : Type} (x : GrammarM α) (ts rest : List Token) (Q : α → Prop) : Prop :=
  ∀ located : List Located, located.map (·.token) = ts →
    ∃ a left, x located = .ok a left ∧ left.map (·.token) = rest ∧ Q a

namespace Reads

variable {α β : Type} {x : GrammarM α} {ts mid rest : List Token} {Q Q' : α → Prop} {R : β → Prop}

theorem pure {a : α} (h : Q a) : Reads (Pure.pure a) ts ts Q :=
  fun located hlocated ↦ ⟨a, located, rfl, hlocated, h⟩

theorem bind {f : α → GrammarM β} (hx : Reads x ts mid Q)
    (hf : ∀ a, Q a → Reads (f a) mid rest R) : Reads (x >>= f) ts rest R := by
  intro located hlocated
  obtain ⟨a, left, hrun, hleft, ha⟩ := hx located hlocated
  obtain ⟨b, left', hrun', hleft', hb⟩ := hf a ha left hleft
  refine ⟨b, left', ?_, hleft', hb⟩
  rw [show (x >>= f) located = EStateM.bind x f located from rfl, EStateM.bind, hrun]
  exact hrun'

/-- Behind a reader whose result does not matter. -/
theorem seq {f : α → GrammarM β} (hx : Reads x ts mid Q) (hf : ∀ a, Reads (f a) mid rest R) :
    Reads (x >>= f) ts rest R := hx.bind fun a _ ↦ hf a

theorem mono (h : Reads x ts rest Q) (hQ : ∀ a, Q a → Q' a) : Reads x ts rest Q' := by
  intro located hlocated
  obtain ⟨a, left, hrun, hleft, ha⟩ := h located hlocated
  exact ⟨a, left, hrun, hleft, hQ a ha⟩

/-- If the condition holds, only the first branch is taken. -/
theorem ite_pos {c : Prop} [Decidable c] {y : GrammarM α} (hc : c) (h : Reads x ts rest Q) :
    Reads (if c then x else y) ts rest Q := by rwa [if_pos hc]

theorem ite_neg {c : Prop} [Decidable c] {y : GrammarM α} (hc : ¬ c) (h : Reads y ts rest Q) :
    Reads (if c then x else y) ts rest Q := by rwa [if_neg hc]

end Reads

/-! ## Single tokens -/

section

variable {t u : Token} {ts : List Token} {name : String}

theorem reads_current : Reads current (t :: ts) (t :: ts) (·.token = t) := by
  intro located hlocated
  cases located with
  | nil => cases hlocated
  | cons first located =>
    obtain ⟨hfirst, hrest⟩ := List.cons.inj hlocated
    exact ⟨first, _, rfl, hlocated, hfirst⟩

theorem reads_advance : Reads advance (t :: ts) ts fun _ ↦ True := by
  intro located hlocated
  cases located with
  | nil => cases hlocated
  | cons first located => exact ⟨_, located, rfl, (List.cons.inj hlocated).2, trivial⟩

theorem reads_nextIs : Reads (nextIs t) (u :: ts) (u :: ts) (· = (u == t)) :=
  reads_current.bind fun next hnext ↦ .pure (by rw [hnext])

theorem reads_accept_self : Reads (accept t) (t :: ts) ts (· = true) := by
  refine reads_nextIs.bind fun found hfound ↦ .ite_pos (by simpa using hfound) ?_
  exact reads_advance.seq fun _ ↦ .pure rfl

theorem reads_accept_ne (h : u ≠ t) : Reads (accept t) (u :: ts) (u :: ts) (· = false) := by
  refine reads_nextIs.bind fun found hfound ↦ .ite_neg ?_ (.pure rfl)
  rw [hfound, beq_eq_false_iff_ne.mpr h]
  exact Bool.false_ne_true

theorem reads_expect : Reads (expect t) (t :: ts) ts fun _ ↦ True := by
  refine reads_current.bind fun next hnext ↦ .ite_pos (by simp [hnext]) ?_
  exact reads_advance.seq fun _ ↦ .pure trivial

theorem reads_identifier {wanted : Wanted} :
    Reads (identifier wanted) (.identifier name :: ts) ts (·.name = name) := by
  refine reads_current.bind fun next hnext ↦ ?_
  rw [hnext]
  exact reads_advance.seq fun _ ↦ .pure rfl

theorem reads_get : Reads get ts ts fun located ↦ located.map (·.token) = ts :=
  fun located hlocated ↦ ⟨located, located, rfl, hlocated, hlocated⟩

theorem reads_set {located : List Located} (h : located.map (·.token) = ts) {us : List Token} :
    Reads (set located) us ts fun _ ↦ True :=
  fun _ _ ↦ ⟨⟨⟩, located, rfl, h, trivial⟩

theorem reads_skip (ts : List Token) (p : Token → Bool) :
    Reads (modify (·.dropWhile fun t ↦ p t.token)) ts (ts.dropWhile p) fun _ ↦ True := by
  intro located hlocated
  refine ⟨⟨⟩, _, rfl, ?_, trivial⟩
  rw [← hlocated, List.dropWhile_map]
  rfl

theorem reads_skipNewlines (h : t ≠ .newline) :
    Reads skipNewlines (t :: ts) (t :: ts) fun _ ↦ True := by
  have hskip := reads_skip (t :: ts) (· == .newline)
  rwa [List.dropWhile_cons_of_neg (by simpa using h)] at hskip

/-- Separators are skipped up to the first other token. -/
theorem reads_skipSeparators {separators : List Token}
    (hseparators : ∀ u ∈ separators, u.isSeparator = true) (h : t.isSeparator = false) :
    Reads skipSeparators (separators ++ t :: ts) (t :: ts) fun _ ↦ True := by
  have hskip := reads_skip (separators ++ t :: ts) Token.isSeparator
  rwa [List.dropWhile_append_of_pos hseparators, List.dropWhile_cons_of_neg (by simp [h])] at hskip

/-- Whether the tokens begin as a method does. -/
def beginsMethod : List Token → Bool
  | .keyword .defWord :: .identifier _ :: .symbol .leftParen :: _ => true
  | _ => false

theorem beginsMethod_of_ne (h : t ≠ .keyword .defWord) : beginsMethod (t :: ts) = false := by
  rw [beginsMethod.eq_def]
  split
  next heq => exact absurd (List.cons.inj heq).1 h
  next => rfl

theorem reads_atMethod : Reads atMethod ts ts (· = beginsMethod ts) := by
  refine reads_get.bind fun located hlocated ↦ ?_
  subst hlocated
  split
  next => exact .pure rfl
  next hother =>
    refine .pure ?_
    rw [beginsMethod.eq_def]
    split
    next name more heq =>
      exfalso
      rcases located with _ | ⟨⟨a, p⟩, _ | ⟨⟨b, q⟩, _ | ⟨⟨c, r⟩, located⟩⟩⟩
      · cases heq
      · cases heq
      · cases heq
      · cases heq
        exact hother _ _ _ _ _ rfl
    next => rfl

end

end Grammar

end BuildScript
