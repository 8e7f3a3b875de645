import BuildScript.Compile.Prefilter
import BuildScript.Proofs.Files.Components

/-!
# Conventional class names

The prefilter judges a name by its letters alone, so it may hold back the name of a class that is
there. It never does so for the names that the conventions of the platform give: packages in small
letters, two of them at least, and a class name that begins with a capital. Such a name is held back
only for what must not stand in it, a package of the platform behind a dollar sign or `org.gradle`
for a second time.

The reason is that the search for a dollar sign begins inside the packages, whichever platform name
stands in front, and so it meets the capital before any dollar sign.
-/

namespace BuildScript

/-! ## Occurrences -/

theorem isInfix_iff {part text : List Char} : isInfix part text = true ↔ part <:+: text := by
  induction text with
  | nil => rw [isInfix, List.isEmpty_iff, List.infix_nil]
  | cons c cs ih =>
    rw [isInfix, Bool.or_eq_true, List.isPrefixOf_iff_prefix, ih, List.infix_cons_iff]

theorem occursBehindFront_iff {part text : List Char} :
    occursBehindFront part text = true ↔ part <:+: text ∧ ¬part <+: text := by
  rw [occursBehindFront, Bool.and_eq_true, Bool.not_eq_true', ← Bool.not_eq_true, isInfix_iff,
    List.isPrefixOf_iff_prefix]

/-- A text that occurs in a text occurs at some index of it. -/
theorem infix_iff_exists_drop {part text : List Char} :
    part <:+: text ↔ ∃ i, part <+: text.drop i := by
  constructor
  · rintro ⟨front, rest, rfl⟩
    refine ⟨front.length, ?_⟩
    rw [List.append_assoc, List.drop_left]
    exact List.prefix_append part rest
  · rintro ⟨i, h⟩
    exact h.isInfix.trans (List.drop_suffix i text).isInfix

/-! ## Names -/

/-- Packages in small letters, at least two, and a class whose name begins with a capital; what
stands behind the capital is any text without dots. -/
def IsConventionalName (name : String) : Prop :=
  ∃ packages simple, segments '.' name.toList = packages ++ [simple] ∧ 2 ≤ packages.length ∧
    (∀ p ∈ packages, p ≠ [] ∧ ∀ c ∈ p, c.isLower = true) ∧
    ∃ c cs, simple = c :: cs ∧ c.isUpper = true

/-- The packages with a dot behind each. -/
def packageText (packages : List (List Char)) : List Char := packages.flatMap (· ++ ['.'])

theorem joinSegments_packages (packages : List (List Char)) (simple : List Char) :
    joinSegments '.' (packages ++ [simple]) = packageText packages ++ simple := by
  induction packages with
  | nil => rfl
  | cons p packages ih =>
    obtain ⟨s, ss, hss⟩ : ∃ s ss, packages ++ [simple] = s :: ss :=
      List.exists_cons_of_ne_nil (by simp)
    rw [List.cons_append, hss, joinSegments, ← hss, ih, packageText, packageText, List.flatMap_cons,
      List.append_assoc, List.append_assoc, List.singleton_append]
    exact List.cons_ne_nil _ _

/-- What may stand in packages: a dot or a small letter. -/
def isPackageChar (c : Char) : Bool := c == '.' || c.isLower

theorem isPackageChar_of_mem {packages : List (List Char)}
    (h : ∀ p ∈ packages, p ≠ [] ∧ ∀ c ∈ p, c.isLower = true) :
    ∀ c ∈ packageText packages, isPackageChar c = true := by
  intro c hc
  obtain ⟨p, hp, hc⟩ := List.mem_flatMap.mp hc
  rw [isPackageChar, Bool.or_eq_true, beq_iff_eq]
  rcases List.mem_append.mp hc with hc | hc
  · exact .inr ((h p hp).2 c hc)
  · exact .inl (List.mem_singleton.mp hc)

theorem lowercase_of_isLower {c : Char} (h : c.isLower = true) :
    CharSet.lowercase.contains c = true := by
  obtain ⟨hlow, hhigh⟩ := Bool.and_eq_true_iff.mp h
  have hlow : 97 ≤ c.toNat := of_decide_eq_true hlow
  have hhigh : c.toNat ≤ 122 := of_decide_eq_true hhigh
  rw [CharSet.contains, CharSet.lowercase, CharSet.decideFrom, if_pos hlow, CharSet.decideFrom,
    if_neg (by omega)]
  rfl

theorem not_lowercase_of_isUpper {c : Char} (h : c.isUpper = true) :
    CharSet.lowercase.contains c = false := by
  have hhigh : c.toNat ≤ 90 := (of_decide_eq_true h).2
  rw [CharSet.contains, CharSet.lowercase, CharSet.decideFrom, if_neg (by omega)]

/-! ## What holds a conventional name back -/

/-- The names of platform packages that must not stand behind the front of a name. -/
def embeddedPackages : List String := ["$org$gradle", "$java$lang", "$groovy$lang"]

/-- What the names begin with that are looked at more closely. -/
def platformPrefixes : List String := ["java.", "groovy.", "org.gradle"]

/-- The search passes over small letters and dots, so what it meets behind packages is the
capital. -/
theorem dollarBehindPackage_eq_false {packages : List Char} {c : Char} {cs : List Char}
    (hlength : scanOffset ≤ packages.length) (hpackages : ∀ x ∈ packages, isPackageChar x = true)
    (hc : c.isUpper = true) : dollarBehindPackage (packages ++ c :: cs) = false := by
  have hpassed : ∀ x ∈ packages.drop scanOffset,
      ¬(!(x == '.' || CharSet.lowercase.contains x)) = true := by
    intro x hx
    have hx := hpackages x (List.mem_of_mem_drop hx)
    rw [isPackageChar, Bool.or_eq_true] at hx
    rw [Bool.not_eq_true, Bool.not_eq_false', Bool.or_eq_true]
    exact hx.imp_right lowercase_of_isLower
  have hdot : c ≠ '.' := by
    rintro rfl
    exact absurd hc (by decide)
  have hdollar : c ≠ '$' := by
    rintro rfl
    exact absurd hc (by decide)
  have hfound : (!(c == '.' || CharSet.lowercase.contains c)) = true := by
    rw [beq_false_of_ne hdot, not_lowercase_of_isUpper hc]
    rfl
  rw [dollarBehindPackage, List.drop_append_of_le_length hlength, List.find?_append,
    List.find?_eq_none.mpr hpassed, Option.none_or, List.find?_cons, hfound]
  exact beq_false_of_ne fun h ↦ hdollar (Option.some.inj h)

/-- In a name that begins with a platform package, the first package is that of the platform. -/
theorem head_eq_of_begins (front rest : List Char) {text p : List Char}
    {more : List (List Char)} (hfront : '.' ∉ front) (hbegins : front ++ '.' :: rest <+: text)
    (hsegments : segments '.' text = p :: more) : p = front := by
  obtain ⟨tail, rfl⟩ := hbegins
  rw [List.append_assoc, List.cons_append, segments_append, segments_of_notMem hfront] at hsegments
  exact (List.cons.inj hsegments).1.symm

/-- Packages have no dollar sign, so what has one does not stand inside them. -/
theorem not_prefix_of_dollar {packages rest part : List Char}
    (hpackages : ∀ x ∈ packages, isPackageChar x = true) (hlength : part.length ≤ packages.length)
    (hpart : '$' ∈ part) : ¬part <+: packages ++ rest := by
  intro hbegins
  have hinside := List.prefix_of_prefix_length_le hbegins (List.prefix_append packages rest) hlength
  exact absurd (hpackages '$' (hinside.subset hpart)) (by decide)

/-- A conventional name: what stands in front of the capital has no dollar sign, and the search for
one begins in it. -/
theorem IsConventionalName.exists_front {name : String} (h : IsConventionalName name) :
    ∃ front c cs, name.toList = front ++ c :: cs ∧ (∀ x ∈ front, isPackageChar x = true) ∧
      c.isUpper = true ∧ 4 ≤ front.length ∧
      ∀ s ∈ platformPrefixes, s.toList <+: name.toList → scanOffset ≤ front.length := by
  obtain ⟨packages, simple, hsegments, hlength, hsmall, c, cs, rfl, hc⟩ := h
  obtain ⟨p, q, more, rfl⟩ : ∃ p q more, packages = p :: q :: more := by
    match packages, hlength with
    | p :: q :: more, _ => exact ⟨p, q, more, rfl⟩
  have hp : 1 ≤ p.length := List.length_pos_iff.mpr (hsmall p (by simp)).1
  have hq : 1 ≤ q.length := List.length_pos_iff.mpr (hsmall q (by simp)).1
  have hlong : p.length + 3 ≤ (packageText (p :: q :: more)).length := by
    simp only [packageText, List.flatMap_cons, List.length_append, List.length_singleton]
    omega
  refine ⟨packageText (p :: q :: more), c, cs, ?_, isPackageChar_of_mem hsmall, hc, by omega,
    fun s hs hbegins ↦ ?_⟩
  · rw [← joinSegments_packages, ← hsegments, joinSegments_segments]
  · -- The first package is `java`, `groovy` or `org`, and the second is not empty.
    have hfirst : 3 ≤ p.length := by
      simp only [platformPrefixes, List.mem_cons, List.not_mem_nil, or_false] at hs
      rcases hs with rfl | rfl | rfl
      · rw [head_eq_of_begins "java".toList [] (by decide) hbegins hsegments]
        decide
      · rw [head_eq_of_begins "groovy".toList [] (by decide) hbegins hsegments]
        decide
      · rw [head_eq_of_begins "org".toList "gradle".toList (by decide) hbegins hsegments]
        decide
    rw [scanOffset]
    omega

theorem infix_drop_one_iff {part text : List Char} :
    part <:+: text.drop 1 ↔ ∃ i, i ≠ 0 ∧ part <+: text.drop i := by
  rw [infix_iff_exists_drop]
  constructor
  · rintro ⟨i, h⟩
    rw [List.drop_drop] at h
    exact ⟨1 + i, by omega, h⟩
  · rintro ⟨i, hi, h⟩
    refine ⟨i - 1, ?_⟩
    rwa [List.drop_drop, Nat.add_sub_cancel' (Nat.pos_of_ne_zero hi)]

/-- A conventional name is held back exactly for a platform package behind a dollar sign, or for
`org.gradle` behind the front of a name that begins with a platform package. -/
theorem canSkipLookup_iff_of_conventional {name : String} (h : IsConventionalName name) :
    canSkipLookup name = true ↔
      (∃ s ∈ embeddedPackages, s.toList <:+: name.toList) ∨
      (∃ s ∈ platformPrefixes, s.toList <+: name.toList) ∧
        ∃ i, i ≠ 0 ∧ "org.gradle".toList <+: name.toList.drop i := by
  obtain ⟨front, c, cs, htext, hchars, hc, hlength, hplatform⟩ := h.exists_front
  have hnoDollar {part : List Char} (hpart : '$' ∈ part) (hshort : part.length ≤ 4) :
      ¬part <+: name.toList := by
    rw [htext]
    exact not_prefix_of_dollar hchars (by omega) hpart
  have hpseudo : ¬"org$gradle$".toList.isPrefixOf name.toList = true := by
    rw [List.isPrefixOf_iff_prefix]
    intro hbegins
    have hstart : "org$".toList <+: "org$gradle$".toList := by decide
    exact hnoDollar (by decide) (by decide) (hstart.trans hbegins)
  have hembedded : (embeddedPackages.any fun s ↦ occursBehindFront s.toList name.toList) = true ↔
      ∃ s ∈ embeddedPackages, s.toList <:+: name.toList := by
    rw [List.any_eq_true]
    refine exists_congr fun s ↦ and_congr_right fun hs ↦ ?_
    have hstart : ∀ s ∈ embeddedPackages, "$".toList <+: s.toList := by decide
    rw [occursBehindFront_iff, and_iff_left]
    exact fun hbegins ↦ hnoDollar (by decide) (by decide) ((hstart s hs).trans hbegins)
  have hlook : (platformPrefixes.any fun s ↦ s.toList.isPrefixOf name.toList) = true ↔
      ∃ s ∈ platformPrefixes, s.toList <+: name.toList := by
    simp only [List.any_eq_true, List.isPrefixOf_iff_prefix]
  rw [← hembedded, ← hlook, ← infix_drop_one_iff, ← isInfix_iff, canSkipLookup, if_neg hpseudo]
  change (if (embeddedPackages.any fun s ↦ occursBehindFront s.toList name.toList) = true then true
    else if (platformPrefixes.any fun s ↦ s.toList.isPrefixOf name.toList) = true then
      dollarBehindPackage name.toList || isInfix "org.gradle".toList (name.toList.drop 1)
    else false) = true ↔ _
  split
  next hyes => exact iff_of_true rfl (.inl hyes)
  next hno =>
    split
    next hbegins =>
      obtain ⟨s, hs, hbegins'⟩ := hlook.mp hbegins
      rw [htext, dollarBehindPackage_eq_false (hplatform s hs hbegins') hchars hc, ← htext,
        Bool.false_or]
      exact ⟨fun hrepeat ↦ .inr ⟨hbegins, hrepeat⟩, fun h ↦ (h.resolve_left hno).2⟩
    next hbegins =>
      exact iff_of_false Bool.false_ne_true (not_or.mpr ⟨hno, fun h ↦ hbegins h.1⟩)

/-- No conventional name is held back that has no platform package behind a dollar sign and
`org.gradle` nowhere but at its front. -/
theorem not_skipped_of_conventional {name : String} (h : IsConventionalName name)
    (hembedded : ∀ s ∈ embeddedPackages, ¬s.toList <:+: name.toList)
    (hrepeat : ∀ i, "org.gradle".toList <+: name.toList.drop i → i = 0) :
    canSkipLookup name = false := by
  rw [Bool.eq_false_iff, Ne, canSkipLookup_iff_of_conventional h]
  rintro (⟨s, hs, hoccurs⟩ | ⟨-, i, hi, hbegins⟩)
  · exact hembedded s hs hoccurs
  · exact hi (hrepeat i hbegins)

/-- A nested class below a package that begins with the platform's. -/
theorem nested_class_not_skipped : IsConventionalName "org.gradle.u.Task$org$java" ∧
    canSkipLookup "org.gradle.u.Task$org$java" = false := by
  have hname : IsConventionalName "org.gradle.u.Task$org$java" := by
    refine ⟨["org".toList, "gradle".toList, "u".toList], "Task$org$java".toList, by decide,
      by decide, ?_, 'T', "ask$org$java".toList, by decide, by decide⟩
    have hsmall {p : List Char} (hne : p ≠ []) (hlower : p.all Char.isLower = true) :
        p ≠ [] ∧ ∀ c ∈ p, c.isLower = true := ⟨hne, List.all_eq_true.mp hlower⟩
    simp only [List.forall_mem_cons]
    exact ⟨hsmall (by decide) (by decide), hsmall (by decide) (by decide),
      hsmall (by decide) (by decide), fun _ h ↦ absurd h List.not_mem_nil⟩
  refine ⟨hname, not_skipped_of_conventional hname ?_ fun i hi ↦ ?_⟩
  · simp only [← isInfix_iff]
    decide
  · refine Decidable.byContradiction fun hne ↦ ?_
    have hoccurs := infix_drop_one_iff.mpr ⟨i, hne, hi⟩
    rw [← isInfix_iff] at hoccurs
    exact absurd hoccurs (by decide)

/-! With one package only the search begins behind the capital. -/

example : canSkipLookup "java.U$x" = true := by decide +kernel

end BuildScript
