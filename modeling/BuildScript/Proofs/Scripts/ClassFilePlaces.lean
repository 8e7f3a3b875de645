import BuildScript.Proofs.Files.ClassPaths
import BuildScript.Proofs.Scripts.ClassNames

/-!
# Where class files of scripts are

The class name of a script file is an identifier without dots, whatever the file is called: its stem
with everything replaced that an identifier must not have, an underscore and eight digits. So its
class file stands directly in the directory of the classes.
-/

namespace BuildScript

/-! ## Names of script classes -/

namespace Digits

def hexadecimal : List Char := "0123456789abcdef".toList

theorem digitChar_mem_hexadecimal : ∀ n < 16, Nat.digitChar n ∈ hexadecimal := by
  decide

theorem mem_hexadecimal_of_mem_hexDigits {k n : Nat} {done : List Char} {c : Char}
    (h : c ∈ hexDigits k n done) : c ∈ done ∨ c ∈ hexadecimal := by
  induction k generalizing n done with
  | zero => exact .inl h
  | succ k ih =>
    rcases ih h with h | h
    · rcases List.mem_cons.mp h with rfl | h
      · exact .inr (digitChar_mem_hexadecimal _ (Nat.mod_lt n (by decide)))
      · exact .inl h
    · exact .inr h

theorem mem_hexadecimal_of_mem_fixedHex {k n : Nat} {c : Char} (h : c ∈ (fixedHex k n).toList) :
    c ∈ hexadecimal := by
  rw [fixedHex, String.toList_ofList] at h
  exact (mem_hexadecimal_of_mem_hexDigits h).resolve_left List.not_mem_nil

end Digits

namespace ScriptSource

/-- A letter or an underscore, and then letters, digits and underscores, all of them ASCII. -/
def IsAsciiIdentifier (name : String) : Prop :=
  ∃ c cs, name.toList = c :: cs ∧ (c.isAlpha = true ∨ c = '_') ∧
    ∀ d ∈ cs, d.isAlphanum = true ∨ d = '_'

theorem isAsciiNamePart_iff {c : Char} :
    isAsciiNamePart c = true ↔ c.isAlphanum = true ∨ c = '_' := by
  rw [isAsciiNamePart, Bool.or_eq_true, beq_iff_eq]

theorem IsAsciiIdentifier.append {name behind : String} (h : IsAsciiIdentifier name)
    (hbehind : ∀ c ∈ behind.toList, isAsciiNamePart c = true) :
    IsAsciiIdentifier (name ++ behind) := by
  obtain ⟨c, cs, htext, hstart, hparts⟩ := h
  refine ⟨c, cs ++ behind.toList, ?_, hstart, ?_⟩
  · rw [String.toList_append, htext, List.cons_append]
  · intro d hd
    rcases List.mem_append.mp hd with hd | hd
    · exact hparts d hd
    · exact isAsciiNamePart_iff.mp (hbehind d hd)

/-- Every text is made an identifier, also an empty one and one that begins with a digit. -/
theorem isAsciiIdentifier_identifierOf (text : String) : IsAsciiIdentifier (identifierOf text) := by
  have hparts : ∀ c ∈ text.toList.map (fun c ↦ if isAsciiNamePart c then c else '_'),
      c.isAlphanum = true ∨ c = '_' := by
    intro c hc
    obtain ⟨d, -, rfl⟩ := List.mem_map.mp hc
    by_cases hd : isAsciiNamePart d = true
    · rw [if_pos hd]
      exact isAsciiNamePart_iff.mp hd
    · rw [if_neg hd]
      exact .inr rfl
  rw [identifierOf]
  split
  next c cs hname =>
    rw [hname] at hparts ⊢
    obtain ⟨hc, hcs⟩ := List.forall_mem_cons.mp hparts
    by_cases hdigit : c.isDigit = true
    · rw [if_pos hdigit]
      exact ⟨'_', c :: cs, String.toList_ofList, .inr rfl, hparts⟩
    · rw [if_neg hdigit]
      refine ⟨c, cs, String.toList_ofList, hc.imp_left fun halpha ↦ ?_, hcs⟩
      rw [Char.isAlphanum, Bool.or_eq_true] at halpha
      exact halpha.resolve_right hdigit
  next => exact ⟨'_', [], rfl, .inr rfl, fun d hd ↦ absurd hd List.not_mem_nil⟩

theorem isAsciiIdentifier_className (description : String) (workingDirectory p : Path) :
    IsAsciiIdentifier (ofFile description workingDirectory p).className := by
  have hdash : "_".toList.all isAsciiNamePart = true := by decide
  have hdigits : Digits.hexadecimal.all isAsciiNamePart = true := by decide
  refine ((isAsciiIdentifier_identifierOf _).append (List.all_eq_true.mp hdash)).append ?_
  intro c hc
  exact List.all_eq_true.mp hdigits c (Digits.mem_hexadecimal_of_mem_fixedHex hc)

/-- An identifier has neither dots nor slashes. -/
theorem IsAsciiIdentifier.isBinaryName {name : String} (h : IsAsciiIdentifier name) :
    splitText '.' name = [name] ∧ IsBinaryName name := by
  obtain ⟨c, cs, htext, hstart, hparts⟩ := h
  have hchars : ∀ d ∈ name.toList, d.isAlphanum = true ∨ d = '_' := by
    rw [htext]
    refine List.forall_mem_cons.mpr ⟨hstart.imp_left fun halpha ↦ ?_, hparts⟩
    rw [Char.isAlphanum, halpha, Bool.true_or]
  have hnone {d : Char} (hd : ¬(d.isAlphanum = true ∨ d = '_')) : d ∉ name.toList :=
    fun hmem ↦ hd (hchars d hmem)
  have hsplit : splitText '.' name = [name] := splitText_of_notMem (hnone (by decide))
  refine ⟨hsplit, fun s hs ↦ ?_⟩
  rw [hsplit, List.mem_singleton] at hs
  subst hs
  refine ⟨?_, hnone (by decide)⟩
  rintro rfl
  cases htext

end ScriptSource

open ScriptSource in
/-- The class file of a name stands strictly below the root, at the segments of the name, and
different names have different class files there. The class name of a script file is an identifier,
made of the stem, an underscore and eight digits, and its class file stands directly below the root. -/
theorem classFile_below_and_distinct (root : Path) :
    (∀ className, IsBinaryName className →
      root.Below (Path.withLast ".class" (splitText '.' className)) (root.classFile className)) ∧
    (∀ className className', IsBinaryName className → IsBinaryName className' →
      (root.classFile className).same (root.classFile className') = true →
        className = className') ∧
    ∀ description workingDirectory p,
      let name := (ofFile description workingDirectory p).className
      (∃ digits, name = identifierOf ((workingDirectory.join p.text).fileStem?.getD "") ++ "_" ++
        digits ∧ digits.toList.length = 8 ∧ ∀ c ∈ digits.toList, c ∈ Digits.hexadecimal) ∧
      IsAsciiIdentifier name ∧ root.classFile name = root.join (name ++ ".class") ∧
      root.Below [name ++ ".class"] (root.classFile name) := by
  refine ⟨?_, ?_, ?_⟩
  · intro className h
    exact Path.below_classFile root h
  · intro className className' h h' hsame
    exact Path.eq_of_same_classFile h h' hsame
  · intro description workingDirectory p name
    have hname : IsAsciiIdentifier name := isAsciiIdentifier_className _ _ _
    obtain ⟨hsplit, hbinary⟩ := hname.isBinaryName
    refine ⟨⟨_, rfl, ?_, ?_⟩, hname, ?_, ?_⟩
    · exact Digits.length_toList_fixedHex 8 _
    · intro c hc
      exact Digits.mem_hexadecimal_of_mem_fixedHex hc
    · rw [Path.classFile, hsplit]
      rfl
    · have hbelow := Path.below_classFile root hbinary
      rwa [hsplit] at hbelow

open ScriptSource in
/-- A class and one of a package that is called like it. -/
theorem helper_classFiles_distinct :
    let root : Path := ⟨"/classes"⟩
    (IsBinaryName "org.acme.Helper" ∧ IsBinaryName "org.acme.Helper.class") ∧
    root.Below ["org", "acme", "Helper.class"] (root.classFile "org.acme.Helper") ∧
    (root.classFile "org.acme.Helper").same (root.classFile "org.acme.Helper.class") = false ∧
    IsAsciiIdentifier (ofFile "script" ⟨"/"⟩ ⟨"/1st-Straße.grv"⟩).className := by
  have hhelper : IsBinaryName "org.acme.Helper" := by decide
  have hclass : IsBinaryName "org.acme.Helper.class" := by decide
  obtain ⟨hbelow, hdistinct, hscript⟩ := classFile_below_and_distinct ⟨"/classes"⟩
  refine ⟨⟨hhelper, hclass⟩, hbelow _ hhelper, ?_, (hscript _ _ _).2.1⟩
  rw [Bool.eq_false_iff]
  intro hsame
  exact absurd (hdistinct _ _ hhelper hclass hsame) (by decide)

end BuildScript
