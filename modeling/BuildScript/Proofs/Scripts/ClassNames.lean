import BuildScript.Proofs.Bytecode.Bursts
import BuildScript.Proofs.Files.Components
import BuildScript.Scripts.Source

/-!
# Class names of script files

The class name of a script file is the stem of the file as an identifier, and the checksum of the
path in eight digits. Both can be read off the name, so two files share a class name exactly if they
share both parts. Paths that differ only within four bytes have different checksums; yet two scripts
`build.grv` may share a class name, and there are two such scripts below every directory.
-/

namespace BuildScript

/-! ## Digits of a fixed number -/

namespace Digits

theorem length_hexDigits (k n : Nat) (done : List Char) :
    (hexDigits k n done).length = k + done.length := by
  induction k generalizing n done with
  | zero => exact (Nat.zero_add _).symm
  | succ k ih => rw [hexDigits, ih, List.length_cons, Nat.succ_add_eq_add_succ]

theorem digitChar_inj_of_lt : ∀ m < 16, ∀ n < 16, Nat.digitChar m = Nat.digitChar n → m = n := by
  decide

theorem eq_of_hexDigits_eq {k m n : Nat} {done done' : List Char}
    (h : hexDigits k m done = hexDigits k n done') (hlength : done.length = done'.length) :
    m % 16 ^ k = n % 16 ^ k ∧ done = done' := by
  induction k generalizing m n done done' with
  | zero => exact ⟨by rw [Nat.pow_zero, Nat.mod_one, Nat.mod_one], h⟩
  | succ k ih =>
    obtain ⟨hhigh, hdone⟩ := ih h (congrArg (· + 1) hlength)
    obtain ⟨hdigit, hdone⟩ := List.cons.inj hdone
    have hlow : m % 16 = n % 16 :=
      digitChar_inj_of_lt _ (Nat.mod_lt _ (by decide)) _ (Nat.mod_lt _ (by decide)) hdigit
    refine ⟨?_, hdone⟩
    rw [Nat.pow_succ', Nat.mod_mul, Nat.mod_mul, hlow, hhigh]

theorem length_toList_fixedHex (k n : Nat) : (fixedHex k n).toList.length = k := by
  rw [fixedHex, String.toList_ofList, length_hexDigits, List.length_nil, Nat.add_zero]

/-- A word can be read off its eight digits. -/
theorem eq_of_fixedHex_eq {x y : UInt32} (h : fixedHex 8 x.toNat = fixedHex 8 y.toNat) :
    x = y := by
  have hlist := congrArg String.toList h
  rw [fixedHex, fixedHex, String.toList_ofList, String.toList_ofList] at hlist
  obtain ⟨hmod, -⟩ := eq_of_hexDigits_eq hlist rfl
  have hlt (z : UInt32) : z.toNat < 16 ^ 8 := z.toNat_lt
  rw [Nat.mod_eq_of_lt (hlt x), Nat.mod_eq_of_lt (hlt y)] at hmod
  exact UInt32.toNat_inj.mp hmod

end Digits

/-! ## The last component -/

namespace Path

theorem join_of_isAbsolute (directory : Path) {p : Path} (h : p.isAbsolute = true) :
    directory.join p.text = p :=
  if_pos h

theorem isAbsolute_append {p : Path} (h : p.isAbsolute = true) (s : String) :
    isAbsolute ⟨p.text ++ s⟩ = true := by
  obtain ⟨rest, hrest⟩ := text_eq_of_isAbsolute h
  rw [isAbsolute, hrest, String.toList_append, String.toList_append]
  rfl

/-- The text of a path below a directory, in which a slash at the end of the directory is not
doubled. -/
theorem exists_join_eq {directory : Path} (h : directory.isAbsolute = true) :
    ∃ front, ∀ below : String, below.toList.head? ≠ some '/' →
      directory.join below = ⟨front ++ "/" ++ below⟩ ∧
        (directory.join below).isAbsolute = true := by
  by_cases hslash : directory.text.toList.getLast? = some '/'
  case pos =>
    obtain ⟨front, hfront⟩ := List.getLast?_eq_some_iff.mp hslash
    have hdirectory : directory.text = String.ofList front ++ "/" := by
      rw [← String.toList_inj, hfront, String.toList_append, String.toList_ofList]
      rfl
    refine ⟨String.ofList front, fun below hbelow ↦ ?_⟩
    have hjoin : directory.join below = ⟨directory.text ++ below⟩ := by
      rw [join, if_neg (mt beq_iff_eq.mp hbelow), hslash]
      rfl
    exact ⟨hjoin.trans (by rw [hdirectory]), hjoin ▸ isAbsolute_append h below⟩
  case neg =>
    refine ⟨directory.text, fun below hbelow ↦ ?_⟩
    have hjoin : directory.join below = ⟨directory.text ++ "/" ++ below⟩ := by
      rw [join, if_neg (mt beq_iff_eq.mp hbelow)]
      split
      next hnil =>
        obtain ⟨rest, hrest⟩ := text_eq_of_isAbsolute h
        rw [hrest, String.toList_append, List.getLast?_eq_none_iff] at hnil
        cases hnil
      next hlast => exact absurd hlast hslash
      next => rfl
    refine ⟨hjoin, ?_⟩
    rw [hjoin, String.append_assoc]
    exact isAbsolute_append h _

/-- What stands behind the last slash is the name. -/
theorem fileName?_append {name : String} (hname : IsName name) (hdot : name ≠ ".")
    (hdots : name ≠ "..") (front : String) : fileName? ⟨front ++ "/" ++ name⟩ = some name := by
  have hparts : parts ⟨front ++ "/" ++ name⟩ = splitText '/' front ++ [name] := by
    have hlast : segments '/' name.toList = [name.toList] := segments_of_notMem hname.noSlash
    have htext : (front ++ "/" ++ name).toList = front.toList ++ '/' :: name.toList := by
      simp [String.toList_append]
    rw [parts, splitText, htext, segments_append, hlast, List.map_append, List.map_singleton,
      String.ofList_toList]
    rfl
  have hcounts : Location.counts name = true := by
    rw [Location.counts, Bool.and_eq_true, bne_iff_ne, bne_iff_ne]
    exact ⟨hname.nonempty, hdot⟩
  rw [fileName?, components_eq, hparts, List.filter_append, List.filter_cons_of_pos hcounts,
    List.filter_nil, ← List.append_assoc, List.getLast?_concat]
  split
  next h => exact absurd (Option.some.inj h) hdot
  next h => exact absurd (Option.some.inj h) hdots
  next h => cases h
  next h => rw [Option.some.inj h]

end Path

/-! ## Class names -/

namespace Wire

theorem ofText_append (s t : String) : ofText (s ++ t) = ofText s ++ ofText t := by
  rw [ofText, ofText, ofText, String.toUTF8, String.toUTF8, String.toUTF8,
    String.toByteArray_append, ByteArray.data_append, Array.toList_append]

theorem ofText_inj {s t : String} (h : ofText s = ofText t) : s = t := by
  rw [← Option.some.injEq, ← toText?_ofText, h, toText?_ofText]

end Wire

namespace ScriptSource

open Checksum

/-- The part of the class name that the stem gives. -/
def stemIdentifier (p : Path) : String := identifierOf (p.fileStem?.getD "")

/-- The part of the class name that the whole path gives. -/
def pathChecksum (p : Path) : UInt32 := crc32 (Wire.ofText p.text)

variable {p q : Path}

theorem className_ofFile (hp : p.isAbsolute = true) (description : String)
    (workingDirectory : Path) : (ofFile description workingDirectory p).className =
      stemIdentifier p ++ "_" ++ Digits.fixedHex 8 (pathChecksum p).toNat := by
  rw [ofFile, Path.join_of_isAbsolute _ hp]
  rfl

/-- Both parts can be read off a class name. -/
theorem className_ofFile_eq_iff (hp : p.isAbsolute = true) (hq : q.isAbsolute = true)
    (description description' : String) (workingDirectory workingDirectory' : Path) :
    (ofFile description workingDirectory p).className =
        (ofFile description' workingDirectory' q).className ↔
      stemIdentifier p = stemIdentifier q ∧ pathChecksum p = pathChecksum q := by
  rw [className_ofFile hp, className_ofFile hq]
  refine ⟨fun h ↦ ?_, fun ⟨hstem, hchecksum⟩ ↦ by rw [hstem, hchecksum]⟩
  rw [← String.toList_inj] at h
  simp only [String.toList_append] at h
  obtain ⟨hfront, hdigits⟩ := List.append_inj' h (by
    rw [Digits.length_toList_fixedHex, Digits.length_toList_fixedHex])
  exact ⟨String.toList_inj.mp (List.append_inj' hfront rfl).1,
    Digits.eq_of_fixedHex_eq (String.toList_inj.mp hdigits)⟩

/-- The texts of two paths differ only within four bytes. -/
def DifferWithinWord (p q : Path) : Prop :=
  ∃ front x y back, Wire.ofText p.text = front ++ x ++ back ∧
    Wire.ofText q.text = front ++ y ++ back ∧ x.length = y.length ∧ x.length ≤ 4

/-- The checksum tells such paths apart. -/
theorem DifferWithinWord.eq_of_pathChecksum_eq (hdiffer : DifferWithinWord p q)
    (h : pathChecksum p = pathChecksum q) : p = q := by
  obtain ⟨front, x, y, back, hp, hq, hlength, hshort⟩ := hdiffer
  rw [pathChecksum, pathChecksum, hp, hq] at h
  obtain rfl := eq_of_crc32_around_eq hlength hshort h
  exact congrArg Path.mk (Wire.ofText_inj (hp.trans hq.symm))

/-- The class names of two files differ exactly if the identifiers of their stems or the checksums
of their paths do, and they do if the paths differ within four bytes, whatever the stems are. -/
theorem className_ofFile_ne (hp : p.isAbsolute = true) (hq : q.isAbsolute = true)
    (description description' : String) (workingDirectory workingDirectory' : Path) :
    ((ofFile description workingDirectory p).className ≠
        (ofFile description' workingDirectory' q).className ↔
      stemIdentifier p ≠ stemIdentifier q ∨ pathChecksum p ≠ pathChecksum q) ∧
    (p ≠ q → DifferWithinWord p q → (ofFile description workingDirectory p).className ≠
      (ofFile description' workingDirectory' q).className) := by
  refine ⟨?_, fun hne hdiffer h ↦ ?_⟩
  · rw [ne_eq, className_ofFile_eq_iff hp hq, Classical.not_and_iff_not_or_not]
  · obtain ⟨-, hchecksum⟩ := (className_ofFile_eq_iff hp hq ..).mp h
    exact hne (hdiffer.eq_of_pathChecksum_eq hchecksum)

/-- Scripts of one stem in neighbouring directories. -/
theorem neighbours_className_ne :
    let p : Path := ⟨"/a/build.grv"⟩
    let q : Path := ⟨"/b/build.grv"⟩
    (p.isAbsolute = true ∧ q.isAbsolute = true ∧ p ≠ q ∧ DifferWithinWord p q) ∧
    (ofFile "script" ⟨"/"⟩ p).className ≠ (ofFile "script" ⟨"/"⟩ q).className := by
  have hne : (⟨"/a/build.grv"⟩ : Path) ≠ ⟨"/b/build.grv"⟩ := by decide
  have hdiffer : DifferWithinWord ⟨"/a/build.grv"⟩ ⟨"/b/build.grv"⟩ :=
    ⟨Wire.ofText "/", Wire.ofText "a", Wire.ofText "b", Wire.ofText "/build.grv",
      by decide +kernel, by decide +kernel, rfl, by decide +kernel⟩
  exact ⟨⟨rfl, rfl, hne, hdiffer⟩, (className_ofFile_ne rfl rfl ..).2 hne hdiffer⟩

/-! ### Two scripts below every directory -/

/-- Two directories of names that are equally long and have the same checksum are not told apart:
files of one name in them share a class name, wherever the directories are. -/
theorem className_join_eq {directory : Path} (hdirectory : directory.isAbsolute = true)
    {x y name : String} (hx : (x ++ "/" ++ name).toList.head? ≠ some '/')
    (hy : (y ++ "/" ++ name).toList.head? ≠ some '/') (hname : Path.IsName name)
    (hdot : name ≠ ".") (hdots : name ≠ "..")
    (hlength : (Wire.ofText x).length = (Wire.ofText y).length)
    (hcrc : crc32 (Wire.ofText x) = crc32 (Wire.ofText y))
    (description description' : String) (workingDirectory workingDirectory' : Path) :
    (ofFile description workingDirectory (directory.join (x ++ "/" ++ name))).className =
      (ofFile description' workingDirectory' (directory.join (y ++ "/" ++ name))).className := by
  obtain ⟨front, hfront⟩ := Path.exists_join_eq hdirectory
  obtain ⟨hxJoin, hxAbsolute⟩ := hfront (x ++ "/" ++ name) hx
  obtain ⟨hyJoin, hyAbsolute⟩ := hfront (y ++ "/" ++ name) hy
  have hfile (z : String) :
      Path.fileName? ⟨front ++ "/" ++ (z ++ "/" ++ name)⟩ = some name := by
    have htext : front ++ "/" ++ (z ++ "/" ++ name) = front ++ "/" ++ z ++ "/" ++ name := by
      simp only [String.append_assoc]
    rw [htext]
    exact Path.fileName?_append hname hdot hdots _
  refine (className_ofFile_eq_iff hxAbsolute hyAbsolute ..).mpr ⟨?_, ?_⟩
  · rw [hxJoin, hyJoin, stemIdentifier, stemIdentifier, Path.fileStem?, Path.fileStem?, hfile,
      hfile]
  · rw [hxJoin, hyJoin, pathChecksum, pathChecksum]
    have hbytes (z : String) : Wire.ofText (front ++ "/" ++ (z ++ "/" ++ name)) =
        Wire.ofText (front ++ "/") ++ Wire.ofText z ++ Wire.ofText ("/" ++ name) := by
      simp only [Wire.ofText_append, List.append_assoc]
    rw [hbytes, hbytes]
    exact (crc32_around_eq_iff hlength _ _).mpr hcrc

theorem crc32_plumless : crc32 (Wire.ofText "plumless") = crc32 (Wire.ofText "buckeroo") := by
  decide +kernel

/-- Below every directory there are two scripts `build.grv` of one class name. -/
theorem className_plumless_eq {directory : Path} (h : directory.isAbsolute = true)
    (description description' : String) (workingDirectory workingDirectory' : Path) :
    (ofFile description workingDirectory (directory.join "plumless/build.grv")).className =
      (ofFile description' workingDirectory' (directory.join "buckeroo/build.grv")).className := by
  have hplumless : "plumless/build.grv" = "plumless" ++ "/" ++ "build.grv" := by decide
  have hbuckeroo : "buckeroo/build.grv" = "buckeroo" ++ "/" ++ "build.grv" := by decide
  have hlength : (Wire.ofText "plumless").length = (Wire.ofText "buckeroo").length := rfl
  have hname : Path.IsName "build.grv" := ⟨by decide, by decide⟩
  rw [hplumless, hbuckeroo]
  exact className_join_eq h (by decide) (by decide) hname (by decide) (by decide) hlength
    crc32_plumless description description' workingDirectory workingDirectory'

/-- Two scripts `build.grv` in two directories that share a class name. -/
theorem plumless_shares_className :
    let p : Path := ⟨"/plumless/build.grv"⟩
    let q : Path := ⟨"/buckeroo/build.grv"⟩
    p.isAbsolute = true ∧ q.isAbsolute = true ∧ p.same q = false ∧
    (ofFile "script" ⟨"/"⟩ p).className = "build_86aa7839" ∧
    (ofFile "script" ⟨"/"⟩ q).className = "build_86aa7839" := by
  decide +kernel

end ScriptSource

end BuildScript
