import BuildScript.Compile.Resolution
import BuildScript.Machine.Member
import BuildScript.Text.Letters

/-!
# The prefilter

Resolving one identifier tries many names, most of which cannot be those of a class: package names
of the platform where nested classes would have to be, or twice in one name. The prefilter tells
them by their letters, so that no loader has to be asked.
-/

namespace BuildScript

/-- Whether `part` stands in `text` and its first occurrence is not at the front. -/
def occursBehindFront (part text : List Char) : Bool :=
  isInfix part text && !part.isPrefixOf text

/-- How many characters of a platform name are passed over before the search for a dollar sign. -/
def scanOffset : Nat := 6

/-- Whether a run of lower case letters and dots ends in a dollar sign, as in `java.lang$Foo`. -/
def dollarBehindPackage (name : List Char) : Bool :=
  ((name.drop scanOffset).find? fun c ↦ !(c == '.' || CharSet.lowercase.contains c)) == some '$'

/-- Whether no class can have the binary name. -/
def canSkipLookup (name : String) : Bool :=
  let cs := name.toList
  if "org$gradle$".toList.isPrefixOf cs then true
  else if ["$org$gradle", "$java$lang", "$groovy$lang"].any fun s ↦ occursBehindFront s.toList cs then
    true
  else if ["java.", "groovy.", "org.gradle"].any fun s ↦ s.toList.isPrefixOf cs then
    dollarBehindPackage cs || isInfix "org.gradle".toList (cs.drop 1)
  else false

/-- Asks a resolver only for names that may be those of classes. -/
def Resolver.prefiltered {σ : Type} (r : Resolver σ) : Resolver σ where
  find name s := if canSkipLookup name then (false, s) else r.find name s

end BuildScript
