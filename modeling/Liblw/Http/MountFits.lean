import Liblw.Http.MountMatch
import Liblw.Http.Segments

/-!
# What a mount path is for

A path fits the matchers if its non-empty segments are as many as they are and each fits its own
one; the parameters are then the texts that remain of the segments without the extensions. When the
loop of `MountPath::match` keeps to this is told by the parts of the path, the empty ones included.
-/

namespace Liblw.Http

/-- The text is what remains of the segment before the extension. -/
def Remains (extension segment remainder : Text) : Prop :=
  remainder ≠ [] ∧ ∃ ending, segment = remainder ++ ending ∧ sameName extension ending = true

def Validator.Admits : Validator → Text → Prop
  | .int, text => IsNumeral text
  | .uint, text => IsDigits text

/-- The matcher captures the text from the segment. -/
def Captures : PathMatcher → Text → Text → Prop
  | .literal chunk, segment, captured => sameName chunk segment = true ∧ captured = segment
  | .parameter _ _ extension, segment, captured => Remains extension segment captured
  | .validated _ _ extension validator, segment, captured =>
      Remains extension segment captured ∧ validator.Admits captured
  | .regex _ _, _, _ => False

def Fits (matcher : PathMatcher) (segment : Text) : Prop :=
  ∃ captured, Captures matcher segment captured

namespace MountPath

variable (engine : RegexEngine) (matchers : List PathMatcher) (urlPath : Text)

/-- `match` has a value exactly if the segments fit, it then holds what the parameters capture and
nothing else, and no view is made of a null pointer. -/
def MatchesSegments : Prop :=
  ∃ found, MountPath.match engine urlPath matchers = .ok found ∧
    (found.isSome ↔ List.Forall₂ Fits matchers (segmentsOf urlPath)) ∧
    ∀ parameters, found = some parameters → ∀ name value,
      parameters.find name = some value ↔ ∃ pair ∈ matchers.zip (segmentsOf urlPath),
        pair.1.isLiteral = false ∧ sameName pair.1.name name = true ∧ Captures pair.1 pair.2 value

/-! ### The parts of a path -/

/-- The parts between the separators, without the empty one before a leading separator. -/
def partsOf (text : Text) : List Text :=
  match text.splitOn '/' with
  | [] :: parts => parts
  | parts => parts

/-- The parts are the segments, up to an empty one behind the last segment. -/
def Tight : Prop :=
  partsOf urlPath = segmentsOf urlPath ∨
    (partsOf urlPath = segmentsOf urlPath ++ [[]] ∧ matchers ≠ [])

/-- What keeps the loop to its purpose: no empty part comes while matchers are left, there is no
second separator behind segments that fit, no sign stands alone for an integer, and parameters of
one name capture the same. -/
structure Plain : Prop where
  begun : ∀ before after, partsOf urlPath = before ++ [] :: after →
    before.length < matchers.length → ¬ Accepts engine (matchers.take before.length) before
  ended : List.Forall₂ Fits matchers (segmentsOf urlPath) → Tight matchers urlPath
  signed : Tight matchers urlPath → Accepts engine matchers (segmentsOf urlPath) →
    ∀ chunk name extension segment,
      (.validated chunk name extension .int, segment) ∈ matchers.zip (segmentsOf urlPath) →
        ¬ Remains extension segment ['-']
  distinct : Tight matchers urlPath → Accepts engine matchers (segmentsOf urlPath) →
    ∀ first ∈ matchers.zip (segmentsOf urlPath), ∀ second ∈ matchers.zip (segmentsOf urlPath),
      first.1.isLiteral = false → second.1.isLiteral = false →
        sameName first.1.name second.1.name = true → ∀ captured captured',
          Captures first.1 first.2 captured → Captures second.1 second.2 captured' →
            captured = captured'

end MountPath

end Liblw.Http
