import DrawFormula.Element.Basic
import DrawFormula.ResultType

/-! # The vocabulary of candidates

Candidates are sums of elements.  For each result type some groups of elements are recommended and
some short sums serve as templates.
-/
namespace DrawFormula.Search

/-- The names of all elements that candidates are made of. -/
def elementNames : List Text := Element.all.map Element.name

/-- One attribute of the six ping numbers and of the special number. -/
def attributeGroup (a : Attribute) : List Element :=
  (List.finRange 6).map (fun place => .ping place a) ++ [.special a]

/-- All readings of the period. -/
def periodGroup : List Element := Reading.all.map .period

/-- All readings of the total. -/
def totalGroup : List Element := Reading.all.map .total

/-- The digit sums of the numbers, of the period and of the total. -/
def digitSumGroup : List Element :=
  attributeGroup .digitSum ++ [.period .digitSum, .total .digitSum]

/-- The groups recommended for a result type. -/
def recommendedGroups : ResultType → List (List Element)
  | .tail => [attributeGroup .tail, periodGroup, digitSumGroup]
  | .head => [attributeGroup .head]
  | .digitSum => [digitSumGroup, periodGroup, totalGroup]
  | .wave => [attributeGroup .wave]
  | .fivePhase => [attributeGroup .phase]
  | .zodiac => [attributeGroup .zodiac]
  | .single => [attributeGroup .number, periodGroup]
  | .sizeParity => [attributeGroup .tail, digitSumGroup, attributeGroup .segment]

/-- The elements recommended for a result type, each once. -/
def recommendedElements (t : ResultType) : List Element :=
  (recommendedGroups t).flatten.foldl (fun found e => if e ∈ found then found else found ++ [e]) []

/-- The names of the elements recommended for a result type. -/
def recommended (t : ResultType) : List Text := (recommendedElements t).map Element.name

/-- The ping number at a place counted from 1. -/
def pingNumber (place : Fin 6) (a : Attribute) : Element := .ping place a

/-- Short sums for a result type. -/
def templateElements : ResultType → List (List Element)
  | .tail => [[.special .tail, .ping 0 .tail], [.special .tail, .period .tail],
      [.ping 0 .tail, .ping 1 .tail, .ping 2 .tail], [.period .digitSumTail, .special .tail]]
  | .head => [[.special .head, .ping 0 .head], [.ping 0 .head, .ping 1 .head]]
  | .digitSum => [[.special .digitSum, .period .digitSum], [.special .digitSum, .ping 0 .digitSum],
      [.period .digitSum, .total .digitSum],
      [.ping 0 .digitSum, .ping 1 .digitSum, .ping 2 .digitSum]]
  | .wave => [[.special .wave, .ping 0 .wave], [.ping 0 .wave, .ping 1 .wave]]
  | .fivePhase => [[.special .phase, .ping 0 .phase],
      [.ping 0 .phase, .ping 1 .phase, .ping 2 .phase]]
  | .zodiac => [[.special .zodiac, .ping 0 .zodiac], [.ping 0 .zodiac, .ping 1 .zodiac]]
  | .single => [[.special .number, .period .whole], [.ping 0 .number, .ping 1 .number]]
  | .sizeParity => [[.special .tail, .period .tail], [.special .digitSum, .ping 0 .digitSum],
      [.special .segment, .ping 0 .segment], [.ping 0 .segment, .ping 1 .segment]]

/-- The templates of a result type by names. -/
def templates (t : ResultType) : List (List Text) :=
  (templateElements t).map fun es => es.map Element.name

theorem elementNames_ne : elementNames ≠ [] := by
  simp [elementNames, Element.all, Reading.all]

theorem recommended_ne (t : ResultType) : recommended t ≠ [] := by
  cases t <;> decide

theorem templates_ne (t : ResultType) : templates t ≠ [] := by
  cases t <;> simp [templates, templateElements]

end DrawFormula.Search
