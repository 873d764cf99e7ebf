import DrawFormula.Draw

/-! # Elements

An element is a quantity read off one draw: the period, the total of the seven numbers, an
attribute of a ping number or of the special number, or the day of the draw.  Each has one
canonical name and a value for every draw.
-/
namespace DrawFormula

/-- What is read off a single number. -/
inductive Attribute where
  | number | head | tail | digitSum | digitSumHead | digitSumTail | wave | segment | phase | zodiac
deriving Repr, DecidableEq, Hashable

namespace Attribute

/-- Every attribute. -/
def all : List Attribute :=
  [number, head, tail, digitSum, digitSumHead, digitSumTail, wave, segment, phase, zodiac]

/-- The word for an attribute. -/
def name : Attribute → Text
  | number => ['号']
  | head => ['头']
  | tail => ['尾']
  | digitSum => ['合']
  | digitSumHead => ['合', '头']
  | digitSumTail => ['合', '尾']
  | wave => ['波']
  | segment => ['段']
  | phase => ['行']
  | zodiac => ['肖', '位']

/-- The attribute that a word names. -/
def ofName? (word : Text) : Option Attribute := all.find? fun a => a.name = word

/-- The attribute of a number in a zodiac year. -/
def value (n : Int) (zodiacYear : Int) : Attribute → Int
  | number => n
  | head => n.fdiv 10
  | tail => n.fmod 10
  | digitSum => Number.digitSum n
  | digitSumHead => (Number.digitSum n).fdiv 10
  | digitSumTail => (Number.digitSum n).fmod 10
  | wave => Number.wave n
  | segment => Number.segment n
  | phase => Number.phase n zodiacYear
  | zodiac => Number.zodiac n zodiacYear

end Attribute

/-- What is read off a quantity of the whole draw. -/
inductive Reading where
  | whole | tail | digitSum | digitSumTail
deriving Repr, DecidableEq, Hashable

namespace Reading

/-- Every reading. -/
def all : List Reading := [whole, tail, digitSum, digitSumTail]

/-- The word that follows the name of the quantity. -/
def suffix : Reading → Text
  | whole => []
  | tail => ['尾']
  | digitSum => ['合']
  | digitSumTail => ['合', '尾']

/-- The reading of a quantity. -/
def value (quantity : Int) : Reading → Int
  | whole => quantity
  | tail => quantity.fmod 10
  | digitSum => Number.digitSum quantity
  | digitSumTail => (Number.digitSum quantity).fmod 10

end Reading

/-- A quantity read off a draw. -/
inductive Element where
  /-- The last three digits of the period. -/
  | period (reading : Reading)
  /-- The sum of the seven numbers. -/
  | total (reading : Reading)
  /-- An attribute of a ping number. -/
  | ping (place : Fin 6) (a : Attribute)
  /-- An attribute of the special number. -/
  | special (a : Attribute)
  | weekday | stem | branch | stemBranch
deriving Repr, DecidableEq, Hashable

namespace Element

/-- The digit, 1 to 6, of a ping number's place. -/
def placeDigit (place : Fin 6) : Char := Nat.digitChar (place.val + 1)

/-- The canonical name. -/
def name : Element → Text
  | period r => ['期', '数'] ++ r.suffix
  | total r => ['总', '分'] ++ r.suffix
  | ping place a => ['平', placeDigit place] ++ a.name
  | special a => '特' :: a.name
  | weekday => ['星', '期']
  | stem => ['干']
  | branch => ['支']
  | stemBranch => ['干', '支']

/-- The 78 elements that depend on the numbers and the period alone. -/
def all : List Element :=
  Reading.all.map period ++ Reading.all.map total ++
    (List.finRange 6).flatMap (fun place => Attribute.all.map (ping place)) ++
    Attribute.all.map special

/-- The elements that depend on the day of the draw. -/
def calendar : List Element := [weekday, stem, branch, stemBranch]

/-- The value of an element for a draw, with the ping numbers ascending if `sorted`. -/
def value (d : Draw) (sorted : Bool) : Element → Int
  | period r => r.value (d.period.fmod 1000)
  | total r => r.value d.sum
  | ping place a => a.value (d.pingAt sorted place) d.zodiacYear
  | special a => a.value d.special d.zodiacYear
  | weekday => d.weekday.getD 0
  | stem => Number.stem d.stemBranch
  | branch => Number.branch d.stemBranch
  | stemBranch => Number.stem d.stemBranch + Number.branch d.stemBranch * 10

end Element

end DrawFormula
