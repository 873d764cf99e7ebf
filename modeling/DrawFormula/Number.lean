import DrawFormula.Text.Numeral

/-! # The numbers 1 to 49

Every draw takes its numbers from 1 to 49.  This module fixes the partitions of that range: wave
colour, five phase, zodiac animal, segment and size with parity.  A partition gives each number
the index of its class; a number outside the range gets the index of the first class.
-/
namespace DrawFormula.Number

/-- The smallest number of a draw. -/
def least : Int := 1

/-- The largest number of a draw. -/
def greatest : Int := 49

/-- All numbers of a draw, in ascending order. -/
def all : List Int := (List.range 49).map fun n => Int.ofNat (n + 1)

/-- The sum of the decimal digits of the absolute value. -/
def digitSum (n : Int) : Int :=
  ((Text.ofNat n.natAbs).foldr (fun c sum => (Text.digitValue? c).getD 0 + sum) 0 : Nat)

/-- The index of the first class that holds `n`, or 0. -/
def classOf (classes : List (List Int)) (n : Int) : Int :=
  ((classes.findIdx? (·.contains n)).getD 0 : Nat)

/-! ## Wave colour -/

/-- Red, blue and green. -/
def waveNames : List String := ["红波", "蓝波", "绿波"]

/-- The numbers of each wave colour. -/
def waves : List (List Int) :=
  [[1, 2, 7, 8, 12, 13, 18, 19, 23, 24, 29, 30, 34, 35, 40, 45, 46],
   [3, 4, 9, 10, 14, 15, 20, 25, 26, 31, 36, 37, 41, 42, 47, 48],
   [5, 6, 11, 16, 17, 21, 22, 27, 28, 32, 33, 38, 39, 43, 44, 49]]

/-- The wave colour of a number. -/
def wave (n : Int) : Int := classOf waves n

/-! ## Five phase -/

/-- Metal, wood, water, fire and earth. -/
def phaseNames : List String := ["金", "木", "水", "火", "土"]

/-- The zodiac year that stands in for a year without a table of its own. -/
def defaultYear : Int := 7

/-- The numbers of each phase in the year of the snake. -/
def phasesOfSnake : List (List Int) :=
  [[3, 4, 11, 12, 25, 26, 33, 34, 41, 42],
   [7, 8, 15, 16, 23, 24, 37, 38, 45, 46],
   [13, 14, 21, 22, 29, 30, 43, 44],
   [1, 2, 9, 10, 17, 18, 31, 32, 39, 40, 47, 48],
   [5, 6, 19, 20, 27, 28, 35, 36, 49]]

/-- The numbers of each phase in the year of the horse. -/
def phasesOfHorse : List (List Int) :=
  [[4, 5, 12, 13, 26, 27, 34, 35, 42, 43],
   [8, 9, 16, 17, 24, 25, 38, 39, 46, 47],
   [1, 14, 15, 22, 23, 30, 31, 44, 45],
   [2, 3, 10, 11, 18, 19, 32, 33, 40, 41, 48, 49],
   [6, 7, 20, 21, 28, 29, 36, 37]]

/-- The phase of a number; every year but that of the snake follows the table of the horse. -/
def phase (n : Int) (zodiacYear : Int) : Int :=
  classOf (if zodiacYear = 6 then phasesOfSnake else phasesOfHorse) n

/-! ## Zodiac -/

/-- The animals of the zodiac, from the rat on. -/
def zodiacNames : List String :=
  ["鼠", "牛", "虎", "兔", "龙", "蛇", "马", "羊", "猴", "鸡", "狗", "猪"]

/-- The position 1 to 12 of a number among the groups of equal remainder. -/
def zodiacGroup (n : Int) : Int := (n - 1).fmod 12 + 1

/-- The animal, 1 to 12, that owns a group in a zodiac year.  The year's own animal owns group 1,
the animal before it group 2, and so on backwards around the cycle. -/
def zodiacOwner (zodiacYear group : Int) : Int := (zodiacYear - group).fmod 12 + 1

/-- The animal, 1 to 12, of a number in a zodiac year; 1 outside the range of draws. -/
def zodiac (n : Int) (zodiacYear : Int) : Int :=
  if least ≤ n ∧ n ≤ greatest then zodiacOwner zodiacYear (zodiacGroup n) else 1

/-- The name of an animal, counted around the cycle. -/
def zodiacName (index : Int) : String := zodiacNames.getD ((index - 1).fmod 12).toNat ""

/-- The animals of a zodiac year with their numbers, group by group. -/
def zodiacNumbers (zodiacYear : Int) : List (String × List Int) :=
  (List.range 12).map fun i =>
    let group := Int.ofNat (i + 1)
    (zodiacName (zodiacOwner zodiacYear group), all.filter fun n => zodiacGroup n = group)

/-- A calendar year of the rat. -/
def ratYear : Int := 2020

/-- The animal, 1 to 12, of a calendar year. -/
def zodiacOfCalendarYear (year : Int) : Int := (year - ratYear).fmod 12 + 1

/-! ## Segment, size and parity -/

/-- The segment, 1 to 7, of seven neighbouring numbers; 1 outside the range of draws. -/
def segment (n : Int) : Int :=
  if least ≤ n ∧ n ≤ greatest then (n - 1).fdiv 7 + 1 else 1

/-- Small odd, small even, large odd and large even; large begins at 25. -/
def sizeParityNames : List String := ["小单", "小双", "大单", "大双"]

/-- The class of size and parity; 0 outside the range of draws. -/
def sizeParity (n : Int) : Int :=
  if least ≤ n ∧ n ≤ greatest then
    (if 25 ≤ n then 2 else 0) + (if n.fmod 2 = 1 then 0 else 1)
  else 0

/-! ## Calendar tags -/

/-- The ten heavenly stems. -/
def stems : Text := "甲乙丙丁戊己庚辛壬癸".toList

/-- The twelve earthly branches. -/
def branches : Text := "子丑寅卯辰巳午未申酉戌亥".toList

/-- The tag that stands in for a missing or empty one. -/
def defaultTag : Text := "甲子".toList

/-- The place of a character in a text, or -1. -/
def placeIn (t : Text) (c : Char) : Int :=
  match t.idxOf? c with
  | some i => i
  | none => -1

/-- The tag to read: a missing or empty one is replaced. -/
def tagOrDefault : Option Text → Text
  | none => defaultTag
  | some [] => defaultTag
  | some tag => tag

/-- The index of the stem in a tag, or -1. -/
def stem (tag : Option Text) : Int :=
  match tagOrDefault tag with
  | [] => -1
  | c :: _ => placeIn stems c

/-- The index of the branch in a tag, or -1. -/
def branch (tag : Option Text) : Int :=
  match tagOrDefault tag with
  | _ :: c :: _ => placeIn branches c
  | _ => -1

end DrawFormula.Number
