import DrawFormula.ResultType

/-! # Numeral words

Chinese numerals up to ninety-nine are written in digits.  The words for result types and the word
for the five phases hold numeral characters and are left alone, except that a ping character
before the five phases takes the five for itself: the fifth ping number's phase.

A protected word is put aside under a private-use character while the numerals are converted, and
every such character becomes the word again afterwards.
-/
namespace DrawFormula.Formula

/-- The value of a numeral character for one to nine. -/
def unitValue? (c : Char) : Option Nat :=
  match c with
  | '一' => some 1
  | '二' => some 2
  | '两' => some 2
  | '三' => some 3
  | '四' => some 4
  | '五' => some 5
  | '六' => some 6
  | '七' => some 7
  | '八' => some 8
  | '九' => some 9
  | _ => none

/-- The fifth ping number's phase gets its digit. -/
def digitizePingFive : Text → Text
  | '平' :: '五' :: '行' :: rest => '平' :: '5' :: '行' :: digitizePingFive rest
  | c :: rest => c :: digitizePingFive rest
  | [] => []

/-- The protected words, in the order in which they are put aside. -/
def protectedWords : List Text :=
  [ResultType.sizeParity.token, ResultType.tail.token, ResultType.head.token,
   ResultType.digitSum.token, ResultType.wave.token, ResultType.fivePhase.token,
   ResultType.zodiac.token, ResultType.single.token, ['五', '行']]

/-- The private-use character that stands for the word put aside in this place. -/
def placeholder (place : Nat) : Char := Char.ofNat (0xe000 + place)

/-- Puts one protected word aside if it occurs. -/
def putAside (state : Text × List Text) (word : Text) : Text × List Text :=
  if Text.contains word state.1 then
    (Text.replaceAll word [placeholder state.2.length] state.1, state.2 ++ [word])
  else state

/-- The text with the protected words put aside, and the words that occurred. -/
def putAllAside (t : Text) : Text × List Text := protectedWords.foldl putAside (t, [])

/-- The word that a character stands for, or the character. -/
def restoreChar (aside : List Text) (c : Char) : Text :=
  if 0xe000 ≤ c.toNat then aside.getD (c.toNat - 0xe000) [c] else [c]

/-- Every placeholder becomes its word again. -/
def restore (aside : List Text) (t : Text) : Text := t.flatMap (restoreChar aside)

/-- A unit before ten, with the unit after it if there is one, becomes a number. -/
def digitizeTens : Text → Text
  | [] => []
  | [c] => [c]
  | a :: b :: rest =>
    match unitValue? a with
    | some tens =>
      if b = '十' then
        match rest with
        | [] => Text.ofNat (10 * tens)
        | c :: rest' =>
          match unitValue? c with
          | some units => Text.ofNat (10 * tens + units) ++ digitizeTens rest'
          | none => Text.ofNat (10 * tens) ++ digitizeTens (c :: rest')
      else a :: digitizeTens (b :: rest)
    | none => a :: digitizeTens (b :: rest)

/-- Ten before a unit becomes a number. -/
def digitizeTeens : Text → Text
  | [] => []
  | [c] => [c]
  | a :: b :: rest =>
    match unitValue? b with
    | some units =>
      if a = '十' then '1' :: (Text.ofNat units ++ digitizeTeens rest)
      else a :: digitizeTeens (b :: rest)
    | none => a :: digitizeTeens (b :: rest)

/-- The digits of a numeral character that stands alone. -/
def digitizeChar (c : Char) : Text :=
  if c = '十' then ['1', '0']
  else if c = '零' then ['0']
  else match unitValue? c with
    | some n => Text.ofNat n
    | none => [c]

/-- The text with its numeral words in digits. -/
def digitize (t : Text) : Text :=
  let (body, aside) := putAllAside (digitizePingFive t)
  restore aside ((digitizeTeens (digitizeTens body)).flatMap digitizeChar)

end DrawFormula.Formula
