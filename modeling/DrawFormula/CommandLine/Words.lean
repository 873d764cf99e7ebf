import DrawFormula.Decimal.Reading
import DrawFormula.Text.Numeral

/-! # Words of a command line

Words that begin with a dash name options; an option may be shortened as long as its name is
clear, and its value follows as the next word or after an equals sign.  Negative numbers and words
with blanks are no options, and after two dashes there are none.  Two dashes are no value either: an
option that is given them has none.
-/
namespace DrawFormula.CommandLine

/-- Why a command line is not followed. -/
inductive Stop where
  /-- Help is asked for. -/
  | help
  /-- The words are not understood. -/
  | usage
  /-- An option has no value that needs one. -/
  | noValue
deriving Repr, DecidableEq

/-- What the value of an option has to be. -/
inductive ValueKind where
  /-- The option takes no value. -/
  | nothing
  | text
  | integer
  | number
  | oneOf (words : List Text)
deriving Repr, DecidableEq

/-- Whether a word is a value of the kind. -/
def ValueKind.accepts (word : Text) : ValueKind → Bool
  | nothing => false
  | text => true
  | integer => (Text.readInt word).isOk
  | number => (Decimal.read? word).isSome
  | oneOf words => words.contains word

/-- An option. -/
structure OptionSpec where
  /-- The name, with its dashes. -/
  name : Text
  kind : ValueKind
  /-- Whether the option has to be given. -/
  required : Bool
deriving Repr, DecidableEq

/-- How a word is understood. -/
inductive WordClass where
  /-- A value or a command. -/
  | operand
  /-- The two dashes after which there are no options. -/
  | separator
  /-- An option, with the value after its equals sign. -/
  | option (o : OptionSpec) (attached : Option Text)
  /-- The option that asks for help, and whether it is written as it has to be. -/
  | help (isProper : Bool)
  /-- A name of no option. -/
  | unknown
deriving Repr, DecidableEq

/-- The long name of the option that asks for help. -/
def helpName : Text := "--help".toList

/-- The short name of the option that asks for help. -/
def shortHelpName : Text := "-h".toList

/-- The two dashes after which there are no options. -/
def separator : Text := ['-', '-']

/-- A text without the line feed at its end. -/
def dropLineFeed (t : Text) : Text := if t.getLast? = some '\n' then t.dropLast else t

/-- Whether a word is a negative number without an exponent; a line feed may end it. -/
def isNegativeNumber (word : Text) : Bool :=
  match dropLineFeed word with
  | '-' :: rest =>
    let whole := rest.takeWhile Text.isDigit
    match rest.drop whole.length with
    | [] => !whole.isEmpty
    | '.' :: fraction => !fraction.isEmpty && fraction.all Text.isDigit
    | _ => false
  | _ => false

/-- Whether what is joined to the short name of the option that asks for help only repeats it. -/
def repeatsHelp (joined : Text) : Bool := !joined.isEmpty && joined.all (· = 'h')

/-- What a full name stands for. -/
def exactly? (options : List OptionSpec) (name : Text) (attached : Option Text) :
    Option WordClass :=
  if name = helpName then some (.help attached.isNone)
  else if name = shortHelpName then some (.help (attached.all repeatsHelp))
  else (options.find? fun o => o.name = name).map fun o => .option o attached

/-- Everything that a shortened name may stand for. -/
def candidates (options : List OptionSpec) (name : Text) (attached : Option Text) :
    List WordClass :=
  (if name.isPrefixOf helpName then [.help attached.isNone] else []) ++
    (options.filter fun o => name.isPrefixOf o.name).map fun o => .option o attached

/-- The part of a word before its first equals sign, and the part after it. -/
def splitValue (word : Text) : Text × Option Text :=
  let name := word.takeWhile (· ≠ '=')
  (name, if name.length = word.length then none else some (word.drop (name.length + 1)))

/-- How a word is understood that is no full name of an option. -/
def classifyShortened (options : List OptionSpec) (word : Text) : Except Stop WordClass :=
  let (name, attached) := splitValue word
  let found :=
    match word with
    | '-' :: '-' :: _ => candidates options name attached
    | '-' :: 'h' :: rest => [.help (repeatsHelp rest)]
    | _ => []
  match found with
  | [c] => .ok c
  | _ :: _ :: _ => .error .usage
  | [] => .ok (if isNegativeNumber word || word.any (· = ' ') then .operand else .unknown)

/-- How a word is understood before the two dashes. -/
def classify (options : List OptionSpec) (word : Text) : Except Stop WordClass :=
  match word with
  | '-' :: _ :: _ =>
    match exactly? options word none with
    | some c => .ok c
    | none =>
      match splitValue word with
      | (name, some value) =>
        match exactly? options name (some value) with
        | some c => .ok c
        | none => classifyShortened options word
      | _ => classifyShortened options word
  | _ => .ok .operand

/-- How the words are understood. -/
def classifyAll (options : List OptionSpec) : List Text → Except Stop (List (Text × WordClass))
  | [] => .ok []
  | word :: rest =>
    if word = separator then .ok ((word, .separator) :: rest.map fun w => (w, .operand))
    else do
      let c ← classify options word
      let rest ← classifyAll options rest
      return (word, c) :: rest

/-- What is read from words. -/
structure Readout where
  /-- The options with their values in the order of the words. -/
  values : List (Text × Text)
  /-- Whether there are words that nothing is made of. -/
  leftOver : Bool
  /-- Whether an option has no value that needs one. -/
  lacksValue : Bool
deriving Repr, DecidableEq

namespace Readout

/-- Nothing is read. -/
def empty : Readout := ⟨[], false, false⟩

/-- What is read with an option in front. -/
def push (o : OptionSpec) (value : Text) (r : Readout) : Readout :=
  { r with values := (o.name, value) :: r.values }

/-- What is read with an option in front that has no value: a text that is not required is empty then. -/
def pushBare (o : OptionSpec) (r : Readout) : Readout :=
  { r.push o [] with lacksValue := r.lacksValue || o.required || o.kind ≠ .text }

/-- Whether an option is given. -/
def has (r : Readout) (name : String) : Bool := r.values.any fun v => v.1 = name.toList

/-- Every value of an option. -/
def all (r : Readout) (name : String) : List Text :=
  (r.values.filter fun v => v.1 = name.toList).map (·.2)

/-- The last value of an option. -/
def last? (r : Readout) (name : String) : Option Text := (r.all name).getLast?

/-- The last value of an option; empty without one. -/
def text (r : Readout) (name : String) : Text := (r.last? name).getD []

/-- The last value of an option as an integer. -/
def int? (r : Readout) (name : String) : Option Int :=
  (r.last? name).bind fun t => (Text.readInt t).toOption

/-- The last value of an option as a number. -/
def number? (r : Readout) (name : String) : Option Float := (r.last? name).bind Decimal.read?

end Readout

/-- Reads the words of options.  If it `stops` there, the words from the first operand on are given
back; else operands are left over, like names of no option. -/
def readOptions (stops : Bool) : List (Text × WordClass) → Except Stop (Readout × List Text)
  | [] => .ok (.empty, [])
  | (_, .help isProper) :: _ => .error (if isProper then .help else .usage)
  | (_, .option o (some value)) :: rest =>
    if o.kind ≠ .nothing ∧ value = separator then do
      let (r, others) ← readOptions stops rest
      return (r.pushBare o, others)
    else if o.kind.accepts value then do
      let (r, others) ← readOptions stops rest
      return (r.push o value, others)
    else .error .usage
  | (_, .option o none) :: rest =>
    if o.kind = .nothing then do
      let (r, others) ← readOptions stops rest
      return (r.push o [], others)
    else
      match rest with
      | (value, .operand) :: rest =>
        if o.kind.accepts value then do
          let (r, others) ← readOptions stops rest
          return (r.push o value, others)
        else .error .usage
      | _ => .error .usage
  | (word, c) :: rest =>
    if stops && c ≠ .unknown then .ok (.empty, word :: rest.map (·.1))
    else do
      let (r, others) ← readOptions stops rest
      return ({ r with leftOver := true }, others)

/-- Whether every option that has to be given is given. -/
def hasRequired (options : List OptionSpec) (r : Readout) : Bool :=
  options.all fun o => !o.required || r.values.any fun v => v.1 = o.name

/-- Reads the words of options, of which the required ones have to be given. -/
def readWords (options : List OptionSpec) (words : List Text) : Except Stop Readout := do
  let (r, _) ← readOptions false (← classifyAll options words)
  if !hasRequired options r then throw .usage
  return r

end DrawFormula.CommandLine
