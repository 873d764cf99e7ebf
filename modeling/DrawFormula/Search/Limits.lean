import DrawFormula.Json.Integer

/-! # Limits of a search from loose values

The limits of a search may be given as numbers with a fraction, or not at all.  A count is reached as
soon as it is not below the limit, so that a limit with a fraction stands for the next integer, and a
negative one is reached at once.
-/
namespace DrawFormula.Search

/-- The least integer that is not below a finite number. -/
def ceiling (x : Float) : Int :=
  let n := Decimal.truncate x
  if Float.ofInt n < x then n + 1 else n

/-- The most evaluations that a value stands for; 0 for no limit.  Only numbers can be compared. -/
def evaluationsOf? (v : Json) : Option Int :=
  match v with
  | .int n => some n
  | .bool b => some (if b then 1 else 0)
  | .float x =>
    some (if x < 0 then -1 else if x.isNaN || x.isInf then 0 else ceiling x)
  | v => if v.isGiven then none else some 0

/-- The interval of messages that a value stands for.  It is at least 1; an interval with a fraction is
met where its smallest multiple without one is, and an infinite one never, which 0 stands for. -/
def intervalOf? : Json → Option Nat
  | .int n => some (max 1 n.toNat)
  | .bool _ => some 1
  | .float x =>
    some (if x.isNaN || x ≤ 1 then 1
      else if x.isInf then 0
      else
        let r := (Decimal.Binary.ofBits x.toBits).value
        r.num / Nat.gcd r.num r.den)
  | _ => none

/-- The time budget in seconds that a value stands for; 0 for none. -/
def secondsOf? (v : Json) : Option Float :=
  match v with
  | .int n => some (Float.ofInt n)
  | .bool b => some (if b then 1 else 0)
  | .float x => some (if x.isNaN then 0 else x)
  | v => if v.isGiven then none else some 0

end DrawFormula.Search
