import DrawFormula.Formula.Batch
import DrawFormula.Proofs.Formula.Suffix

/-! # Lines that stop a batch

A line stops a batch just if a number of its settings is too long to be converted and is met: the
rule, the result type and the expression are in order, the periods are read first, and 0 periods
end the reading. Every other line gives a formula or a diagnostic.
-/
namespace DrawFormula.Formula
open Text

/-! ## Numbers -/

theorem numberOr_eq_error_iff {default : ℕ} {digits : Option Text} :
    (∃ e, numberOr default digits = .error e) ↔ ∃ ds ∈ digits, digitLimit < ds.length := by
  cases digits with
  | none => simp [numberOr]
  | some ds => by_cases h : digitLimit < ds.length <;> simp [numberOr,readDigits,h]

theorem signedNumber_eq_error_iff {number : Option (Char × Text)} :
    (∃ e, signedNumber number = .error e) ↔ ∃ n ∈ number, digitLimit < n.2.length := by
  cases number with
  | none => simp [signedNumber]
  | some n =>
    by_cases h : digitLimit < n.2.length <;>
      simp [signedNumber,readDigits,h,Except.map,Functor.map]

theorem numberOr_eq_zero_iff {default n : ℕ} (hdefault : default ≠ 0) {digits : Option Text}
    (h : numberOr default digits = .ok n) : n = 0 ↔ ∃ ds ∈ digits, digitsValue ds = 0 := by
  cases digits with
  | none =>
    obtain rfl : default = n := Except.ok.inj h
    simpa using hdefault
  | some ds =>
    simp only [numberOr,readDigits] at h
    split at h
    · cases h
    · obtain rfl := Except.ok.inj h
      simp

/-- Whether one of the marked numbers is too long and is met. -/
def Suffix.Overlong (s : Suffix) : Prop :=
  (∃ ds ∈ s.periods, digitLimit < ds.length) ∨
    (¬ ∃ ds ∈ s.periods, digitsValue ds = 0) ∧
      ((∃ n ∈ s.offset, digitLimit < n.2.length) ∨ (∃ ds ∈ s.left, digitLimit < ds.length) ∨
        ∃ ds ∈ s.right, digitLimit < ds.length)

theorem withNumbers_eq_numeral_iff {rule : Rule} {resultType : ResultType} {expression : Text}
    {s : Suffix} : (∃ e, withNumbers rule resultType expression s = .error (.numeral e)) ↔
      s.Overlong := by
  have hperiods := @numberOr_eq_error_iff defaultPeriods s.periods
  rw [Suffix.Overlong,← hperiods,← signedNumber_eq_error_iff,
    ← @numberOr_eq_error_iff 0 s.left,← @numberOr_eq_error_iff 0 s.right]
  unfold withNumbers
  cases hp : numberOr defaultPeriods s.periods with
  | error e => simp [Except.mapError,bind,Except.bind]
  | ok periods =>
    rw [← numberOr_eq_zero_iff (by decide) hp]
    by_cases hzero : periods = 0
    · simp [hzero,Except.mapError,bind,Except.bind,throw,throwThe,MonadExceptOf.throw]
    · simp only [hzero,Except.mapError,bind,Except.bind,if_false]
      cases signedNumber s.offset with
      | error e => simp
      | ok offset =>
        cases numberOr 0 s.left with
        | error e => simp
        | ok left =>
          cases numberOr 0 s.right with
          | error e => simp
          | ok right => simp [pure,Except.pure]

/-! ## Lines -/

/-- Whether a line has a rule, a result type and an expression, and a number among its settings that
is too long and is met. -/
def OverlongLine (t : Text) : Prop :=
  ∃ p, parts? (digitize (squeeze (rawText t))) = some p ∧
    (∃ rule, Rule.ofLetter? p.letter.toUpper = some rule) ∧
    (∃ resultType, ResultType.ofToken? p.typeWord = some resultType) ∧
    ((Expression.normalize p.expression).all fun c => c = '+' || c = '-') = false ∧
    p.suffix.Overlong

theorem read_eq_numeral_iff {t : Text} :
    (∃ e, read t = .error (.numeral e)) ↔ OverlongLine t := by
  unfold OverlongLine read ofCompact
  generalize digitize (squeeze (rawText t)) = compact
  cases compact with
  | nil => simp [parts?]
  | cons c rest =>
    rw [if_neg (by simp)]
    cases parts? (c :: rest) with
    | none => simp
    | some p =>
      simp only [Option.some.injEq,exists_eq_left']
      cases Rule.ofLetter? p.letter.toUpper with
      | none => simp
      | some rule =>
        cases ResultType.ofToken? p.typeWord with
        | none => simp
        | some resultType =>
          cases hsigns : (Expression.normalize p.expression).all fun c => c = '+' || c = '-' with
          | true => simp
          | false => simp [withNumbers_eq_numeral_iff]

end DrawFormula.Formula

namespace DrawFormula.Batch
open Formula

theorem addLine_eq_ok_iff {batch : Batch} {index : ℕ} {line : Text} :
    (∃ b, addLine batch index line = .ok b) ↔ ¬ OverlongLine (cleanLine line) := by
  rw [← read_eq_numeral_iff]
  unfold addLine
  by_cases hclean : (cleanLine line).isEmpty = true
  · have hempty : Formula.read [] = .error (.fault .empty) := rfl
    rw [if_pos hclean,List.isEmpty_iff.mp hclean,hempty]
    simp
  · rw [if_neg hclean,readLine]
    rcases Formula.read (cleanLine line) with (fault | e) | f
    · simp [Except.map]
    · simp [Except.map]
    · simp only [Except.map]
      split <;> simp

theorem addLines_eq_ok_iff {batch : Batch} {index : ℕ} {lines : List Text} :
    (∃ b, addLines batch index lines = .ok b) ↔
      ∀ line ∈ lines, ¬ OverlongLine (cleanLine line) := by
  induction lines generalizing batch index with
  | nil => simp [addLines]
  | cons line rest ih =>
    rw [List.forall_mem_cons,← @addLine_eq_ok_iff batch index line,addLines]
    cases addLine batch index line with
    | error e => simp
    | ok b => simp [ih]

/-- A batch is read just if no line stops it. -/
theorem read_eq_ok_iff {t : Text} : (∃ b, Batch.read t = .ok b) ↔
    ∀ line ∈ Text.splitLines t, ¬ OverlongLine (cleanLine line) := by
  rw [← @addLines_eq_ok_iff ⟨[],[]⟩ 0,Batch.read]
  cases addLines ⟨[],[]⟩ 0 (Text.splitLines t) with
  | error e => simp [Except.map]
  | ok b => simp [Except.map]

end DrawFormula.Batch
