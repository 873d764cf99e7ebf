import DrawFormula.Proofs.Element.Magnitude
import DrawFormula.Proofs.Expression.PlusRuns
import DrawFormula.Proofs.Expression.Resolution

/-! # Substituting values

The lexemes of a tree without blocks are its names and its characters, each term kept apart from the
next by an operator or a parenthesis. With every name replaced by its value the text is a sum with
runs of plus signs.
-/
namespace DrawFormula.Expression
open Element

/-! ## Lexemes of a tree -/

theorem Operator.apart_sign (o : Operator) : Apart o.sign := by
  cases o <;> exact apart_of_toNat (by decide) (by decide)

theorem apart_open : Apart '(' := apart_of_toNat (by decide) (by decide)

theorem apart_close : Apart ')' := apart_of_toNat (by decide) (by decide)

theorem leading?_digits {before : Option Char} {t : Text} (h : ∀ c ∈ t, c.isDigit) :
    leading? before t = none := by
  rw [leading?_eq_none_iff]
  right
  intro p hp hpt
  obtain ⟨c,hc,hlow⟩ := exists_ideograph_mem hp
  have hdigit := Text.toNat_of_isDigit (h c (hpt.subset hc))
  omega

theorem Lexeme.scanFrom_digits {t : Text} (h : ∀ c ∈ t, c.isDigit) (before : Option Char) :
    scanFrom before 0 t = t.map char := by
  induction t generalizing before with
  | nil => rfl
  | cons c t ih =>
    rw [scanFrom_char (leading?_digits h),ih (fun d hd => h d (by simp [hd])),List.map_cons]

namespace Tree

/-- The lexemes of a tree without blocks. -/
def lexemes : Tree Empty → List Lexeme
  | element s => [.name s.element]
  | literal l => l.digits.map .char
  | group a => .char '(' :: (a.lexemes ++ [.char ')'])
  | join a o b => a.lexemes ++ .char o.sign :: b.lexemes
  | lead o a => .char o.sign :: a.lexemes
  | trail a o => a.lexemes ++ [.char o.sign]

theorem scan_text (t : Tree Empty) : Lexeme.scan t.text = t.lexemes := by
  induction t with
  | element s => exact Lexeme.scan_spelling s.mem_spellings
  | literal l => exact Lexeme.scanFrom_digits l.ascii none
  | group a ih =>
    rw [text,Lexeme.scan_cons apart_open,Lexeme.scan_append (opensApart_cons apart_close []),ih,
      Lexeme.scan_cons apart_close]
    rfl
  | block k => exact k.elim
  | join a o b iha ihb =>
    rw [text,Lexeme.scan_append (opensApart_cons o.apart_sign b.text),iha,
      Lexeme.scan_cons o.apart_sign,ihb]
    rfl
  | lead o a ih =>
    rw [text,Lexeme.scan_cons o.apart_sign,ih]
    rfl
  | trail a o ih =>
    rw [text,Lexeme.scan_append (opensApart_cons o.apart_sign []),ih,Lexeme.scan_cons o.apart_sign]
    rfl

/-- Every ideograph of a tree belongs to a name. -/
theorem unknownIn_lexemes (t : Tree Empty) : unknownIn t.lexemes = [] := by
  have hsign : ∀ o : Operator, isIdeograph o.sign = false := by
    intro o
    cases o <;> decide
  have hopen : isIdeograph '(' = false := by decide
  have hclose : isIdeograph ')' = false := by decide
  unfold unknownIn
  induction t with
  | element s => rfl
  | literal l =>
    rw [lexemes,List.filterMap_map,List.filterMap_eq_nil_iff]
    intro c hc
    have hlow := Text.toNat_of_isDigit (l.ascii c hc)
    have hnot : isIdeograph c = false := by
      have hle : ¬ '\u4e00'.toNat ≤ c.toNat := by
        have h : '\u4e00'.toNat = 0x4e00 := rfl
        omega
      have hlt : ¬ '\u4e00' ≤ c := hle
      simp [isIdeograph,hlt]
    simp [hnot]
  | group a ih => simp [lexemes,ih,hopen,hclose]
  | block k => exact k.elim
  | join a o b iha ihb => simp [lexemes,iha,ihb,hsign]
  | lead o a ih => simp [lexemes,ih,hsign]
  | trail a o ih => simp [lexemes,ih,hsign]

end Tree

/-! ## Values without a memo -/

/-- What a lexeme contributes to the sum. -/
def Lexeme.contribution (d : Draw) (sorted : Bool) : Lexeme → Text
  | name e => Text.ofInt (e.value d sorted)
  | char c => substituteChar c

theorem lookup_of_disabled {cache : Element.Cache} (h : cache.enabled = false)
    (e : Element) (d : Draw) (sorted : Bool) :
    e.lookup d sorted cache = (e.value d sorted,cache) := by
  simp [Element.lookup,h]

theorem substituteAll_of_disabled {cache : Element.Cache} (h : cache.enabled = false) (d : Draw)
    (sorted : Bool) (lexemes : List Lexeme) : substituteAll d sorted lexemes cache =
      (lexemes.flatMap (Lexeme.contribution d sorted),cache) := by
  induction lexemes with
  | nil => rfl
  | cons lexeme rest ih =>
    cases lexeme with
    | name e =>
      simp [substituteAll,lookup_of_disabled h,ih,Lexeme.contribution]
    | char c => simp [substituteAll,ih,Lexeme.contribution]

/-! ## The substituted sum -/

/-- A number as a literal. -/
def Literal.ofNat (n : ℕ) : Literal where
  digits := Text.ofNat n
  digits_ne_nil := Text.ofNat_ne_nil n
  ascii _ := Text.isDigit_of_mem_ofNat

/-- A sum with runs of plus signs around it. -/
structure Padded where
  before : ℕ
  core : Core
  after : ℕ

/-- The written form. -/
def Padded.text (p : Padded) : Text := plusRun p.before ++ (p.core.text ++ plusRun p.after)

namespace Tree

/-- Names of draw elements and literals that can be read. -/
def InRange {κ : Type} : Tree κ → Prop
  | element s => s.element ∈ Element.all
  | literal l => l.digits.length ≤ Text.digitLimit
  | group a => a.InRange
  | block _ yes no => yes.InRange ∧ no.InRange
  | join a _ b => a.InRange ∧ b.InRange
  | lead _ a => a.InRange
  | trail a _ => a.InRange

instance decidableInRange {κ : Type} : (t : Tree κ) → Decidable t.InRange
  | element s => inferInstanceAs (Decidable (s.element ∈ Element.all))
  | literal l => inferInstanceAs (Decidable (l.digits.length ≤ Text.digitLimit))
  | group a => decidableInRange a
  | block _ yes no => @instDecidableAnd _ _ (decidableInRange yes) (decidableInRange no)
  | join a _ b => @instDecidableAnd _ _ (decidableInRange a) (decidableInRange b)
  | lead _ a => decidableInRange a
  | trail a _ => decidableInRange a

section Substituted
variable (d : Draw) (sorted : Bool)

/-- The sum that a tree without blocks becomes. -/
def padded : Tree Empty → Padded
  | element s => ⟨0,.number (.ofNat (s.element.value d sorted).toNat),0⟩
  | literal l => ⟨0,.number l,0⟩
  | group a => ⟨0,.group a.padded.before a.padded.core a.padded.after,0⟩
  | join a _ b => ⟨a.padded.before,
      .join a.padded.core (a.padded.after + b.padded.before) b.padded.core,b.padded.after⟩
  | lead _ a => ⟨a.padded.before + 1,a.padded.core,a.padded.after⟩
  | trail a _ => ⟨a.padded.before,a.padded.core,a.padded.after + 1⟩

theorem contribution_sign (o : Operator) :
    Lexeme.contribution d sorted (.char o.sign) = ['+'] := by cases o <;> rfl

theorem contribution_digits {t : Text} (h : ∀ c ∈ t, c.isDigit) :
    (t.map Lexeme.char).flatMap (Lexeme.contribution d sorted) = t := by
  induction t with
  | nil => rfl
  | cons c t ih =>
    have hc : Lexeme.contribution d sorted (.char c) = [c] := by
      have hrange := Text.toNat_of_isDigit (h c (by simp))
      have hop : isOperator c = false := by
        simp only [isOperator,Bool.or_eq_false_iff,decide_eq_false_iff_not,← Char.toNat_inj]
        have hcodes : '-'.toNat = 45 ∧ '*'.toNat = 42 ∧ '×'.toNat = 215 ∧ '/'.toNat = 47 ∧
          '÷'.toNat = 247 ∧ '%'.toNat = 37 := by decide
        omega
      have hblank : Text.isBlank c = false := by
        simp only [Text.isBlank,Bool.or_eq_false_iff,Bool.and_eq_false_iff,
          decide_eq_false_iff_not,beq_eq_false_iff_ne]
        omega
      simp [Lexeme.contribution,substituteChar,hop,hblank]
    rw [List.map_cons,List.flatMap_cons,hc,ih (fun e he => h e (by simp [he]))]
    rfl

theorem plusRun_add_one (m n : ℕ) : plusRun m ++ '+' :: plusRun n = plusRun (m + n + 1) := by
  rw [plusRun,plusRun,plusRun,Nat.add_assoc,List.replicate_add]
  rfl

/-- The substituted text is the padded sum. -/
theorem flatMap_contribution {t : Tree Empty} (h : t.InRange) :
    t.lexemes.flatMap (Lexeme.contribution d sorted) = (t.padded d sorted).text := by
  induction t with
  | element s =>
    have hv := (Element.value_bounds d sorted h).1
    simp [lexemes,padded,Padded.text,Core.text,plusRun,Lexeme.contribution,Text.ofInt_of_nonneg hv,
      Literal.ofNat]
  | literal l =>
    simpa [lexemes,padded,Padded.text,Core.text,plusRun] using contribution_digits d sorted l.ascii
  | group a ih =>
    have hopen : Lexeme.contribution d sorted (.char '(') = ['('] := rfl
    have hclose : Lexeme.contribution d sorted (.char ')') = [')'] := rfl
    simp [lexemes,padded,Padded.text,Core.text,ih h,hopen,hclose,plusRun]
  | block k => exact k.elim
  | join a o b iha ihb =>
    rw [lexemes,List.flatMap_append,List.flatMap_cons,contribution_sign,iha h.1,ihb h.2]
    simp only [padded,Padded.text,Core.text,← plusRun_add_one,List.append_assoc,List.cons_append,
      List.nil_append]
  | lead o a ih =>
    rw [lexemes,List.flatMap_cons,contribution_sign,ih h]
    rfl
  | trail a o ih =>
    rw [lexemes,List.flatMap_append,List.flatMap_singleton,contribution_sign,ih h]
    have hrun := plusRun_add_one (a.padded d sorted).after 0
    simp only [padded,Padded.text,List.append_assoc]
    rw [← hrun]
    rfl

end Substituted

end Tree

end DrawFormula.Expression
