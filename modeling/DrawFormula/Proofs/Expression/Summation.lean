import DrawFormula.Proofs.Expression.PlusRuns
import DrawFormula.Proofs.Text.Decimal

/-! # Adding up

A sum with one plus sign between two terms and none elsewhere is added up to the sum of its numbers.
The pass over the tokens adds a whole group, however deep, to the total of the parenthesis around
it.
-/
namespace DrawFormula.Expression

/-! ## Tokens -/

theorem Token.ofText_digits {ds : Text} (hne : ds ≠ []) (hd : ∀ c ∈ ds, Text.isDigit c = true)
    {rest : Text} (hr : rest.head?.any Text.isDigit = false) :
    Token.ofText (ds ++ rest) = .number ds :: Token.ofText rest := by
  induction ds with
  | nil => exact absurd rfl hne
  | cons c ds ih =>
    have hc := hd c (by simp)
    cases ds with
    | nil => simp [Token.ofText,hc,hr]
    | cons d ds =>
      have hnext := hd d (by simp)
      have ih' := ih (by simp) (fun e he => hd e (by simp [he]))
      rw [List.cons_append,Token.ofText,if_pos hc,if_pos (by simpa using hnext),ih']
      rfl

theorem Token.ofText_plus (rest : Text) : Token.ofText ('+' :: rest) = .plus :: ofText rest := by
  rw [Token.ofText,if_neg (by decide),if_pos rfl]

theorem Token.ofText_open (rest : Text) :
    Token.ofText ('(' :: rest) = .openParen :: ofText rest := by
  rw [Token.ofText,if_neg (by decide),if_neg (by decide),if_pos rfl]

theorem Token.ofText_close (rest : Text) :
    Token.ofText (')' :: rest) = .closeParen :: ofText rest := by
  rw [Token.ofText,if_neg (by decide),if_neg (by decide),if_neg (by decide),if_pos rfl]

namespace Core

/-- The tokens of a sum with single plus signs. -/
def tokens : Core → List Token
  | number l => [.number l.digits]
  | group _ a _ => .openParen :: (a.tokens ++ [.closeParen])
  | join a _ b => a.tokens ++ .plus :: b.tokens

theorem ofText_bare (c : Core) {rest : Text} (hr : rest.head?.any Text.isDigit = false) :
    Token.ofText (c.bare.text ++ rest) = c.tokens ++ Token.ofText rest := by
  induction c generalizing rest with
  | number l =>
    exact Token.ofText_digits l.digits_ne_nil (fun c hc => Text.isDigit_of_ascii (l.ascii c hc)) hr
  | group i a j ih =>
    have hclose : (')' :: rest).head?.any Text.isDigit = false :=
      (by decide : Text.isDigit ')' = false)
    simp only [bare,withRuns,text,tokens,plusRun,List.replicate,List.nil_append,List.cons_append,
      List.append_assoc]
    rw [Token.ofText_open,ih hclose,Token.ofText_close]
  | join a k b iha ihb =>
    have hplus : ('+' :: (b.bare.text ++ rest)).head?.any Text.isDigit = false :=
      (by decide : Text.isDigit '+' = false)
    simp only [bare,withRuns,text,tokens,plusRun,List.replicate,List.nil_append,List.cons_append,
      List.append_assoc]
    rw [iha hplus,Token.ofText_plus,ihb hr]

/-! ## The pass over the tokens -/

/-- No number is too long to be read. -/
def Within : Core → Prop
  | number l => l.digits.length ≤ Text.digitLimit
  | group _ a _ => a.Within
  | join a _ b => a.Within ∧ b.Within

/-- A sum that is due adds its value to the total and leaves the open parentheses alone. -/
theorem addUp_tokens {c : Core} (h : c.Within) (outer : List ℕ) (total : ℕ) (rest : List Token) :
    addUp outer total true (c.tokens ++ rest) = addUp outer (total + c.value) false rest := by
  induction c generalizing outer total rest with
  | number l =>
    rw [tokens,List.singleton_append,addUp,Text.readDigits_of_length_le h,value]
  | group i a j ih =>
    rw [tokens,List.cons_append,List.append_assoc,addUp,ih h,List.singleton_append,addUp,value,
      Nat.zero_add]
  | join a k b iha ihb =>
    rw [tokens,List.append_assoc,iha h.1,List.cons_append,addUp,ihb h.2,value,Nat.add_assoc]

theorem inSum_of_mem_bare {c : Core} {d : Char} (h : d ∈ c.bare.text) : inSum d = true := by
  induction c with
  | number l => simp [inSum,Text.isDigit_of_ascii (l.ascii d h)]
  | group i a j ih =>
    simp only [bare,withRuns,text,plusRun,List.replicate,List.nil_append,List.mem_cons,
      List.mem_append,List.not_mem_nil,or_false] at h
    rcases h with rfl | h | rfl
    · decide
    · exact ih h
    · decide
  | join a k b iha ihb =>
    simp only [bare,withRuns,text,plusRun,List.replicate,List.nil_append,List.mem_cons,
      List.mem_append,List.cons_append] at h
    rcases h with h | rfl | h
    · exact iha h
    · decide
    · exact ihb h

theorem sumOf_bare {c : Core} (h : c.Within) : sumOf c.bare.text = .ok c.value := by
  obtain ⟨d,t,hd,_⟩ := c.bare.exists_text_eq_cons
  have hall : c.bare.text.all inSum = true := List.all_eq_true.mpr fun _ => inSum_of_mem_bare
  have hadd : addUp [] 0 true (Token.ofText c.bare.text) = .ok c.value := by
    have htokens : Token.ofText (c.bare.text ++ []) = c.tokens ++ Token.ofText [] :=
      c.ofText_bare rfl
    rw [List.append_nil] at htokens
    rw [htokens,show Token.ofText [] = [] from rfl,addUp_tokens h,Nat.zero_add,addUp]
  rw [sumOf,if_neg (by rw [hall]; simp [hd]),hadd]

end Core

end DrawFormula.Expression
