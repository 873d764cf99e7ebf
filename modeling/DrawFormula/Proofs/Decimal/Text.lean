import DrawFormula.Decimal.Shortest
import DrawFormula.Proofs.Text.Decimal

/-! # Characters of written numbers

The text of a number has digits, signs, a point, the mark of an exponent, and the letters of the
words for infinity and for the absence of a number.
-/
namespace DrawFormula.Decimal

/-- The characters of written numbers. -/
def isNumberChar (c : Char) : Bool := c.isDigit || "+-.eInfinityNaN".toList.contains c

theorem all_ofNat (n : ℕ) : (Text.ofNat n).all isNumberChar = true :=
  List.all_eq_true.mpr fun c hc => by simp [isNumberChar,Text.isDigit_of_mem_ofNat hc]

theorem Digits.all_text (d : Digits) : d.text.all isNumberChar = true := by
  have hzero : isNumberChar '0' = true := rfl
  have hpoint : isNumberChar '.' = true := rfl
  have hzeros (n : ℕ) : (List.replicate n '0').all isNumberChar = true :=
    List.all_eq_true.mpr fun c hc => (List.mem_replicate.mp hc).2 ▸ hzero
  have hdigits := List.all_eq_true.mp (all_ofNat d.digits)
  have htake (n : ℕ) : ((Text.ofNat d.digits).take n).all isNumberChar = true :=
    List.all_eq_true.mpr fun c hc => hdigits c (List.mem_of_mem_take hc)
  have hdrop (n : ℕ) : ((Text.ofNat d.digits).drop n).all isNumberChar = true :=
    List.all_eq_true.mpr fun c hc => hdigits c (List.mem_of_mem_drop hc)
  unfold text
  dsimp only
  split
  · decide
  · split
    · split
      · simp only [List.all_cons,List.all_append,hzero,hpoint,hzeros,all_ofNat,Bool.and_self]
      · split
        · simp only [List.all_cons,List.all_append,htake,hdrop,hpoint,Bool.and_self]
        · simp only [List.all_cons,List.all_append,List.all_nil,hzero,hpoint,hzeros,all_ofNat,
            Bool.and_self]
    · have hmark (point : ℤ) :
          (if point - 1 < 0 then ['e','-'] else ['e','+']).all isNumberChar = true := by
        split <;> decide
      have hpadding (size : Text) :
          (if size.length < 2 then ['0'] else []).all isNumberChar = true := by
        split <;> decide
      have hall := all_ofNat d.digits
      split
      · next first hfirst =>
        rw [hfirst,List.all_cons,Bool.and_eq_true] at hall
        simp only [List.all_cons,List.all_append,hall.1,hmark,hpadding,all_ofNat,Bool.and_self]
      · next first rest _ hfirst =>
        rw [hfirst,List.all_cons,Bool.and_eq_true] at hall
        simp only [List.all_cons,List.all_append,hall.1,hall.2,hpoint,hmark,hpadding,all_ofNat,
          Bool.and_self]
      · rfl

theorem all_text (x : Float) : (text x).all isNumberChar = true := by
  unfold text textWith
  split
  · decide
  · dsimp only
    have hsign : (if isNegative x then ['-'] else []).all isNumberChar = true := by
      split <;> decide
    split
    · rw [List.all_append,hsign]
      decide
    · rw [List.all_append,hsign,Digits.all_text]
      rfl

end DrawFormula.Decimal
