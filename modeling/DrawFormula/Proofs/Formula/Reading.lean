import DrawFormula.Proofs.Expression.Pieces
import DrawFormula.Proofs.Formula.Digitization
import DrawFormula.Proofs.Formula.Suffix

/-! # Reading a written formula

The canonical text of a formula is cut into the parts it was written from, whatever its expression
is. It is read as the formula itself as soon as conversion keeps the text and normalising keeps the
expression.
-/
namespace DrawFormula.Formula
open Text

/-! ## Characters of the written form -/

/-- The bracket with the rule and the result type, up to its end. -/
def headText (f : Formula) : Text := '[' :: f.rule.letter :: f.resultType.token

theorem text_eq_head (f : Formula) : f.text = f.headText ++ ']' ::
    (f.expression ++ offsetSign f.offset :: f.suffixText) := by
  rw [text_eq]
  rfl

/-- A property of the bracket is checked for every rule and every result type. -/
theorem headText_cases {motive : Text → Prop}
    (h : ∀ r ∈ Rule.all, ∀ t ∈ ResultType.all, motive ('[' :: r.letter :: t.token))
    (f : Formula) : motive f.headText := by
  have hr : f.rule ∈ Rule.all := by cases f.rule <;> decide
  have ht : f.resultType ∈ ResultType.all := by cases f.resultType <;> decide
  exact h f.rule hr f.resultType ht

theorem mem_headText (f : Formula) {c : Char} (h : c ∈ f.headText) :
    Compact c ∧ c ≠ ']' ∧ c ≠ '平' ∧ c.toNat < 0xe000 := by
  have table : ∀ c ∈ f.headText, (0x21 ≤ c.toNat ∧ c.toNat ≤ 0x7e ∨ 0x4e00 ≤ c.toNat ∧
      c.toNat ≤ 0x9fff) ∧ c ≠ ']' ∧ c ≠ '平' :=
    headText_cases (motive := fun t => ∀ c ∈ t, (0x21 ≤ c.toNat ∧ c.toNat ≤ 0x7e ∨
      0x4e00 ≤ c.toNat ∧ c.toNat ≤ 0x9fff) ∧ c ≠ ']' ∧ c ≠ '平') (by decide) f
  obtain ⟨hrange,hclose,hping⟩ := table c h
  exact ⟨compact_of_toNat (by omega),hclose,hping,by omega⟩

/-- After the sign of the offset there are only digits and marks. -/
theorem mem_suffixText {f : Formula} (h : f.Widths) {c : Char} (hc : c ∈ f.suffixText) :
    c.isDigit ∨ c ∈ ['=','左','右'] := by
  have hwidth : ∀ mark, ∀ w : ℤ, 0 ≤ w → c ∈ widthText mark w → c = mark ∨ c.isDigit := by
    intro mark w hw hmem
    rcases widthText_eq mark hw with ⟨ht,-⟩ | ⟨ht,-⟩
    · simp [ht] at hmem
    · rw [ht,List.mem_cons] at hmem
      exact hmem.imp_right fun hd => isDigit_of_mem_ofNat hd
  simp only [suffixText,List.mem_append,List.mem_cons] at hc
  rcases hc with hc | rfl | (hc | hc) | hc
  · exact .inl (isDigit_of_mem_ofNat hc)
  · simp
  · exact .inl (isDigit_of_mem_ofNat hc)
  · rcases hwidth _ _ h.left_nonneg hc with rfl | hd
    · simp
    · exact .inl hd
  · rcases hwidth _ _ h.right_nonneg hc with rfl | hd
    · simp
    · exact .inl hd

theorem suffixText_range {f : Formula} (h : f.Widths) {c : Char} (hc : c ∈ f.suffixText) :
    (0x21 ≤ c.toNat ∧ c.toNat ≤ 0x7e ∨ 0x4e00 ≤ c.toNat ∧ c.toNat ≤ 0x9fff) ∧
      isNumeral c = false ∧ c ≠ '平' := by
  rcases mem_suffixText h hc with hd | hmark
  · have hb := toNat_of_isDigit hd
    refine ⟨by omega,isNumeral_of_isDigit hd,?_⟩
    rintro rfl
    exact absurd hb (by decide)
  · have table : ∀ c ∈ ['=','左','右'], (0x21 ≤ c.toNat ∧ c.toNat ≤ 0x7e ∨ 0x4e00 ≤ c.toNat ∧
      c.toNat ≤ 0x9fff) ∧ isNumeral c = false ∧ c ≠ '平' := by decide
    exact table c hmark

theorem offsetSign_cases (v : ℤ) : offsetSign v = '+' ∨ offsetSign v = '-' := by
  unfold offsetSign
  split <;> simp

theorem compact_text {f : Formula} (h : f.Widths) (he : ∀ c ∈ f.expression, Compact c) :
    ∀ c ∈ f.text, Compact c := by
  intro c hc
  rw [text_eq_head] at hc
  simp only [List.mem_append,List.mem_cons] at hc
  rcases hc with hc | rfl | hc | rfl | hc
  · exact (mem_headText f hc).1
  · exact compact_of_toNat (by decide)
  · exact he c hc
  · rcases offsetSign_cases f.offset with hs | hs <;> rw [hs] <;> exact compact_of_toNat (by decide)
  · have hrange := (suffixText_range h hc).1
    exact compact_of_toNat (by omega)

theorem toNat_lt_of_mem_text {f : Formula} (h : f.Widths)
    (he : ∀ c ∈ f.expression, c.toNat < 0xe000) : ∀ c ∈ f.text, c.toNat < 0xe000 := by
  intro c hc
  rw [text_eq_head] at hc
  simp only [List.mem_append,List.mem_cons] at hc
  rcases hc with hc | rfl | hc | rfl | hc
  · exact (mem_headText f hc).2.2.2
  · decide
  · exact he c hc
  · rcases offsetSign_cases f.offset with hs | hs <;> rw [hs] <;> decide
  · have hrange := (suffixText_range h hc).1
    omega

theorem digitized_text {f : Formula} (h : f.Widths) (he : Digitized f.expression) :
    Digitized f.text := by
  have hhead : Digitized f.headText := headText_cases (by decide) f
  have hsuffix : Digitized f.suffixText :=
    digitized_of_forall fun c hc => (suffixText_range h hc).2.1
  have hsign : Digitized [offsetSign f.offset] := by
    rcases offsetSign_cases f.offset with hs | hs <;> rw [hs] <;> decide
  rw [text_eq_head]
  exact hhead.append (Digitized.append (s := [']']) (by decide) (he.append (hsign.append hsuffix)))

/-- The phase of the fifth ping number in a numeral can only be in the expression. -/
theorem pingFivePhase_infix_text {f : Formula} (h : f.Widths) :
    pingFivePhase <:+: f.text ↔ pingFivePhase <:+: f.expression := by
  have hping : '平' ∈ pingFivePhase := by decide
  have hhead : ¬ pingFivePhase <:+: f.headText := fun hi =>
    (mem_headText f (hi.subset hping)).2.2.1 rfl
  have hsuffix : ¬ pingFivePhase <:+: f.suffixText := fun hi =>
    (suffixText_range h (hi.subset hping)).2.2 rfl
  have hsign : offsetSign f.offset ∉ pingFivePhase := by
    rcases offsetSign_cases f.offset with hs | hs <;> rw [hs] <;> decide
  rw [text_eq_head,infix_append_cons_iff (by decide) (by decide),
    infix_append_cons_iff (by decide) hsign]
  tauto

/-! ## The parts of the written form -/

theorem parts?_text {f : Formula} (h : f.Widths) (he : f.expression ≠ []) :
    parts? f.text = some ⟨f.rule.letter,f.resultType.token,f.expression,f.suffix⟩ := by
  have hletter : isLetter f.rule.letter = true := by cases f.rule <;> decide
  have hclose : ∀ c ∈ f.resultType.token, (decide (c ≠ ']')) = true := by
    intro c hc
    have hmem : c ∈ f.headText := List.mem_cons_of_mem _ (List.mem_cons_of_mem _ hc)
    simpa using (mem_headText f hmem).2.1
  have htoken : f.resultType.token ≠ [] := by cases f.resultType <;> decide
  have hsplit := splitSuffix?_append he (not_inSuffix_offsetSign f.offset)
    (readSuffix?_suffixText h)
  obtain ⟨w,ws,hw⟩ := List.exists_cons_of_ne_nil htoken
  rw [text_eq,parts?,if_pos hletter,List.takeWhile_append_of_pos hclose,
    List.dropWhile_append_of_pos hclose]
  simp only [hw,List.takeWhile_cons,List.dropWhile_cons,ne_eq,not_true_eq_false,decide_false,
    Bool.false_eq_true,if_false,List.append_nil,hsplit,Option.map_some]

/-- A written formula is read with its expression normalised. -/
theorem ofCompact_text {f : Formula} (h : f.Widths) (he : f.expression ≠ []) :
    ofCompact f.text = if (Expression.normalize f.expression).all fun c => c = '+' || c = '-' then
      .error (.fault .emptyExpression)
    else withNumbers f.rule f.resultType (Expression.normalize f.expression) f.suffix := by
  have hempty : f.text.isEmpty = false := by simp [text_eq]
  have hrule : Rule.ofLetter? f.rule.letter.toUpper = some f.rule := by
    cases f.rule <;> decide
  have htype : ResultType.ofToken? f.resultType.token = some f.resultType := by
    cases f.resultType <;> decide
  simp only [ofCompact,hempty,Bool.false_eq_true,if_false,parts?_text h he,hrule,htype]

/-! ## Reading back -/

theorem stripDisplayNumber_eq_self {c : Char} (h : isDigit c = false) (t : Text) :
    stripDisplayNumber ('[' :: c :: t) = '[' :: c :: t := by
  have hleft : stripLeft ('[' :: c :: t) = '[' :: c :: t :=
    List.dropWhile_cons_of_neg (by decide)
  have hindex : afterIndex? ('[' :: c :: t) = none := by
    rw [afterIndex?,hleft]
    simp [h]
  have hnumber : afterNumber? ('[' :: c :: t) = none := by
    have hopen : isDigit '[' = false := by decide
    simp [afterNumber?,hleft,hopen]
  simp [stripDisplayNumber,hindex,hnumber]

theorem strip_eq_self {t : Text} (h : ∀ c ∈ t, Compact c) : strip t = t := by
  rw [strip,stripLeft_eq_self (fun c hc => (h c (List.mem_of_mem_head? hc)).2),
    stripRight_eq_self (fun c hc => (h c (List.mem_of_mem_getLast? hc)).2)]

theorem stripDisplayNumber_text (f : Formula) : stripDisplayNumber f.text = f.text := by
  have hletter : isDigit f.rule.letter = false := by cases f.rule <;> decide
  rw [text_eq]
  exact stripDisplayNumber_eq_self hletter _

theorem rawText_text {f : Formula} (h : ∀ c ∈ f.text, Compact c) : rawText f.text = f.text := by
  rw [rawText,halfwidth_eq_self h,strip_eq_self h,stripDisplayNumber_text]

theorem ne_nil_of_not_signs {t : Text} (h : (t.all fun c => c = '+' || c = '-') = false) :
    t ≠ [] := by
  rintro rfl
  cases h

/-- A formula that its written form is read as. -/
structure Readable (f : Formula) : Prop where
  sized : f.Sized
  compact : ∀ c ∈ f.expression, Compact c
  digitize_text : digitize f.text = f.text
  normalize_expression : Expression.normalize f.expression = f.expression
  not_signs : (f.expression.all fun c => c = '+' || c = '-') = false

theorem Readable.compact_text {f : Formula} (h : f.Readable) : ∀ c ∈ f.text, Compact c :=
  Formula.compact_text h.sized.widths h.compact

theorem Readable.ofCompact_text {f : Formula} (h : f.Readable) : ofCompact f.text = .ok f := by
  rw [Formula.ofCompact_text h.sized.widths (ne_nil_of_not_signs h.not_signs),
    h.normalize_expression,h.not_signs,
    withNumbers_suffix h.sized]
  rfl

/-- Every text whose compact form is the written formula is read as the formula. -/
theorem Readable.read_of_rawText {f : Formula} (h : f.Readable) {t : Text}
    (ht : rawText t = f.text) : read t = .ok f := by
  rw [read,ht,squeeze_eq_self h.compact_text,h.digitize_text,h.ofCompact_text]

theorem Readable.read_text {f : Formula} (h : f.Readable) : read f.text = .ok f :=
  h.read_of_rawText (rawText_text h.compact_text)

end DrawFormula.Formula
