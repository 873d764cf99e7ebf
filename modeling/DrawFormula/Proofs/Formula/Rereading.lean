import DrawFormula.Proofs.Expression.Respelling
import DrawFormula.Proofs.Formula.Reading

/-! # Reading what was written

A formula that was read from any text is read back from its canonical text just if the text is
steady and the names of its expression are settled. Where it is not, the text of the formula is
again a text for another formula: canonical names next to other characters make new names.
-/
namespace DrawFormula.Formula
open Text

/-! ## Formulas that are read -/

theorem parts?_eq_some {t : Text} {p : Parts} (h : parts? t = some p) :
    ∃ rest, t = '[' :: p.letter :: (p.typeWord ++ ']' :: (p.expression ++ rest)) := by
  unfold parts? at h
  split at h
  · next letter u =>
    split at h
    · have hcat := List.takeWhile_append_dropWhile (p := (· ≠ ']')) (l := u)
      split at h
      · next w ws body htake hdrop =>
        rw [htake,hdrop] at hcat
        obtain ⟨⟨e,s⟩,hsplit,rfl⟩ := Option.map_eq_some_iff.mp h
        obtain ⟨-,rest,rfl,-⟩ := splitSuffix?_eq_some hsplit
        exact ⟨rest,by rw [← hcat]⟩
      · cases h
    · cases h
  · cases h

/-- The parts of a text that is read as a formula. -/
theorem ofCompact_eq_ok {t : Text} {f : Formula} (h : ofCompact t = .ok f) :
    f.Sized ∧ (f.expression.all fun c => c = '+' || c = '-') = false ∧
      ∃ letter e rest, t = '[' :: letter :: (f.resultType.token ++ ']' :: (e ++ rest)) ∧
        f.expression = Expression.normalize e := by
  unfold ofCompact at h
  split at h
  · cases h
  · split at h
    · cases h
    · next p hp =>
      obtain ⟨rest,ht⟩ := parts?_eq_some hp
      simp only at h
      split at h
      · cases h
      · split at h
        · cases h
        · next resultType htype =>
          split at h
          · cases h
          · next hsigns =>
            obtain ⟨hsized,-,hresult,hexpression⟩ := withNumbers_eq_ok h
            have htoken : resultType.token = p.typeWord := by
              simpa using List.find?_some htype
            rw [hexpression,hresult,htoken]
            exact ⟨hsized,by simpa using hsigns,p.letter,p.expression,rest,ht,rfl⟩

/-! ## Reading once more -/

/-- A formula whose text nothing changes on being read. -/
structure Settled (f : Formula) : Prop where
  text : Steady f.text
  expression : Steady f.expression
  parts : Expression.PartsSettled f.expression

theorem weight_load_text {f : Formula} (h : f.Widths) :
    weight load f.text = weight load f.resultType.token + weight load f.expression := by
  have hletter : load f.rule.letter = 0 := by cases f.rule <;> decide
  have hsign : load (offsetSign f.offset) = 0 := by
    rcases offsetSign_cases f.offset with hs | hs <;> rw [hs] <;> decide
  have hmarks : load '[' = 0 ∧ load ']' = 0 := by decide
  have hsuffix : weight load f.suffixText = 0 := by
    rw [weight_eq_zero_iff]
    intro c hc
    rcases mem_suffixText h hc with hd | hm
    · exact load_of_isDigit hd
    · have table : ∀ c ∈ ['=','左','右'], load c = 0 := by decide
      exact table c hm
  rw [text_eq]
  simp only [weight_cons,weight_append]
  omega

/-- A text that is read as the formula it was written from is steady: otherwise it would lose
weight on being read, but the expression that is read has all the weight of the one written. -/
theorem steady_text_of_read {f : Formula} (h : f.Widths) (hc : ∀ c ∈ f.expression, Compact c)
    (hread : ofCompact (digitize f.text) = .ok f) : Steady f.text := by
  by_contra hno
  have hlt := weight_load_digitize_lt hno
  obtain ⟨-,-,letter,e,rest,ht,he⟩ := ofCompact_eq_ok hread
  have hcompact : ∀ c ∈ e, Compact c := by
    intro c hce
    have hmem : c ∈ digitize f.text := by simp [ht,hce]
    rcases mem_of_mem_digitize hmem with hmem | hd | ⟨w,hw,hcw⟩
    · exact compact_text h hc c hmem
    · have hb := toNat_of_isDigit hd
      exact compact_of_toNat (by omega)
    · have hb := mem_word hw hcw
      exact compact_of_toNat (by omega)
  -- Neither conversion nor respelling adds weight, so `e` weighs at least what was written.
  have hle := (Expression.weight_load_normalize_le hcompact).trans (weight_load_digitize_le e)
  rw [weight_load_text h,ht] at hlt
  rw [← he] at hle
  simp only [weight_cons,weight_append] at hlt
  omega

/-- A formula that was read is read back from its canonical text just if it is settled. -/
theorem read_text_iff (t : Text) (f : Formula) (h : read t = .ok f) :
    read f.text = .ok f ↔ f.Settled := by
  obtain ⟨hsized,hsigns,-,e,-,-,he⟩ := ofCompact_eq_ok h
  have hcompact : ∀ c ∈ f.expression, Compact c := by
    rw [he]
    exact fun c hc => Expression.compact_of_mem_normalize hc
  have hdigitized : Digitized f.text := by
    apply digitized_text hsized.widths
    rw [he]
    exact Expression.digitized_normalize e
  have hne := ne_nil_of_not_signs hsigns
  have hnormal := Expression.normalize_normalize_iff e
  rw [← he] at hnormal
  have htext := compact_text hsized.widths hcompact
  constructor
  · intro hread
    rw [read,rawText_text htext,squeeze_eq_self htext] at hread
    have hsteady := steady_text_of_read hsized.widths hcompact hread
    rw [digitize_eq_self hdigitized hsteady,ofCompact_text hsized.widths hne] at hread
    have hkept : Expression.normalize f.expression = f.expression := by
      split at hread
      · cases hread
      · exact (withNumbers_eq_ok hread).2.2.2.symm
    obtain ⟨hexpression,hparts⟩ := hnormal.mp hkept
    exact ⟨hsteady,hexpression,hparts⟩
  · intro hs
    have hreadable : f.Readable :=
      ⟨hsized,hcompact,digitize_eq_self hdigitized hs.text,
        hnormal.mpr ⟨hs.expression,hs.parts⟩,hsigns⟩
    exact hreadable.read_text

/-- The special number and the tail of the period, in canonical names. -/
def canonicalSum : Formula :=
  ⟨.drawn,.tail,['特','号','+','期','数','尾'],3,15,1,1⟩

theorem read_canonicalSum :
    read ['[','l','尾','数','类',']','特','+','期','尾','+','3','=','1','5','左','1','右','1'] =
        .ok canonicalSum ∧ canonicalSum.Settled := by
  have hread : read ['[','l','尾','数','类',']','特','+','期','尾','+','3','=','1','5','左','1',
      '右','1'] = .ok canonicalSum := by decide +kernel
  exact ⟨hread,(read_text_iff _ _ hread).mp (by decide +kernel)⟩

/-- A name of the total before a number character: the two make a name of the total once more. -/
def totalNumber (name : Text) : Formula := ⟨.sorted,.tail,name,0,15,0,0⟩

/-- A formula is not read back from its text where canonical names make new ones. -/
theorem reread_totalNumber :
    read ['[','D','尾','数','类',']','总','数','=','1','5'] =
        .ok (totalNumber ['总','分','数']) ∧
      read (totalNumber ['总','分','数']).text = .ok (totalNumber ['总','分']) ∧
      totalNumber ['总','分'] ≠ totalNumber ['总','分','数'] := by
  decide +kernel

end DrawFormula.Formula
