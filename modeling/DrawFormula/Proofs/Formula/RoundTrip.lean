import DrawFormula.Proofs.Expression.Normalization
import DrawFormula.Proofs.Formula.DisplayNumber
import DrawFormula.Proofs.Text.Lines

/-! # Formulas that are written and read

A formula whose expression is a sum of canonical names is read back from its text, also behind a
display number and as a line of a batch. Hence no two such formulas have one text.
-/
namespace DrawFormula.Formula
open Text

/-! ## Sums of canonical names -/

/-- The sum of the names of some elements. -/
def sumOfNames (es : List Element) : Text := List.intercalate ['+'] (es.map Element.name)

theorem sumOfNames_cons (e e' : Element) (es : List Element) :
    sumOfNames (e :: e' :: es) = e.name ++ '+' :: sumOfNames (e' :: es) := by
  simp [sumOfNames,List.intercalate]

/-- A sum of canonical names is a tree that is normal already. -/
theorem exists_tree {es : List Element} (hne : es ≠ []) (h : ∀ e ∈ es, e ∈ Element.all) :
    ∃ t : Expression.Tree Expression.Condition,
      t.text = sumOfNames es ∧ t.normal.text = sumOfNames es ∧ t.InRange := by
  induction es with
  | nil => exact absurd rfl hne
  | cons e es ih =>
    let s : Expression.Spelling := ⟨e.name,e,Element.mem_spellings_of_mem_all (h e (by simp))⟩
    cases es with
    | nil =>
      have hname : sumOfNames [e] = e.name := by simp [sumOfNames,List.intercalate]
      exact ⟨.element s,hname.symm,hname.symm,h e (by simp)⟩
    | cons e' es =>
      obtain ⟨t,ht,hn,hrange⟩ := ih (by simp) (fun d hd => h d (by simp [hd]))
      refine ⟨.join (.element s) .plus t,?_,?_,h e (by simp),hrange⟩
      · rw [sumOfNames_cons,Expression.Tree.text,ht]
        rfl
      · rw [sumOfNames_cons,Expression.Tree.normal,Expression.Tree.text,hn]
        rfl

/-- A formula as a search builds it. -/
structure Composed (f : Formula) : Prop where
  names : ∃ es : List Element, es ≠ [] ∧ (∀ e ∈ es, e ∈ Element.all) ∧
    f.expression = sumOfNames es
  sized : f.Sized

theorem sumOfNames_not_signs {es : List Element} (hne : es ≠ [])
    (h : ∀ e ∈ es, e ∈ Element.all) :
    ((sumOfNames es).all fun c => c = '+' || c = '-') = false := by
  obtain ⟨e,es,rfl⟩ := List.exists_cons_of_ne_nil hne
  have hmem := Element.mem_spellings_of_mem_all (h e (by simp))
  obtain ⟨c,rest,hname⟩ := List.exists_cons_of_ne_nil (Element.spelling_ne_nil hmem)
  have hc : c ∈ e.name := by
    have hfst : e.name = c :: rest := hname
    simp [hfst]
  have hsum : c ∈ sumOfNames (e :: es) := by
    cases es with
    | nil => simpa [sumOfNames,List.intercalate] using hc
    | cons e' es =>
      rw [sumOfNames_cons]
      exact List.mem_append_left _ hc
  have hrange := Element.mem_spelling hmem hc
  rw [List.all_eq_false]
  refine ⟨c,hsum,?_⟩
  have hcodes : '+'.toNat = 43 ∧ '-'.toNat = 45 := by decide
  simp only [Bool.or_eq_true,decide_eq_true_eq,← Char.toNat_inj]
  omega

/-- The expression of a formula is a tree in normal form with something besides signs. -/
structure Treelike (f : Formula) : Prop where
  tree : ∃ t : Expression.Tree Expression.Condition,
    t.text = f.expression ∧ t.normal.text = f.expression
  not_signs : (f.expression.all fun c => c = '+' || c = '-') = false

section Trees
variable {f : Formula}

theorem Treelike.compact (h : f.Treelike) : ∀ c ∈ f.expression, Compact c := by
  obtain ⟨t,ht,-⟩ := h.tree
  rw [← ht]
  exact fun c hc => compact_of_toNat (Expression.Tree.written_of_mem_text t c hc)

theorem Treelike.normalize_expression (h : f.Treelike) :
    Expression.normalize f.expression = f.expression := by
  obtain ⟨t,ht,hn⟩ := h.tree
  rw [← ht,Expression.Tree.normalize_text,hn,ht]

theorem Treelike.digitize_text (h : f.Treelike) (hw : f.Widths) : digitize f.text = f.text := by
  obtain ⟨t,ht,-⟩ := h.tree
  have hwritten := Expression.Tree.written_of_mem_text t
  have hdigitized := Expression.Tree.digitized_text t
  have hsteady := (Expression.Tree.steady_text t).pingFive
  rw [ht] at hwritten hdigitized hsteady
  apply digitize_eq_self (digitized_text hw hdigitized)
  apply steady_of_lt
  · apply toNat_lt_of_mem_text hw
    intro c hc
    have hrange := hwritten c hc
    unfold Expression.Tree.Written at hrange
    omega
  · rwa [pingFivePhase_infix_text hw]

/-- The text of such a formula is read up to its numbers, which may be too long. -/
theorem Treelike.read_text (h : f.Treelike) (hw : f.Widths) :
    read f.text = withNumbers f.rule f.resultType f.expression f.suffix := by
  have hcompact := compact_text hw h.compact
  rw [read,rawText_text hcompact,squeeze_eq_self hcompact,h.digitize_text hw,
    ofCompact_text hw (ne_nil_of_not_signs h.not_signs),h.normalize_expression,h.not_signs]
  rfl

theorem Treelike.readable (h : f.Treelike) (hf : f.Sized) : f.Readable :=
  ⟨hf,h.compact,h.digitize_text hf.widths,h.normalize_expression,h.not_signs⟩

end Trees

theorem Composed.treelike {f : Formula} (h : f.Composed) : f.Treelike := by
  obtain ⟨es,hne,hall,he⟩ := h.names
  obtain ⟨t,ht,hn,-⟩ := exists_tree hne hall
  exact ⟨⟨t,ht.trans he.symm,hn.trans he.symm⟩,by rw [he]; exact sumOfNames_not_signs hne hall⟩

theorem Composed.readable {f : Formula} (h : f.Composed) : f.Readable :=
  h.treelike.readable h.sized

/-! ## Lines of a batch -/

theorem cleanLine_append {f : Formula} (h : ∀ c ∈ f.text, Compact c) {p : Text}
    (hp : LineIndex p) : Batch.cleanLine (p ++ f.text) = f.text := by
  rw [Batch.cleanLine,hp.dropIndex_append (opensFormula_text f),strip_eq_self h]

theorem splitLines_append {f : Formula} (h : ∀ c ∈ f.text, Compact c) {p : Text}
    (hline : ∀ c ∈ p, isLineBreak c = false) : splitLines (p ++ f.text) = [p ++ f.text] := by
  have hne : f.text ≠ [] := by simp [text_eq]
  apply splitLines_singleton (by simp [hne])
  intro c hc
  rw [List.mem_append] at hc
  rcases hc with hc | hc
  · exact hline c hc
  · by_contra hb
    have hblank := isBlank_of_isLineBreak (by simpa using hb)
    rw [(h c hc).2] at hblank
    cases hblank

theorem Readable.readLine_text {f : Formula} (h : f.Readable) (place : ℤ) :
    readLine f.text place = .ok ⟨f,f.text,place⟩ := by
  rw [readLine,h.read_text,rawText_text h.compact_text]
  rfl

/-- A batch of one line with an index holds the formula alone. -/
theorem Readable.read_batch {f : Formula} (h : f.Readable) {p : Text} (hp : LineIndex p)
    (hline : ∀ c ∈ p, isLineBreak c = false) :
    Batch.read (p ++ f.text) = .ok ⟨[⟨f,f.text,0⟩],[]⟩ := by
  have hclean := cleanLine_append h.compact_text hp
  have hread := h.readLine_text 0
  have hempty : f.text.isEmpty = false := by simp [text_eq]
  rw [Batch.read,splitLines_append h.compact_text hline]
  simp [Batch.addLines,Batch.addLine,hclean,hempty,hread,Except.map]

/-- A formula that a search builds is read back from its text, also behind a display number or the
index of a line, and no other such formula has its text. -/
theorem read_composed (f : Formula) (h : f.Composed) :
    read f.text = .ok f ∧ (∀ p, DisplayNumber p → read (p ++ f.text) = .ok f) ∧
      (∀ p, LineIndex p →
        (∀ place, readLine (Batch.cleanLine (p ++ f.text)) place = .ok ⟨f,f.text,place⟩) ∧
        ((∀ c ∈ p, isLineBreak c = false) →
          Batch.read (p ++ f.text) = .ok ⟨[⟨f,f.text,0⟩],[]⟩)) ∧
      ∀ g : Formula, g.Composed → g.text = f.text → g = f := by
  have hf := h.readable
  refine ⟨hf.read_text,fun p hp => ?_,fun p hp => ⟨fun place => ?_,hf.read_batch hp⟩,
    fun g hg htext => ?_⟩
  · exact hf.read_of_rawText (hp.rawText_append hf.compact_text)
  · rw [cleanLine_append hf.compact_text hp]
    exact hf.readLine_text place
  · have hread := hg.readable.read_text
    rw [htext,hf.read_text] at hread
    exact (Except.ok.inj hread).symm

/-- The sum of the special number and a reading of the period. -/
def twoNames : Formula :=
  ⟨.drawn,.tail,sumOfNames [.special .number,.period .tail],-3,15,1,0⟩

theorem read_twoNames :
    twoNames.text = ['[','L','尾','数','类',']','特','号','+','期','数','尾','-','3','=','1','5',
        '左','1'] ∧
      twoNames.Composed ∧ read twoNames.text = .ok twoNames ∧
      read (['1','、',' '] ++ twoNames.text) = .ok twoNames ∧
      Batch.read (['[','0','0','1',']'] ++ twoNames.text) =
        .ok ⟨[⟨twoNames,twoNames.text,0⟩],[]⟩ := by
  have hcomposed : twoNames.Composed := by
    refine ⟨⟨[.special .number,.period .tail],by simp,by decide,rfl⟩,?_⟩
    exact ⟨by decide,by decide +kernel,by decide +kernel,by decide,by decide +kernel,by decide,
      by decide +kernel⟩
  have hread := read_composed twoNames hcomposed
  have hnumber : DisplayNumber ['1','、',' '] :=
    ⟨[],['1','、'],[' '],rfl,by simp,.marked ['1'] '、' (by simp) (by decide) (by decide),by decide⟩
  have hindex : LineIndex ['[','0','0','1',']'] := ⟨[],['0','0','1'],[],rfl,by simp,by decide,by simp⟩
  exact ⟨by decide +kernel,hcomposed,hread.1,hread.2.1 _ hnumber,
    (hread.2.2.1 _ hindex).2 (by decide)⟩

end DrawFormula.Formula
