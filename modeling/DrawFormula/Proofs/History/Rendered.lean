import DrawFormula.Proofs.History.Entries
import DrawFormula.Proofs.Text.Integer
import DrawFormula.Proofs.Text.Lines
import DrawFormula.Proofs.Text.Splitting

/-! # Draws written on lines

A draw is read back from a line of its period and numbers, whatever stands between them: a gap of
marks and blanks only separates fields. Lines are read one by one, so that a line without a draw has
no influence on the others, and draws of different periods are read back from the lines of a text in
descending order.
-/
namespace DrawFormula.History

/-! ## Fields -/

theorem fieldsOf_append_cons {c : Char} (hc : isSeparator c = true) (s t : Text) :
    fieldsOf (s ++ c :: t) = fieldsOf s ++ fieldsOf t := by
  simp only [fieldsOf,Text.splitAtAll_eq_splitOnP]
  rw [List.splitOnP_append_cons s t hc,List.filter_append]

theorem fieldsOf_cons {c : Char} (hc : isSeparator c = true) (t : Text) :
    fieldsOf (c :: t) = fieldsOf t := fieldsOf_append_cons hc [] t

theorem fieldsOf_append {gap : Text} (h : ∀ c ∈ gap, isSeparator c = true) (t : Text) :
    fieldsOf (gap ++ t) = fieldsOf t := by
  induction gap with
  | nil => rfl
  | cons c gap ih =>
    obtain ⟨hc,hgap⟩ := List.forall_mem_cons.mp h
    rw [List.cons_append,fieldsOf_cons hc,ih hgap]

theorem fieldsOf_field {field : Text} (hne : field ≠ [])
    (h : ∀ c ∈ field, isSeparator c = false) : fieldsOf field = [field] := by
  rw [fieldsOf,Text.splitAtAll_eq_splitOnP,List.splitOnP_eq_singleton h]
  simp [hne]

/-! ## Gaps -/

/-- The marks between fields. -/
def gapMarks : Text := [',',':',';','|','，','；','：']

/-- What stands between two fields: marks, and blanks other than line breaks. -/
def IsGap (gap : Text) : Prop :=
  gap ≠ [] ∧ ∀ c ∈ gap, c ∈ gapMarks ∨ Text.isBlank c = true ∧ Text.isLineBreak c = false

instance (gap : Text) : Decidable (IsGap gap) := inferInstanceAs (Decidable (_ ∧ _))

theorem IsGap.isSeparator {gap : Text} (h : IsGap gap) : ∀ c ∈ gap, isSeparator c = true := by
  intro c hc
  have table : ∀ c ∈ gapMarks, History.isSeparator c = true := by decide
  rcases h.2 c hc with hmark | ⟨hblank,-⟩
  · exact table c hmark
  · rw [History.isSeparator,hblank,Bool.true_or]

theorem IsGap.not_isLineBreak {gap : Text} (h : IsGap gap) :
    ∀ c ∈ gap, Text.isLineBreak c = false := by
  intro c hc
  have table : ∀ c ∈ gapMarks, Text.isLineBreak c = false := by decide
  exact (h.2 c hc).elim (table c) And.right

theorem not_isSeparator_of_mem_ofInt {i : ℤ} {c : Char} (h : c ∈ Text.ofInt i) :
    isSeparator c = false := by
  rcases Text.mem_ofInt h with rfl | hdigit
  · decide
  · have hb := Text.toNat_of_isDigit hdigit
    have hblank := (Text.compact_of_toNat (c := c) (by omega)).2
    have table : ∀ mark ∈ gapMarks, mark.isDigit = false := by decide
    have hmark : c ∉ gapMarks := by
      intro hmem
      rw [table c hmem] at hdigit
      cases hdigit
    have hcontains : List.contains gapMarks c = false := by simpa using hmark
    exact Bool.or_eq_false_iff.mpr ⟨hblank,hcontains⟩

/-! ## Rendered draws -/

/-- The line of a draw with these gaps between its fields. -/
def rendered (d : Draw) (gaps : List Text) : Text :=
  Text.ofInt d.period ++ (gaps.zip d.numbers).flatMap fun part => part.1 ++ Text.ofInt part.2

theorem fieldsOf_rendered {parts : List (Text × ℤ)} (h : ∀ part ∈ parts, IsGap part.1) (i : ℤ) :
    fieldsOf (Text.ofInt i ++ parts.flatMap fun part => part.1 ++ Text.ofInt part.2) =
      (i :: parts.map Prod.snd).map Text.ofInt := by
  induction parts generalizing i with
  | nil =>
    rw [List.flatMap_nil,List.append_nil]
    exact fieldsOf_field (Text.ofInt_ne_nil i) fun c => not_isSeparator_of_mem_ofInt
  | cons part parts ih =>
    obtain ⟨hgap,hparts⟩ := List.forall_mem_cons.mp h
    obtain ⟨c,gap,hcons⟩ := List.exists_cons_of_ne_nil hgap.1
    have hsep := hgap.isSeparator
    rw [hcons,List.forall_mem_cons] at hsep
    rw [List.flatMap_cons,hcons,List.cons_append,List.cons_append,fieldsOf_append_cons hsep.1,
      List.append_assoc,fieldsOf_append hsep.2,ih hparts,
      fieldsOf_field (Text.ofInt_ne_nil i) fun c => not_isSeparator_of_mem_ofInt]
    rfl

theorem integers?_ofInt {is : List ℤ} (h : ∀ i ∈ is, Text.isWritable i = true) :
    integers? (is.map Text.ofInt) = some is := by
  unfold integers?
  induction is with
  | nil => rfl
  | cons i is ih =>
    obtain ⟨hi,his⟩ := List.forall_mem_cons.mp h
    rw [List.map_cons,List.mapM_cons,Text.readInt_ofInt hi,ih his]
    rfl

/-- A draw as it is read from a line: of the given year, without a day, and with a period that can be
written. -/
structure Importable (zodiacYear : ℤ) (d : Draw) : Prop where
  zodiacYear_eq : d.zodiacYear = zodiacYear
  weekday_eq : d.weekday = none
  stemBranch_eq : d.stemBranch = none
  isWritable_period : Text.isWritable d.period = true

theorem isWritable_of_mem_numbers {d : Draw} {n : ℤ} (h : n ∈ d.numbers) :
    Text.isWritable n = true := by
  have hrange := d.numbers_inRange n h
  have hsmall : n.natAbs < 10 ^ 2 := by
    unfold Number.least Number.greatest at hrange
    omega
  rw [Text.isWritable_iff]
  exact hsmall.trans_le (Nat.pow_le_pow_right (by omega) (by decide))

section Lines
variable {zodiacYear : ℤ} {d : Draw} {gaps : List Text}

theorem ofLine_rendered (hd : Importable zodiacYear d) (hlength : gaps.length = 7)
    (hgaps : ∀ gap ∈ gaps, IsGap gap) : ofLine (rendered d gaps) zodiacYear = .ok d := by
  have hnumbers : (gaps.zip d.numbers).map Prod.snd = d.numbers :=
    List.map_snd_zip (by rw [d.length_numbers,hlength])
  have hfields : fieldsOf (rendered d gaps) = (d.period :: d.numbers).map Text.ofInt := by
    rw [rendered,fieldsOf_rendered (fun part hpart => hgaps _ (List.of_mem_zip hpart).1),hnumbers]
  have hintegers : integers? ((d.period :: d.numbers).map Text.ofInt) =
      some (d.period :: d.numbers) :=
    integers?_ofInt (List.forall_mem_cons.mpr
      ⟨hd.isWritable_period,fun n => isWritable_of_mem_numbers⟩)
  have hmake : Draw.make d.period d.numbers zodiacYear none none = .ok d := by
    rw [← hd.zodiacYear_eq,make_eq_ok,← hd.weekday_eq,← hd.stemBranch_eq]
  have hcount : ((d.period :: d.numbers).map Text.ofInt).length = 8 := by
    simp [d.length_numbers]
  simp only [ofLine,hfields,hcount,ne_eq,not_true_eq_false,if_false,hintegers,hmake,
    Except.mapError]

theorem not_isLineBreak_of_mem_rendered (hgaps : ∀ gap ∈ gaps, IsGap gap) {c : Char}
    (hc : c ∈ rendered d gaps) : Text.isLineBreak c = false := by
  have hint : ∀ i : ℤ, c ∈ Text.ofInt i → Text.isLineBreak c = false := by
    intro i hi
    rcases Text.mem_ofInt hi with rfl | hdigit
    · decide
    · have hb := Text.toNat_of_isDigit hdigit
      simp only [Text.isLineBreak,Bool.or_eq_false_iff,Bool.and_eq_false_iff,
        decide_eq_false_iff_not,beq_eq_false_iff_ne]
      omega
  rcases List.mem_append.mp hc with hperiod | hrest
  · exact hint _ hperiod
  · obtain ⟨part,hpart,hc⟩ := List.mem_flatMap.mp hrest
    rcases List.mem_append.mp hc with hgap | hnumber
    · exact (hgaps _ (List.of_mem_zip hpart).1).not_isLineBreak c hgap
    · exact hint _ hnumber

end Lines

/-! ## Texts of rendered draws -/

/-- Lines of rendered draws, in this order, among lines that hold no draw. -/
inductive Interspersed (zodiacYear : ℤ) : List Draw → List Text → Prop
  | nil : Interspersed zodiacYear [] []
  | draw {d : Draw} {gaps : List Text} {draws lines} : gaps.length = 7 →
      (∀ gap ∈ gaps, IsGap gap) → Interspersed zodiacYear draws lines →
      Interspersed zodiacYear (d :: draws) (rendered d gaps :: lines)
  | rejected {line : Text} {draws lines} : (∀ c ∈ line, Text.isLineBreak c = false) →
      (∀ d, ofLine line zodiacYear ≠ .ok d) → Interspersed zodiacYear draws lines →
      Interspersed zodiacYear draws (line :: lines)

/-- The draws on some lines. -/
def drawsOn (zodiacYear : ℤ) (lines : List Text) : List Draw :=
  lines.filterMap fun line => (ofLine line zodiacYear).toOption

theorem ofText_eq (text : Text) (zodiacYear : ℤ) : ofText text zodiacYear =
    (drawsOn zodiacYear (Text.splitLines text)).foldl (fun draws d => insertNew d draws) [] := rfl

section Interspersed
variable {zodiacYear : ℤ} {draws : List Draw} {lines : List Text}

theorem Interspersed.not_isLineBreak (h : Interspersed zodiacYear draws lines) :
    ∀ line ∈ lines, ∀ c ∈ line, Text.isLineBreak c = false := by
  induction h with
  | nil => simp
  | draw _ hgaps _ ih =>
    exact List.forall_mem_cons.mpr ⟨fun c => not_isLineBreak_of_mem_rendered hgaps,ih⟩
  | rejected hline _ _ ih => exact List.forall_mem_cons.mpr ⟨hline,ih⟩

theorem Interspersed.drawsOn_eq (h : Interspersed zodiacYear draws lines)
    (hdraws : ∀ d ∈ draws, Importable zodiacYear d) : drawsOn zodiacYear lines = draws := by
  unfold drawsOn
  induction h with
  | nil => rfl
  | draw hlength hgaps _ ih =>
    obtain ⟨hd,hrest⟩ := List.forall_mem_cons.mp hdraws
    rw [List.filterMap_cons,ofLine_rendered hd hlength hgaps,ih hrest]
    rfl
  | @rejected line draws lines _ hnone _ ih =>
    have hline : (ofLine line zodiacYear).toOption = none := by
      cases hread : ofLine line zodiacYear with
      | error e => rfl
      | ok d => exact absurd hread (hnone d)
    rw [List.filterMap_cons,hline,ih hdraws]

/-- An empty line at the end of a text makes no difference. -/
theorem drawsOn_joinLines (h : ∀ line ∈ lines, ∀ c ∈ line, Text.isLineBreak c = false) :
    drawsOn zodiacYear (Text.splitLines (Text.joinLines lines)) = drawsOn zodiacYear lines := by
  rcases Text.splitLines_joinLines_or h with hsplit | hempty
  · rw [hsplit]
  · have hnone : drawsOn zodiacYear [[]] = [] := rfl
    conv_rhs => rw [hempty]
    rw [drawsOn,drawsOn,List.filterMap_append]
    exact (List.append_nil _).symm

end Interspersed

theorem foldl_insertNew {draws : List Draw} (h : (draws.map Draw.period).Nodup) :
    draws.foldl (fun draws d => insertNew d draws) [] =
      draws.mergeSort fun a b => b.period ≤ a.period := by
  have hlookup : ∀ p, drawOf? p (draws.foldl (fun draws d => insertNew d draws) []) =
      drawOf? p draws := fun p => (drawOf?_foldl_insertNew .nil p draws).2
  have hdescending := (drawOf?_foldl_insertNew .nil 0 draws).1
  have hperm : (draws.foldl (fun draws d => insertNew d draws) []).Perm draws :=
    (List.perm_ext_iff_of_nodup (.of_map _ hdescending.nodup) (.of_map _ h)).mpr fun d => by
      rw [hdescending.mem_iff,hlookup,← mem_iff_drawOf? h]
  have hsorted : (draws.mergeSort fun a b => b.period ≤ a.period).Pairwise
      fun a b => decide (b.period ≤ a.period) = true := by
    apply List.pairwise_mergeSort
    · intro a b c hab hbc
      simp only [decide_eq_true_eq] at hab hbc ⊢
      omega
    · intro a b
      simp only [Bool.or_eq_true,decide_eq_true_eq]
      omega
  refine (hperm.trans (List.mergeSort_perm _ _).symm).eq_of_pairwise (fun a b ha hb hab hba => ?_)
    (hdescending.imp fun hlt => by simpa using hlt.le) hsorted
  -- two draws that are not later than each other have one period
  have hperiod : a.period = b.period := by
    simp only [decide_eq_true_eq] at hab hba
    omega
  exact List.inj_on_of_nodup_map h (hperm.mem_iff.mp ha) (List.mem_mergeSort.mp hb) hperiod

/-- The draws of a text are those on its lines, of each period the first one. -/
theorem mem_ofText_iff {text : Text} {zodiacYear : ℤ} {d : Draw} :
    d ∈ ofText text zodiacYear ↔ ∃ before line after,
      Text.splitLines text = before ++ line :: after ∧ ofLine line zodiacYear = .ok d ∧
        ∀ l ∈ before, ∀ e, ofLine l zodiacYear = .ok e → e.period ≠ d.period := by
  have htoOption : ∀ {line : Text} {e : Draw},
      (ofLine line zodiacYear).toOption = some e ↔ ofLine line zodiacYear = .ok e := by
    intro line e
    cases ofLine line zodiacYear <;> simp [Except.toOption]
  rw [(descending_ofText text zodiacYear).mem_iff,drawOf?_ofText,firstOnLines?,
    List.findSome?_eq_some_iff]
  simp only [Option.filter_eq_some_iff,Option.filter_eq_none_iff,htoOption,decide_eq_true_eq,
    and_true,ne_eq]

theorem isWritable_of_integers? {fields : List Text} {is : List ℤ}
    (h : integers? fields = some is) : ∀ i ∈ is, Text.isWritable i = true := by
  unfold integers? at h
  induction fields generalizing is with
  | nil =>
    obtain rfl : [] = is := by simpa using h
    simp
  | cons field fields ih =>
    rw [List.mapM_cons] at h
    obtain ⟨i,hi,h⟩ := Option.bind_eq_some_iff.mp h
    obtain ⟨rest,hrest,hcons⟩ := Option.bind_eq_some_iff.mp h
    obtain rfl : i :: rest = is := by simpa using hcons
    refine List.forall_mem_cons.mpr ⟨?_,ih hrest⟩
    cases hread : Text.readInt field with
    | error e => simp [hread,Except.toOption] at hi
    | ok n =>
      obtain rfl : n = i := by simpa [hread,Except.toOption] using hi
      exact Text.isWritable_of_readInt hread

/-- A rule of draws that a line breaks is broken by integers that can be written. -/
theorem exists_make_of_ofLine {line : Text} {zodiacYear : ℤ} {e : DrawError}
    (h : ofLine line zodiacYear = .error (.draw e)) : ∃ period numbers,
      Draw.make period numbers zodiacYear none none = .error e ∧
        ∀ n ∈ period :: numbers, Text.isWritable n = true := by
  simp only [ofLine] at h
  split at h
  · cases h
  · split at h
    · next period numbers hintegers =>
      refine ⟨period,numbers,?_,isWritable_of_integers? hintegers⟩
      cases hmake : Draw.make period numbers zodiacYear none none with
      | error e' =>
        rw [hmake] at h
        injection h with h
        injection h with h
        rw [h]
      | ok d =>
        rw [hmake] at h
        cases h
    · cases h

/-- What is read from a text, of any year: the draws on its lines, in descending order, of each
period the first one. Where a line breaks a rule of draws, the integers that the error names can be
written. Draws of different periods, rendered in any order and with any gaps among lines that hold
no draw, are read back in descending order. -/
theorem ofText_reads_renderings (zodiacYear : ℤ) :
    (∀ text, Descending (ofText text zodiacYear) ∧
      ∀ d, d ∈ ofText text zodiacYear ↔ ∃ before line after,
        Text.splitLines text = before ++ line :: after ∧ ofLine line zodiacYear = .ok d ∧
          ∀ l ∈ before, ∀ e, ofLine l zodiacYear = .ok e → e.period ≠ d.period) ∧
    (∀ line e, ofLine line zodiacYear = .error (.draw e) → ∃ period numbers,
      Draw.make period numbers zodiacYear none none = .error e ∧
        ∀ n ∈ period :: numbers, Text.isWritable n = true) ∧
    ∀ draws lines, (draws.map Draw.period).Nodup → (∀ d ∈ draws, Importable zodiacYear d) →
      Interspersed zodiacYear draws lines →
        ofText (Text.joinLines lines) zodiacYear =
            draws.mergeSort (fun a b => b.period ≤ a.period) ∧
          ∀ text, Text.splitLines text = lines →
            ofText text zodiacYear = draws.mergeSort (fun a b => b.period ≤ a.period) := by
  refine ⟨fun text => ⟨descending_ofText text zodiacYear,fun d => mem_ofText_iff⟩,
    fun line e => exists_make_of_ofLine,?_⟩
  intro draws lines hnodup hdraws hlines
  have hread := hlines.drawsOn_eq hdraws
  constructor
  · rw [ofText_eq,drawsOn_joinLines hlines.not_isLineBreak,hread,foldl_insertNew hnodup]
  · intro text htext
    rw [ofText_eq,htext,hread,foldl_insertNew hnodup]

/-- The draw of the numbers from 1 to 7. -/
def firstSeven (period : ℤ) : Draw where
  period := period
  numbers := [1,2,3,4,5,6,7]
  zodiacYear := 3
  weekday := none
  stemBranch := none
  length_numbers := rfl
  nodup_numbers := by decide
  numbers_inRange := by decide
  year_inRange := by decide

theorem ofText_reads_renderings_negative :
    let rejected : List Text := [[],"3 1 1 2 3 4 5 6".toList]
    let lines := [rendered (firstSeven (-4)) (List.replicate 7 "，\t".toList)] ++ rejected ++
      [rendered (firstSeven 12) (List.replicate 7 ['|'])]
    (∀ line ∈ rejected, ∀ d, ofLine line 3 ≠ .ok d) ∧
      ofText (Text.joinLines lines) 3 = [firstSeven 12,firstSeven (-4)] := by
  intro rejected lines
  have hrejected : ∀ line ∈ rejected, ∀ d, ofLine line 3 ≠ .ok d := by
    have hnone : ∀ line ∈ rejected, (ofLine line 3).toOption = none := by decide +kernel
    intro line hline d hd
    have hread := hnone line hline
    rw [hd] at hread
    cases hread
  have hbreaks : ∀ line ∈ rejected, ∀ c ∈ line, Text.isLineBreak c = false := by decide
  have himportable : ∀ d ∈ [firstSeven (-4),firstSeven 12], Importable 3 d := by
    intro d hd
    simp only [List.mem_cons,List.not_mem_nil,or_false] at hd
    rcases hd with rfl | rfl <;> exact ⟨rfl,rfl,rfl,by decide⟩
  have hlines : Interspersed 3 [firstSeven (-4),firstSeven 12] lines :=
    .draw rfl (by decide) (.rejected (hbreaks _ (by decide)) (hrejected _ (by decide))
      (.rejected (hbreaks _ (by decide)) (hrejected _ (by decide))
        (.draw rfl (by decide) .nil)))
  have hread := (ofText_reads_renderings 3).2.2 _ _ (by decide) himportable hlines
  refine ⟨hrejected,hread.1.trans ?_⟩
  simp [List.mergeSort,List.MergeSort.Internal.splitInTwo,firstSeven]

/-- The wide form of the bar is no gap, unlike those of the other marks. -/
theorem ofText_wide_bar :
    let line := rendered (firstSeven 1) (List.replicate 7 ['｜'])
    line = "1｜1｜2｜3｜4｜5｜6｜7".toList ∧ Importable 3 (firstSeven 1) ∧
      ofText (Text.joinLines [line]) 3 = [] :=
  ⟨rfl,⟨rfl,rfl,rfl,by decide⟩,by decide +kernel⟩

end DrawFormula.History
