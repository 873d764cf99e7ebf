import DrawFormula.Proofs.Formula.Overlong
import Mathlib.Data.List.Induction

/-! # What becomes of the lines of a batch

A line without anything left of it is passed over. Every other line gives a formula, or else one
diagnostic: of what is wrong with it, or that an earlier line gave the same formula before. This is
said of the lines that are read so far, and each line that is read after them keeps it.
-/
namespace DrawFormula.Batch
variable {texts : List Text} {text : Text} {l : FormulaLine} {d : Diagnostic}

/-! ## Lines and formulas -/

/-- Whether one of the texts is read as a formula at its place. -/
def Yields (texts : List Text) (l : FormulaLine) : Prop :=
  ∃ (i : ℕ) (text : Text), texts[i]? = some text ∧ Formula.readLine text i = .ok l

/-- Whether one of the texts, and none before it, is read as this formula. -/
def YieldsFirst (texts : List Text) (l : FormulaLine) : Prop :=
  Yields texts l ∧ ∀ other, Yields texts other → other.formula = l.formula → l.index ≤ other.index

theorem index_of_readLine {i : ℤ} (h : Formula.readLine text i = .ok l) : l.index = i := by
  unfold Formula.readLine at h
  cases hread : Formula.read text with
  | error e => simp [hread,Except.map] at h
  | ok f =>
    simp only [hread,Except.map,Except.ok.injEq] at h
    rw [← h]

theorem readLine_eq_error_iff {i : ℤ} {e : FormulaError} :
    Formula.readLine text i = .error e ↔ Formula.read text = .error e := by
  unfold Formula.readLine
  cases Formula.read text <;> simp [Except.map]

theorem read_ne_error {i : ℤ} (h : Formula.readLine text i = .ok l) (e : FormulaError) :
    Formula.read text ≠ .error e := by
  intro herror
  rw [readLine_eq_error_iff.mpr herror] at h
  cases h

theorem ne_nil_of_readLine {i : ℤ} (h : Formula.readLine text i = .ok l) : text ≠ [] := by
  rintro rfl
  exact read_ne_error h (.fault .empty) rfl

theorem Yields.index_range (h : Yields texts l) : 0 ≤ l.index ∧ l.index < texts.length := by
  obtain ⟨i,text,htext,hread⟩ := h
  obtain ⟨hi,-⟩ := List.getElem?_eq_some_iff.mp htext
  rw [index_of_readLine hread]
  omega

/-- Two formulas from one place are the same. -/
theorem Yields.eq_of_index {l' : FormulaLine} (h : Yields texts l) (h' : Yields texts l')
    (heq : l.index = l'.index) : l = l' := by
  obtain ⟨i,text,htext,hread⟩ := h
  obtain ⟨j,text',htext',hread'⟩ := h'
  rw [index_of_readLine hread,index_of_readLine hread',Nat.cast_inj] at heq
  subst heq
  rw [htext] at htext'
  obtain rfl := Option.some.inj htext'
  rw [hread] at hread'
  exact Except.ok.inj hread'

/-- What holds at a place of a longer list held before, or the place is the last one. -/
theorem getElem?_concat_iff {i : ℕ} {next : Text} : (texts ++ [next])[i]? = some text ↔
    texts[i]? = some text ∨ i = texts.length ∧ next = text := by
  rcases lt_trichotomy i texts.length with hlt | rfl | hgt
  · rw [List.getElem?_append_left hlt]
    constructor
    · exact .inl
    · rintro (h | ⟨rfl,-⟩)
      · exact h
      · exact absurd hlt (lt_irrefl _)
  · simp
  · rw [List.getElem?_eq_none (by simpa using Nat.succ_le_of_lt hgt),List.getElem?_eq_none hgt.le]
    simp [hgt.ne']

theorem getElem?_concat_self (texts : List Text) (text : Text) :
    (texts ++ [text])[texts.length]? = some text := List.getElem?_concat_length

theorem yields_concat_iff : Yields (texts ++ [text]) l ↔
    Yields texts l ∨ Formula.readLine text texts.length = .ok l := by
  constructor
  · rintro ⟨i,other,hother,hread⟩
    rcases getElem?_concat_iff.mp hother with hold | ⟨rfl,rfl⟩
    · exact .inl ⟨i,other,hold,hread⟩
    · exact .inr hread
  · rintro (⟨i,other,hother,hread⟩ | hread)
    · exact ⟨i,other,getElem?_concat_iff.mpr (.inl hother),hread⟩
    · exact ⟨texts.length,text,getElem?_concat_iff.mpr (.inr ⟨rfl,rfl⟩),hread⟩

theorem yieldsFirst_concat_iff : YieldsFirst (texts ++ [text]) l ↔ YieldsFirst texts l ∨
    Formula.readLine text texts.length = .ok l ∧
      ∀ other, Yields texts other → other.formula ≠ l.formula := by
  constructor
  · rintro ⟨hl,hfirst⟩
    have hearlier : ∀ other, Yields texts other → other.formula = l.formula →
        l.index ≤ other.index := fun other hother => hfirst other (yields_concat_iff.mpr (.inl hother))
    rcases yields_concat_iff.mp hl with hold | hread
    · exact .inl ⟨hold,hearlier⟩
    · refine .inr ⟨hread,fun other hother heq => ?_⟩
      have hle := hearlier other hother heq
      have hlt := hother.index_range.2
      rw [index_of_readLine hread] at hle
      omega
  · rintro (⟨hl,hfirst⟩ | ⟨hread,hnew⟩)
    · refine ⟨yields_concat_iff.mpr (.inl hl),fun other hother heq => ?_⟩
      rcases yields_concat_iff.mp hother with hold | hlast
      · exact hfirst other hold heq
      · rw [index_of_readLine hlast]
        exact hl.index_range.2.le
    · refine ⟨yields_concat_iff.mpr (.inr hread),fun other hother heq => ?_⟩
      rcases yields_concat_iff.mp hother with hold | hlast
      · exact absurd heq (hnew other hold)
      · rw [index_of_readLine hread,index_of_readLine hlast]

/-- What is read at all is read somewhere first. -/
theorem Yields.exists_first (h : Yields texts l) :
    ∃ first, YieldsFirst texts first ∧ first.formula = l.formula ∧ first.index ≤ l.index := by
  induction texts using List.reverseRecOn generalizing l with
  | nil =>
    obtain ⟨i,text,htext,-⟩ := h
    simp at htext
  | append_singleton texts text ih =>
    rcases yields_concat_iff.mp h with hold | hread
    · obtain ⟨first,hfirst,hsame⟩ := ih hold
      exact ⟨first,yieldsFirst_concat_iff.mpr (.inl hfirst),hsame⟩
    · by_cases hnew : ∀ other, Yields texts other → other.formula ≠ l.formula
      · exact ⟨l,yieldsFirst_concat_iff.mpr (.inr ⟨hread,hnew⟩),rfl,le_rfl⟩
      · simp only [not_forall,not_not] at hnew
        obtain ⟨other,hother,heq⟩ := hnew
        obtain ⟨first,hfirst,hsame,-⟩ := ih hother
        refine ⟨first,yieldsFirst_concat_iff.mpr (.inl hfirst),hsame.trans heq,?_⟩
        rw [index_of_readLine hread]
        exact hfirst.1.index_range.2.le

/-! ## Diagnostics -/

/-- What is wrong with the texts, as long as they can be read. -/
inductive Reported (texts : List Text) : Diagnostic → Prop where
  | fault {i : ℕ} {text : Text} {fault : ParseFault} : texts[i]? = some text → text ≠ [] →
    Formula.read text = .error (.fault fault) → Reported texts (.fault fault text (i + 1))
  | duplicate {i : ℕ} {text : Text} {l first : FormulaLine} : texts[i]? = some text →
    Formula.readLine text i = .ok l → YieldsFirst texts first → first.formula = l.formula →
    first.index < i → Reported texts (.duplicate text (i + 1) (first.index.toNat + 1))

theorem Reported.line_range (h : Reported texts d) : 0 < d.line ∧ d.line ≤ texts.length := by
  cases h with
  | fault htext | duplicate htext =>
    obtain ⟨hi,-⟩ := List.getElem?_eq_some_iff.mp htext
    exact ⟨Nat.succ_pos _,hi⟩

theorem Reported.concat (h : Reported texts d) (next : Text) : Reported (texts ++ [next]) d := by
  cases h with
  | fault htext hne hread => exact .fault (getElem?_concat_iff.mpr (.inl htext)) hne hread
  | duplicate htext hread hfirst heq hlt =>
    exact .duplicate (getElem?_concat_iff.mpr (.inl htext)) hread
      (yieldsFirst_concat_iff.mpr (.inl hfirst)) heq hlt

/-- A text that follows brings no diagnostic but its own. -/
theorem Reported.of_concat (h : Reported (texts ++ [text]) d) : Reported texts d ∨
    (text ≠ [] ∧ ∃ fault, Formula.read text = .error (.fault fault) ∧
      d = .fault fault text (texts.length + 1)) ∨
    ∃ l first, Formula.readLine text texts.length = .ok l ∧ YieldsFirst texts first ∧
      first.formula = l.formula ∧
      d = .duplicate text (texts.length + 1) (first.index.toNat + 1) := by
  cases h with
  | fault htext hne hread =>
    rcases getElem?_concat_iff.mp htext with hold | ⟨rfl,rfl⟩
    · exact .inl (.fault hold hne hread)
    · exact .inr (.inl ⟨hne,_,hread,rfl⟩)
  | @duplicate i other l first htext hread hfirst heq hlt =>
    have hbefore : i ≤ texts.length := by
      obtain ⟨hi,-⟩ := List.getElem?_eq_some_iff.mp htext
      simpa [Nat.lt_succ_iff] using hi
    -- the first one stands before the repeated one, hence not at the new place
    have hold : YieldsFirst texts first := by
      rcases yieldsFirst_concat_iff.mp hfirst with hold | ⟨hlast,-⟩
      · exact hold
      · rw [index_of_readLine hlast] at hlt
        omega
    rcases getElem?_concat_iff.mp htext with htext | ⟨rfl,rfl⟩
    · exact .inl (.duplicate htext hread hold heq hlt)
    · exact .inr (.inr ⟨l,first,hread,hold,heq,rfl⟩)

/-! ## One line -/

theorem addLine_cases {batch batch' : Batch} {index : ℕ} {line : Text}
    (h : addLine batch index line = .ok batch') :
    (cleanLine line = [] ∧ batch' = batch) ∨
    (cleanLine line ≠ [] ∧ ∃ fault, Formula.read (cleanLine line) = .error (.fault fault) ∧
      batch' = { batch with
        diagnostics := .fault fault (cleanLine line) (index + 1) :: batch.diagnostics }) ∨
    ∃ l, Formula.readLine (cleanLine line) index = .ok l ∧
      ((∃ first ∈ batch.formulas, first.formula = l.formula ∧ batch' = { batch with
          diagnostics := .duplicate (cleanLine line) (index + 1) (first.index.toNat + 1) ::
            batch.diagnostics }) ∨
        (∀ earlier ∈ batch.formulas, earlier.formula ≠ l.formula) ∧
          batch' = { batch with formulas := l :: batch.formulas }) := by
  unfold addLine at h
  by_cases hclean : (cleanLine line).isEmpty = true
  · rw [if_pos hclean] at h
    exact .inl ⟨List.isEmpty_iff.mp hclean,(Except.ok.inj h).symm⟩
  · rw [if_neg hclean] at h
    have hne : cleanLine line ≠ [] := fun hnil => hclean (List.isEmpty_iff.mpr hnil)
    right
    cases hread : Formula.readLine (cleanLine line) index with
    | error e =>
      cases e with
      | fault fault =>
        simp only [hread,Except.ok.injEq] at h
        exact .inl ⟨hne,fault,readLine_eq_error_iff.mp hread,h.symm⟩
      | numeral e =>
        rw [hread] at h
        cases h
    | ok l =>
      refine .inr ⟨l,rfl,?_⟩
      cases hfind : batch.formulas.find? fun earlier => earlier.formula = l.formula with
      | some first =>
        simp only [hread,hfind,Except.ok.injEq] at h
        have hsame := List.find?_some hfind
        exact .inl ⟨first,List.mem_of_find?_eq_some hfind,by simpa using hsame,h.symm⟩
      | none =>
        simp only [hread,hfind,Except.ok.injEq] at h
        have hnone := List.find?_eq_none.mp hfind
        exact .inr ⟨fun earlier hmem => by simpa using hnone earlier hmem,h.symm⟩

/-! ## All lines -/

/-- Whether a batch, kept in reverse, holds what the texts give and nothing else, in order. -/
structure Accounts (texts : List Text) (batch : Batch) : Prop where
  formulas : ∀ l, l ∈ batch.formulas ↔ YieldsFirst texts l
  diagnostics : ∀ d, d ∈ batch.diagnostics ↔ Reported texts d
  descending : batch.formulas.Pairwise fun l l' => l'.index < l.index
  diagnostics_descending : batch.diagnostics.Pairwise fun d d' => d'.line < d.line

theorem accounts_nil : Accounts [] ⟨[],[]⟩ where
  formulas l := by
    constructor
    · rintro ⟨⟩
    · rintro ⟨⟨i,text,htext,-⟩,-⟩
      simp at htext
  diagnostics d := by
    constructor
    · rintro ⟨⟩
    · rintro (⟨htext,-,-⟩ | ⟨htext,-,-,-,-⟩) <;> simp at htext
  descending := .nil
  diagnostics_descending := .nil

theorem Accounts.exists_formula {batch : Batch} (h : Accounts texts batch) {f : Formula} :
    (∃ l ∈ batch.formulas, l.formula = f) ↔ ∃ l, Yields texts l ∧ l.formula = f := by
  constructor
  · rintro ⟨l,hl,heq⟩
    exact ⟨l,((h.formulas l).mp hl).1,heq⟩
  · rintro ⟨l,hl,heq⟩
    obtain ⟨first,hfirst,hsame,-⟩ := hl.exists_first
    exact ⟨first,(h.formulas first).mpr hfirst,hsame.trans heq⟩

/-- A line that gives no formula and no diagnostic changes nothing. -/
theorem Accounts.pass {batch : Batch} (h : Accounts texts batch)
    (hformula : ∀ l, YieldsFirst (texts ++ [text]) l → YieldsFirst texts l)
    (hreport : ∀ d, Reported (texts ++ [text]) d → Reported texts d) :
    Accounts (texts ++ [text]) batch where
  formulas l := by
    rw [h.formulas]
    exact ⟨fun hl => yieldsFirst_concat_iff.mpr (.inl hl),hformula l⟩
  diagnostics d := by
    rw [h.diagnostics]
    exact ⟨fun hd => hd.concat text,hreport d⟩
  descending := h.descending
  diagnostics_descending := h.diagnostics_descending

/-- A line that gives a diagnostic, and no formula. -/
theorem Accounts.report {batch : Batch} (h : Accounts texts batch) {new : Diagnostic}
    (hnew : Reported (texts ++ [text]) new) (hline : new.line = texts.length + 1)
    (hformula : ∀ l, YieldsFirst (texts ++ [text]) l → YieldsFirst texts l)
    (hreport : ∀ d, Reported (texts ++ [text]) d → Reported texts d ∨ d = new) :
    Accounts (texts ++ [text]) { batch with diagnostics := new :: batch.diagnostics } where
  formulas l := by
    rw [h.formulas]
    exact ⟨fun hl => yieldsFirst_concat_iff.mpr (.inl hl),hformula l⟩
  diagnostics d := by
    rw [List.mem_cons,h.diagnostics,or_comm]
    constructor
    · rintro (hd | rfl)
      · exact hd.concat text
      · exact hnew
    · exact hreport d
  descending := h.descending
  diagnostics_descending := by
    refine List.pairwise_cons.mpr ⟨fun d hd => ?_,h.diagnostics_descending⟩
    rw [hline]
    exact Nat.lt_succ_of_le ((h.diagnostics d).mp hd).line_range.2

/-- A line that gives a formula, and no diagnostic. -/
theorem Accounts.add {batch : Batch} (h : Accounts texts batch)
    (hread : Formula.readLine text texts.length = .ok l)
    (hnew : ∀ other, Yields texts other → other.formula ≠ l.formula) :
    Accounts (texts ++ [text]) { batch with formulas := l :: batch.formulas } where
  formulas l' := by
    rw [List.mem_cons,h.formulas,yieldsFirst_concat_iff,or_comm]
    refine or_congr_right ?_
    constructor
    · rintro rfl
      exact ⟨hread,hnew⟩
    · rintro ⟨hread',-⟩
      rw [hread] at hread'
      exact (Except.ok.inj hread').symm
  diagnostics d := by
    rw [h.diagnostics]
    refine ⟨fun hd => hd.concat text,fun hd => ?_⟩
    rcases hd.of_concat with hold | ⟨-,fault,hfault,-⟩ | ⟨l',first,hread',hfirst,heq,-⟩
    · exact hold
    · exact absurd hfault (read_ne_error hread _)
    · rw [hread] at hread'
      obtain rfl := Except.ok.inj hread'
      exact absurd heq (hnew first hfirst.1)
  descending := by
    refine List.pairwise_cons.mpr ⟨fun l' hl' => ?_,h.descending⟩
    rw [index_of_readLine hread]
    exact ((h.formulas l').mp hl').1.index_range.2
  diagnostics_descending := h.diagnostics_descending

theorem Accounts.addLine {batch batch' : Batch} {line : Text} (h : Accounts texts batch)
    (hadd : Batch.addLine batch texts.length line = .ok batch') :
    Accounts (texts ++ [cleanLine line]) batch' := by
  have hnone : ∀ e, Formula.read (cleanLine line) = .error e →
      ∀ l, YieldsFirst (texts ++ [cleanLine line]) l → YieldsFirst texts l := by
    intro e herror l hl
    refine (yieldsFirst_concat_iff.mp hl).resolve_right ?_
    rintro ⟨hread,-⟩
    exact read_ne_error hread e herror
  rcases addLine_cases hadd with ⟨hnil,rfl⟩ | ⟨hne,fault,hfault,rfl⟩ |
    ⟨l,hread,⟨first,hmem,heq,rfl⟩ | ⟨hfresh,rfl⟩⟩
  · refine h.pass (hnone (.fault .empty) (by rw [hnil]; rfl)) fun d hd => ?_
    rcases hd.of_concat with hold | ⟨hne,-⟩ | ⟨l,first,hread,-⟩
    · exact hold
    · exact absurd hnil hne
    · exact absurd hnil (ne_nil_of_readLine hread)
  · refine h.report (.fault (getElem?_concat_self _ _) hne hfault) rfl (hnone _ hfault) fun d hd => ?_
    rcases hd.of_concat with hold | ⟨-,fault',hfault',rfl⟩ | ⟨l,first,hread,-⟩
    · exact .inl hold
    · rw [hfault] at hfault'
      cases hfault'
      exact .inr rfl
    · exact absurd hfault (read_ne_error hread _)
  · have hfirst := (h.formulas first).mp hmem
    have hkept : YieldsFirst (texts ++ [cleanLine line]) first :=
      yieldsFirst_concat_iff.mpr (.inl hfirst)
    have hnew := Reported.duplicate (getElem?_concat_self _ _) hread hkept heq
      hfirst.1.index_range.2
    refine h.report hnew rfl (fun l' hl' => ?_) fun d hd => ?_
    · refine (yieldsFirst_concat_iff.mp hl').resolve_right ?_
      rintro ⟨hread',hother⟩
      rw [hread] at hread'
      obtain rfl := Except.ok.inj hread'
      exact hother first hfirst.1 heq
    · rcases hd.of_concat with hold | ⟨-,fault,hfault,-⟩ | ⟨l',first',hread',hfirst',heq',rfl⟩
      · exact .inl hold
      · exact absurd hfault (read_ne_error hread _)
      · rw [hread] at hread'
        obtain rfl := Except.ok.inj hread'
        have hindex : first.index = first'.index :=
          le_antisymm (hfirst.2 first' hfirst'.1 (heq'.trans heq.symm))
            (hfirst'.2 first hfirst.1 (heq.trans heq'.symm))
        rw [hindex]
        exact .inr rfl
  · refine h.add hread fun other hother heq => ?_
    obtain ⟨earlier,hmem,hsame⟩ := h.exists_formula.mpr ⟨other,hother,heq⟩
    exact hfresh earlier hmem hsame

theorem Accounts.addLines {lines : List Text} {batch batch' : Batch} (h : Accounts texts batch)
    (hadd : Batch.addLines batch texts.length lines = .ok batch') :
    Accounts (texts ++ lines.map cleanLine) batch' := by
  induction lines generalizing texts batch with
  | nil =>
    obtain rfl := Except.ok.inj hadd
    simpa using h
  | cons line rest ih =>
    rw [Batch.addLines] at hadd
    cases hfirst : Batch.addLine batch texts.length line with
    | error e =>
      rw [hfirst] at hadd
      cases hadd
    | ok next =>
      rw [hfirst] at hadd
      have hnext := h.addLine hfirst
      have hall := ih hnext (by simpa using hadd)
      simpa using hall

theorem accounts_read {t : Text} {b : Batch} (h : Batch.read t = .ok b) :
    Accounts ((Text.splitLines t).map cleanLine) ⟨b.formulas.reverse,b.diagnostics.reverse⟩ := by
  unfold Batch.read at h
  cases hadd : Batch.addLines ⟨[],[]⟩ 0 (Text.splitLines t) with
  | error e => simp [hadd,Except.map] at h
  | ok batch =>
    simp only [hadd,Except.map,Except.ok.injEq] at h
    subst h
    simpa using accounts_nil.addLines hadd

/-! ## Places -/

/-- The places of the lines that gave the formulas and the diagnostics of a batch. -/
def places (b : Batch) : List ℤ :=
  b.formulas.map FormulaLine.index ++ b.diagnostics.map fun d => (d.line : ℤ) - 1

/-- A diagnostic is about a line of which something is left, and which is no first one. -/
theorem Reported.exists_place (h : Reported texts d) : ∃ (i : ℕ) (text : Text),
    d.line = i + 1 ∧ texts[i]? = some text ∧ text ≠ [] ∧
      ∀ l, YieldsFirst texts l → l.index ≠ i := by
  cases h with
  | @fault i text fault htext hne hread =>
    refine ⟨i,text,rfl,htext,hne,?_⟩
    rintro l ⟨⟨j,other,hother,hl⟩,-⟩ heq
    rw [index_of_readLine hl,Nat.cast_inj] at heq
    subst heq
    rw [htext] at hother
    obtain rfl := Option.some.inj hother
    exact read_ne_error hl _ hread
  | @duplicate i text again first htext hread hfirst hsame hlt =>
    refine ⟨i,text,rfl,htext,ne_nil_of_readLine hread,?_⟩
    intro l hl heq
    obtain rfl : l = again :=
      hl.1.eq_of_index ⟨i,text,htext,hread⟩ (heq.trans (index_of_readLine hread).symm)
    have hle := hl.2 first hfirst.1 hsame
    omega

section Read
variable {b : Batch}
  (h : Accounts texts ⟨b.formulas.reverse,b.diagnostics.reverse⟩)
include h

theorem Accounts.mem_formulas : l ∈ b.formulas ↔ YieldsFirst texts l := by
  rw [← h.formulas,List.mem_reverse]

theorem Accounts.mem_diagnostics : d ∈ b.diagnostics ↔ Reported texts d := by
  rw [← h.diagnostics,List.mem_reverse]

theorem Accounts.increasing : (b.formulas.map FormulaLine.index).Pairwise (· < ·) := by
  rw [List.pairwise_map]
  exact List.pairwise_reverse.mp h.descending

theorem Accounts.diagnostics_increasing :
    (b.diagnostics.map Diagnostic.line).Pairwise (· < ·) := by
  rw [List.pairwise_map]
  exact List.pairwise_reverse.mp h.diagnostics_descending

/-- Formulas from different places are different, as each is the first of its kind. -/
theorem Accounts.nodup_formulas : (b.formulas.map FormulaLine.formula).Nodup := by
  have hplaces := h.increasing
  rw [List.pairwise_map] at hplaces
  rw [List.Nodup,List.pairwise_map]
  refine hplaces.imp_of_mem fun {l l'} hl hl' hlt heq => ?_
  have hle := (h.mem_formulas.mp hl').2 l (h.mem_formulas.mp hl).1 heq
  omega

theorem Accounts.nodup_places : b.places.Nodup := by
  refine List.nodup_append.mpr ⟨h.increasing.imp ne_of_lt,?_,?_⟩
  · have hlines := h.diagnostics_increasing
    rw [List.pairwise_map] at hlines
    rw [List.Nodup,List.pairwise_map]
    refine hlines.imp fun {d d'} hlt => ?_
    omega
  · intro n hn n' hn' heq
    obtain ⟨l,hl,rfl⟩ := List.mem_map.mp hn
    obtain ⟨d,hd,rfl⟩ := List.mem_map.mp hn'
    obtain ⟨i,text,hline,-,-,hother⟩ := (h.mem_diagnostics.mp hd).exists_place
    refine hother l (h.mem_formulas.mp hl) ?_
    rw [heq,hline]
    simp

theorem Accounts.mem_places
    (hread : ∀ text ∈ texts, ∀ e, Formula.read text ≠ .error (.numeral e)) {n : ℤ} :
    n ∈ b.places ↔ ∃ (i : ℕ) (text : Text), n = i ∧ texts[i]? = some text ∧ text ≠ [] := by
  simp only [places,List.mem_append,List.mem_map,h.mem_formulas,h.mem_diagnostics]
  constructor
  · rintro (⟨l,⟨⟨i,text,htext,hl⟩,-⟩,rfl⟩ | ⟨d,hd,rfl⟩)
    · exact ⟨i,text,index_of_readLine hl,htext,ne_nil_of_readLine hl⟩
    · obtain ⟨i,text,hline,htext,hne,-⟩ := hd.exists_place
      exact ⟨i,text,by rw [hline]; simp,htext,hne⟩
  · rintro ⟨i,text,rfl,htext,hne⟩
    cases hl : Formula.readLine text i with
    | error e =>
      cases e with
      | fault fault =>
        exact .inr ⟨_,.fault htext hne (readLine_eq_error_iff.mp hl),by simp [Diagnostic.line]⟩
      | numeral e =>
        exact absurd (readLine_eq_error_iff.mp hl) (hread text (List.mem_of_getElem? htext) e)
    | ok l =>
      have hyields : Yields texts l := ⟨i,text,htext,hl⟩
      obtain ⟨first,hfirst,heq,hle⟩ := hyields.exists_first
      rw [index_of_readLine hl] at hle
      -- the line is the first one with its formula, or it repeats the first one
      rcases hle.eq_or_lt with hself | hlt
      · exact .inl ⟨first,hfirst,hself⟩
      · exact .inr ⟨_,.duplicate htext hl hfirst heq hlt,by simp [Diagnostic.line]⟩

theorem Accounts.mem_faults {fault : ParseFault} {n : ℕ} :
    .fault fault text n ∈ b.diagnostics ↔ ∃ i : ℕ, n = i + 1 ∧ texts[i]? = some text ∧ text ≠ [] ∧
      Formula.read text = .error (.fault fault) := by
  rw [h.mem_diagnostics]
  constructor
  · rintro ⟨htext,hne,hread⟩
    exact ⟨_,rfl,htext,hne,hread⟩
  · rintro ⟨i,rfl,htext,hne,hread⟩
    exact .fault htext hne hread

theorem Accounts.mem_duplicates {n first : ℕ} :
    .duplicate text n first ∈ b.diagnostics ↔ ∃ (i : ℕ) (l : FormulaLine), n = i + 1 ∧
      texts[i]? = some text ∧ Formula.readLine text i = .ok l ∧
      ∃ earlier ∈ b.formulas, earlier.formula = l.formula ∧ earlier.index < i ∧
        (first : ℤ) = 1 + earlier.index := by
  rw [h.mem_diagnostics]
  constructor
  · intro hd
    cases hd with
    | @duplicate i _ l earlier htext hread hearlier heq hlt =>
      have hpos := hearlier.1.index_range.1
      exact ⟨i,l,rfl,htext,hread,earlier,h.mem_formulas.mpr hearlier,heq,hlt,by omega⟩
  · rintro ⟨i,l,rfl,htext,hread,earlier,hmem,heq,hlt,hfirst⟩
    have hearlier := h.mem_formulas.mp hmem
    have hpos := hearlier.1.index_range.1
    obtain rfl : first = earlier.index.toNat + 1 := by omega
    exact .duplicate htext hread hearlier heq hlt

end Read

/-- In a batch that is read each line of which something is left is the place of one formula or of
one diagnostic, each in the order of lines, and no formula comes twice. A formula is given where it
is read first and a duplicate is reported where it is read again; a fault is reported where it is
met. -/
theorem read_accounts {t : Text} {b : Batch} (h : Batch.read t = .ok b) :
    let texts := (Text.splitLines t).map cleanLine
    (b.places.Nodup ∧ ∀ n, n ∈ b.places ↔
      ∃ (i : ℕ) (text : Text), n = i ∧ texts[i]? = some text ∧ text ≠ []) ∧
    (b.formulas.map FormulaLine.index).Pairwise (· < ·) ∧
    (b.diagnostics.map Diagnostic.line).Pairwise (· < ·) ∧
    (b.formulas.map FormulaLine.formula).Nodup ∧
    (∀ l, l ∈ b.formulas ↔ YieldsFirst texts l) ∧
    (∀ (text : Text) (n first : ℕ), .duplicate text n first ∈ b.diagnostics ↔
      ∃ (i : ℕ) (l : FormulaLine), n = i + 1 ∧ texts[i]? = some text ∧
        Formula.readLine text i = .ok l ∧ ∃ earlier ∈ b.formulas,
          earlier.formula = l.formula ∧ earlier.index < i ∧ (first : ℤ) = 1 + earlier.index) ∧
    ∀ fault text n, .fault fault text n ∈ b.diagnostics ↔ ∃ i : ℕ, n = i + 1 ∧
      texts[i]? = some text ∧ text ≠ [] ∧ Formula.read text = .error (.fault fault) := by
  intro texts
  have haccounts := accounts_read h
  have hread : ∀ text ∈ texts, ∀ e, Formula.read text ≠ .error (.numeral e) := by
    intro text htext e herror
    obtain ⟨line,hline,rfl⟩ := List.mem_map.mp htext
    exact read_eq_ok_iff.mp ⟨b,h⟩ line hline (Formula.read_eq_numeral_iff.mp ⟨e,herror⟩)
  exact ⟨⟨haccounts.nodup_places,fun n => haccounts.mem_places hread⟩,haccounts.increasing,
    haccounts.diagnostics_increasing,haccounts.nodup_formulas,fun l => haccounts.mem_formulas,
    fun text n first => haccounts.mem_duplicates,fun fault text n => haccounts.mem_faults⟩

/-- A formula, a blank line, a line that is no formula, the first formula again behind an index and
in other words, and another formula. -/
def fiveLines : Text :=
  "[L尾数类]特号=15\n\nnot a formula\n[004][L尾数类]特码=15\n[D尾数类]特号=15".toList

theorem read_accounts_fiveLines : ∃ b, Batch.read fiveLines = .ok b ∧ b.places.Nodup ∧
    1 ∉ b.places ∧ 2 ∈ b.places ∧ 3 ∈ b.places ∧
    ∃ earlier ∈ b.formulas, earlier.index = 0 ∧
      .duplicate "[L尾数类]特码=15".toList 4 1 ∈ b.diagnostics := by
  let f : Formula := ⟨.drawn,.tail,"特号".toList,0,15,0,0⟩
  let b : Batch := ⟨[⟨f,"[L尾数类]特号=15".toList,0⟩,
      ⟨{ f with rule := .sorted },"[D尾数类]特号=15".toList,4⟩],
    [.fault .shape "not a formula".toList 3,.duplicate "[L尾数类]特码=15".toList 4 1]⟩
  have hread : Batch.read fiveLines = .ok b := by decide +kernel
  have htexts : (Text.splitLines fiveLines).map cleanLine = ["[L尾数类]特号=15".toList,[],
      "not a formula".toList,"[L尾数类]特码=15".toList,"[D尾数类]特号=15".toList] := by
    decide +kernel
  have hagain : Formula.readLine "[L尾数类]特码=15".toList (3 : ℕ) =
    .ok ⟨f,"[L尾数类]特码=15".toList,3⟩ := by decide +kernel
  obtain ⟨⟨hnodup,hplaces⟩,-,-,-,-,hduplicates,-⟩ := read_accounts hread
  rw [htexts] at hplaces hduplicates
  refine ⟨b,hread,hnodup,?_,(hplaces 2).mpr ⟨2,_,rfl,rfl,by simp⟩,
    (hplaces 3).mpr ⟨3,_,rfl,rfl,by simp⟩,_,List.mem_cons_self,rfl,
    (hduplicates _ _ _).mpr ⟨3,_,rfl,rfl,hagain,_,List.mem_cons_self,rfl,by decide,rfl⟩⟩
  rw [hplaces]
  rintro ⟨i,text,hi,htext,hne⟩
  obtain rfl : i = 1 := by omega
  exact hne (Option.some.inj htext).symm

end DrawFormula.Batch
