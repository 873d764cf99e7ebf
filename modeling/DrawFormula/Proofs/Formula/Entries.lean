import DrawFormula.Proofs.Formula.Accounts

/-! # Batches by their entries

What is read of a text are its entries: the lines of which something is left when they are clean,
each with its place. A place has no influence on what is read there. So entries at other places
give the same formulas and diagnostics, for those places; and the formulas are those that entries
are read as, each of them once, in the order in which they come first.
-/
namespace DrawFormula

/-- The diagnostic for other places of lines. -/
def Diagnostic.moved (φ : ℕ → ℕ) : Diagnostic → Diagnostic
  | .fault what text line => .fault what text (φ (line - 1) + 1)
  | .duplicate text line first => .duplicate text (φ (line - 1) + 1) (φ (first - 1) + 1)

/-- The formula for another place of its line. -/
def FormulaLine.moved (φ : ℕ → ℕ) (l : FormulaLine) : FormulaLine :=
  { l with index := φ l.index.toNat }

namespace Batch
variable {es : List (Text × ℕ)} {batch b : Batch} {l : FormulaLine}

/-- The batch for other places of its lines. -/
def moved (φ : ℕ → ℕ) (b : Batch) : Batch :=
  ⟨b.formulas.map (FormulaLine.moved φ),b.diagnostics.map (Diagnostic.moved φ)⟩

/-- The clean lines of which something is left, with their places. -/
def entries (t : Text) : List (Text × ℕ) :=
  ((Text.splitLines t).map cleanLine).zipIdx.filter fun e => !e.1.isEmpty

/-- Adds an entry to a batch that is kept in reverse. -/
def addEntry (batch : Batch) (e : Text × ℕ) : Except NumeralError Batch :=
  match Formula.readLine e.1 e.2 with
  | .error (.fault fault) =>
    .ok { batch with diagnostics := .fault fault e.1 (e.2 + 1) :: batch.diagnostics }
  | .error (.numeral e) => .error e
  | .ok l =>
    match batch.formulas.find? fun earlier => earlier.formula = l.formula with
    | some earlier => .ok { batch with
        diagnostics := .duplicate e.1 (e.2 + 1) (earlier.index.toNat + 1) :: batch.diagnostics }
    | none => .ok { batch with formulas := l :: batch.formulas }

/-- The batch in the order of its lines. -/
def inOrder (b : Batch) : Batch := ⟨b.formulas.reverse,b.diagnostics.reverse⟩

/-- Reads entries. -/
def readEntries (es : List (Text × ℕ)) : Except NumeralError Batch :=
  (es.foldlM addEntry ⟨[],[]⟩).map inOrder

/-- The formulas that entries are read as, each as often as it comes. -/
def readings (es : List (Text × ℕ)) : List FormulaLine :=
  es.filterMap fun e => (Formula.readLine e.1 e.2).toOption

/-! ## Lines and entries -/

theorem addLine_eq (batch : Batch) (index : ℕ) (line : Text) : addLine batch index line =
    if (cleanLine line).isEmpty then .ok batch else addEntry batch (cleanLine line,index) := by
  unfold addLine
  by_cases hclean : (cleanLine line).isEmpty = true
  · rw [if_pos hclean,if_pos hclean]
  · rw [if_neg hclean,if_neg hclean]
    unfold addEntry
    rcases Formula.readLine (cleanLine line) index with (fault | e) | l
    · rfl
    · rfl
    · rfl

theorem addLines_eq (batch : Batch) (index : ℕ) (lines : List Text) :
    addLines batch index lines = (((lines.map cleanLine).zipIdx index).filter fun e =>
      !e.1.isEmpty).foldlM addEntry batch := by
  induction lines generalizing batch index with
  | nil => rfl
  | cons line rest ih =>
    rw [addLines,addLine_eq,List.map_cons,List.zipIdx_cons]
    by_cases hclean : (cleanLine line).isEmpty = true
    · rw [if_pos hclean,List.filter_cons_of_neg (by simpa using hclean)]
      exact ih batch (index + 1)
    · rw [if_neg hclean,List.filter_cons_of_pos (by simpa using hclean),List.foldlM_cons]
      cases addEntry batch (cleanLine line,index) with
      | error e => rfl
      | ok next => exact ih next (index + 1)

theorem read_eq (t : Text) : Batch.read t = readEntries (entries t) := by
  rw [Batch.read,addLines_eq]
  rfl

theorem mem_entries {t : Text} {e : Text × ℕ} :
    e ∈ entries t ↔ ((Text.splitLines t).map cleanLine)[e.2]? = some e.1 ∧ e.1 ≠ [] := by
  rw [entries,List.mem_filter,List.mem_zipIdx_iff_getElem?]
  simp

theorem addEntry_cases {e : Text × ℕ} (h : addEntry batch e = .ok b) :
    (∃ fault, Formula.read e.1 = .error (.fault fault) ∧ b.formulas = batch.formulas) ∨
    ∃ l, Formula.readLine e.1 e.2 = .ok l ∧
      ((∃ earlier ∈ batch.formulas, earlier.formula = l.formula) ∧ b.formulas = batch.formulas ∨
        (∀ earlier ∈ batch.formulas, earlier.formula ≠ l.formula) ∧
          b = { batch with formulas := l :: batch.formulas }) := by
  unfold addEntry at h
  split at h
  · next fault hread =>
    cases h
    exact .inl ⟨fault,readLine_eq_error_iff.mp hread,rfl⟩
  · cases h
  · next l hread =>
    refine .inr ⟨l,hread,?_⟩
    split at h
    · next earlier hfind =>
      cases h
      have hsame := List.find?_some hfind
      exact .inl ⟨⟨earlier,List.mem_of_find?_eq_some hfind,by simpa using hsame⟩,rfl⟩
    · next hfind =>
      cases h
      have hnone := List.find?_eq_none.mp hfind
      exact .inr ⟨fun earlier hmem => by simpa using hnone earlier hmem,rfl⟩

/-! ## Entries at other places -/

theorem readLine_of_readLine {text : Text} {i : ℤ} (h : Formula.readLine text i = .ok l) (j : ℤ) :
    Formula.readLine text j = .ok { l with index := j } := by
  unfold Formula.readLine at h ⊢
  cases hread : Formula.read text with
  | error e => simp [hread,Except.map] at h
  | ok f =>
    simp only [hread,Except.map,Except.ok.injEq] at h
    rw [← h]
    rfl

theorem readLine_moved (φ : ℕ → ℕ) (text : Text) (place : ℕ) :
    Formula.readLine text (φ place) = (Formula.readLine text place).map (FormulaLine.moved φ) := by
  unfold Formula.readLine
  cases Formula.read text <;> rfl

theorem find?_moved (φ : ℕ → ℕ) (ls : List FormulaLine) (f : Formula) :
    (ls.map (FormulaLine.moved φ)).find? (fun earlier => earlier.formula = f) =
      (ls.find? fun earlier => earlier.formula = f).map (FormulaLine.moved φ) := by
  rw [List.find?_map]
  rfl

theorem addEntry_moved (φ : ℕ → ℕ) (batch : Batch) (e : Text × ℕ) :
    addEntry (batch.moved φ) (e.1,φ e.2) = (addEntry batch e).map (Batch.moved φ) := by
  unfold addEntry
  simp only [readLine_moved]
  cases Formula.readLine e.1 e.2 with
  | error error =>
    cases error with
    | fault fault => rfl
    | numeral e => rfl
  | ok l =>
    have hfind := find?_moved φ batch.formulas l.formula
    simp only [Except.map,FormulaLine.moved,Batch.moved] at hfind ⊢
    rw [hfind]
    cases batch.formulas.find? fun earlier => earlier.formula = l.formula with
    | none => rfl
    | some earlier => simp [FormulaLine.moved,Diagnostic.moved]

/-- Entries at other places give the same batch for those places. -/
theorem readEntries_moved (φ : ℕ → ℕ) (es : List (Text × ℕ)) :
    readEntries (es.map fun e => (e.1,φ e.2)) = (readEntries es).map (Batch.moved φ) := by
  have hfold (batch : Batch) : (es.map fun e => (e.1,φ e.2)).foldlM addEntry (batch.moved φ) =
      (es.foldlM addEntry batch).map (Batch.moved φ) := by
    induction es generalizing batch with
    | nil => rfl
    | cons e rest ih =>
      rw [List.map_cons,List.foldlM_cons,List.foldlM_cons,addEntry_moved]
      cases addEntry batch e with
      | error error => rfl
      | ok next => exact ih next
  have hempty := hfold ⟨[],[]⟩
  rw [readEntries,readEntries]
  change (es.map fun e => (e.1,φ e.2)).foldlM addEntry ⟨[],[]⟩ = _ at hempty
  rw [hempty]
  cases es.foldlM addEntry ⟨[],[]⟩ with
  | error error => rfl
  | ok batch => simp [Except.map,inOrder,Batch.moved]

/-! ## Which formulas are read -/

theorem mem_readings : l ∈ readings es ↔ ∃ e ∈ es, Formula.readLine e.1 e.2 = .ok l := by
  have htoOption (text : Text) (place : ℕ) : (Formula.readLine text place).toOption = some l ↔
      Formula.readLine text place = .ok l := by
    cases Formula.readLine text place <;> simp [Except.toOption]
  simp [readings,htoOption]

theorem readings_cons_of_error {e : Text × ℕ} {error : FormulaError}
    (h : Formula.read e.1 = .error error) (rest : List (Text × ℕ)) :
    readings (e :: rest) = readings rest := by
  rw [readings,List.filterMap_cons_none]
  · rfl
  · rw [readLine_eq_error_iff.mpr h]
    rfl

theorem readings_cons_of_ok {e : Text × ℕ} (h : Formula.readLine e.1 e.2 = .ok l)
    (rest : List (Text × ℕ)) : readings (e :: rest) = l :: readings rest := by
  rw [readings,List.filterMap_cons_some (b := l)]
  · rfl
  · rw [h]
    rfl

theorem map_formula_foldlM (h : es.foldlM addEntry batch = .ok b) :
    b.formulas.reverse.map FormulaLine.formula = batch.formulas.reverse.map FormulaLine.formula ++
      (((readings es).map FormulaLine.formula).filter fun f =>
        !(batch.formulas.map FormulaLine.formula).contains f).eraseDups := by
  induction es generalizing batch with
  | nil =>
    cases h
    simp [readings]
  | cons e rest ih =>
    rw [List.foldlM_cons] at h
    cases hadd : addEntry batch e with
    | error error =>
      rw [hadd] at h
      cases h
    | ok next =>
      rw [hadd] at h
      rw [ih h]
      rcases addEntry_cases hadd with ⟨fault,hfault,hsame⟩ | ⟨l,hread,⟨hearlier,hsame⟩ | ⟨hnew,rfl⟩⟩
      · rw [hsame,readings_cons_of_error hfault]
      · have hmem : l.formula ∈ batch.formulas.map FormulaLine.formula := List.mem_map.mpr hearlier
        rw [hsame,readings_cons_of_ok hread,List.map_cons,List.filter_cons_of_neg (by simpa using hmem)]
      · have hmem : l.formula ∉ batch.formulas.map FormulaLine.formula := by
          rw [List.mem_map]
          rintro ⟨earlier,hearlier,heq⟩
          exact hnew earlier hearlier heq
        simp only [readings_cons_of_ok hread,List.map_cons]
        rw [List.filter_cons_of_pos (by simpa using hmem),List.eraseDups_cons,List.filter_filter]
        simp [Bool.not_or,beq_eq_decide]

/-- Each formula that an entry is read as is there once, in the order of first entries. -/
theorem map_formula_readEntries (h : readEntries es = .ok b) :
    b.formulas.map FormulaLine.formula = ((readings es).map FormulaLine.formula).eraseDups := by
  unfold readEntries at h
  cases hfold : es.foldlM addEntry ⟨[],[]⟩ with
  | error e =>
    rw [hfold] at h
    cases h
  | ok batch =>
    rw [hfold] at h
    obtain rfl := Except.ok.inj h
    simpa [inOrder] using map_formula_foldlM hfold

theorem addEntry_of_new {e : Text × ℕ} (h : Formula.readLine e.1 e.2 = .ok l)
    (hnew : ∀ earlier ∈ batch.formulas, earlier.formula ≠ l.formula) :
    addEntry batch e = .ok { batch with formulas := l :: batch.formulas } := by
  have hfind : (batch.formulas.find? fun earlier => earlier.formula = l.formula) = none :=
    List.find?_eq_none.mpr fun earlier hmem => by simpa using hnew earlier hmem
  unfold addEntry
  simp only [h,hfind]

/-- Entries that are read as different formulas give these and no diagnostic. -/
theorem readEntries_of_distinct (h : ∀ e ∈ es, ∃ l, Formula.readLine e.1 e.2 = .ok l)
    (hdistinct : ((readings es).map FormulaLine.formula).Nodup) :
    readEntries es = .ok ⟨readings es,[]⟩ := by
  have hfold (batch : Batch) (hnew : ∀ earlier ∈ batch.formulas, ∀ l ∈ readings es,
      earlier.formula ≠ l.formula) : es.foldlM addEntry batch =
        .ok { batch with formulas := (readings es).reverse ++ batch.formulas } := by
    induction es generalizing batch with
    | nil => rfl
    | cons e rest ih =>
      rw [List.forall_mem_cons] at h
      obtain ⟨⟨l,hread⟩,hrest⟩ := h
      rw [readings_cons_of_ok hread] at hdistinct hnew ⊢
      rw [List.map_cons,List.nodup_cons,List.mem_map] at hdistinct
      rw [List.foldlM_cons,addEntry_of_new hread fun earlier hmem =>
        hnew earlier hmem l List.mem_cons_self]
      refine (ih hrest hdistinct.2 _ fun earlier hmem l' hl' heq => ?_).trans (by simp)
      rcases List.mem_cons.mp hmem with rfl | hold
      · exact hdistinct.1 ⟨l',hl',heq.symm⟩
      · exact hnew earlier hold l' (List.mem_cons_of_mem _ hl') heq
  rw [readEntries,hfold _ (by simp)]
  simp [Except.map,inOrder]

theorem addEntry_eq_ok_iff {e : Text × ℕ} :
    (∃ b, addEntry batch e = .ok b) ↔ ∀ error, Formula.read e.1 ≠ .error (.numeral error) := by
  unfold addEntry Formula.readLine
  rcases Formula.read e.1 with (fault | error) | f
  · simp [Except.map]
  · simp [Except.map]
  · simp only [Except.map]
    split <;> simp

/-- Entries are read just if no number among them has too many digits. -/
theorem readEntries_eq_ok_iff : (∃ b, readEntries es = .ok b) ↔
    ∀ e ∈ es, ∀ error, Formula.read e.1 ≠ .error (.numeral error) := by
  have hfold (batch : Batch) : (∃ b, es.foldlM addEntry batch = .ok b) ↔
      ∀ e ∈ es, ∀ error, Formula.read e.1 ≠ .error (.numeral error) := by
    induction es generalizing batch with
    | nil => simp [pure,Except.pure]
    | cons e rest ih =>
      rw [List.forall_mem_cons,← @addEntry_eq_ok_iff batch e,List.foldlM_cons]
      cases addEntry batch e with
      | error error => simp [bind,Except.bind]
      | ok next => simp [bind,Except.bind,ih]
  rw [← hfold ⟨[],[]⟩,readEntries]
  cases es.foldlM addEntry ⟨[],[]⟩ <;> simp [Except.map]

/-! ## The entries of a text -/

section Text
variable {t : Text}

theorem mem_readings_entries :
    l ∈ readings (entries t) ↔ Yields ((Text.splitLines t).map cleanLine) l := by
  constructor
  · intro hl
    obtain ⟨e,he,hread⟩ := mem_readings.mp hl
    exact ⟨e.2,e.1,(mem_entries.mp he).1,hread⟩
  · rintro ⟨i,text,htext,hread⟩
    exact mem_readings.mpr ⟨(text,i),mem_entries.mpr ⟨htext,ne_nil_of_readLine hread⟩,hread⟩

theorem increasing_readings (t : Text) :
    (readings (entries t)).Pairwise fun l l' => l.index < l'.index := by
  have hplaces : (((Text.splitLines t).map cleanLine).zipIdx.map Prod.snd).Pairwise (· < ·) := by
    rw [List.zipIdx_map_snd]
    exact List.pairwise_lt_range'
  rw [List.pairwise_map] at hplaces
  rw [readings,List.pairwise_filterMap]
  refine (hplaces.filter _).imp fun {e e'} hlt l hl l' hl' => ?_
  have hread := mem_readings.mp (show l ∈ readings [e] by simp [readings,hl])
  have hread' := mem_readings.mp (show l' ∈ readings [e'] by simp [readings,hl'])
  simp only [List.mem_singleton,exists_eq_left] at hread hread'
  rw [index_of_readLine hread,index_of_readLine hread']
  exact_mod_cast hlt

variable {b : Batch} (h : Batch.read t = .ok b)
include h

theorem increasing_formulas : b.formulas.Pairwise fun l l' => l.index < l'.index := by
  have hplaces := (accounts_read h).increasing
  rwa [List.pairwise_map] at hplaces

/-- The formulas of a batch are the first readings of their kind. -/
theorem mem_formulas_iff : l ∈ b.formulas ↔ l ∈ readings (entries t) ∧
    ∀ other ∈ readings (entries t), other.formula = l.formula → l.index ≤ other.index := by
  rw [(accounts_read h).mem_formulas,YieldsFirst]
  simp only [mem_readings_entries]

/-- A duplicate of a formula is reported just if the formula is read again further down. -/
theorem mem_duplicates_iff (hl : l ∈ b.formulas) :
    (∃ text n, .duplicate text n (l.index.toNat + 1) ∈ b.diagnostics) ↔
      ∃ again ∈ readings (entries t), again.formula = l.formula ∧ l.index < again.index := by
  have haccounts := accounts_read h
  have hfirst := (haccounts.mem_formulas.mp hl).1
  have hpos := hfirst.index_range.1
  simp only [haccounts.mem_duplicates,mem_readings_entries]
  constructor
  · rintro ⟨text,n,i,again,-,htext,hread,earlier,hearlier,hsame,hlt,hplace⟩
    obtain rfl : earlier = l :=
      (haccounts.mem_formulas.mp hearlier).1.eq_of_index hfirst (by omega)
    exact ⟨again,⟨i,text,htext,hread⟩,hsame.symm,index_of_readLine hread ▸ hlt⟩
  · rintro ⟨again,⟨i,text,htext,hread⟩,hsame,hlt⟩
    rw [index_of_readLine hread] at hlt
    exact ⟨text,i + 1,i,again,rfl,htext,hread,l,hl,hsame.symm,hlt,by omega⟩

end Text

end Batch
end DrawFormula
