import DrawFormula.Proofs.Backtest.Shared
import DrawFormula.Proofs.Formula.Numbering
import DrawFormula.Report
import Mathlib.Data.List.Sort

/-! # Lines of a batch that are kept or dropped

Backtests pick the lines of a batch that gave their formulas. These lines alone are read as the
formulas that were picked, without a diagnostic. The other lines alone are read as what they give
where nothing stands before them, so that a formula that was picked comes again just if one of
them repeats it.
-/
namespace DrawFormula
open Text Batch

namespace Numbering
variable {lines : List Text}

/-- Lines behind the indexes of their places. -/
def numbered (lines : List Text) : List Text :=
  lines.mapIdx fun place line => indexText place ++ ' ' :: line

/-- Whether a text consists of these lines, each behind the index of its place. -/
def Lists (t : Text) (lines : List Text) : Prop :=
  t = joinLines (numbered lines) ∧ splitLines t = numbered lines

theorem lists_joinLines (h : ∀ line ∈ lines, ∀ c ∈ line, isLineBreak c = false) :
    Lists (joinLines (numbered lines)) lines := by
  refine ⟨rfl,splitLines_joinLines fun line hline => ?_⟩
  obtain ⟨place,hplace,rfl⟩ := List.mem_mapIdx.mp hline
  refine ⟨by simp,fun c hc => ?_⟩
  rcases List.mem_append.mp hc with hindex | hrest
  · exact not_isLineBreak_indexText place c hindex
  · rcases List.mem_cons.mp hrest with rfl | hmem
    · decide
    · exact h _ (List.getElem_mem hplace) c hmem

theorem cleanLine_numbered (place : ℕ) {line : Text} (h : Trimmed line) :
    cleanLine (indexText place ++ ' ' :: line) = line := by
  rw [cleanLine_of_index (afterIndex?_indexText place _),← strip_stripLeft]
  change strip (stripLeft line) = line
  rw [strip_stripLeft,h.strip_eq]

/-- The entries of a text that lists clean lines are these lines in their places. -/
theorem Lists.entries_eq {t : Text} (h : Lists t lines)
    (hlines : ∀ line ∈ lines, line ≠ [] ∧ Trimmed line) : entries t = lines.zipIdx := by
  have hclean : (numbered lines).map cleanLine = lines := by
    apply List.ext_getElem
    · simp [numbered]
    · intro i hi hi'
      simp [numbered,cleanLine_numbered i (hlines _ (List.getElem_mem hi')).2]
  rw [entries,h.2,hclean,List.filter_eq_self]
  intro e he
  obtain ⟨-,-,hmem⟩ := List.mem_zipIdx he
  simpa [hmem] using (hlines _ (List.getElem_mem _)).1

end Numbering

namespace Batch
variable {es : List (Text × ℕ)}

theorem mem_entries_line {t : Text} {e : Text × ℕ} (h : e ∈ entries t) :
    e.1 ≠ [] ∧ Trimmed e.1 ∧ ∀ c ∈ e.1, isLineBreak c = false := by
  obtain ⟨hline,hne⟩ := mem_entries.mp h
  obtain ⟨line,hmem,hclean⟩ := List.mem_map.mp (List.mem_of_getElem? hline)
  rw [← hclean]
  exact ⟨hclean ▸ hne,trimmed_cleanLine line,
    fun c hc => not_isLineBreak_of_mem_splitLines hmem c (mem_dropIndex (mem_strip hc))⟩

/-- Entries of the same lines are read as the same formulas, wherever they stand. -/
theorem map_readings_congr {β : Type} (f : Formula → Text → β) {es' : List (Text × ℕ)}
    (h : es.map Prod.fst = es'.map Prod.fst) :
    (readings es).map (fun l => f l.formula l.rawText) =
      (readings es').map fun l => f l.formula l.rawText := by
  have hread (xs : List (Text × ℕ)) : (readings xs).map (fun l => f l.formula l.rawText) =
      (xs.map Prod.fst).filterMap fun text =>
        (Formula.read text).toOption.map fun g => f g (Formula.rawText text) := by
    rw [readings,List.map_filterMap,List.filterMap_map]
    refine List.filterMap_congr fun e _ => ?_
    simp only [Function.comp_apply,Formula.readLine]
    cases Formula.read e.1 <;> rfl
  rw [hread,hread,h]

end Batch

namespace Report
open DrawFormula.Numbering
variable {t : Text} {indexes : List ℤ}

/-- The entries of a text whose places are among the indexes or, if not `keep`, are not. -/
def selected (keep : Bool) (indexes : List ℤ) (t : Text) : List (Text × ℕ) :=
  (entries t).filter fun e => indexes.contains (e.2 : ℤ) == keep

theorem selectLines_eq (keep : Bool) (indexes : List ℤ) (t : Text) : selectLines keep indexes t =
    joinLines (numbered ((selected keep indexes t).map Prod.fst)) := by
  rw [selectLines,renew]
  refine congrArg (fun lines => joinLines (numbered lines)) ?_
  rw [selected,entries,List.mapIdx_eq_zipIdx_map,List.zipIdx_map]
  simp only [List.filter_map,List.map_map,List.filter_filter]
  refine congrArg (List.map fun x : Text × ℕ => cleanLine x.1) (List.filter_congr fun x _ => ?_)
  change (!(cleanLine x.1).isEmpty && (!(strip x.1).isEmpty &&
    indexes.contains (x.2 : ℤ) == keep)) =
      (indexes.contains (x.2 : ℤ) == keep && !(cleanLine x.1).isEmpty)
  rw [← Bool.and_assoc,proper_of_clean,Bool.and_comm]

theorem mem_selected {keep : Bool} {e : Text × ℕ} :
    e ∈ selected keep indexes t ↔ e ∈ entries t ∧ (indexes.contains (e.2 : ℤ) == keep) = true :=
  List.mem_filter

/-- The selected lines are listed in their order. -/
theorem lists_selectLines (keep : Bool) (indexes : List ℤ) (t : Text) :
    Lists (selectLines keep indexes t) ((selected keep indexes t).map Prod.fst) := by
  rw [selectLines_eq]
  refine lists_joinLines fun line hline => ?_
  obtain ⟨e,he,rfl⟩ := List.mem_map.mp hline
  exact (mem_entries_line (mem_selected.mp he).1).2.2

theorem entries_selectLines (keep : Bool) (indexes : List ℤ) (t : Text) :
    entries (selectLines keep indexes t) = ((selected keep indexes t).map Prod.fst).zipIdx := by
  refine (lists_selectLines keep indexes t).entries_eq fun line hline => ?_
  obtain ⟨e,he,rfl⟩ := List.mem_map.mp hline
  have hline := mem_entries_line (mem_selected.mp he).1
  exact ⟨hline.1,hline.2.1⟩

theorem map_fst_entries_selectLines (keep : Bool) (indexes : List ℤ) (t : Text) :
    (entries (selectLines keep indexes t)).map Prod.fst =
      (selected keep indexes t).map Prod.fst := by
  rw [entries_selectLines,List.zipIdx_map_fst]

theorem readings_selected (keep : Bool) (indexes : List ℤ) (t : Text) :
    readings (selected keep indexes t) =
      (readings (entries t)).filter fun l => indexes.contains l.index == keep := by
  rw [readings,readings,selected,List.filterMap_filter,List.filter_filterMap]
  refine List.filterMap_congr fun e _ => ?_
  cases h : Formula.readLine e.1 e.2 with
  | error error => simp [Except.toOption]
  | ok l => simp [Except.toOption,Option.filter,index_of_readLine h]

/-! ## What is read of a selection -/

/-- Whether a formula of a batch is repeated by a line below it. -/
def Repeated (b : Batch) (l : FormulaLine) : Prop :=
  ∃ text n, .duplicate text n (l.index.toNat + 1) ∈ b.diagnostics

theorem eraseDups_filter {α : Type} [BEq α] [LawfulBEq α] (p : α → Bool) (l : List α) :
    (l.filter p).eraseDups = l.eraseDups.filter p := by
  induction hn : l.length using Nat.strong_induction_on generalizing l with
  | _ n ih =>
    cases l with
    | nil => rfl
    | cons a rest =>
      have hshorter := List.length_filter_le (fun b => !b == a) rest
      have hrest := ih _ (by rw [← hn]; exact Nat.lt_succ_of_le hshorter) _ rfl
      by_cases ha : p a = true
      · rw [List.filter_cons_of_pos ha,List.eraseDups_cons,List.eraseDups_cons,
          List.filter_cons_of_pos ha,← hrest,List.filter_filter,List.filter_filter]
        simp [Bool.and_comm]
      · have hself : (rest.filter fun b => !b == a).filter p = rest.filter p := by
          rw [List.filter_filter]
          refine List.filter_congr fun b _ => ?_
          by_cases hb : b = a
          · simp [hb,ha]
          · simp [hb]
        rw [List.filter_cons_of_neg ha,List.eraseDups_cons,List.filter_cons_of_neg ha,← hrest,hself]

section Read
variable {b : Batch} (h : Batch.read t = .ok b)
  (hindexes : ∀ i ∈ indexes, ∃ l ∈ b.formulas, l.index = i)
include h

theorem eq_of_index {l l' : FormulaLine} (hl : l ∈ b.formulas) (hl' : l' ∈ readings (entries t))
    (heq : l'.index = l.index) : l' = l :=
  (mem_readings_entries.mp hl').eq_of_index (mem_readings_entries.mp ((mem_formulas_iff h).mp hl).1)
    heq

/-- The lines that are not picked are read as what they give where no line stands before them. -/
theorem read_selectLines_false (indexes : List ℤ) :
    ∃ left, Batch.read (selectLines false indexes t) = .ok left ∧
    left.formulas.map FormulaLine.formula =
      ((readings (selected false indexes t)).map FormulaLine.formula).eraseDups := by
  have hsame := map_fst_entries_selectLines false indexes t
  have hformulas := map_readings_congr (fun f _ => f) hsame
  have hreadable : ∃ left, Batch.read (selectLines false indexes t) = .ok left := by
    rw [read_eq,readEntries_eq_ok_iff]
    intro e he
    obtain ⟨e',he',htext⟩ := List.mem_map.mp (hsame ▸ List.mem_map_of_mem (f := Prod.fst) he)
    rw [← htext]
    exact readEntries_eq_ok_iff.mp ⟨b,(read_eq t).symm.trans h⟩ e' (mem_selected.mp he').1
  obtain ⟨left,hleft⟩ := hreadable
  refine ⟨left,hleft,?_⟩
  rw [map_formula_readEntries ((read_eq _).symm.trans hleft),hformulas]

include hindexes

/-- The lines at the picked places are read as the formulas that were picked. -/
theorem readings_picked : readings (selected true indexes t) =
    b.formulas.filter fun l => indexes.contains l.index := by
  have hreadings := (increasing_readings t).filter fun l => indexes.contains l.index == true
  have hformulas := (increasing_formulas h).filter fun l => indexes.contains l.index
  rw [readings_selected]
  have hirrefl : Std.Irrefl fun l l' : FormulaLine => l.index < l'.index := ⟨fun l => lt_irrefl _⟩
  refine hreadings.eq_of_mem_iff hformulas fun l => ?_
  rw [List.mem_filter,List.mem_filter,beq_true]
  refine and_congr_left fun hpicked => ⟨fun hl => ?_,fun hl => ((mem_formulas_iff h).mp hl).1⟩
  obtain ⟨l',hl',hindex⟩ := hindexes l.index (by simpa using hpicked)
  rwa [eq_of_index h hl' hl hindex.symm]

/-- The picked lines alone are read as the formulas that were picked, without a diagnostic. -/
theorem read_selectLines_true : ∃ kept, Batch.read (selectLines true indexes t) = .ok ⟨kept,[]⟩ ∧
    kept.map (fun l => (l.formula,l.rawText)) = (b.formulas.filter fun l =>
      indexes.contains l.index).map fun l => (l.formula,l.rawText) := by
  have hsame := map_fst_entries_selectLines true indexes t
  have hreadable : ∀ e ∈ entries (selectLines true indexes t),
      ∃ l, Formula.readLine e.1 e.2 = .ok l := by
    intro e he
    obtain ⟨e',he',htext⟩ := List.mem_map.mp (hsame ▸ List.mem_map_of_mem (f := Prod.fst) he)
    obtain ⟨hentry,hplace⟩ := mem_selected.mp he'
    obtain ⟨l,hl,hindex⟩ := hindexes e'.2 (by simpa using hplace)
    obtain ⟨i,text,hat,hread⟩ := mem_readings_entries.mp ((mem_formulas_iff h).mp hl).1
    -- the formula of the place is read from the text of the place
    rw [index_of_readLine hread,Nat.cast_inj] at hindex
    rw [hindex,(mem_entries.mp hentry).1] at hat
    rw [← htext,Option.some.inj hat]
    exact ⟨_,readLine_of_readLine hread e.2⟩
  have hformulas := map_readings_congr (fun f _ => f) hsame
  have hpairs := map_readings_congr Prod.mk hsame
  rw [readings_picked h hindexes] at hformulas hpairs
  refine ⟨_,(read_eq _).trans (readEntries_of_distinct hreadable ?_),hpairs⟩
  rw [hformulas]
  exact (accounts_read h).nodup_formulas.sublist (List.filter_sublist.map _)

/-- A picked formula is read from a line that is not picked just if a line repeats it. -/
theorem mem_readings_unpicked {l : FormulaLine} (hl : l ∈ b.formulas)
    (hpicked : indexes.contains l.index = true) :
    l.formula ∈ (readings (selected false indexes t)).map FormulaLine.formula ↔ Repeated b l := by
  have hfirst := ((mem_formulas_iff h).mp hl).2
  rw [Repeated,mem_duplicates_iff h hl,List.mem_map]
  simp only [readings_selected,List.mem_filter,beq_false,Bool.not_eq_true']
  constructor
  · rintro ⟨again,⟨hagain,hother⟩,hsame⟩
    refine ⟨again,hagain,hsame,(hfirst again hagain hsame).lt_of_ne fun heq => ?_⟩
    rw [← heq,hpicked] at hother
    cases hother
  · rintro ⟨again,hagain,hsame,hlt⟩
    refine ⟨again,⟨hagain,?_⟩,hsame⟩
    by_contra hplace
    obtain ⟨l',hl',hindex⟩ := hindexes again.index (by simpa using hplace)
    rw [eq_of_index h hl' hagain hindex.symm] at hsame hlt
    have hle := ((mem_formulas_iff h).mp hl').2 l ((mem_formulas_iff h).mp hl).1 hsame.symm
    exact absurd hlt hle.not_gt

/-- Where no picked formula is repeated, lines are picked by their places and by their formulas
alike. -/
theorem contains_formula_iff
    (hnone : ∀ l ∈ b.formulas, indexes.contains l.index = true → ¬ Repeated b l)
    {l : FormulaLine} (hl : l ∈ readings (entries t)) : indexes.contains l.index = true ↔
      l.formula ∈ (b.formulas.filter fun l => indexes.contains l.index).map FormulaLine.formula := by
  rw [List.mem_map]
  simp only [List.mem_filter]
  constructor
  · intro hindex
    obtain ⟨l',hl',heq⟩ := hindexes l.index (by simpa using hindex)
    obtain rfl := eq_of_index h hl' hl heq.symm
    exact ⟨l,⟨hl',hindex⟩,rfl⟩
  · rintro ⟨l',⟨hl',hindex⟩,hsame⟩
    by_contra hother
    refine hnone l' hl' hindex ((mem_readings_unpicked h hindexes hl' hindex).mp ?_)
    rw [readings_selected,hsame]
    exact List.mem_map_of_mem (List.mem_filter.mpr ⟨hl,by simpa using hother⟩)

/-- Where no picked formula is repeated, the other lines give the other formulas. -/
theorem eraseDups_readings_unpicked
    (hnone : ∀ l ∈ b.formulas, indexes.contains l.index = true → ¬ Repeated b l) :
    ((readings (selected false indexes t)).map FormulaLine.formula).eraseDups =
      (b.formulas.filter fun l => !indexes.contains l.index).map FormulaLine.formula := by
  let picked := (b.formulas.filter fun l => indexes.contains l.index).map FormulaLine.formula
  have hplace : ∀ l ∈ readings (entries t), (!indexes.contains l.index) =
      !decide (l.formula ∈ picked) := by
    intro l hl
    rw [Bool.not_inj_iff,Bool.eq_iff_iff,decide_eq_true_iff]
    exact contains_formula_iff h hindexes hnone hl
  have hall := map_formula_readEntries ((read_eq t).symm.trans h)
  simp only [readings_selected,beq_false]
  calc (((readings (entries t)).filter fun l => !indexes.contains l.index).map
        FormulaLine.formula).eraseDups
      = (((readings (entries t)).map FormulaLine.formula).filter fun f =>
          !decide (f ∈ picked)).eraseDups := by
        rw [List.filter_congr hplace,List.filter_map]
        rfl
    _ = (b.formulas.map FormulaLine.formula).filter fun f => !decide (f ∈ picked) := by
        rw [eraseDups_filter,hall]
    _ = _ := by
        rw [List.filter_map,List.filter_congr fun l hl =>
          hplace l ((mem_formulas_iff h).mp hl).1]
        rfl

end Read

/-! ## Lines that backtests are of -/

/-- Whether one of the backtests is of the line at a place. -/
def picks (bs : List Backtest) (place : ℤ) : Bool :=
  (bs.map fun tested => tested.line.index).contains place

theorem indexes_of_runAll {lines : List FormulaLine} {history : List Draw} {overrides : Overrides}
    {target : Option ℤ} {cache : Element.Cache} {tested : List Backtest}
    (h : (Backtest.runAll history overrides target lines cache).1 = .ok tested) :
    (tested.map fun b => b.line.index) = lines.map FormulaLine.index := by
  have hlines := congrArg (List.map FormulaLine.index) (Backtest.lines_of_runAll h)
  rw [List.map_map,List.map_map] at hlines
  exact hlines

section Tested
variable {b : Batch} {history : List Draw} {overrides : Overrides} {target : Option ℤ}
  {cache : Element.Cache} {tested bs : List Backtest}

theorem exists_formula_of_mem
    (h : (Backtest.runAll history overrides target b.formulas cache).1 = .ok tested)
    (hbs : bs ⊆ tested) :
    ∀ i ∈ bs.map fun tested => tested.line.index, ∃ l ∈ b.formulas, l.index = i := by
  intro i hi
  have hmem := List.map_subset (fun tested : Backtest => tested.line.index) hbs hi
  rw [indexes_of_runAll h] at hmem
  exact List.mem_map.mp hmem

/-- Of a batch whose formulas are tested, the lines that are kept for some of the backtests are read
as the formulas of these, as they were and in order, without a diagnostic. Every line of which
something is left is listed, as it is left, among the lines that are kept or else among those that
are dropped. -/
theorem read_keepLines (h : Batch.read t = .ok b)
    (htested : (Backtest.runAll history overrides target b.formulas cache).1 = .ok tested)
    (hbs : bs ⊆ tested) :
    (∃ kept, Batch.read (keepLines t bs) = .ok ⟨kept,[]⟩ ∧
      kept.map (fun l => (l.formula,l.rawText)) =
        (b.formulas.filter fun l => picks bs l.index).map fun l => (l.formula,l.rawText)) ∧
    Lists (keepLines t bs) (((entries t).filter fun e => picks bs e.2).map Prod.fst) ∧
    Lists (dropLines t bs) (((entries t).filter fun e => !picks bs e.2).map Prod.fst) := by
  refine ⟨read_selectLines_true h (exists_formula_of_mem htested hbs),?_,?_⟩
  · have hkept := lists_selectLines true (bs.map fun tested => tested.line.index) t
    simp only [selected,beq_true] at hkept
    exact hkept
  · have hleft := lists_selectLines false (bs.map fun tested => tested.line.index) t
    simp only [selected,beq_false] at hleft
    exact hleft

/-- What the five lines are read as. -/
def fiveBatch : Batch :=
  let f : Formula := ⟨.drawn,.tail,"特号".toList,0,15,0,0⟩
  ⟨[⟨f,"[L尾数类]特号=15".toList,0⟩,⟨{ f with rule := .sorted },"[D尾数类]特号=15".toList,4⟩],
    [.fault .shape "not a formula".toList 3,.duplicate "[L尾数类]特码=15".toList 4 1]⟩

/-- The two formulas stand on the lines 0 and 4, and the first one comes again on a line between. -/
theorem computed_fiveLines : Batch.read fiveLines = .ok fiveBatch ∧
    (Backtest.runAll [Backtest.lowDraw 1 7 (by decide)] .none none fiveBatch.formulas
      (Memo.empty 0)).1.isOk = true ∧
    ((entries fiveLines).filter fun e => [0,4].contains (e.2 : ℤ)).map Prod.fst =
      ["[L尾数类]特号=15".toList,"[D尾数类]特号=15".toList] ∧
    ((entries fiveLines).filter fun e => !([0,4].contains (e.2 : ℤ))).map Prod.fst =
      ["not a formula".toList,"[L尾数类]特码=15".toList] ∧
    ((readings ((entries fiveLines).filter fun e => !([0,4].contains (e.2 : ℤ)))).map
      FormulaLine.formula).eraseDups = [fiveBatch.formulas[0].formula] ∧
    (Batch.read (selectLines false [0,4] fiveLines)).map (fun left =>
      left.formulas.map FormulaLine.formula) = .ok [fiveBatch.formulas[0].formula] ∧
    (fiveBatch.formulas.filter fun l => !([0,4].contains l.index)) = [] := by
  decide +kernel

theorem read_fiveLines : Batch.read fiveLines = .ok fiveBatch := computed_fiveLines.1

theorem exists_tested_fiveBatch : ∃ tested,
    (Backtest.runAll [Backtest.lowDraw 1 7 (by decide)] .none none fiveBatch.formulas
      (Memo.empty 0)).1 = .ok tested ∧ (tested.map fun b => b.line.index) = [0,4] := by
  obtain ⟨-,hok,-⟩ := computed_fiveLines
  cases htested : (Backtest.runAll [Backtest.lowDraw 1 7 (by decide)] .none none fiveBatch.formulas
      (Memo.empty 0)).1 with
  | error e =>
    rw [htested] at hok
    cases hok
  | ok tested =>
    exact ⟨tested,rfl,indexes_of_runAll htested⟩

theorem read_keepLines_fiveLines : ∃ tested, Batch.read fiveLines = .ok fiveBatch ∧
    (Backtest.runAll [Backtest.lowDraw 1 7 (by decide)] .none none fiveBatch.formulas
      (Memo.empty 0)).1 = .ok tested ∧ tested ⊆ tested ∧
    (∃ kept, Batch.read (keepLines fiveLines tested) = .ok ⟨kept,[]⟩ ∧
      kept.map FormulaLine.rawText = ["[L尾数类]特号=15".toList,"[D尾数类]特号=15".toList]) ∧
    Lists (keepLines fiveLines tested) ["[L尾数类]特号=15".toList,"[D尾数类]特号=15".toList] ∧
    Lists (dropLines fiveLines tested) ["not a formula".toList,"[L尾数类]特码=15".toList] := by
  obtain ⟨tested,htested,hplaces⟩ := exists_tested_fiveBatch
  have hself := List.Subset.refl tested
  obtain ⟨⟨kept,hkept,hpairs⟩,hlists,hrest⟩ := read_keepLines read_fiveLines htested hself
  simp only [picks,hplaces] at hpairs hlists hrest
  have hrawTexts := congrArg (List.map Prod.snd) hpairs
  rw [List.map_map] at hrawTexts
  obtain ⟨-,-,hkeptLines,hleftLines,-⟩ := computed_fiveLines
  exact ⟨tested,read_fiveLines,htested,hself,⟨kept,hkept,hrawTexts⟩,hkeptLines ▸ hlists,
    hleftLines ▸ hrest⟩

/-- Of a batch whose formulas are tested, the lines that are left without those of some of the
backtests are read as the formulas that they give where nothing stands before them, each once and
in order. These are the other formulas of the batch just if no formula of these backtests is
repeated further down, and such a formula is among them just if it is repeated. -/
theorem read_dropLines (h : Batch.read t = .ok b)
    (htested : (Backtest.runAll history overrides target b.formulas cache).1 = .ok tested)
    (hbs : bs ⊆ tested) :
    ∃ left, Batch.read (dropLines t bs) = .ok left ∧
    left.formulas.map FormulaLine.formula =
      ((readings ((entries t).filter fun e => !picks bs e.2)).map FormulaLine.formula).eraseDups ∧
    (left.formulas.map FormulaLine.formula =
        (b.formulas.filter fun l => !picks bs l.index).map FormulaLine.formula ↔
      ∀ l ∈ b.formulas, picks bs l.index = true → ¬ Repeated b l) ∧
    ∀ l ∈ b.formulas, picks bs l.index = true →
      (l.formula ∈ left.formulas.map FormulaLine.formula ↔ Repeated b l) := by
  have hindexes := exists_formula_of_mem htested hbs
  obtain ⟨left,hread,hleft⟩ := read_selectLines_false h (bs.map fun tested => tested.line.index)
  have hagain : ∀ l ∈ b.formulas, picks bs l.index = true →
      (l.formula ∈ left.formulas.map FormulaLine.formula ↔ Repeated b l) := by
    intro l hl hpicked
    rw [hleft,List.mem_eraseDups]
    exact mem_readings_unpicked h hindexes hl hpicked
  refine ⟨left,hread,?_,⟨fun hothers l hl hpicked hrepeated => ?_,fun hnone => ?_⟩,hagain⟩
  · simp only [selected,beq_false] at hleft
    exact hleft
  · -- a formula that comes again is not among the others, as these are different from it
    have hmem := (hagain l hl hpicked).mpr hrepeated
    rw [hothers] at hmem
    obtain ⟨l',hl',hsame⟩ := List.mem_map.mp hmem
    obtain ⟨hl',hother⟩ := List.mem_filter.mp hl'
    have hself := List.inj_on_of_nodup_map (accounts_read h).nodup_formulas hl' hl hsame
    rw [hself,hpicked] at hother
    cases hother
  · rw [hleft]
    exact eraseDups_readings_unpicked h hindexes hnone

theorem read_dropLines_fiveLines : ∃ tested left, Batch.read fiveLines = .ok fiveBatch ∧
    (Backtest.runAll [Backtest.lowDraw 1 7 (by decide)] .none none fiveBatch.formulas
      (Memo.empty 0)).1 = .ok tested ∧ tested ⊆ tested ∧
    Batch.read (dropLines fiveLines tested) = .ok left ∧
    left.formulas.map FormulaLine.formula = [fiveBatch.formulas[0].formula] := by
  obtain ⟨tested,htested,hplaces⟩ := exists_tested_fiveBatch
  have hself := List.Subset.refl tested
  obtain ⟨left,hleft,hformulas,-⟩ := read_dropLines read_fiveLines htested hself
  refine ⟨tested,left,read_fiveLines,htested,hself,hleft,?_⟩
  obtain ⟨-,-,-,-,hagain,-⟩ := computed_fiveLines
  simp only [hformulas,picks,hplaces]
  exact hagain

/-- The first of the five lines is dropped, and its formula is read of the line that repeats it. -/
theorem not_read_dropLines_others : ¬ ∀ (t : Text) (b : Batch) (history : List Draw)
    (overrides : Overrides) (target : Option ℤ) (cache : Element.Cache) (tested bs : List Backtest),
    Batch.read t = .ok b →
    (Backtest.runAll history overrides target b.formulas cache).1 = .ok tested → bs ⊆ tested →
    ∃ left, Batch.read (dropLines t bs) = .ok left ∧ left.formulas.map FormulaLine.formula =
      (b.formulas.filter fun l => !picks bs l.index).map FormulaLine.formula := by
  intro hall
  obtain ⟨tested,htested,hplaces⟩ := exists_tested_fiveBatch
  obtain ⟨left,hleft,hothers⟩ := hall fiveLines fiveBatch _ _ _ _ tested tested read_fiveLines
    htested (List.Subset.refl tested)
  obtain ⟨-,-,-,-,-,hread,hnone⟩ := computed_fiveLines
  simp only [picks,hplaces] at hothers
  rw [dropLines,hplaces] at hleft
  rw [hleft,Except.map,hothers,hnone] at hread
  cases hread

end Tested
end Report
end DrawFormula
