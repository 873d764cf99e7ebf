import DrawFormula.History.Table
import DrawFormula.Proofs.Csv.Columns
import DrawFormula.Proofs.Csv.Written
import DrawFormula.Proofs.Decimal.Text

/-! # The table that draws are written as

The text of draws is read as a table with a row for each draw. Its columns of periods, numbers and
years hold what was written. What the columns of weekdays and of stems and branches hold depends on
all their fields together.
-/
namespace DrawFormula.History
open Csv
variable {draws : List Draw} {d : Draw} {integral : Bool}

/-! ## The table that is read -/

theorem length_rowOf (integral : Bool) (d : Draw) : (rowOf integral d).length = 11 := by
  simp [rowOf,d.length_numbers]

theorem plain_of_mem_ofInt {i : ℤ} {c : Char} (h : c ∈ Text.ofInt i) :
    c.toNat ≠ 0 ∧ c ≠ '\r' ∧ c ≠ ' ' ∧ c ≠ '\t' := by
  rcases Text.mem_ofInt h with rfl | hdigit
  · decide
  · have hbounds := Text.toNat_of_isDigit hdigit
    refine ⟨by omega,?_,?_,?_⟩ <;> rintro rfl <;> revert hbounds <;> decide

theorem clean_ofInt (i : ℤ) : Clean (Text.ofInt i) := clean_of_forall fun _ hc =>
  ⟨(plain_of_mem_ofInt hc).1,(plain_of_mem_ofInt hc).2.1⟩

theorem clean_weekdayText (integral : Bool) (w : Option ℤ) : Clean (weekdayText integral w) := by
  unfold weekdayText
  split
  · exact clean_of_forall nofun
  · split
    · exact clean_ofInt _
    · refine clean_of_forall fun c hc => ?_
      have hchar := List.all_eq_true.mp (Decimal.all_text _) c hc
      constructor
      · intro hnull
        have hc : c = Char.ofNat 0 := by rw [← hnull,Char.ofNat_toNat]
        subst hc
        revert hchar
        decide
      · rintro rfl
        revert hchar
        decide

theorem readable_header : Readable (allColumns.map String.toList) := by
  have hplain : ∀ name ∈ allColumns.map String.toList,
      ∀ c ∈ name, c.toNat ≠ 0 ∧ c ≠ '\r' ∧ c ≠ ' ' ∧ c ≠ '\t' := by decide
  have hclean : ∀ name ∈ allColumns.map String.toList, Clean name := fun name hname =>
    clean_of_forall fun c hc => ⟨(hplain name hname c hc).1,(hplain name hname c hc).2.1⟩
  refine ⟨⟨by decide,fun c hc => ?_⟩,List.forall_mem_cons.mp hclean⟩
  exact (hplain _ List.mem_cons_self c hc).2.2

theorem readable_rowOf (h : ∀ t ∈ d.stemBranch, Clean t) : Readable (rowOf integral d) := by
  have hstem : Clean (d.stemBranch.getD []) := by
    cases hstem : d.stemBranch with
    | none => exact clean_of_forall nofun
    | some t => exact h t hstem
  refine ⟨⟨Text.ofInt_ne_nil _,fun c hc => (plain_of_mem_ofInt hc).2.2⟩,clean_ofInt _,?_⟩
  refine List.forall_mem_append.mpr ⟨List.forall_mem_map.mpr fun n _ => clean_ofInt n,?_⟩
  simp only [List.forall_mem_cons]
  exact ⟨clean_ofInt _,clean_weekdayText _ _,hstem,nofun⟩

/-- The cells of a column of the written table. -/
def columnAt (draws : List Draw) (i : ℕ) : List Cell :=
  cells (draws.map fun d => ((rowOf (integralWeekdays draws) d)[i]?).getD [])

/-- The table that is read from the text of draws. -/
def writtenTable (draws : List Draw) : Table :=
  ⟨(allColumns.map String.toList).mapIdx fun i name => (name,columnAt draws i),draws.length⟩

theorem read_tableText (h : ∀ d ∈ draws, ∀ t ∈ d.stemBranch, Clean t) :
    Table.read (tableText draws) = .ok (writtenTable draws) := by
  have hrows : rows? (tableText draws) = some (allColumns.map String.toList ::
      draws.map (rowOf (integralWeekdays draws))) := by
    rw [← rows?_written (List.forall_mem_cons.mpr ⟨readable_header,List.forall_mem_map.mpr
      fun d hd => readable_rowOf (h d hd)⟩),tableText,List.flatMap_cons,List.flatMap_map]
  have hlength : ∀ row ∈ draws.map (rowOf (integralWeekdays draws)),
      row.length = (allColumns.map String.toList).length :=
    List.forall_mem_map.mpr fun d _ => length_rowOf _ d
  have hmark : (tableText draws).head? ≠ some '\ufeff' := by
    have hhead : (tableText draws).head? = some 'p' := rfl
    rw [hhead]
    decide
  refine (read_of_rows hrows hmark).trans ((ofRows_of_length hlength).trans ?_)
  simp only [writtenTable,columnAt,List.map_map,List.length_map,Function.comp_def]

/-! ## The rows of the table -/

theorem length_columnAt (draws : List Draw) (i : ℕ) : (columnAt draws i).length = draws.length := by
  rw [columnAt,length_cells,List.length_map]

/-- A column that holds an integer of every draw. -/
theorem numbers_columnAt {i : ℕ} {f : Draw → ℤ} (hf : ∀ (integral : Bool) (d : Draw),
    (rowOf integral d)[i]? = some (Text.ofInt (f d))) (h : FitWords (draws.map f)) :
    numbers (columnAt draws i) = draws.map fun d => .int (f d) := by
  have hfields : (draws.map fun d => ((rowOf (integralWeekdays draws) d)[i]?).getD []) =
      (draws.map f).map Text.ofInt := by
    rw [List.map_map]
    exact List.map_congr_left fun d _ => by rw [hf,Option.getD_some,Function.comp_apply]
  rw [columnAt,hfields,cells_ofInt h,numbers_int h,List.map_map]
  rfl

theorem fitWords_of_small {is : List ℤ} (h : ∀ i ∈ is, 0 ≤ i ∧ i < 100) : FitWords is :=
  .inl (List.all_eq_true.mpr fun i hi => by
    have hi := h i hi
    simp only [isWord,Bool.and_eq_true,decide_eq_true_eq]
    omega)

theorem numbers_columnAt_number {i : ℕ} (hi : i < 7) :
    numbers (columnAt draws (i + 1)) = draws.map fun d => .int ((d.numbers[i]?).getD 0) := by
  refine numbers_columnAt (fun integral d => ?_) (fitWords_of_small ?_)
  · have hlength : i < d.numbers.length := by rw [d.length_numbers]; exact hi
    simp [rowOf,List.getElem?_append,hlength]
  · rw [List.forall_mem_map]
    intro d _
    have hlength : i < d.numbers.length := by rw [d.length_numbers]; exact hi
    rw [List.getElem?_eq_getElem hlength,Option.getD_some]
    have hrange := d.numbers_inRange _ (List.getElem_mem hlength)
    simp only [Number.least,Number.greatest] at hrange
    omega

theorem numbers_columnAt_year :
    numbers (columnAt draws 8) = draws.map fun d => .int d.zodiacYear := by
  refine numbers_columnAt (fun integral d => ?_) (fitWords_of_small ?_)
  · simp [rowOf,d.length_numbers]
  · rw [List.forall_mem_map]
    intro d _
    have hrange := d.year_inRange
    omega

theorem numbers_columnAt_period (h : FitWords (draws.map Draw.period)) :
    numbers (columnAt draws 0) = draws.map fun d => .int d.period :=
  numbers_columnAt (fun _ _ => rfl) h

theorem cellAt_map {i : ℕ} (hi : i < draws.length) (f : Draw → Cell) :
    cellAt (some (draws.map f)) i = f draws[i] := by
  simp [cellAt,hi]

theorem map_range_numbers (d : Draw) :
    ((List.range 7).map fun i => Cell.int ((d.numbers[i]?).getD 0)) = d.numbers.map .int := by
  refine List.ext_getElem (by simp [d.length_numbers]) fun i hi hi' => ?_
  have hlength : i < d.numbers.length := by simpa using hi'
  simp [hlength]

/-- The row of the written table that a draw has at a place. -/
def rowAt (draws : List Draw) (i : ℕ) (d : Draw) : TableRow where
  period := .int d.period
  numbers := d.numbers.map .int
  zodiacYear := .int d.zodiacYear
  weekday := cellAt (some (columnAt draws 9)) i
  stemBranch := cellAt (some (columnAt draws 10)) i

theorem tableRows_writtenTable (h : FitWords (draws.map Draw.period)) (year : ℤ) :
    tableRows (writtenTable draws) year = .ok (draws.mapIdx (rowAt draws)) := by
  have hperiod : numberColumn (writtenTable draws) "period" = .ok (numbers (columnAt draws 0)) := rfl
  have hnumbers : numberColumns.mapM (numberColumn (writtenTable draws)) =
      .ok ((List.range 7).map fun i => numbers (columnAt draws (i + 1))) := rfl
  have hyear : (writtenTable draws).column? "zodiac_year" = some (columnAt draws 8) := rfl
  have hweekday : (writtenTable draws).column? "weekday" = some (columnAt draws 9) := rfl
  have hstem : (writtenTable draws).column? "stem_branch" = some (columnAt draws 10) := rfl
  have hsize : (writtenTable draws).size = draws.length := rfl
  unfold tableRows
  rw [hperiod,hnumbers,hyear,hweekday,hstem,hsize]
  refine congrArg Except.ok (List.ext_getElem (by simp) fun i hi hi' => ?_)
  have hlength : i < draws.length := by simpa using hi'
  have hcells : (List.range 7).map (fun j => cellAt (some (numbers (columnAt draws (j + 1)))) i) =
      draws[i].numbers.map .int := by
    rw [← map_range_numbers]
    refine List.map_congr_left fun j hj => ?_
    rw [numbers_columnAt_number (List.mem_range.mp hj),cellAt_map hlength]
  simp only [List.getElem_map,List.getElem_range,List.getElem_mapIdx,List.map_map,
    Function.comp_def,Option.map_some,hcells,numbers_columnAt_period h,numbers_columnAt_year,
    cellAt_map hlength]
  rfl

end DrawFormula.History
