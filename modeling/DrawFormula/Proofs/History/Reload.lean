import DrawFormula.Proofs.Csv.Words
import DrawFormula.Proofs.History.Entries
import DrawFormula.Proofs.History.Table
import Mathlib.Data.List.Forall2

/-! # Draws that are loaded again

The rows of the written table are complete, have different periods and are in order, so that all of
them are kept. A row gives its draw back just if its cells in the columns of weekdays and of stems
and branches stand for what was written there.
-/
namespace DrawFormula.History
open Csv
variable {draws : List Draw}

/-! ## Rows in order -/

theorem isComplete_rowAt (draws : List Draw) (i : ℕ) (d : Draw) : (rowAt draws i d).isComplete := by
  simp [TableRow.isComplete,rowAt,Cell.isMissing]

theorem firstRows_eq_self {rows : List TableRow}
    (h : rows.Pairwise fun a b => a.period.sameNumber b.period = false) : firstRows rows = rows := by
  have hfold (rows kept : List TableRow) (hrows : (kept.reverse ++ rows).Pairwise fun a b =>
      a.period.sameNumber b.period = false) :
      rows.foldl (fun kept r => if kept.any fun earlier => earlier.period.sameNumber r.period
        then kept else r :: kept) kept = rows.reverse ++ kept := by
    induction rows generalizing kept with
    | nil => rfl
    | cons r rest ih =>
      have hnew : (kept.any fun earlier => earlier.period.sameNumber r.period) = false := by
        rw [List.any_eq_false]
        intro earlier hearlier
        rw [Bool.not_eq_true]
        exact (List.pairwise_append.mp hrows).2.2 earlier (List.mem_reverse.mpr hearlier) r
          List.mem_cons_self
      rw [List.foldl_cons,hnew,if_neg Bool.false_ne_true,ih (r :: kept) (by simpa using hrows)]
      simp
  rw [firstRows,hfold rows [] h,List.append_nil,List.reverse_reverse]

theorem pairwise_rowAt {R : Cell → Cell → Prop}
    (h : draws.Pairwise fun a b => R (.int a.period) (.int b.period)) :
    (draws.mapIdx (rowAt draws)).Pairwise fun a b => R a.period b.period := by
  have hperiods : (draws.mapIdx (rowAt draws)).map TableRow.period =
      draws.map fun d => .int d.period :=
    List.ext_getElem (by simp) fun i hi hi' => by simp [rowAt]
  rw [← List.pairwise_map,hperiods,List.pairwise_map]
  exact h

/-! ## Draws of rows -/

/-- The weekday that a cell stands for. -/
def weekdayIn (c : Cell) : Except IntegerError (Option ℤ) :=
  if c.isMissing then .ok none else (cellInt c).map some

theorem cellInt_int (i : ℤ) : cellInt (.int i) = .ok i := rfl

theorem mapM_cellInt (is : List ℤ) : (is.map Cell.int).mapM cellInt = .ok is := by
  induction is with
  | nil => rfl
  | cons i rest ih =>
    rw [List.map_cons,List.mapM_cons,ih]
    rfl

theorem draw_rowAt_eq_ok_iff (draws : List Draw) (i : ℕ) (d : Draw) :
    (rowAt draws i d).draw = .ok d ↔ weekdayIn (cellAt (some (columnAt draws 9)) i) = .ok d.weekday ∧
      cellText (cellAt (some (columnAt draws 10)) i) = d.stemBranch := by
  have hdraw : (rowAt draws i d).draw =
      match weekdayIn (cellAt (some (columnAt draws 9)) i) with
      | .error e => .error (.integer e)
      | .ok w => .ok { d with
          weekday := w, stemBranch := cellText (cellAt (some (columnAt draws 10)) i) } := by
    simp only [TableRow.draw,rowAt,cellInt_int,mapM_cellInt,Except.mapError,make_eq_ok,bind,
      Except.bind,weekdayIn]
    cases (cellAt (some (columnAt draws 9)) i).isMissing with
    | true => rfl
    | false => cases cellInt (cellAt (some (columnAt draws 9)) i) <;> rfl
  rw [hdraw]
  cases weekdayIn (cellAt (some (columnAt draws 9)) i) with
  | error e => simp
  | ok w =>
    cases d
    simp

theorem mapM_eq_ok_iff {α β ε : Type} (f : α → Except ε β) (xs : List α) (ys : List β) :
    xs.mapM f = .ok ys ↔ List.Forall₂ (fun x y => f x = .ok y) xs ys := by
  induction xs generalizing ys with
  | nil =>
    rw [List.mapM_nil,List.forall₂_nil_left_iff]
    exact ⟨fun h => (Except.ok.inj h).symm,fun h => h ▸ rfl⟩
  | cons x rest ih =>
    rw [List.mapM_cons,List.forall₂_cons_left_iff]
    constructor
    · intro h
      cases hy : f x with
      | error e =>
        rw [hy] at h
        cases h
      | ok y =>
        cases hys : rest.mapM f with
        | error e =>
          rw [hy,hys] at h
          cases h
        | ok ys' =>
          rw [hy,hys] at h
          exact ⟨y,ys',rfl,(ih ys').mp hys,(Except.ok.inj h).symm⟩
    · rintro ⟨y,ys,hy,hys,rfl⟩
      rw [hy,(ih ys).mpr hys]
      rfl

/-- Whether the column of weekdays is read back. -/
def WeekdaysKept (draws : List Draw) : Prop :=
  (cells (draws.map fun d => weekdayText (integralWeekdays draws) d.weekday)).map weekdayIn =
    draws.map fun d => .ok d.weekday

/-- Whether the column of stems and branches is read back. -/
def StemsKept (draws : List Draw) : Prop :=
  (cells (draws.map fun d => d.stemBranch.getD [])).map cellText = draws.map Draw.stemBranch

theorem map_eq_map_iff {β : Type} {column : List Cell} (h : column.length = draws.length)
    (f : Cell → β) (g : Draw → β) : column.map f = draws.map g ↔
      ∀ (i : ℕ) (hi : i < draws.length), f (cellAt (some column) i) = g draws[i] := by
  have hcell {i : ℕ} (hi : i < draws.length) : cellAt (some column) i = column[i] := by
    simp [cellAt,h,hi]
  constructor
  · intro hmaps i hi
    have hget := congrArg (fun l => l[i]?) hmaps
    rw [hcell hi]
    simpa [h,hi] using hget
  · intro hall
    refine List.ext_getElem (by simp [h]) fun i hi hi' => ?_
    rw [List.length_map] at hi'
    rw [List.getElem_map,List.getElem_map,← hcell hi',hall i hi']

/-- Draws in order, with periods that fit into 64 bits of one kind and stems and branches that are
taken for what they are, are loaded again just if the weekdays and the stems and branches are read
back column by column. -/
theorem ofTable_tableText_iff (horder : draws.Pairwise fun a b => b.period < a.period)
    (hperiods : FitWords (draws.map Draw.period))
    (hstems : ∀ d ∈ draws, ∀ t ∈ d.stemBranch, Clean t) (year : ℤ) :
    ofTable (tableText draws) year = .ok draws ↔ WeekdaysKept draws ∧ StemsKept draws := by
  -- Every row is complete, and the rows stand in order already, so all of them stay in place.
  have hrows : ofTable (tableText draws) year =
      (draws.mapIdx (rowAt draws)).mapM TableRow.draw := by
    have hcomplete : (draws.mapIdx (rowAt draws)).filter TableRow.isComplete =
        draws.mapIdx (rowAt draws) := by
      refine List.filter_eq_self.mpr fun r hr => ?_
      obtain ⟨i,hi,rfl⟩ := List.mem_mapIdx.mp hr
      exact isComplete_rowAt ..
    have hfirst : firstRows (draws.mapIdx (rowAt draws)) = draws.mapIdx (rowAt draws) :=
      firstRows_eq_self (pairwise_rowAt (R := fun a b => a.sameNumber b = false)
        (horder.imp fun h => decide_eq_false (Int.ne_of_gt h)))
    have hsorted : (draws.mapIdx (rowAt draws)).mergeSort (fun a b => a.period.atLeast b.period) =
        draws.mapIdx (rowAt draws) :=
      List.mergeSort_of_pairwise (pairwise_rowAt (R := fun a b => a.atLeast b = true)
        (horder.imp fun h => decide_eq_true (Int.le_of_lt h)))
    simp only [ofTable,read_tableText hstems,Except.mapError,bind,Except.bind,
      tableRows_writtenTable hperiods,hcomplete,hfirst,hsorted]
  have hweekday : columnAt draws 9 =
      cells (draws.map fun d => weekdayText (integralWeekdays draws) d.weekday) :=
    congrArg cells (List.map_congr_left fun d _ => by simp [rowOf,d.length_numbers])
  have hstem : columnAt draws 10 = cells (draws.map fun d => d.stemBranch.getD []) :=
    congrArg cells (List.map_congr_left fun d _ => by simp [rowOf,d.length_numbers])
  rw [hrows,mapM_eq_ok_iff,WeekdaysKept,StemsKept,← hweekday,← hstem,
    map_eq_map_iff (length_columnAt draws 9),map_eq_map_iff (length_columnAt draws 10),
    List.forall₂_iff_get]
  simp only [List.length_mapIdx,List.get_eq_getElem,List.getElem_mapIdx,draw_rowAt_eq_ok_iff,
    true_and]
  exact ⟨fun h => ⟨fun i hi => (h i hi hi).1,fun i hi => (h i hi hi).2⟩,
    fun h i hi _ => ⟨h.1 i hi,h.2 i hi⟩⟩

/-! ## Columns that are read back -/

theorem weekdaysKept_of_known (h : ∀ d ∈ draws, d.weekday.isSome)
    (hfit : FitWords (draws.filterMap Draw.weekday)) : WeekdaysKept draws := by
  have hknown : ∀ d ∈ draws, d.weekday = some (d.weekday.getD 0) := fun d hd => by
    obtain ⟨w,hw⟩ := Option.isSome_iff_exists.mp (h d hd)
    rw [hw,Option.getD_some]
  have hlist : draws.filterMap Draw.weekday = draws.map fun d => d.weekday.getD 0 :=
    (List.filterMap_congr hknown).trans (congrFun List.filterMap_eq_map' draws)
  have hintegral : integralWeekdays draws = true := by
    simp only [integralWeekdays,List.filterMap_length_eq_length.mpr h,decide_true,Bool.true_or]
  have hfields : (draws.map fun d => weekdayText (integralWeekdays draws) d.weekday) =
      (draws.filterMap Draw.weekday).map Text.ofInt := by
    rw [hlist,List.map_map]
    refine List.map_congr_left fun d hd => ?_
    rw [hintegral,hknown d hd]
    rfl
  rw [WeekdaysKept,hfields,cells_ofInt hfit,hlist,List.map_map,List.map_map]
  refine List.map_congr_left fun d hd => ?_
  rw [hknown d hd]
  rfl

/-- What is asked of a weekday that is written with a decimal point, for it to be read back. -/
structure ReadsAsFloat (w : ℤ) : Prop where
  present : isMissing (weekdayText false (some w)) = false
  noInteger : integer? (weekdayText false (some w)) = none
  number : (number? (weekdayText false (some w))).isSome
  same : weekdayIn (cellOf .float number? (weekdayText false (some w))) = .ok (some w)

theorem readsAsFloat_of_small {w : ℤ} (h : 0 ≤ w ∧ w < 10) : ReadsAsFloat w := by
  have hdigits : ∀ n ∈ List.range 10, isMissing (weekdayText false (some (n : ℤ))) = false ∧
      integer? (weekdayText false (some (n : ℤ))) = none ∧
      (number? (weekdayText false (some (n : ℤ)))).isSome ∧
      weekdayIn (cellOf .float number? (weekdayText false (some (n : ℤ)))) = .ok (some (n : ℤ)) := by
    decide +kernel
  obtain ⟨n,rfl⟩ := Int.eq_ofNat_of_zero_le h.1
  obtain ⟨hpresent,hinteger,hnumber,hsame⟩ := hdigits n (List.mem_range.mpr (by omega))
  exact ⟨hpresent,hinteger,hnumber,hsame⟩

theorem weekdaysKept_of_readsAsFloat (hintegral : integralWeekdays draws = false)
    (h : ∀ d ∈ draws, ∀ w ∈ d.weekday, ReadsAsFloat w) : WeekdaysKept draws := by
  have hfields : ∀ field ∈ draws.map fun d => weekdayText false d.weekday,
      isMissing field = false → integer? field = none ∧ (number? field).isSome := by
    rw [List.forall_mem_map]
    intro d hd hpresent
    cases hw : d.weekday with
    | none =>
      rw [hw] at hpresent
      cases hpresent
    | some w => exact ⟨(h d hd w hw).noInteger,(h d hd w hw).number⟩
  rw [WeekdaysKept,hintegral,cells_of_floats hfields,cellsBy,List.map_map,List.map_map]
  refine List.map_congr_left fun d hd => ?_
  rw [Function.comp_apply,Function.comp_apply]
  cases hw : d.weekday with
  | none => rfl
  | some w =>
    rw [(h d hd w hw).present,if_neg Bool.false_ne_true]
    exact (h d hd w hw).same

theorem weekdaysKept_of_small (h : ∀ d ∈ draws, ∀ w ∈ d.weekday, 0 ≤ w ∧ w < 10) :
    WeekdaysKept draws := by
  have hfit : (draws.filterMap Draw.weekday).all isWord = true := by
    refine List.all_eq_true.mpr fun w hw => ?_
    obtain ⟨d,hd,hw⟩ := List.mem_filterMap.mp hw
    have hsmall := h d hd w hw
    simp only [isWord,Bool.and_eq_true,decide_eq_true_eq]
    omega
  -- Weekdays are written with a decimal point as soon as one is not known.
  by_cases hall : ∀ d ∈ draws, d.weekday.isSome
  · exact weekdaysKept_of_known hall (.inl hfit)
  · refine weekdaysKept_of_readsAsFloat ?_ fun d hd w hw => readsAsFloat_of_small (h d hd w hw)
    rw [← List.filterMap_length_eq_length] at hall
    simp only [integralWeekdays,decide_eq_false hall,hfit,Bool.true_or,Bool.not_true,Bool.or_self]

theorem stemsKept_of_none (h : ∀ d ∈ draws, d.stemBranch = none) : StemsKept draws := by
  have hfields : ∀ field ∈ draws.map fun d => d.stemBranch.getD [],
      isMissing field = true := by
    rw [List.forall_mem_map]
    intro d hd
    rw [h d hd]
    rfl
  have hcells := cells_of_floats fun field hfield hpresent =>
    absurd (hfields field hfield) (by rw [hpresent]; exact Bool.false_ne_true)
  rw [StemsKept,hcells,cellsBy,List.map_map,List.map_map]
  refine List.map_congr_left fun d hd => ?_
  rw [Function.comp_apply,Function.comp_apply,h d hd]
  rfl

/-- If there is a word among stems and branches, they are read back just if none of them is a word
for a missing value. -/
theorem stemsKept_iff (h : ∃ d ∈ draws, ∃ t ∈ d.stemBranch, Worded t) :
    StemsKept draws ↔ ∀ d ∈ draws, ∀ t ∈ d.stemBranch, isMissing t = false := by
  obtain ⟨d,hd,t,ht,hworded⟩ := h
  have hfield : t ∈ draws.map fun d => d.stemBranch.getD [] :=
    List.mem_map.mpr ⟨d,hd,by rw [Option.mem_def.mp ht,Option.getD_some]⟩
  rw [StemsKept,cells_of_worded hworded hfield,cellsBy,List.map_map,List.map_map,List.map_inj_left]
  refine forall₂_congr fun d _ => ?_
  rw [Function.comp_apply,Function.comp_apply]
  cases hstem : d.stemBranch with
  | none => exact iff_of_true rfl nofun
  | some t => cases ht : isMissing t <;> simp [ht,cellText]

end DrawFormula.History
