import DrawFormula.Csv.Column
import DrawFormula.Proofs.Text.Integer
import Mathlib.Data.List.TakeWhile

/-! # Columns of cells

A column has a cell for each field. One of written integers that fit into 64 bits of one kind is
read as those integers; one of other numbers is read as floating-point numbers.
-/
namespace DrawFormula

namespace Csv
variable {is : List ℤ} {fields : List Text}

theorem isPadding_of_mem_ofInt {i : ℤ} {c : Char} (h : c ∈ Text.ofInt i) : isPadding c = false := by
  rcases Text.mem_ofInt h with rfl | hdigit
  · decide
  · have hbounds := Text.toNat_of_isDigit hdigit
    have hspace : c ≠ ' ' := by
      rintro rfl
      exact absurd hdigit (by decide)
    simp only [isPadding,hspace,decide_false,Bool.false_or,Bool.and_eq_false_iff,
      decide_eq_false_iff_not]
    omega

theorem integer?_ofInt (i : ℤ) : integer? (Text.ofInt i) = some i := by
  have hdigits : (Text.ofNat i.natAbs).all (fun c => '0' ≤ c && c ≤ '9') = true :=
    List.all_eq_true.mpr fun c hc => by
      simpa [Char.isDigit,Char.le_def] using Text.isDigit_of_mem_ofNat hc
  have hempty : (Text.ofNat i.natAbs).isEmpty = false := by
    simpa using Text.ofNat_ne_nil i.natAbs
  rw [integer?,Text.trimBy_eq_self fun c => isPadding_of_mem_ofInt,Text.splitSign_ofInt]
  simp only [hempty,hdigits,Bool.not_false,Bool.and_self,if_true,Text.digitsValue_ofNat,
    decide_eq_true_eq,Option.some.injEq]
  split <;> omega

/-- A word for a missing value has a character that no integer has. -/
theorem missingWords_cases :
    ∀ word ∈ missingWords, word = [] ∨ ∃ c ∈ word, c ≠ '-' ∧ c.isDigit = false := by
  decide

theorem isMissing_ofInt (i : ℤ) : isMissing (Text.ofInt i) = false := by
  rw [isMissing,← Bool.not_eq_true,List.contains_iff_mem]
  intro hmem
  rcases missingWords_cases _ hmem with hnil | ⟨c,hc,hminus,hdigit⟩
  · exact Text.ofInt_ne_nil i hnil
  · rcases Text.mem_ofInt hc with rfl | hc
    · exact hminus rfl
    · exact Bool.false_ne_true (hdigit.symm.trans hc)

theorem isNegative_ofInt (i : ℤ) : isNegative (Text.ofInt i) = decide (i < 0) := by
  rw [isNegative,Text.dropWhile_eq_self fun c => isPadding_of_mem_ofInt,decide_eq_decide,
    Text.ofInt_eq]
  split
  · next h => exact iff_of_true rfl h
  · next h =>
    refine iff_of_false (fun hhead => ?_) h
    have hdigit := Text.isDigit_of_mem_ofNat (List.mem_of_mem_head? hhead)
    exact absurd hdigit (by decide)

/-- Whether integers fit into 64 bits of one kind. -/
def FitWords (is : List ℤ) : Prop := is.all isWord = true ∨ is.all isUnsignedWord = true

instance (is : List ℤ) : Decidable (FitWords is) :=
  inferInstanceAs (Decidable (is.all isWord = true ∨ is.all isUnsignedWord = true))

theorem present_ofInt (is : List ℤ) :
    ((is.map Text.ofInt).filter fun field => !isMissing field) = is.map Text.ofInt := by
  rw [List.filter_map,List.filter_eq_self.mpr fun i _ => by simp [isMissing_ofInt]]

theorem find?_ofInt (p : ℤ → Bool) (is : List ℤ) :
    ((is.map Text.ofInt).find? fun field => !(integer? field).any p) =
      (is.find? fun i => !p i).map Text.ofInt := by
  rw [List.find?_map]
  have hread : ((fun field => !(integer? field).any p) ∘ Text.ofInt) = fun i => !p i :=
    funext fun i => by simp [integer?_ofInt]
  rw [hread]

theorem unsignedFit_ofInt (h : is.all isUnsignedWord = true) :
    unsignedFit (is.map Text.ofInt) = .unsigned := by
  have hpositive : ((is.map Text.ofInt).filter fun field => !isNegative field) =
      is.map Text.ofInt := by
    rw [List.filter_map,List.filter_eq_self.mpr fun i hi => ?_]
    have hword := List.all_eq_true.mp h i hi
    simp only [isUnsignedWord,Bool.and_eq_true,decide_eq_true_eq] at hword
    simpa [isNegative_ofInt] using hword.1
  have hnone : (is.find? fun i => !isUnsignedWord i) = none :=
    List.find?_eq_none.mpr fun i hi => by simp [List.all_eq_true.mp h i hi]
  simp only [unsignedFit,present_ofInt,hpositive,find?_ofInt,hnone,Option.map_none,decide_true,
    Bool.and_self,if_true]

theorem integerFit_ofInt (h : FitWords is) : integerFit (is.map Text.ofInt) =
    if is.all isWord then .signed else .unsigned := by
  simp only [integerFit,present_ofInt,find?_ofInt]
  split
  · next field hfield =>
    obtain ⟨i,hi,rfl⟩ := Option.map_eq_some_iff.mp hfield
    have hwords : is.all isWord = false := List.all_eq_false.mpr
      ⟨i,List.mem_of_find?_eq_some hi,by simpa using List.find?_some hi⟩
    rw [integer?_ofInt,hwords]
    exact unsignedFit_ofInt (h.resolve_left (by simp [hwords]))
  · next hnone =>
    rw [Option.map_eq_none_iff,List.find?_eq_none] at hnone
    rw [if_pos (List.all_eq_true.mpr fun i hi => by simpa using hnone i hi)]

theorem cells_ofInt (h : FitWords is) : cells (is.map Text.ofInt) = is.map .int := by
  have hmissing : (is.map Text.ofInt).any isMissing = false := by
    rw [List.any_map,List.any_eq_false]
    intro i _
    simp [isMissing_ofInt]
  have hints : (is.map Text.ofInt).map (cellOf .int integer?) = is.map .int := by
    rw [List.map_map]
    exact List.map_congr_left fun i _ => by simp [cellOf,integer?_ofInt]
  unfold cells
  rw [integerFit_ofInt h,hmissing]
  by_cases hwords : is.all isWord <;> simp only [hwords] <;> exact hints

theorem numbers_int (h : FitWords is) : numbers (is.map .int) = is.map .int := by
  have hnumbers : (is.map Cell.int).map Cell.toNumber = is.map .int := by
    rw [List.map_map]
    rfl
  have hholds (p : ℤ → Bool) : (is.map Cell.int).all (Cell.holdsOnly p) = is.all p := by
    rw [List.all_map]
    rfl
  rw [numbers,hnumbers,hholds,hholds]
  exact if_pos (Bool.or_eq_true_iff.mpr h)

/-- A column of numbers that are no integers has floating-point numbers. -/
theorem cells_of_floats (h : ∀ field ∈ fields, isMissing field = false →
    integer? field = none ∧ (number? field).isSome) :
    cells fields = cellsBy (cellOf .float number?) fields := by
  have hpresent : ∀ field ∈ fields.filter (fun field => !isMissing field),
      integer? field = none ∧ (number? field).isSome := by
    intro field hfield
    rw [List.mem_filter,Bool.not_eq_true'] at hfield
    exact h field hfield.1 hfield.2
  unfold cells
  cases hp : fields.filter fun field => !isMissing field with
  | nil =>
    have hfit : integerFit fields = .signed := by
      simp only [integerFit,hp,List.find?_nil]
    have hmissing : ∀ field ∈ fields, isMissing field = true := by simpa using hp
    rw [hfit]
    dsimp only
    split
    · exact List.map_congr_left fun field hfield => by rw [if_pos (hmissing field hfield),
        if_pos (hmissing field hfield)]
    · next hany =>
      have hnil : fields = [] := List.eq_nil_iff_forall_not_mem.mpr fun field hfield =>
        hany (List.any_eq_true.mpr ⟨field,hfield,hmissing field hfield⟩)
      rw [hnil]
      rfl
  | cons field rest =>
    have hfield : integer? field = none := (hpresent field (hp ▸ List.mem_cons_self)).1
    have hfit : integerFit fields = .none := by
      simp only [integerFit,hp,List.find?_cons,hfield,Option.any_none,Bool.not_false,
        Option.isNone_none,if_true]
    rw [hfit]
    exact if_pos (List.all_eq_true.mpr fun field hfield => (hpresent field hfield).2)

/-! ## One cell for each field -/

theorem length_cellsBy (read : Text → Cell) (fields : List Text) :
    (cellsBy read fields).length = fields.length := List.length_map _

theorem length_looseCells (fields : List Text) : (looseCells fields).length = fields.length := by
  unfold looseCells
  dsimp only
  split
  · exact length_cellsBy ..
  · split <;> exact length_cellsBy ..

theorem length_cells (fields : List Text) : (cells fields).length = fields.length := by
  unfold cells
  split
  · split
    · exact length_cellsBy ..
    · exact List.length_map _
  · exact List.length_map _
  · split
    · exact length_cellsBy ..
    · exact length_looseCells fields
  · exact List.length_map _
  · exact length_looseCells fields

end Csv

end DrawFormula
