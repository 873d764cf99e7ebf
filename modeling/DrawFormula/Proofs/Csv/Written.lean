import DrawFormula.Csv.Column
import Mathlib.Data.List.TakeWhile

/-! # Written rows are read back

The reader takes the written form of a field for the field, as long as the field is without null
characters and is quoted if it has a carriage return. Behind a comma that is all; the first field
of a row must not be blank as well, as its line could be taken for a blank one.
-/
namespace DrawFormula.Csv

/-- Whether the written form of a field is taken for the field. -/
structure Clean (field : Text) : Prop where
  noNull : ∀ c ∈ field, c.toNat ≠ 0
  quoted : '\r' ∈ field → needsQuotes field = true

instance (field : Text) : Decidable (Clean field) :=
  decidable_of_iff ((∀ c ∈ field, c.toNat ≠ 0) ∧ ('\r' ∈ field → needsQuotes field = true))
    ⟨fun h => ⟨h.1,h.2⟩,fun h => ⟨h.noNull,h.quoted⟩⟩

theorem clean_of_forall {field : Text} (h : ∀ c ∈ field, c.toNat ≠ 0 ∧ c ≠ '\r') : Clean field where
  noNull c hc := (h c hc).1
  quoted hreturn := absurd rfl (h '\r' hreturn).2

/-- Whether a field has characters, and neither spaces nor tabs. -/
def Solid (field : Text) : Prop := field ≠ [] ∧ ∀ c ∈ field, c ≠ ' ' ∧ c ≠ '\t'

/-- Whether the fields of a row are read back. -/
def Readable : List Text → Prop
  | [] => False
  | f :: rest => Solid f ∧ Clean f ∧ ∀ g ∈ rest, Clean g

namespace Reading
variable {r : Reading} {field : Text} {row : List Text} {rows : List (List Text)} {marked : Bool}

/-- At the beginning of a field. -/
def atField (marked : Bool) (row : List Text) (rows : List (List Text)) : Reading :=
  ⟨.start,[],row,rows,marked,.none,[]⟩

/-- Whether a line that goes on with a field cannot be taken for a blank one. -/
def Settled (r : Reading) (field : Text) : Prop :=
  r.row ≠ [] ∨ r.marked = true ∨ ∀ c ∈ field, c ≠ ' ' ∧ c ≠ '\t'

theorem isBlankLine_eq_false (h : r.Settled r.field)
    (hne : r.row ≠ [] ∨ r.marked = true ∨ r.field ≠ []) :
    r.isBlankLine = false := by
  rw [← Bool.not_eq_true]
  intro hblank
  simp only [isBlankLine,Bool.and_eq_true,List.isEmpty_iff,Bool.not_eq_true',List.all_eq_true,
    decide_eq_true_eq,Bool.or_eq_true] at hblank
  obtain ⟨⟨hrow,hmarked⟩,hfield⟩ := hblank
  rcases h with h | h | h
  · exact h hrow
  · exact Bool.false_ne_true (hmarked.symm.trans h)
  · have hnil : r.field = [] := List.eq_nil_iff_forall_not_mem.mpr fun c hc =>
      (hfield c hc).elim (h c hc).1 (h c hc).2
    simp [hrow,hmarked,hnil] at hne

theorem reclaim_eq_self (h : r.Settled r.field) : r.reclaim = r := by
  by_cases hne : r.field = []
  · rw [reclaim,hne,if_neg (by simp)]
  · rw [reclaim,isBlankLine_eq_false h (.inr (.inr hne)),if_neg (by simp)]

/-! ## Characters of a field -/

theorem step_eq (hpending : r.pending = .none) (c : Char) : r.step c = match r.place with
    | .start => if c = '"' then { r with place := .quoted, marked := true } else r.outside c
    | .plain => r.outside c
    | .quoted => if c = '"' then { r with place := .quote } else r.push .quoted c
    | .quote => if c = '"' then r.push .quoted c else r.outside c := by
  obtain ⟨place,field,row,rows,marked,pending,passed⟩ := r
  change pending = .none at hpending
  subst hpending
  cases place <;> rfl

theorem step_plain {c : Char} (hplace : r.place = .start ∨ r.place = .plain)
    (hpending : r.pending = .none) (h : r.Settled r.field)
    (hc : c ≠ ',' ∧ c ≠ '"' ∧ c ≠ '\n' ∧ c ≠ '\r') : r.step c = r.push .plain c := by
  have houtside : r.outside c = r.push .plain c := by
    rw [outside,if_neg hc.2.2.1,if_neg hc.2.2.2,if_neg hc.1,reclaim_eq_self h,ite_self]
  rw [step_eq hpending]
  rcases hplace with hplace | hplace
  · rw [hplace]
    exact (if_neg hc.2.1).trans houtside
  · rw [hplace]
    exact houtside

theorem foldl_plain (hplace : r.place = .start ∨ r.place = .plain) (hpending : r.pending = .none)
    (h : r.Settled (r.field ++ field))
    (hfield : ∀ c ∈ field, c ≠ ',' ∧ c ≠ '"' ∧ c ≠ '\n' ∧ c ≠ '\r') :
    ∃ place, (place = .start ∨ place = .plain) ∧
      field.foldl step r = { r with place := place, field := field.reverse ++ r.field } := by
  -- It is the whole field that `h` is about, so a line that starts with it is never reclaimed.
  induction field generalizing r with
  | nil => exact ⟨r.place,hplace,rfl⟩
  | cons c rest ih =>
    obtain ⟨hc,hrest⟩ := List.forall_mem_cons.mp hfield
    have hsettled : r.Settled r.field := h.imp_right (Or.imp_right fun hall x hx =>
      hall x (List.mem_append_left _ hx))
    have hnext : (r.push .plain c).Settled ((r.push .plain c).field ++ rest) :=
      h.imp_right (Or.imp_right fun hall x hx => hall x (by simpa [push,or_left_comm] using hx))
    obtain ⟨place,hplace',hread⟩ := ih (r := r.push .plain c) (.inr rfl) hpending hnext hrest
    refine ⟨place,hplace',?_⟩
    rw [List.foldl_cons,step_plain hplace hpending hsettled hc,hread]
    simp [push]

/-- A quote in a quoted field, written twice. -/
def doubled (c : Char) : Text := if c = '"' then ['"','"'] else [c]

theorem foldl_doubled (hplace : r.place = .quoted) (hpending : r.pending = .none) (c : Char) :
    (doubled c).foldl step r = r.push .quoted c := by
  unfold doubled
  split
  · next hc =>
    subst hc
    have hquote : r.step '"' = { r with place := .quote } := by
      rw [step_eq hpending,hplace]
      exact if_pos rfl
    have hquoted : ({ r with place := .quote } : Reading).step '"' = r.push .quoted '"' := by
      rw [step_eq (by exact hpending)]
      exact if_pos rfl
    rw [List.foldl_cons,hquote,List.foldl_cons,hquoted,List.foldl_nil]
  · next hc =>
    rw [List.foldl_cons,step_eq hpending,hplace]
    exact if_neg hc

theorem foldl_flatMap_doubled (hplace : r.place = .quoted) (hpending : r.pending = .none) :
    (field.flatMap doubled).foldl step r = { r with field := field.reverse ++ r.field } := by
  induction field generalizing r with
  | nil => rfl
  | cons c rest ih =>
    rw [List.flatMap_cons,List.foldl_append,foldl_doubled hplace hpending,
      ih (r := r.push .quoted c) rfl hpending]
    simp [push,hplace]

/-! ## Whole fields -/

/-- Whether a field is read in a row, up to the character that ends it. -/
structure HasRead (field : Text) (row : List Text) (rows : List (List Text)) (r : Reading) :
    Prop where
  place_ne : r.place ≠ .quoted
  field_eq : r.field = field.reverse
  row_eq : r.row = row
  rows_eq : r.rows = rows
  pending_eq : r.pending = .none
  passed_eq : r.passed = []
  settled : row ≠ [] ∨ r.marked = true ∨ Solid field

theorem hasRead_fieldText (h : Clean field) (hsettled : row ≠ [] ∨ Solid field) (marked : Bool)
    (rows : List (List Text)) :
    HasRead field row rows ((fieldText field).foldl step (atField marked row rows)) := by
  by_cases hquotes : needsQuotes field = true
  · have hopen : (atField marked row rows).step '"' = ⟨.quoted,[],row,rows,true,.none,[]⟩ := rfl
    have htext : fieldText field = '"' :: (field.flatMap doubled ++ ['"']) := if_pos hquotes
    rw [htext,List.foldl_cons,hopen,List.foldl_append,foldl_flatMap_doubled rfl rfl,
      List.append_nil]
    exact ⟨nofun,rfl,rfl,rfl,rfl,rfl,.inr (.inl rfl)⟩
  · have htext : fieldText field = field := if_neg hquotes
    have hplain : ∀ c ∈ field, c ≠ ',' ∧ c ≠ '"' ∧ c ≠ '\n' ∧ c ≠ '\r' := by
      intro c hc
      have hmarks : ¬(c = ',' ∨ c = '"' ∨ c = '\n') := fun hmark =>
        hquotes (List.any_eq_true.mpr ⟨c,hc,by simpa [or_assoc] using hmark⟩)
      have hreturn : c ≠ '\r' := fun hreturn => hquotes (h.quoted (hreturn ▸ hc))
      rw [not_or,not_or] at hmarks
      exact ⟨hmarks.1,hmarks.2.1,hmarks.2.2,hreturn⟩
    have hstart : (atField marked row rows).Settled ([] ++ field) :=
      hsettled.imp_right fun hsolid => .inr hsolid.2
    obtain ⟨place,hplace,hread⟩ :=
      foldl_plain (r := atField marked row rows) (.inl rfl) rfl hstart hplain
    rw [htext,hread]
    refine ⟨?_,List.append_nil _,rfl,rfl,rfl,rfl,hsettled.imp_right .inr⟩
    rcases hplace with rfl | rfl <;> nofun

namespace HasRead

theorem text_eq (h : HasRead field row rows r) (hclean : Clean field) : r.text = field := by
  rw [text,h.field_eq,List.reverse_reverse,List.takeWhile_eq_self_iff]
  exact fun c hc => decide_eq_true (hclean.noNull c hc)

theorem settled_field (h : HasRead field row rows r) : r.Settled r.field := by
  rcases h.settled with hrow | hmarked | hsolid
  · exact .inl (h.row_eq ▸ hrow)
  · exact .inr (.inl hmarked)
  · refine .inr (.inr fun c hc => hsolid.2 c ?_)
    rwa [h.field_eq,List.mem_reverse] at hc

theorem step_eq_outside (h : HasRead field row rows r) {c : Char} (hc : c ≠ '"') :
    r.step c = r.outside c := by
  rw [step_eq h.pending_eq]
  cases hplace : r.place with
  | start => exact if_neg hc
  | plain => rfl
  | quoted => exact absurd hplace h.place_ne
  | quote => exact if_neg hc

theorem step_comma (h : HasRead field row rows r) (hclean : Clean field) :
    r.step ',' = atField r.marked (field :: row) rows := by
  have houtside : r.outside ',' = r.reclaim.endField := rfl
  rw [h.step_eq_outside (by decide),houtside,reclaim_eq_self h.settled_field,endField,
    h.text_eq hclean,h.row_eq,h.rows_eq,h.pending_eq,h.passed_eq,atField]

theorem step_newline (h : HasRead field row rows r) (hclean : Clean field) :
    r.step '\n' = atField false [] ((field :: row).reverse :: rows) := by
  have houtside : r.outside '\n' = r.endRow := rfl
  have hblank : r.isBlankLine = false := by
    refine isBlankLine_eq_false h.settled_field (h.settled.imp ?_ (Or.imp_right fun hsolid => ?_))
    · exact fun hrow => h.row_eq ▸ hrow
    · rw [h.field_eq]
      simpa using hsolid.1
  rw [h.step_eq_outside (by decide),houtside,endRow,hblank,h.text_eq hclean,h.row_eq,h.rows_eq,
    atField]
  exact if_neg Bool.false_ne_true

end HasRead

/-! ## Whole rows -/

theorem foldl_fields {rest : List Text} (hclean : Clean field) (hrest : ∀ g ∈ rest, Clean g)
    (hsettled : row ≠ [] ∨ Solid field) :
    (rowText (field :: rest)).foldl step (atField marked row rows) =
      atField false [] ((row.reverse ++ field :: rest) :: rows) := by
  -- Only the first field has to be solid: behind a comma `row` is not empty.
  induction rest generalizing field row marked with
  | nil =>
    have htext : rowText [field] = fieldText field ++ ['\n'] := by simp [rowText]
    have hread := hasRead_fieldText hclean hsettled marked rows
    rw [htext,List.foldl_append,List.foldl_cons,hread.step_newline hclean,List.reverse_cons]
    rfl
  | cons g rest ih =>
    have htext : rowText (field :: g :: rest) = fieldText field ++ ',' :: rowText (g :: rest) := by
      simp [rowText]
    have hread := hasRead_fieldText hclean hsettled marked rows
    obtain ⟨hg,hrest⟩ := List.forall_mem_cons.mp hrest
    rw [htext,List.foldl_append,List.foldl_cons,hread.step_comma hclean,
      ih hg hrest (.inl (List.cons_ne_nil _ _))]
    simp

end Reading

/-- Written rows are read back. -/
theorem rows?_written {rows : List (List Text)} (h : ∀ row ∈ rows, Readable row) :
    rows? (rows.flatMap rowText) = some rows := by
  have hfold (done : List (List Text)) :
      (rows.flatMap rowText).foldl Reading.step (.atField false [] done) =
        .atField false [] (rows.reverse ++ done) := by
    induction rows generalizing done with
    | nil => rfl
    | cons row rest ih =>
      obtain ⟨hrow,hrest⟩ := List.forall_mem_cons.mp h
      match row, hrow with
      | f :: fields, ⟨hsolid,hclean,hfields⟩ =>
        rw [List.flatMap_cons,List.foldl_append,
          Reading.foldl_fields hclean hfields (.inr hsolid),ih hrest]
        simp
  have hempty : Reading.empty = .atField false [] [] := rfl
  have hblank : (Reading.atField false [] (rows.reverse ++ [])).isBlankLine = true := rfl
  rw [rows?,hempty,hfold,Reading.finish?,Reading.endRow,hblank,List.append_nil]
  exact congrArg some rows.reverse_reverse

/-! ## Tables -/

theorem fitTo?_eq_self {width : ℕ} {rows : List (List Text)} (h : ∀ row ∈ rows, row.length = width) :
    fitTo? width rows = some rows := by
  unfold fitTo?
  induction rows with
  | nil => rfl
  | cons row rest ih =>
    obtain ⟨hrow,hrest⟩ := List.forall_mem_cons.mp h
    rw [List.mapM_cons,ih hrest,if_pos hrow.le,hrow,Nat.sub_self,List.replicate_zero,
      List.append_nil]
    rfl

theorem read_of_rows {text : Text} {rows : List (List Text)} (h : rows? text = some rows)
    (hmark : text.head? ≠ some '\ufeff') : Table.read text = Table.ofRows rows := by
  unfold Table.read
  split
  next rest => exact absurd rfl hmark
  next => simp only [h]

/-- A column of rows that are as long as the names holds what the rows have at its place. -/
theorem ofRows_of_length {names : List Text} {rows : List (List Text)}
    (h : ∀ row ∈ rows, row.length = names.length) : Table.ofRows (names :: rows) =
      .ok ⟨names.mapIdx fun i name => (name,cells (rows.map fun row => (row[i]?).getD [])),
        rows.length⟩ := by
  have hwidth : max names.length ((rows.head?.map List.length).getD 0) = names.length := by
    cases rows with
    | nil => exact Nat.max_zero _
    | cons row rest =>
      rw [List.head?_cons,Option.map_some,h row List.mem_cons_self]
      exact Nat.max_self _
  simp only [Table.ofRows,hwidth,fitTo?_eq_self h,Nat.sub_self,Nat.zero_add]

end DrawFormula.Csv
