import DrawFormula.Formula.Numbering
import DrawFormula.Proofs.Formula.DisplayNumber
import DrawFormula.Proofs.Formula.Entries
import DrawFormula.Proofs.Text.Lines

/-! # Display numbers have no influence on what is read

A line that gets an index is read as before, and a line that has one keeps it. Blank lines are left
out, so that what is said of a line of the numbered text is said of its rank among the lines that
are not blank. A text is numbered once and for all.
-/
namespace DrawFormula
open Text

namespace Formula
variable {t rest : Text}

/-! ## Indexes at the start of a line -/

theorem afterIndex?_eq_some_iff : afterIndex? t = some rest ↔ ∃ before ds,
    t = before ++ '[' :: (ds ++ ']' :: rest) ∧ (∀ c ∈ before, isBlank c = true) ∧
      ds ≠ [] ∧ ∀ c ∈ ds, isDigit c = true := by
  constructor
  · intro h
    obtain ⟨before,hsplit,hb⟩ := stripLeft_split t
    unfold afterIndex? at h
    split at h
    · next u heq =>
      obtain ⟨ds,htake,hcat,hds⟩ := digits_split u
      rw [htake] at h
      split at h
      · next d ds' r hd =>
        cases h
        exact ⟨before,d :: ds',by rw [hsplit,heq,hcat,hd],hb,by simp,hds⟩
      · cases h
    · cases h
  · rintro ⟨before,ds,rfl,hb,hne,hds⟩
    exact afterIndex?_append hb hne hds rest

theorem afterIndex?_append_blanks {blanks : Text} (h : ∀ c ∈ blanks, isBlank c = true) (t : Text) :
    afterIndex? (t ++ blanks) = (afterIndex? t).map (· ++ blanks) := by
  ext rest
  rw [Option.map_eq_some_iff,afterIndex?_eq_some_iff]
  constructor
  · rintro ⟨before,ds,hcat,hb,hds⟩
    have hparts : t ++ blanks = (before ++ '[' :: ds ++ [']']) ++ rest := by
      rw [hcat]
      simp
    rcases List.append_eq_append_iff.mp hparts with ⟨more,hopen,hblanks⟩ | ⟨more,ht,hrest⟩
    · -- the closing bracket is no blank, hence it belongs to the text before the blanks
      have hnil : more = [] := by
        by_contra hne
        have hclose : ']' ∈ more := by
          have hlast := congrArg List.getLast? hopen
          rw [List.getLast?_append_of_ne_nil _ hne,List.getLast?_concat] at hlast
          exact List.mem_of_mem_getLast? hlast.symm
        have hblank := h ']' (by rw [hblanks]; exact List.mem_append_left _ hclose)
        exact absurd hblank (by decide)
      subst hnil
      refine ⟨[],afterIndex?_eq_some_iff.mpr ⟨before,ds,?_,hb,hds⟩,by simpa using hblanks⟩
      simpa using hopen.symm
    · refine ⟨more,afterIndex?_eq_some_iff.mpr ⟨before,ds,?_,hb,hds⟩,hrest.symm⟩
      simpa using ht
  · rintro ⟨r,hr,rfl⟩
    obtain ⟨before,ds,rfl,hb,hds⟩ := afterIndex?_eq_some_iff.mp hr
    exact ⟨before,ds,by simp,hb,hds⟩

theorem afterIndex?_stripLeft (t : Text) : afterIndex? (stripLeft t) = afterIndex? t := by
  rw [afterIndex?,stripLeft_stripLeft,afterIndex?]

end Formula

namespace Batch
open Formula
variable {t rest : Text}

/-! ## Clean lines -/

theorem cleanLine_of_index (h : afterIndex? t = some rest) : cleanLine t = strip rest := by
  rw [cleanLine,dropIndex,h,strip_stripLeft]

theorem cleanLine_of_none (h : afterIndex? t = none) : cleanLine t = strip t := by
  rw [cleanLine,dropIndex,h]

theorem cleanLine_strip (t : Text) : cleanLine (strip t) = cleanLine t := by
  obtain ⟨blanks,hsplit,hblanks⟩ := stripRight_split (stripLeft t)
  have hindex : afterIndex? t = (afterIndex? (strip t)).map (· ++ blanks) := by
    rw [← afterIndex?_append_blanks hblanks,strip,← hsplit,afterIndex?_stripLeft]
  cases h : afterIndex? (strip t) with
  | none =>
    rw [h] at hindex
    rw [cleanLine_of_none h,cleanLine_of_none hindex,(trimmed_strip t).strip_eq]
  | some rest =>
    rw [h] at hindex
    rw [cleanLine_of_index h,cleanLine_of_index hindex,strip_append_blanks hblanks]

theorem trimmed_cleanLine (t : Text) : Trimmed (cleanLine t) := trimmed_strip _

theorem mem_dropIndex {c : Char} (h : c ∈ dropIndex t) : c ∈ t := by
  unfold dropIndex at h
  split at h
  · next rest hrest =>
    obtain ⟨before,ds,rfl,-⟩ := afterIndex?_eq_some_iff.mp hrest
    have hmem := (List.dropWhile_suffix isBlank).subset h
    simp [hmem]
  · exact h

/-- A blank line leaves nothing. -/
theorem proper_of_clean (t : Text) :
    (!(cleanLine t).isEmpty && !(strip t).isEmpty) = !(cleanLine t).isEmpty := by
  cases h : strip t with
  | nil =>
    rw [← cleanLine_strip,h]
    rfl
  | cons c rest => rw [List.isEmpty_cons,Bool.not_false,Bool.and_true]

end Batch

namespace Numbering
open Formula Batch

/-! ## Numbered lines -/

theorem indexText_eq (place : ℕ) : ∃ ds, indexText place = '[' :: (ds ++ [']']) ∧ ds ≠ [] ∧
    ∀ c ∈ ds, c.isDigit := by
  refine ⟨_,rfl,?_,fun c hc => ?_⟩
  · exact List.append_ne_nil_of_right_ne_nil _ (ofNat_ne_nil _)
  · rcases List.mem_append.mp hc with hzero | hdigit
    · rw [List.eq_of_mem_replicate hzero]
      decide
    · exact isDigit_of_mem_ofNat hdigit

theorem afterIndex?_indexText (place : ℕ) (rest : Text) :
    afterIndex? (indexText place ++ rest) = some rest := by
  obtain ⟨ds,htext,hne,hds⟩ := indexText_eq place
  rw [htext,afterIndex?_eq_some_iff]
  exact ⟨[],ds,by simp,by simp,hne,fun c hc => isDigit_of_ascii (hds c hc)⟩

theorem not_isLineBreak_indexText (place : ℕ) : ∀ c ∈ indexText place, isLineBreak c = false := by
  obtain ⟨ds,htext,-,hds⟩ := indexText_eq place
  intro c hc
  rw [htext] at hc
  rcases List.mem_cons.mp hc with rfl | hc
  · decide
  · rcases List.mem_append.mp hc with hdigit | hclose
    · by_contra hbreak
      have hblank := isBlank_of_isLineBreak (by simpa using hbreak)
      rw [isBlank_of_isDigit (isDigit_of_ascii (hds c hdigit))] at hblank
      cases hblank
    · rw [List.mem_singleton.mp hclose]
      decide

/-! ## Ranks -/

theorem zipIdx_filter {α : Type} (p : α → Bool) (l : List α) : (l.filter p).zipIdx =
    (l.zipIdx.filter fun x => p x.1).map fun x => (x.1,(l.take x.2).countP p) := by
  induction l using List.reverseRecOn with
  | nil => rfl
  | append_singleton l a ih =>
    have hold : ∀ x ∈ l.zipIdx.filter fun x => p x.1,
        (x.1,(l.take x.2).countP p) = (x.1,((l ++ [a]).take x.2).countP p) := by
      intro x hx
      obtain ⟨hlt,-⟩ := List.getElem?_eq_some_iff.mp
        (List.mem_zipIdx_iff_getElem?.mp (List.mem_of_mem_filter hx))
      rw [List.take_append_of_le_length hlt.le]
    rw [List.zipIdx_append,List.filter_append,List.filter_append,List.map_append,
      List.zipIdx_append,ih,List.map_congr_left hold]
    by_cases ha : p a = true
    · simp [ha,List.countP_eq_length_filter]
    · simp [ha]

/-- The rank of a place of a text among the lines that are not blank, both counted from 0. -/
def rank (t : Text) (place : ℕ) : ℕ :=
  ((splitLines t).take place).countP fun line => !(strip line).isEmpty

theorem properLines_eq (t : Text) : properLines t =
    ((splitLines t).filter fun line => !(strip line).isEmpty).map strip := by
  rw [properLines,List.filter_map]
  rfl

theorem mem_properLines {t line : Text} (h : line ∈ properLines t) :
    line ≠ [] ∧ Trimmed line ∧ ∀ c ∈ line, isLineBreak c = false := by
  rw [properLines,List.mem_filter,List.mem_map] at h
  obtain ⟨⟨whole,hwhole,rfl⟩,hne⟩ := h
  exact ⟨by simpa using hne,trimmed_strip whole,
    fun c hc => not_isLineBreak_of_mem_splitLines hwhole c (mem_strip hc)⟩

/-! ## Lines with an index -/

theorem isSome_afterIndex?_addIndex (place : ℕ) (line : Text) :
    (afterIndex? (addIndex place line)).isSome := by
  unfold addIndex
  split
  · assumption
  · rw [afterIndex?_indexText]
    rfl

theorem cleanLine_addIndex (place : ℕ) (line : Text) :
    cleanLine (addIndex place line) = cleanLine line := by
  unfold addIndex
  split
  · rfl
  · next hnone =>
    rw [cleanLine_of_index (afterIndex?_indexText place line),
      cleanLine_of_none (by simpa using hnone)]

theorem addIndex_ne_nil (place : ℕ) {line : Text} (h : line ≠ []) : addIndex place line ≠ [] := by
  unfold addIndex
  split
  · exact h
  · exact List.append_ne_nil_of_right_ne_nil _ h

theorem not_isLineBreak_addIndex (place : ℕ) {line : Text}
    (h : ∀ c ∈ line, isLineBreak c = false) : ∀ c ∈ addIndex place line, isLineBreak c = false := by
  unfold addIndex
  split
  · exact h
  · intro c hc
    exact (List.mem_append.mp hc).elim (not_isLineBreak_indexText place c) (h c)

theorem trimmed_addIndex (place : ℕ) {line : Text} (hne : line ≠ []) (h : Trimmed line) :
    Trimmed (addIndex place line) := by
  unfold addIndex
  split
  · exact h
  · obtain ⟨ds,htext,-⟩ := indexText_eq place
    refine ⟨?_,fun c hc => h.2 c ?_⟩
    · rw [htext,List.cons_append,List.head?_cons]
      rintro c ⟨⟩
      decide
    · rwa [List.getLast?_append_of_ne_nil _ hne] at hc

/-! ## Numbered texts -/

theorem splitLines_add (t : Text) : splitLines (add t) = (properLines t).mapIdx addIndex := by
  refine splitLines_joinLines fun line hline => ?_
  obtain ⟨place,hplace,rfl⟩ := List.mem_mapIdx.mp hline
  obtain ⟨hne,-,hbreak⟩ := mem_properLines (List.getElem_mem hplace)
  exact ⟨addIndex_ne_nil place hne,not_isLineBreak_addIndex place hbreak⟩

theorem properLines_add (t : Text) : properLines (add t) = (properLines t).mapIdx addIndex := by
  have hself : ∀ line ∈ (properLines t).mapIdx addIndex, line ≠ [] ∧ strip line = line := by
    intro line hline
    obtain ⟨place,hplace,rfl⟩ := List.mem_mapIdx.mp hline
    obtain ⟨hne,htrimmed,-⟩ := mem_properLines (List.getElem_mem hplace)
    exact ⟨addIndex_ne_nil place hne,(trimmed_addIndex place hne htrimmed).strip_eq⟩
  rw [properLines,splitLines_add,List.map_congr_left fun line hline => (hself line hline).2,
    List.map_id',List.filter_eq_self]
  exact fun line hline => by simpa using (hself line hline).1

theorem add_add (t : Text) : add (add t) = add t := by
  rw [add,properLines_add,List.mapIdx_mapIdx,add]
  refine congrArg joinLines (List.mapIdx_eq_mapIdx_iff.mpr fun place hplace => ?_)
  exact if_pos (isSome_afterIndex?_addIndex _ _)

theorem map_cleanLine_add (t : Text) : (splitLines (add t)).map cleanLine =
    ((splitLines t).filter fun line => !(strip line).isEmpty).map cleanLine := by
  rw [splitLines_add,properLines_eq]
  apply List.ext_getElem
  · simp
  · simp [cleanLine_addIndex,cleanLine_strip]

/-- The entries of the numbered text are those of the text, each at the rank of its place. -/
theorem entries_add (t : Text) :
    entries (add t) = (entries t).map fun e => (e.1,rank t e.2) := by
  rw [entries,entries,map_cleanLine_add,List.zipIdx_map,List.zipIdx_map,zipIdx_filter,List.map_map,
    List.filter_map,List.filter_map,List.map_map,List.filter_filter]
  exact congrArg (List.map _) (List.filter_congr fun x _ => proper_of_clean x.1)

/-- A numbered text is read as the text that is numbered: the same formulas and diagnostics, or the
same error, with the rank of each line among those that are not blank for its place; and numbering
a numbered text changes nothing. -/
theorem read_add (t : Text) :
    Batch.read (add t) = (Batch.read t).map (Batch.moved (rank t)) ∧ add (add t) = add t := by
  refine ⟨?_,add_add t⟩
  rw [read_eq,read_eq,entries_add]
  exact readEntries_moved (rank t) (entries t)

example : add "\n[7] a\n \nb ".toList = "[7] a\n[002]b".toList := by decide

end Numbering
end DrawFormula
