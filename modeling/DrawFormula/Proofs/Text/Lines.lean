import DrawFormula.Proofs.Text.Compact
import Mathlib.Data.List.DropRight

/-! # Lines and the blanks around them

No line of a text has a line break in it, and lines without one are the lines of the text that they
are joined to. A text loses the blanks around it once and for all.
-/
namespace DrawFormula.Text
variable {t line : Text}

/-! ## Lines -/

theorem splitLines_cons {c : Char} (h : isLineBreak c = false) (t : Text) :
    splitLines (c :: t) = match splitLines t with
      | [] => [[c]]
      | line :: lines => (c :: line) :: lines := by
  have hcr : c ≠ '\r' := by
    rintro rfl
    exact absurd h (by decide)
  rw [splitLines]
  · exact if_neg (by simp [h])
  · exact fun _ heq => absurd heq hcr

theorem not_isLineBreak_of_mem_splitLines (h : line ∈ splitLines t) :
    ∀ c ∈ line, isLineBreak c = false := by
  induction t using splitLines.induct generalizing line with
  | case1 => simp [splitLines] at h
  | case2 rest ih =>
    rcases List.mem_cons.mp h with rfl | hrest
    · simp
    · exact ih hrest
  | case3 c rest hpair hc ih =>
    rw [splitLines,if_pos hc] at h
    · rcases List.mem_cons.mp h with rfl | hrest
      · simp
      · exact ih hrest
    · exact hpair
  | case4 c rest hpair hc hnil ih =>
    rw [splitLines_cons (by simpa using hc),hnil,List.mem_singleton] at h
    subst h
    simpa using hc
  | case5 c rest hpair hc first lines hlines ih =>
    rw [splitLines_cons (by simpa using hc),hlines] at h
    rcases List.mem_cons.mp h with rfl | hmem
    · exact List.forall_mem_cons.mpr ⟨by simpa using hc,ih (hlines ▸ List.mem_cons_self)⟩
    · exact ih (hlines ▸ List.mem_cons_of_mem _ hmem)

theorem splitLines_append_newline (h : ∀ c ∈ line, isLineBreak c = false) (rest : Text) :
    splitLines (line ++ '\n' :: rest) = line :: splitLines rest := by
  induction line with
  | nil =>
    rw [List.nil_append,splitLines,if_pos (by decide)]
    exact fun _ heq => absurd heq (by decide)
  | cons c line ih =>
    rw [List.forall_mem_cons] at h
    rw [List.cons_append,splitLines_cons h.1,ih h.2]

theorem splitLines_singleton (hne : line ≠ []) (h : ∀ c ∈ line, isLineBreak c = false) :
    splitLines line = [line] := by
  induction line with
  | nil => exact absurd rfl hne
  | cons c line ih =>
    rw [List.forall_mem_cons] at h
    rw [splitLines_cons h.1]
    cases line with
    | nil => rfl
    | cons d line => rw [ih (by simp) h.2]

/-- Lines without line breaks are what the joined text is split into, but for an empty line at the
end. -/
theorem splitLines_joinLines_or {lines : List Text}
    (h : ∀ line ∈ lines, ∀ c ∈ line, isLineBreak c = false) :
    splitLines (joinLines lines) = lines ∨ lines = splitLines (joinLines lines) ++ [[]] := by
  induction lines with
  | nil => exact .inl rfl
  | cons line lines ih =>
    rw [List.forall_mem_cons] at h
    cases lines with
    | nil =>
      rw [joinLines,List.intercalate_singleton]
      by_cases hne : line = []
      · subst hne
        exact .inr rfl
      · exact .inl (splitLines_singleton hne h.1)
    | cons next lines =>
      rw [joinLines,List.intercalate_cons_cons,List.append_assoc,List.singleton_append,
        splitLines_append_newline h.1]
      exact (ih h.2).imp (congrArg (line :: ·)) (congrArg (line :: ·))

/-- Lines of which none is empty and none has a line break are what the joined text is split into. -/
theorem splitLines_joinLines {lines : List Text}
    (h : ∀ line ∈ lines, line ≠ [] ∧ ∀ c ∈ line, isLineBreak c = false) :
    splitLines (joinLines lines) = lines := by
  rcases splitLines_joinLines_or fun line hline => (h line hline).2 with hsplit | hempty
  · exact hsplit
  · exact absurd rfl (h [] (by rw [hempty]; simp)).1

/-! ## Blanks around a text -/

theorem stripLeft_append_blanks {blanks : Text} (h : ∀ c ∈ blanks, isBlank c = true) (t : Text) :
    stripLeft (t ++ blanks) = [] ∧ stripLeft t = [] ∨
      stripLeft (t ++ blanks) = stripLeft t ++ blanks := by
  rw [stripLeft,stripLeft,List.dropWhile_append]
  split
  · next hnil =>
    refine .inl ⟨?_,List.isEmpty_iff.mp hnil⟩
    exact List.dropWhile_eq_nil_iff.mpr h
  · exact .inr rfl

theorem stripRight_append_blanks {blanks : Text} (h : ∀ c ∈ blanks, isBlank c = true) (t : Text) :
    stripRight (t ++ blanks) = stripRight t := by
  rw [stripRight,List.reverse_append,List.dropWhile_append_of_pos (by simpa using h)]
  rfl

theorem strip_append_blanks {blanks : Text} (h : ∀ c ∈ blanks, isBlank c = true) (t : Text) :
    strip (t ++ blanks) = strip t := by
  rcases stripLeft_append_blanks h t with ⟨hboth,hnil⟩ | hleft
  · rw [strip,strip,hboth,hnil]
  · rw [strip,strip,hleft,stripRight_append_blanks h]

theorem stripRight_split (t : Text) :
    ∃ blanks, t = stripRight t ++ blanks ∧ ∀ c ∈ blanks, isBlank c = true := by
  refine ⟨(t.reverse.takeWhile isBlank).reverse,?_,fun c hc => ?_⟩
  · rw [stripRight,← List.reverse_append,List.takeWhile_append_dropWhile,List.reverse_reverse]
  · exact List.all_eq_true.mp List.all_takeWhile c (List.mem_reverse.mp hc)

theorem stripLeft_stripLeft (t : Text) : stripLeft (stripLeft t) = stripLeft t :=
  List.dropWhile_idempotent isBlank t

theorem strip_stripLeft (t : Text) : strip (stripLeft t) = strip t := by
  rw [strip,stripLeft_stripLeft,strip]

/-- Whether a text neither begins nor ends with a blank. -/
def Trimmed (t : Text) : Prop :=
  (∀ c ∈ t.head?, isBlank c = false) ∧ ∀ c ∈ t.getLast?, isBlank c = false

theorem Trimmed.stripLeft_eq (h : Trimmed t) : stripLeft t = t := stripLeft_eq_self h.1

theorem Trimmed.strip_eq (h : Trimmed t) : strip t = t := by
  rw [strip,h.stripLeft_eq,stripRight_eq_self h.2]

theorem head?_stripLeft (t : Text) : ∀ c ∈ (stripLeft t).head?, isBlank c = false := by
  intro c hc
  have hhead := List.head?_dropWhile_not isBlank t
  rw [stripLeft] at hc
  rw [Option.mem_def.mp hc] at hhead
  simpa using hhead

theorem trimmed_strip (t : Text) : Trimmed (strip t) := by
  obtain ⟨blanks,hsplit,-⟩ := stripRight_split (stripLeft t)
  constructor
  · intro c hc
    refine head?_stripLeft t c ?_
    rw [hsplit,List.head?_append]
    exact Option.or_eq_some_iff.mpr (.inl hc)
  · intro c hc
    rw [strip,stripRight,List.getLast?_reverse] at hc
    exact head?_stripLeft (stripLeft t).reverse c hc

theorem mem_strip {c : Char} (h : c ∈ strip t) : c ∈ t := by
  rw [strip,stripRight,List.mem_reverse] at h
  have hleft := (List.dropWhile_suffix isBlank).subset h
  exact (List.dropWhile_suffix isBlank).subset (List.mem_reverse.mp hleft)

end DrawFormula.Text
