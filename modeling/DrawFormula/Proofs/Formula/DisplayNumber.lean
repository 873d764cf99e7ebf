import DrawFormula.Formula.Batch
import DrawFormula.Proofs.Formula.Reading

/-! # Display numbers before a formula

What is taken off before a formula is a number in brackets, or a plain one with at most one mark,
with blanks around it. Half-width forms and the loss of outer blanks leave a display number one.
-/
namespace DrawFormula.Formula
open Text

/-! ## Numbers with blanks around them -/

/-- The marks that may follow a plain number. -/
def numberMarks : Text := ['.','、',')']

/-- A number in brackets, or a plain one with at most one mark after it. -/
inductive Numbering : Text → Prop
  | index (ds : Text) : ds ≠ [] → (∀ c ∈ ds, isDigit c = true) → Numbering ('[' :: (ds ++ [']']))
  | plain (ds : Text) : ds ≠ [] → (∀ c ∈ ds, isDigit c = true) → Numbering ds
  | marked (ds : Text) (m : Char) : ds ≠ [] → (∀ c ∈ ds, isDigit c = true) → m ∈ numberMarks →
      Numbering (ds ++ [m])

/-- A number with blanks around it. -/
def DisplayNumber (t : Text) : Prop := ∃ before number after, t = before ++ (number ++ after) ∧
  (∀ c ∈ before, isBlank c = true) ∧ Numbering number ∧ ∀ c ∈ after, isBlank c = true

/-- A text that begins with a bracket and no number in it. -/
def OpensFormula (t : Text) : Prop := ∃ c rest, t = '[' :: c :: rest ∧ isDigit c = false

theorem opensFormula_text (f : Formula) : OpensFormula f.text := by
  have hletter : isDigit f.rule.letter = false := by cases f.rule <;> decide
  exact ⟨_,_,text_eq f,hletter⟩

theorem stripLeft_append {b : Text} (h : ∀ c ∈ b, isBlank c = true) (t : Text) :
    stripLeft (b ++ t) = stripLeft t := List.dropWhile_append_of_pos h

theorem stripLeft_cons {c : Char} (h : isBlank c = false) (t : Text) :
    stripLeft (c :: t) = c :: t := List.dropWhile_cons_of_neg (by simp [h])

theorem Numbering.head {t : Text} (h : Numbering t) :
    ∃ c rest, t = c :: rest ∧ isBlank c = false := by
  cases h with
  | index ds => exact ⟨'[',_,rfl,by decide⟩
  | plain _ hne hds =>
    obtain ⟨d,ds,rfl⟩ := List.exists_cons_of_ne_nil hne
    exact ⟨d,ds,rfl,isBlank_of_isDigit (hds d (by simp))⟩
  | marked ds m hne hds =>
    obtain ⟨d,ds,rfl⟩ := List.exists_cons_of_ne_nil hne
    exact ⟨d,_,rfl,isBlank_of_isDigit (hds d (by simp))⟩

/-! ## Taking off -/

theorem isDigit_bracket : isDigit '[' = false ∧ isDigit ']' = false := by decide

theorem not_isDigit_of_mark {m : Char} (h : m ∈ numberMarks) : isDigit m = false := by
  have table : ∀ m ∈ numberMarks, isDigit m = false := by decide
  exact table m h

theorem afterIndex?_append {before ds : Text} (hb : ∀ c ∈ before, isBlank c = true)
    (hne : ds ≠ []) (hds : ∀ c ∈ ds, isDigit c = true) (rest : Text) :
    afterIndex? (before ++ '[' :: (ds ++ ']' :: rest)) = some rest := by
  have hclose : EndsDigits (']' :: rest) := by
    intro c hc
    obtain rfl : ']' = c := by simpa using hc
    exact isDigit_bracket.2
  obtain ⟨d,ds,rfl⟩ := List.exists_cons_of_ne_nil hne
  rw [afterIndex?,stripLeft_append hb,stripLeft_cons (by decide)]
  simp only [takeWhile_digits hds hclose,dropWhile_digits hds hclose]

theorem afterIndex?_of_digit {before t : Text} (hb : ∀ c ∈ before, isBlank c = true) {d : Char}
    (hd : isDigit d = true) : afterIndex? (before ++ d :: t) = none := by
  rw [afterIndex?,stripLeft_append hb,stripLeft_cons (isBlank_of_isDigit hd)]
  split
  · next heq =>
    obtain ⟨rfl,-⟩ := List.cons.inj heq
    exact absurd hd (by simp [isDigit_bracket.1])
  · rfl

/-- What follows the digits of a plain number, a mark aside. -/
def afterMark : Text → Text
  | c :: rest => if c ∈ numberMarks then rest else c :: rest
  | [] => []

theorem afterNumber?_append {before ds : Text} (hb : ∀ c ∈ before, isBlank c = true)
    (hne : ds ≠ []) (hds : ∀ c ∈ ds, isDigit c = true) {rest : Text} (hr : EndsDigits rest) :
    afterNumber? (before ++ (ds ++ rest)) = some (afterMark rest) := by
  obtain ⟨d,ds,rfl⟩ := List.exists_cons_of_ne_nil hne
  have hleft : stripLeft (before ++ (d :: ds ++ rest)) = d :: ds ++ rest := by
    rw [stripLeft_append hb]
    exact stripLeft_cons (isBlank_of_isDigit (hds d (by simp))) _
  simp only [afterNumber?,hleft,takeWhile_digits hds hr,dropWhile_digits hds hr,
    List.isEmpty_cons,Bool.false_eq_true,if_false]
  cases rest with
  | nil => rfl
  | cons c rest =>
    simp only [afterMark,numberMarks,List.mem_cons,List.not_mem_nil,or_false]
    split <;> rfl

theorem bracketed?_stripLeft {after t : Text} (ha : ∀ c ∈ after, isBlank c = true)
    (ht : OpensFormula t) : bracketed? (stripLeft (after ++ t)) = some t := by
  obtain ⟨c,rest,rfl,-⟩ := ht
  rw [stripLeft_append ha,stripLeft_cons (by decide)]
  rfl

/-- After the number come blanks and then the bracket of the formula. -/
theorem exists_head_after {after t : Text} (ha : ∀ c ∈ after, isBlank c = true)
    (ht : OpensFormula t) : ∃ c rest, after ++ t = c :: rest ∧ isDigit c = false ∧
      c ∉ numberMarks := by
  cases after with
  | nil =>
    obtain ⟨c,rest,rfl,-⟩ := ht
    exact ⟨'[',c :: rest,rfl,by decide,by decide⟩
  | cons c after =>
    have hc := ha c (by simp)
    refine ⟨c,after ++ t,rfl,not_isDigit_of_isBlank hc,fun hm => ?_⟩
    have table : ∀ m ∈ numberMarks, isBlank m = false := by decide
    rw [table c hm] at hc
    cases hc

/-- A display number is taken off. -/
theorem stripDisplayNumber_append {p t : Text} (hp : DisplayNumber p) (ht : OpensFormula t) :
    stripDisplayNumber (p ++ t) = t := by
  obtain ⟨before,number,after,rfl,hb,hn,ha⟩ := hp
  obtain ⟨c,rest,hcons,hdigit,hmark⟩ := exists_head_after ha ht
  have hfound := bracketed?_stripLeft ha ht
  cases hn with
  | index ds hne hds =>
    have hindex := afterIndex?_append hb hne hds (after ++ t)
    have hcat : before ++ ('[' :: (ds ++ [']']) ++ after) ++ t =
        before ++ '[' :: (ds ++ ']' :: (after ++ t)) := by simp
    rw [stripDisplayNumber,hcat,hindex]
    simp only [Option.bind_some,hfound]
  | plain _ hne hds =>
    have hstop : EndsDigits (after ++ t) := by
      rw [hcons]
      simpa [EndsDigits] using hdigit
    have hnumber := afterNumber?_append hb hne hds hstop
    have hafter : afterMark (after ++ t) = after ++ t := by
      rw [hcons]
      exact if_neg hmark
    obtain ⟨d,ds,rfl⟩ := List.exists_cons_of_ne_nil hne
    have hindex := afterIndex?_of_digit (t := ds ++ (after ++ t)) hb (hds d (by simp))
    have hcat : before ++ (d :: ds ++ after) ++ t = before ++ (d :: ds ++ (after ++ t)) := by simp
    rw [stripDisplayNumber,hcat,hnumber,List.cons_append,hindex,hafter]
    simp only [Option.bind_none,Option.bind_some,hfound]
  | marked ds m hne hds hm =>
    have hstop : EndsDigits (m :: (after ++ t)) := by
      simpa [EndsDigits] using not_isDigit_of_mark hm
    have hnumber := afterNumber?_append hb hne hds hstop
    have hafter : afterMark (m :: (after ++ t)) = after ++ t := if_pos hm
    obtain ⟨d,ds,rfl⟩ := List.exists_cons_of_ne_nil hne
    have hindex := afterIndex?_of_digit (t := ds ++ m :: (after ++ t)) hb (hds d (by simp))
    have hcat : before ++ (d :: ds ++ [m] ++ after) ++ t =
        before ++ (d :: ds ++ m :: (after ++ t)) := by simp
    rw [stripDisplayNumber,hcat,hnumber,List.cons_append,hindex,hafter]
    simp only [Option.bind_none,Option.bind_some,hfound]

/-! ## Only display numbers are taken off -/

theorem stripLeft_split (t : Text) : ∃ before, t = before ++ stripLeft t ∧
    ∀ c ∈ before, isBlank c = true := by
  refine ⟨t.takeWhile isBlank,(List.takeWhile_append_dropWhile).symm,?_⟩
  exact List.all_eq_true.mp List.all_takeWhile

theorem bracketed?_eq_some {t u : Text} (h : bracketed? t = some u) : t = u := by
  unfold bracketed? at h
  split at h
  · exact Option.some.inj h
  · cases h

theorem digits_split (t : Text) : ∃ ds, t.takeWhile isDigit = ds ∧
    t = ds ++ t.dropWhile isDigit ∧ ∀ c ∈ ds, isDigit c = true :=
  ⟨_,rfl,(List.takeWhile_append_dropWhile).symm,List.all_eq_true.mp List.all_takeWhile⟩

theorem afterIndex?_eq_some {t rest : Text} (h : afterIndex? t = some rest) :
    ∃ before number, t = before ++ (number ++ rest) ∧ (∀ c ∈ before, isBlank c = true) ∧
      Numbering number := by
  obtain ⟨before,hsplit,hb⟩ := stripLeft_split t
  unfold afterIndex? at h
  split at h
  · next u heq =>
    obtain ⟨ds,htake,hcat,hds⟩ := digits_split u
    rw [htake] at h
    split at h
    · next d ds' r hd =>
      cases h
      refine ⟨before,'[' :: (d :: ds' ++ [']']),?_,hb,.index _ (by simp) hds⟩
      rw [hsplit,heq,hcat,hd]
      simp
    · cases h
  · cases h

theorem afterNumber?_eq_some {t rest : Text} (h : afterNumber? t = some rest) :
    ∃ before number, t = before ++ (number ++ rest) ∧ (∀ c ∈ before, isBlank c = true) ∧
      Numbering number := by
  obtain ⟨before,hsplit,hb⟩ := stripLeft_split t
  obtain ⟨ds,htake,hcat,hds⟩ := digits_split (stripLeft t)
  simp only [afterNumber?,htake] at h
  split at h
  · cases h
  · next hne =>
    have hne : ds ≠ [] := by simpa using hne
    split at h
    · next c r hd =>
      split at h
      · next hc =>
        cases h
        have hm : c ∈ numberMarks := by simpa [numberMarks] using hc
        refine ⟨before,ds ++ [c],?_,hb,.marked ds c hne hds hm⟩
        rw [hsplit,hcat,hd]
        simp
      · cases h
        refine ⟨before,ds,?_,hb,.plain ds hne hds⟩
        rw [hsplit,hcat,hd]
    · next hd =>
      cases h
      refine ⟨before,ds,?_,hb,.plain ds hne hds⟩
      rw [hsplit,hcat,hd]

/-- Nothing but a display number is taken off. -/
theorem stripDisplayNumber_append_iff {p t : Text} (ht : OpensFormula t) :
    stripDisplayNumber (p ++ t) = t ↔ p = [] ∨ DisplayNumber p := by
  constructor
  · intro h
    have hfound : ∀ found : Option Text, (∀ rest, found = some rest → ∃ before number,
        p ++ t = before ++ (number ++ rest) ∧ (∀ c ∈ before, isBlank c = true) ∧
          Numbering number) →
        (found.bind fun rest => bracketed? (stripLeft rest)) = some t → DisplayNumber p := by
      intro found hparts hbind
      obtain ⟨rest,hrest,hbracket⟩ := Option.bind_eq_some_iff.mp hbind
      obtain ⟨before,number,hcat,hb,hn⟩ := hparts rest hrest
      obtain ⟨after,hsplit,ha⟩ := stripLeft_split rest
      rw [bracketed?_eq_some hbracket] at hsplit
      refine ⟨before,number,after,?_,hb,hn,ha⟩
      rw [hsplit,← List.append_assoc number,← List.append_assoc before] at hcat
      exact List.append_cancel_right hcat
    unfold stripDisplayNumber at h
    split at h
    · next r hr =>
      exact .inr (hfound _ (fun _ => afterIndex?_eq_some) (h ▸ hr))
    · split at h
      · next r hr =>
        exact .inr (hfound _ (fun _ => afterNumber?_eq_some) (h ▸ hr))
      · exact .inl (by simpa using h)
  · rintro (rfl | hp)
    · obtain ⟨c,rest,rfl,hc⟩ := ht
      exact stripDisplayNumber_eq_self hc rest
    · exact stripDisplayNumber_append hp ht

/-! ## Half-width forms and outer blanks -/

theorem Numbering.halfwidth {t : Text} (h : Numbering t) : Numbering (halfwidth t) := by
  have hdigits : ∀ ds : Text, (∀ c ∈ ds, isDigit c = true) →
      ∀ c ∈ Text.halfwidth ds, isDigit c = true := by
    intro ds hds c hc
    obtain ⟨d,hd,rfl⟩ := List.mem_map.mp hc
    exact isDigit_halfwidthChar (hds d hd)
  have hne : ∀ ds : Text, ds ≠ [] → Text.halfwidth ds ≠ [] := by
    intro ds hds
    simpa [Text.halfwidth] using hds
  cases h with
  | index ds hds hall =>
    have hform : Text.halfwidth ('[' :: (ds ++ [']'])) = '[' :: (Text.halfwidth ds ++ [']']) := by
      simp only [Text.halfwidth,List.map_cons,List.map_append,List.map_nil]
      rfl
    rw [hform]
    exact .index _ (hne ds hds) (hdigits ds hall)
  | plain _ hds hall => exact .plain _ (hne t hds) (hdigits t hall)
  | marked ds m hds hall hm =>
    have table : ∀ m ∈ numberMarks, halfwidthChar m = m := by decide
    have hform : Text.halfwidth (ds ++ [m]) = Text.halfwidth ds ++ [m] := by
      simp [Text.halfwidth,table m hm]
    rw [hform]
    exact .marked _ m (hne ds hds) (hdigits ds hall) hm

theorem DisplayNumber.halfwidth {p : Text} (h : DisplayNumber p) :
    DisplayNumber (halfwidth p) := by
  obtain ⟨before,number,after,rfl,hb,hn,ha⟩ := h
  have hblank : ∀ t : Text, (∀ c ∈ t, isBlank c = true) →
      ∀ c ∈ Text.halfwidth t, isBlank c = true := by
    intro t ht c hc
    obtain ⟨d,hd,rfl⟩ := List.mem_map.mp hc
    exact isBlank_halfwidthChar (ht d hd)
  exact ⟨Text.halfwidth before,Text.halfwidth number,Text.halfwidth after,
    by simp [Text.halfwidth],hblank before hb,hn.halfwidth,hblank after ha⟩

/-- Of the blanks around a numbered text the ones before it go. -/
theorem DisplayNumber.strip_append {p t : Text} (h : DisplayNumber p) (hne : t ≠ [])
    (ht : ∀ c ∈ t, Compact c) : ∃ q, DisplayNumber q ∧ strip (p ++ t) = q ++ t := by
  obtain ⟨before,number,after,rfl,hb,hn,ha⟩ := h
  refine ⟨number ++ after,⟨[],number,after,rfl,by simp,hn,ha⟩,?_⟩
  obtain ⟨c,rest,rfl,hc⟩ := hn.head
  have hleft : stripLeft (before ++ (c :: rest ++ after) ++ t) = c :: rest ++ after ++ t := by
    rw [List.append_assoc,stripLeft_append hb]
    exact stripLeft_cons hc _
  rw [strip,hleft]
  apply stripRight_eq_self
  intro d hd
  rw [List.getLast?_append_of_ne_nil _ hne] at hd
  exact (ht d (List.mem_of_mem_getLast? hd)).2

/-- A display number before a formula has no influence on the text that is read. -/
theorem DisplayNumber.rawText_append {p : Text} (hp : DisplayNumber p) {f : Formula}
    (hf : ∀ c ∈ f.text, Compact c) : rawText (p ++ f.text) = f.text := by
  have hne : f.text ≠ [] := by simp [text_eq]
  have hhalf : Text.halfwidth (p ++ f.text) = Text.halfwidth p ++ f.text := by
    have hself := halfwidth_eq_self hf
    simp only [Text.halfwidth,List.map_append] at hself ⊢
    rw [hself]
  obtain ⟨q,hq,hstrip⟩ := hp.halfwidth.strip_append hne hf
  rw [rawText,hhalf,hstrip,stripDisplayNumber_append hq (opensFormula_text f)]

/-! ## Indexes of lines -/

/-- A number in brackets with blanks around it. -/
def LineIndex (p : Text) : Prop := ∃ before ds after, p = before ++ '[' :: (ds ++ ']' :: after) ∧
  (∀ c ∈ before, isBlank c = true) ∧ (ds ≠ [] ∧ ∀ c ∈ ds, isDigit c = true) ∧
    ∀ c ∈ after, isBlank c = true

theorem LineIndex.displayNumber {p : Text} (h : LineIndex p) : DisplayNumber p := by
  obtain ⟨before,ds,after,rfl,hb,⟨hne,hds⟩,ha⟩ := h
  exact ⟨before,'[' :: (ds ++ [']']),after,by simp,hb,.index ds hne hds,ha⟩

theorem LineIndex.dropIndex_append {p : Text} (h : LineIndex p) {t : Text}
    (ht : OpensFormula t) : Batch.dropIndex (p ++ t) = t := by
  obtain ⟨before,ds,after,rfl,hb,⟨hne,hds⟩,ha⟩ := h
  have hcat : before ++ '[' :: (ds ++ ']' :: after) ++ t =
      before ++ '[' :: (ds ++ ']' :: (after ++ t)) := by simp
  obtain ⟨c,rest,rfl,-⟩ := ht
  rw [hcat,Batch.dropIndex,afterIndex?_append hb hne hds]
  simp only [stripLeft_append ha]
  exact stripLeft_cons (by decide) _

end DrawFormula.Formula
