import DrawFormula.Expression.Value
import DrawFormula.Proofs.Expression.Tree
import DrawFormula.Proofs.Text.Replacement

/-! # Runs of plus signs

Every operator becomes a plus sign before a sum is added up, so the text of a sum holds runs of plus
signs: between two terms, after an opening and before a closing parenthesis, and at both ends. The
three passes of `collapsePlus` leave one sign between two terms and none elsewhere.
-/
namespace DrawFormula.Expression

/-- So many plus signs. -/
def plusRun (n : ℕ) : Text := List.replicate n '+'

/-- A sum without signs around it, with the lengths of the runs of plus signs inside. -/
inductive Core where
  | number (l : Literal)
  | group (after : ℕ) (a : Core) (before : ℕ)
  /-- The terms have one plus sign more between them than `extra`. -/
  | join (a : Core) (extra : ℕ) (b : Core)

namespace Core

/-- The written form. -/
def text : Core → Text
  | number l => l.digits
  | group i a j => '(' :: (plusRun i ++ (a.text ++ (plusRun j ++ [')'])))
  | join a k b => a.text ++ (plusRun (k + 1) ++ b.text)

/-- The sum of the numbers. -/
def value : Core → ℕ
  | number l => Text.digitsValue l.digits
  | group _ a _ => a.value
  | join a _ b => a.value + b.value

/-- Other lengths of the runs. -/
def withRuns (after extra before : ℕ → ℕ) : Core → Core
  | number l => number l
  | group i a j => group (after i) (a.withRuns after extra before) (before j)
  | join a k b => join (a.withRuns after extra before) (extra k) (b.withRuns after extra before)

/-- Repeated signs become one. -/
abbrev merged (c : Core) : Core := c.withRuns (min 1) (fun _ => 0) (min 1)

/-- No sign follows an opening parenthesis. -/
abbrev opened (c : Core) : Core := c.withRuns (fun _ => 0) (fun _ => 0) (min 1)

/-- One sign between two terms and none elsewhere. -/
abbrev bare (c : Core) : Core := c.withRuns (fun _ => 0) (fun _ => 0) (fun _ => 0)

theorem exists_text_eq_cons (c : Core) :
    ∃ d t, c.text = d :: t ∧ (d.isDigit ∨ d = '(') := by
  induction c with
  | number l =>
    obtain ⟨d,t,hd⟩ := List.exists_cons_of_ne_nil l.digits_ne_nil
    exact ⟨d,t,hd,.inl (l.ascii d (by simp [hd]))⟩
  | group i a j => exact ⟨'(',_,rfl,.inr rfl⟩
  | join a k b iha =>
    obtain ⟨d,t,ha,hd⟩ := iha
    exact ⟨d,_,by rw [text,ha,List.cons_append],hd⟩

theorem exists_text_eq_concat (c : Core) :
    ∃ t d, c.text = t ++ [d] ∧ (d.isDigit ∨ d = ')') := by
  induction c with
  | number l =>
    obtain ⟨t,d,hd⟩ := List.eq_nil_or_concat l.digits |>.resolve_left l.digits_ne_nil
    exact ⟨t,d,by rw [text,hd,List.concat_eq_append],.inl (l.ascii d (by simp [hd]))⟩
  | group i a j => exact ⟨'(' :: (plusRun i ++ (a.text ++ plusRun j)),')',by simp [text],.inr rfl⟩
  | join a k b iha ihb =>
    obtain ⟨t,d,hb,hd⟩ := ihb
    exact ⟨a.text ++ (plusRun (k + 1) ++ t),d,by simp [text,hb],hd⟩

theorem head?_text_append (c : Core) (rest : Text) {d : Char} (hd : d.isDigit = false)
    (hp : d ≠ '(') : (c.text ++ rest).head? ≠ some d := by
  obtain ⟨e,t,hc,he⟩ := c.exists_text_eq_cons
  rw [hc,List.cons_append,List.head?_cons]
  rintro ⟨⟩
  rcases he with he | he
  · simp [hd] at he
  · exact hp he

end Core

/-! ## Merging -/

theorem mergePlus_cons {c : Char} (h : c ≠ '+') (t : Text) :
    mergePlus (c :: t) = c :: mergePlus t := by
  simp [mergePlus,h]

theorem mergePlus_digits {t : Text} (h : ∀ c ∈ t, c.isDigit) (rest : Text) :
    mergePlus (t ++ rest) = t ++ mergePlus rest := by
  induction t with
  | nil => rfl
  | cons c t ih =>
    have hc : c ≠ '+' := by
      rintro rfl
      exact absurd (h '+' (by simp)) (by decide)
    rw [List.cons_append,mergePlus_cons hc,ih (fun d hd => h d (by simp [hd])),List.cons_append]

theorem mergePlus_plusRun (n : ℕ) {rest : Text} (h : rest.head? ≠ some '+') :
    mergePlus (plusRun n ++ rest) = plusRun (min 1 n) ++ mergePlus rest := by
  induction n with
  | zero => simp [plusRun]
  | succ n ih =>
    cases n with
    | zero => simp [plusRun,mergePlus,h]
    | succ n =>
      have hrun : plusRun (n + 2) ++ rest = '+' :: (plusRun (n + 1) ++ rest) := rfl
      have hhead : (plusRun (n + 1) ++ rest).head? = some '+' := rfl
      rw [hrun,mergePlus,if_pos ⟨rfl,hhead⟩,ih]
      simp

theorem Core.mergePlus_text (c : Core) (rest : Text) :
    mergePlus (c.text ++ rest) = c.merged.text ++ mergePlus rest := by
  induction c generalizing rest with
  | number l => exact mergePlus_digits l.ascii rest
  | group i a j ih =>
    have hi := a.head?_text_append (plusRun j ++ ')' :: rest) (by decide : '+'.isDigit = false)
      (by decide)
    simp only [merged,withRuns,text,List.cons_append,List.append_assoc,List.nil_append]
    rw [mergePlus_cons (by decide),mergePlus_plusRun i hi,ih,mergePlus_plusRun j (by simp),
      mergePlus_cons (by decide)]
  | join a k b iha ihb =>
    have hk := b.head?_text_append rest (by decide : '+'.isDigit = false) (by decide)
    simp only [merged,withRuns,text,List.append_assoc]
    rw [iha,mergePlus_plusRun (k + 1) hk,ihb]
    simp

/-! ## Signs inside parentheses -/

/-- The second pass. -/
abbrev dropAfterOpen (t : Text) : Text := Text.replaceAll ['(', '+'] ['('] t

/-- The third pass. -/
abbrev dropBeforeClose (t : Text) : Text := Text.replaceAll ['+', ')'] [')'] t

theorem dropAfterOpen_append {s : Text} (h : ∀ c ∈ s, c ≠ '(') (t : Text) :
    dropAfterOpen (s ++ t) = s ++ dropAfterOpen t := Text.replaceAll_append h _ _ t

theorem dropBeforeClose_append {s : Text} (h : ∀ c ∈ s, c ≠ '+') (t : Text) :
    dropBeforeClose (s ++ t) = s ++ dropBeforeClose t := Text.replaceAll_append h _ _ t

theorem dropAfterOpen_run (n : ℕ) {t : Text} (h : t.head? ≠ some '+') :
    dropAfterOpen ('(' :: (plusRun (min 1 n) ++ t)) = '(' :: dropAfterOpen t := by
  cases n with
  | zero =>
    apply Text.replaceAll_miss
    rintro ⟨u,hu⟩
    apply h
    simp [plusRun] at hu
    simp [← hu]
  | succ n => exact Text.replaceAll_hit (by simp) ['('] t

theorem dropBeforeClose_run (n : ℕ) (t : Text) :
    dropBeforeClose (plusRun (min 1 n) ++ ')' :: t) = ')' :: dropBeforeClose t := by
  cases n with
  | zero => exact Text.replaceAll_cons_of_ne (by decide) _ _ t
  | succ n => exact Text.replaceAll_hit (by simp) [')'] t

theorem dropBeforeClose_plus {t : Text} (h : t.head? ≠ some ')') :
    dropBeforeClose ('+' :: t) = '+' :: dropBeforeClose t := by
  apply Text.replaceAll_miss
  rintro ⟨u,hu⟩
  apply h
  simp at hu
  simp [← hu]

theorem dropAfterOpen_plusRun (n : ℕ) (t : Text) :
    dropAfterOpen (plusRun n ++ t) = plusRun n ++ dropAfterOpen t := by
  apply dropAfterOpen_append
  intro c hc
  rw [(List.mem_replicate.mp hc).2]
  decide

theorem Literal.ne_of_mem (l : Literal) {c d : Char} (hd : d.isDigit = false)
    (hc : c ∈ l.digits) : c ≠ d := by
  rintro rfl
  exact absurd (l.ascii c hc) (by simp [hd])

theorem Core.dropAfterOpen_text (c : Core) (rest : Text) :
    dropAfterOpen (c.merged.text ++ rest) = c.opened.text ++ dropAfterOpen rest := by
  induction c generalizing rest with
  | number l => exact dropAfterOpen_append (fun _ => l.ne_of_mem (by decide)) rest
  | group i a j ih =>
    have hi := a.merged.head?_text_append (plusRun (min 1 j) ++ ')' :: rest)
      (by decide : '+'.isDigit = false) (by decide)
    simp only [merged,opened,withRuns,text,List.cons_append,List.append_assoc,List.nil_append]
    have hclose : dropAfterOpen (')' :: rest) = ')' :: dropAfterOpen rest :=
      dropAfterOpen_append (s := [')']) (by simp) rest
    rw [dropAfterOpen_run i hi,ih,dropAfterOpen_plusRun,hclose]
    rfl
  | join a k b iha ihb =>
    simp only [merged,opened,withRuns,text,List.append_assoc]
    rw [iha,dropAfterOpen_plusRun,ihb]

theorem Core.dropBeforeClose_text (c : Core) (rest : Text) :
    dropBeforeClose (c.opened.text ++ rest) = c.bare.text ++ dropBeforeClose rest := by
  induction c generalizing rest with
  | number l => exact dropBeforeClose_append (fun _ => l.ne_of_mem (by decide)) rest
  | group i a j ih =>
    simp only [opened,bare,withRuns,text,List.cons_append,List.append_assoc,List.nil_append]
    have hopen : ∀ t, dropBeforeClose ('(' :: t) = '(' :: dropBeforeClose t :=
      dropBeforeClose_append (s := ['(']) (by simp)
    rw [hopen,show plusRun 0 = [] from rfl,List.nil_append,List.nil_append,List.nil_append,ih,
      dropBeforeClose_run]
  | join a k b iha ihb =>
    have hb := b.opened.head?_text_append rest (by decide : ')'.isDigit = false) (by decide)
    simp only [opened,bare,withRuns,text,List.append_assoc]
    rw [iha]
    simp only [plusRun,List.replicate,List.cons_append,List.nil_append]
    rw [dropBeforeClose_plus hb,ihb]

/-! ## All passes -/

theorem trimBy_plus (i j : ℕ) (c : Core) :
    Text.trimBy (· = '+') (plusRun i ++ (c.text ++ plusRun j)) = c.text := by
  obtain ⟨d,t,hhead,hd⟩ := c.exists_text_eq_cons
  obtain ⟨s,e,hlast,he⟩ := c.exists_text_eq_concat
  have hplus : ∀ {x : Char}, (x.isDigit ∨ x = '(') ∨ (x.isDigit ∨ x = ')') → x ≠ '+' := by
    rintro x hx rfl
    revert hx
    decide
  have hrun : ∀ n, ∀ c ∈ plusRun n, decide (c = '+') = true := by
    intro n c hc
    simpa using (List.mem_replicate.mp hc).2
  have hleft : (plusRun i ++ (c.text ++ plusRun j)).dropWhile (fun c => decide (c = '+')) =
      c.text ++ plusRun j := by
    rw [List.dropWhile_append_of_pos (hrun i),hhead,List.cons_append,
      List.dropWhile_cons_of_neg (by simpa using hplus (.inl hd))]
  have hright : (c.text ++ plusRun j).reverse.dropWhile (fun c => decide (c = '+')) =
      c.text.reverse := by
    have hrev : (plusRun j).reverse = plusRun j := List.reverse_replicate
    rw [List.reverse_append,hrev,List.dropWhile_append_of_pos (hrun j),hlast,List.reverse_append,
      List.reverse_singleton,List.singleton_append,
      List.dropWhile_cons_of_neg (by simpa using hplus (.inr he))]
  rw [Text.trimBy,hleft,hright,List.reverse_reverse]

/-- Whatever the runs of signs, one sign is left between two terms and none elsewhere. -/
theorem collapsePlus_text (i j : ℕ) (c : Core) :
    collapsePlus (plusRun i ++ (c.text ++ plusRun j)) = c.bare.text := by
  have hmerge : mergePlus (plusRun i ++ (c.text ++ plusRun j)) =
      plusRun (min 1 i) ++ (c.merged.text ++ plusRun (min 1 j)) := by
    have hj := mergePlus_plusRun j (by simp : ([] : Text).head? ≠ some '+')
    rw [mergePlus_plusRun i (c.head?_text_append _ (by decide) (by decide)),c.mergePlus_text]
    simpa [mergePlus] using hj
  have hopen : dropAfterOpen (plusRun (min 1 i) ++ (c.merged.text ++ plusRun (min 1 j))) =
      plusRun (min 1 i) ++ (c.opened.text ++ plusRun (min 1 j)) := by
    have hj := dropAfterOpen_plusRun (min 1 j) []
    rw [dropAfterOpen_plusRun,c.dropAfterOpen_text]
    simpa [Text.replaceAll,Text.replaceFrom] using hj
  have hclose : dropBeforeClose (plusRun (min 1 i) ++ (c.opened.text ++ plusRun (min 1 j))) =
      plusRun (min 1 i) ++ (c.bare.text ++ plusRun (min 1 j)) := by
    have hone : ∀ n, min 1 n = 0 ∨ min 1 n = 1 := by omega
    have hhead := c.opened.head?_text_append (plusRun (min 1 j)) (by decide : ')'.isDigit = false)
      (by decide)
    have hlast : dropBeforeClose (plusRun (min 1 j)) = plusRun (min 1 j) := by
      rcases hone j with hj | hj <;> rw [hj] <;> rfl
    rcases hone i with hi | hi
    · simp only [hi,plusRun,List.replicate,List.nil_append]
      rw [← plusRun,c.dropBeforeClose_text,hlast]
    · simp only [hi,plusRun,List.replicate,List.cons_append,List.nil_append]
      rw [← plusRun,dropBeforeClose_plus hhead,c.dropBeforeClose_text,hlast]
  rw [collapsePlus,hmerge]
  change Text.trimBy _ (dropBeforeClose (dropAfterOpen _)) = _
  rw [hopen,hclose,trimBy_plus]

end DrawFormula.Expression
