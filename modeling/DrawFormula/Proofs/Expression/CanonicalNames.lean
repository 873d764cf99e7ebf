import DrawFormula.Proofs.Element.Rename
import DrawFormula.Proofs.Expression.Lexeme
import DrawFormula.Proofs.Text.Replacement

/-! # Canonical names read once more

Once names are canonical, reading the text again finds canonical names, with two exceptions. The
canonical name of the total grows to its long word before a number character, and a name that
begins with a digit is found right after a number character, where a place digit stood before.
-/
namespace DrawFormula.Expression
open Element

/-! ## Names along a text -/

/-- Every name that is read satisfies `P`, given the character before it. -/
inductive EachName (P : Option Char → Text × Element → Prop) : Option Char → Text → Prop
  | nil (before) : EachName P before []
  | name {before p rest} : leading? before (p.1 ++ rest) = some p → P before p →
      EachName P p.1.getLast? rest → EachName P before (p.1 ++ rest)
  | char {before c rest} : leading? before (c :: rest) = none → EachName P (some c) rest →
      EachName P before (c :: rest)

/-- A canonical name. -/
def Canonical (_ : Option Char) (p : Text × Element) : Prop := p.1 = p.2.name

/-- A canonical name, or one that canonical names have made. -/
def Regular (before : Option Char) (p : Text × Element) : Prop :=
  p.1 = p.2.name ∨ p.1 = totalWord ∨ before = some '号' ∧ DigitLed p.1

theorem canonicalFrom_of_each {before : Option Char} {t : Text}
    (h : EachName Canonical before t) : canonicalFrom before t = t := by
  induction h with
  | nil before => rfl
  | name hl hp _ ih => rw [canonicalFrom_name hl,ih,← hp]
  | char hl _ ih => rw [canonicalFrom_char hl,ih]

/-- A name that is not canonical adds a ping character or loses a number character, and none does
the opposite. A text that is kept has canonical names only. -/
theorem count_canonicalFrom {before : Option Char} {t : Text} (h : EachName Regular before t) :
    t.count '平' + (canonicalFrom before t).count '数' ≤
        (canonicalFrom before t).count '平' + t.count '数' ∧
      (canonicalFrom before t = t → EachName Canonical before t) := by
  induction h with
  | nil before => exact ⟨by simp,fun _ => .nil before⟩
  | @name before p rest hl hp _ ih =>
    have hmem := (leading?_eq_some_iff.mp hl).2.1
    rw [canonicalFrom_name hl]
    simp only [List.count_append]
    by_cases hc : p.1 = p.2.name
    · rw [← hc]
      exact ⟨by omega,fun he => .name hl hc (ih.2 (List.append_cancel_left he))⟩
    · have hcount := count_name hmem (hp.resolve_left hc |>.imp_right (·.2))
      refine ⟨by omega,fun he => ?_⟩
      have hping := congrArg (List.count '平') he
      have hnumber := congrArg (List.count '数') he
      simp only [List.count_append] at hping hnumber
      omega
  | @char before c rest hl _ ih =>
    rw [canonicalFrom_char hl]
    simp only [List.count_cons]
    exact ⟨by omega,fun he => .char hl (ih.2 (List.cons.inj he).2)⟩

/-! ## What stays where it was -/

theorem getLast?_cons_or (c : Char) (t : Text) (before : Option Char) :
    (c :: t).getLast?.or before = t.getLast?.or (some c) := by
  cases t <;> simp [List.getLast?_cons]

/-- Characters that no canonical name begins with were in the text before. -/
theorem exists_of_prefix_canonicalFrom {x : Text} (hx : ∀ c ∈ x, c ∉ nameStarts)
    {before : Option Char} {a : Text} (h : x <+: canonicalFrom before a) :
    ∃ a', a = x ++ a' ∧ canonicalFrom before a = x ++ canonicalFrom (x.getLast?.or before) a' := by
  induction x generalizing before a with
  | nil => exact ⟨a,rfl,rfl⟩
  | cons d x ih =>
    cases a with
    | nil => simp at h
    | cons c a =>
      cases hl : leading? before (c :: a) with
      | some p =>
        obtain ⟨-,hmem,⟨rest,hrest⟩,-⟩ := leading?_eq_some_iff.mp hl
        have hstart := (name_head? hmem).1
        obtain ⟨e,name,hname⟩ := List.exists_cons_of_ne_nil
          (spelling_ne_nil (name_mem_spellings hmem))
        have hname : p.2.name = e :: name := hname
        rw [← hrest] at hl h
        rw [canonicalFrom_name hl,hname,List.cons_append,List.cons_prefix_cons] at h
        rw [hname,← h.1] at hstart
        exact absurd (by simpa using hstart) (hx d (by simp))
      | none =>
        rw [canonicalFrom_char hl,List.cons_prefix_cons] at h
        obtain ⟨rfl,hpre⟩ := h
        obtain ⟨a',rfl,ha'⟩ := ih (fun c hc => hx c (by simp [hc])) hpre
        refine ⟨a',rfl,?_⟩
        rw [canonicalFrom_char hl,ha',getLast?_cons_or]
        rfl

/-- A character other than the ping character that the result begins with began the text. -/
theorem head?_of_canonicalFrom {before : Option Char} {a : Text} {d : Char} (hd : d ≠ '平')
    (h : (canonicalFrom before a).head? = some d) : a.head? = some d := by
  cases a with
  | nil => simp at h
  | cons c a =>
    cases hl : leading? before (c :: a) with
    | some p =>
      obtain ⟨-,hmem,⟨rest,hrest⟩,-⟩ := leading?_eq_some_iff.mp hl
      have hname := spelling_ne_nil (name_mem_spellings hmem)
      rw [← hrest] at hl h ⊢
      rw [canonicalFrom_name hl,List.head?_append_of_ne_nil _ hname] at h
      rw [List.head?_append_of_ne_nil _ (spelling_ne_nil hmem),
        (name_head? hmem).2 (by simpa [h] using hd),h]
    | none =>
      rw [canonicalFrom_char hl] at h
      exact h

/-! ## Names of the result -/

/-- The characters before a text and before its result: both digit signs, neither of them, or a
number character before the result. -/
def Matched (before before' : Option Char) : Prop :=
  before.any Text.isDigitSign = before'.any Text.isDigitSign ∨ before' = some '号'

theorem matched_getLast? {p : Text × Element} (hp : p ∈ spellings) :
    Matched p.1.getLast? p.2.name.getLast? := by
  have hsign : ∀ q ∈ spellings, q.1.getLast?.any Text.isDigitSign =
      q.1.getLast?.any Char.isDigit := by
    intro q hq
    cases hlast : q.1.getLast? with
    | none => rfl
    | some c => exact isDigitSign_of_mem_spelling hq (List.mem_of_mem_getLast? hlast)
  have hname := hsign _ (name_mem_spellings hp)
  obtain ⟨hno,hlast⟩ := name_getLast? hp
  unfold Matched
  rw [hsign p hp,hname,hno]
  cases hd : p.1.getLast?.any Char.isDigit with
  | false => exact .inl rfl
  | true => exact .inr (hlast hd)

theorem continuesNumeral_cons (before : Option Char) (c : Char) (t : Text) :
    continuesNumeral before (c :: t) = (before.any Text.isDigitSign && Text.isDigitSign c) := rfl

/-- What makes a name longer in the result stood in the text, and unless it ends the weekday or the
word for stem and branch, it is part of no name there. -/
theorem exists_of_joined {q : Text × Element} (hq : q ∈ spellings) {s x : Text} (hs : s ≠ [])
    (hsplit : q.1 = s ++ x) {before : Option Char} {a : Text}
    (h : x <+: canonicalFrom before a) :
    (∃ a', a = x ++ a' ∧ canonicalFrom before a = x ++ canonicalFrom (x.getLast?.or before) a') ∨
      x <+: a ∧ s.length = 1 ∧ (s = ['星'] ∨ s = ['干']) := by
  by_cases hpair : q.1 = ['星','期'] ∨ q.1 = ['干','支']
  · cases x with
    | nil => exact .inl ⟨a,rfl,rfl⟩
    | cons d x =>
      obtain ⟨c,s,rfl⟩ := List.exists_cons_of_ne_nil hs
      obtain ⟨u,hu⟩ := h
      have hhead : (canonicalFrom before a).head? = some d := by simp [← hu]
      right
      rcases hpair with hpair | hpair <;>
      · rw [hpair] at hsplit
        cases s with
        | cons e s => simp at hsplit
        | nil =>
          simp only [List.cons_append,List.nil_append,List.cons.injEq,List.nil_eq] at hsplit
          obtain ⟨rfl,rfl,rfl⟩ := hsplit
          have ha := head?_of_canonicalFrom (by decide) hhead
          cases a with
          | nil => simp at ha
          | cons e a =>
            obtain rfl := Option.some.inj ha
            exact ⟨⟨a,rfl⟩,rfl,by simp⟩
  · rw [not_or] at hpair
    left
    apply exists_of_prefix_canonicalFrom _ h
    intro c hc
    apply not_mem_nameStarts hq hpair.1 hpair.2
    obtain ⟨d,s,rfl⟩ := List.exists_cons_of_ne_nil hs
    rw [hsplit,List.cons_append,List.tail_cons]
    exact List.mem_append_right s hc

theorem getLast?_or_of_ne_nil {x : Text} (hx : x ≠ []) (s : Text) (before : Option Char) :
    x.getLast?.or before = (s ++ x).getLast? := by
  rw [List.getLast?_append,List.getLast?_eq_some_getLast hx]
  rfl

theorem continuesNumeral_name {p : Text × Element} (hp : p ∈ spellings) (before : Option Char)
    (t : Text) : continuesNumeral before (p.2.name ++ t) = false := by
  have hstart := (name_head? hp).1
  obtain ⟨c,name,hname⟩ := List.exists_cons_of_ne_nil (spelling_ne_nil (name_mem_spellings hp))
  have hname : p.2.name = c :: name := hname
  have table : ∀ c ∈ nameStarts, 0x4e00 ≤ c.toNat ∧ c.toNat ≤ 0x9fff := by decide
  rw [hname] at hstart ⊢
  have hc := table c (by simpa using hstart)
  rw [List.cons_append,continuesNumeral_cons,isDigitSign_of_ideograph hc,Bool.and_false]

/-- The name at the start of a text is regular, and after it the text goes on with the canonical
names of at most `n` characters. -/
def Resumes (before : Option Char) (t : Text) (n : ℕ) : Prop :=
  ∃ q b a, leading? before t = some q ∧ Regular before q ∧ t = q.1 ++ canonicalFrom b a ∧
    Matched b q.1.getLast? ∧ a.length ≤ n

/-- What is read where a name was made canonical: that name, or one that grew into the characters
after it. -/
theorem resumes_name {before before' : Option Char} {p : Text × Element} {rest : Text}
    (hp : leading? before (p.1 ++ rest) = some p) :
    Resumes before' (p.2.name ++ canonicalFrom p.1.getLast? rest) rest.length := by
  obtain ⟨-,hmem,-,hmax⟩ := leading?_eq_some_iff.mp hp
  have hname := name_mem_spellings hmem
  have hstart := List.prefix_append p.2.name (canonicalFrom p.1.getLast? rest)
  cases hq : leading? before' (p.2.name ++ canonicalFrom p.1.getLast? rest) with
  | none =>
    rw [leading?_eq_none_iff,continuesNumeral_name hmem] at hq
    exact absurd hstart (hq.resolve_left (by simp) _ hname)
  | some q =>
    obtain ⟨-,hqmem,hqw,hqmax⟩ := leading?_eq_some_iff.mp hq
    obtain ⟨x,hx⟩ := List.prefix_of_prefix_length_le hstart hqw (hqmax _ hname hstart)
    rw [← hx,List.prefix_append_right_inj] at hqw
    have hregular : Regular before' q :=
      (canonical_or_totalWord hqmem ⟨x,hx⟩).imp_right .inl
    by_cases hnil : x = []
    · subst hnil
      rw [List.append_nil] at hx
      refine ⟨q,p.1.getLast?,rest,hq,hregular,by rw [hx],?_,Nat.le_refl _⟩
      rw [← hx]
      exact matched_getLast? hmem
    · rcases exists_of_joined hqmem (spelling_ne_nil hname) hx.symm hqw with
        ⟨a,rfl,ha⟩ | ⟨hxr,hone,-⟩
      · refine ⟨q,q.1.getLast?,a,hq,hregular,?_,.inl rfl,by simp⟩
        rw [ha,getLast?_or_of_ne_nil hnil p.2.name,hx,← List.append_assoc,hx]
      · -- A name of one character is its own canonical name, so the longer name was there before.
        have hshort := eq_name_of_length_one hmem hone
        have hle := hmax q hqmem (by
          rw [← hx,← hshort,List.prefix_append_right_inj]
          exact hxr)
        have hpos := List.length_pos_iff.mpr hnil
        rw [← hx,List.length_append,← hshort] at hle
        omega

/-- What is read where no name was: again none, or after a number character a name that the place
digit before it had hidden. -/
theorem resumes_char {before before' : Option Char} (hb : Matched before before') {c : Char}
    {a : Text} (hl : leading? before (c :: a) = none) :
    leading? before' (c :: canonicalFrom (some c) a) = none ∨
      Resumes before' (c :: canonicalFrom (some c) a) a.length := by
  cases hq : leading? before' (c :: canonicalFrom (some c) a) with
  | none => exact .inl rfl
  | some q =>
    right
    obtain ⟨hcont,hqmem,hqw,-⟩ := leading?_eq_some_iff.mp hq
    obtain ⟨d,x,hqx⟩ := List.exists_cons_of_ne_nil (spelling_ne_nil hqmem)
    obtain ⟨rfl,hxw⟩ := List.cons_prefix_cons.mp (hqx ▸ hqw)
    have hjoined := exists_of_joined hqmem (List.cons_ne_nil d []) hqx hxw
    have hxa : x <+: a := by
      rcases hjoined with ⟨a',rfl,-⟩ | ⟨hxa,-⟩
      · exact List.prefix_append x a'
      · exact hxa
    have hguard : continuesNumeral before (d :: a) = true := by
      refine (leading?_eq_none_iff.mp hl).resolve_right fun hno => hno q hqmem ?_
      rw [hqx,List.cons_prefix_cons]
      exact ⟨rfl,hxa⟩
    rw [continuesNumeral_cons,Bool.and_eq_true] at hguard
    have hnumber : before' = some '号' := by
      rw [continuesNumeral_cons,hguard.2,Bool.and_true] at hcont
      refine hb.resolve_left fun he => ?_
      rw [hguard.1,hcont] at he
      cases he
    have hdigit : DigitLed q.1 := by
      have hd := isDigitSign_of_mem_spelling hqmem (c := d) (by simp [hqx])
      rw [hguard.2] at hd
      simp [DigitLed,hqx,← hd]
    rcases hjoined with ⟨a',rfl,ha'⟩ | ⟨-,-,hpair⟩
    · have hlast : x.getLast?.or (some d) = q.1.getLast? := by
        rw [hqx,← getLast?_cons_or d x none,Option.or_none]
      refine ⟨q,q.1.getLast?,a',hq,.inr (.inr ⟨hnumber,hdigit⟩),?_,.inl rfl,by simp⟩
      rw [ha',hlast,hqx,List.cons_append]
    · have hrange : 0x4e00 ≤ d.toNat ∧ d.toNat ≤ 0x9fff := by
        rcases hpair with hd | hd <;>
        · obtain rfl := (List.cons.inj hd).1
          decide
      rw [isDigitSign_of_ideograph hrange] at hguard
      exact absurd hguard.2 (by simp)

/-- Every name of the result is canonical or made by canonical names. -/
theorem eachName_canonicalFrom (a : Text) {before before' : Option Char}
    (hb : Matched before before') : EachName Regular before' (canonicalFrom before a) := by
  -- A name that grew takes characters of the text behind it, so the induction is on the length.
  induction hn : a.length using Nat.strong_induction_on generalizing a before before' with
  | _ n ih =>
    have hstep : ∀ {t : Text} {k : ℕ}, k < n → Resumes before' t k →
        EachName Regular before' t := by
      rintro t k hk ⟨q,b,u,hq,hregular,rfl,hmatched,hle⟩
      exact .name hq hregular (ih u.length (by omega) u hmatched rfl)
    cases a with
    | nil => exact .nil before'
    | cons c a =>
      cases hl : leading? before (c :: a) with
      | some p =>
        obtain ⟨-,hmem,⟨rest,hrest⟩,-⟩ := leading?_eq_some_iff.mp hl
        have hpos := (spelling_length hmem).1
        rw [← hrest] at hl hn ⊢
        rw [List.length_append] at hn
        rw [canonicalFrom_name hl]
        exact hstep (by omega) (resumes_name hl)
      | none =>
        rw [List.length_cons] at hn
        rw [canonicalFrom_char hl]
        rcases resumes_char hb hl with hnone | hresumes
        · exact .char hnone (ih a.length (by omega) a (.inl rfl) rfl)
        · exact hstep (by omega) hresumes

/-! ## Texts with canonical names only -/

/-- A text without the long word for the total and without a name after a number character that
begins with a digit. -/
structure NamesSettled (t : Text) : Prop where
  total : ¬ totalWord <:+: t
  digit : ∀ p ∈ spellings, DigitLed p.1 → ¬ '号' :: p.1 <:+: t

theorem total_mem_spellings : (totalWord,Element.total .whole) ∈ spellings := by decide +kernel

theorem not_infix_totalWord {before : Option Char} {t : Text} (h : EachName Canonical before t) :
    ¬ totalWord <:+: t := by
  induction h with
  | nil before => simp [totalWord]
  | @name before p rest hl hp _ ih =>
    obtain ⟨-,hmem,-,hmax⟩ := leading?_eq_some_iff.mp hl
    intro hi
    rcases Text.infix_append_cases hi with hi | ⟨s₁,s₂,hs,hne,hpre⟩
    · exact ih hi
    · cases s₁ with
      | nil =>
        obtain rfl : p.1 = s₂ := hs
        have hle := hmax _ total_mem_spellings hpre
        have hword := List.prefix_of_prefix_length_le hpre (List.prefix_append p.1 rest) hle
        exact not_canonical hmem (.inl (eq_totalWord hmem hword)) hp
      | cons c s₁ =>
        obtain ⟨d,s₂,rfl⟩ := List.exists_cons_of_ne_nil hne
        obtain ⟨rfl,-⟩ := List.cons_prefix_cons.mp hpre
        exact (not_mem_tail_dropLast hmem).1 (by simp [hs])
  | @char before c rest hl _ ih =>
    intro hi
    rcases List.infix_cons_iff.mp hi with hpre | hi
    · obtain ⟨rfl,-⟩ := List.cons_prefix_cons.mp hpre
      rcases leading?_eq_none_iff.mp hl with hguard | hno
      · rw [continuesNumeral_cons,isDigitSign_of_ideograph (by decide),Bool.and_false] at hguard
        cases hguard
      · exact hno _ total_mem_spellings hpre
    · exact ih hi

theorem exists_of_toList_eq_append {before : Option Char} {s₁ s₂ : Text}
    (h : before.toList = s₁ ++ s₂) (hne : s₂ ≠ []) : ∃ b, before = some b ∧ s₂ = [b] := by
  cases before with
  | none => simp_all
  | some b =>
    cases s₁ with
    | nil => exact ⟨b,rfl,h.symm⟩
    | cons c s₁ => simp_all

/-- A part whose first character a name holds only at its end begins there or behind the name. -/
theorem infix_of_cons_infix_append {d : Char} {x p rest : Text} (hp : p ≠ [])
    (hd : d ∉ p.dropLast) (h : d :: x <:+: p ++ rest) : d :: x <:+: p.getLast?.toList ++ rest := by
  have hlast : p.getLast?.toList = [p.getLast hp] := by
    rw [List.getLast?_eq_some_getLast hp]
    rfl
  rw [← List.dropLast_append_getLast hp,List.append_assoc] at h
  rw [hlast]
  rcases Text.infix_append_cases h with h | ⟨s₁,s₂,hs,hne,hpre⟩
  · exact h
  · obtain ⟨c,s₂,rfl⟩ := List.exists_cons_of_ne_nil hne
    obtain ⟨rfl,-⟩ := List.cons_prefix_cons.mp hpre
    exact absurd (by simp [hs]) hd

theorem not_infix_digitLed {q : Text × Element} (hq : q ∈ spellings) (hd : DigitLed q.1)
    {before : Option Char} {t : Text} (h : EachName Canonical before t) :
    ¬ '号' :: q.1 <:+: before.toList ++ t := by
  obtain ⟨d,x,hqx⟩ := List.exists_cons_of_ne_nil (spelling_ne_nil hq)
  induction h with
  | nil before =>
    intro hi
    have hlen := hi.length_le
    cases before <;> simp [hqx] at hlen
  | @name before p rest hl hp _ ih =>
    have hmem := (leading?_eq_some_iff.mp hl).2.1
    have hpne := spelling_ne_nil hmem
    intro hi
    rcases Text.infix_append_cases hi with hi | ⟨s₁,s₂,hs,hne,hpre⟩
    · exact ih (infix_of_cons_infix_append hpne (not_mem_tail_dropLast hmem).2 hi)
    · obtain ⟨b,rfl,rfl⟩ := exists_of_toList_eq_append hs hne
      obtain ⟨c,name,hname⟩ := List.exists_cons_of_ne_nil hpne
      have hqp : q.1 <+: p.1 ++ rest := (List.cons_prefix_cons.mp hpre).2
      rw [hqx,hname,List.cons_append,List.cons_prefix_cons] at hqp
      rw [hqx,hqp.1,DigitLed,List.head?_cons] at hd
      exact not_canonical hmem (.inr (by simpa [DigitLed,hname] using hd)) hp
  | @char before c rest hl _ ih =>
    intro hi
    rcases Text.infix_append_cases hi with hi | ⟨s₁,s₂,hs,hne,hpre⟩
    · exact ih hi
    · obtain ⟨b,rfl,rfl⟩ := exists_of_toList_eq_append hs hne
      obtain ⟨rfl,hqp⟩ := List.cons_prefix_cons.mp hpre
      rcases leading?_eq_none_iff.mp hl with hguard | hno
      · rw [continuesNumeral_cons,Option.any_some,isDigitSign_of_ideograph (by decide),
          Bool.false_and] at hguard
        cases hguard
      · exact hno q hq hqp

theorem each_canonical_of_settled {before : Option Char} {t : Text}
    (h : EachName Regular before t) (ht : ¬ totalWord <:+: t)
    (hd : ∀ q ∈ spellings, DigitLed q.1 → ¬ '号' :: q.1 <:+: before.toList ++ t) :
    EachName Canonical before t := by
  induction h with
  | nil before => exact .nil before
  | @name before p rest hl hp _ ih =>
    have hmem := (leading?_eq_some_iff.mp hl).2.1
    have hsuffix : p.1.getLast?.toList ++ rest <:+ before.toList ++ (p.1 ++ rest) := by
      have hpne := spelling_ne_nil hmem
      refine ⟨before.toList ++ p.1.dropLast,?_⟩
      rw [List.getLast?_eq_some_getLast hpne,List.append_assoc]
      conv => rhs; rw [← List.dropLast_append_getLast hpne]
      simp
    refine .name hl ?_ (ih (fun hi => ht (hi.trans (List.suffix_append p.1 rest).isInfix))
      fun q hq hqd hi => hd q hq hqd (hi.trans hsuffix.isInfix))
    rcases hp with hp | hp | ⟨rfl,hp⟩
    · exact hp
    · exact absurd (hp ▸ (List.prefix_append p.1 rest).isInfix) ht
    · refine absurd ?_ (hd p hmem hp)
      exact (List.cons_prefix_cons.mpr ⟨rfl,List.prefix_append p.1 rest⟩).isInfix
  | @char before c rest hl _ ih =>
    refine .char hl (ih (fun hi => ht (hi.trans (List.suffix_cons c rest).isInfix))
      fun q hq hqd hi => hd q hq hqd (hi.trans ?_))
    exact (List.suffix_append before.toList (c :: rest)).isInfix

/-- Names that are canonical once are canonical twice unless they have made other names. -/
theorem canonical_canonical_iff (a : Text) :
    canonical (canonical a) = canonical a ↔ NamesSettled (canonical a) := by
  have hregular : EachName Regular none (canonical a) :=
    eachName_canonicalFrom a (.inl rfl)
  constructor
  · intro h
    have hcanonical := (count_canonicalFrom hregular).2 h
    exact ⟨not_infix_totalWord hcanonical,fun q hq hd => not_infix_digitLed hq hd hcanonical⟩
  · intro h
    exact canonicalFrom_of_each (each_canonical_of_settled hregular h.total h.digit)

end DrawFormula.Expression
