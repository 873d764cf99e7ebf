import DrawFormula.Proofs.Expression.Overlong
import DrawFormula.Proofs.Text.Compact

/-! # The grammar of sums

A sum is a term, or a sum followed by a plus sign and a term; a term is a number, or a sum between
parentheses. Adding up takes just the texts that are written in the tokens of a sum, and their value
is the total of their numbers, however these are grouped.
-/
namespace DrawFormula.Expression

/-! ## Texts in tokens -/

/-- Whether a text is written in these tokens: a number is a run of digits that goes on as far as it
can, and blanks stand anywhere but within a number. -/
inductive Tokenized : Text → List Token → Prop
  | nil : Tokenized [] []
  | blank {c t ts} : Text.isBlank c = true → Tokenized t ts → Tokenized (c :: t) ts
  | plus {t ts} : Tokenized t ts → Tokenized ('+' :: t) (.plus :: ts)
  | openParen {t ts} : Tokenized t ts → Tokenized ('(' :: t) (.openParen :: ts)
  | closeParen {t ts} : Tokenized t ts → Tokenized (')' :: t) (.closeParen :: ts)
  | number {ds t ts} : ds ≠ [] → (∀ c ∈ ds, Text.isDigit c = true) →
      t.head?.any Text.isDigit = false → Tokenized t ts → Tokenized (ds ++ t) (.number ds :: ts)

theorem Token.ofText_blank {c : Char} (h : Text.isBlank c = true) (rest : Text) :
    Token.ofText (c :: rest) = Token.ofText rest := by
  have hne : ∀ d, Text.isBlank d = false → c ≠ d := by
    rintro d hd rfl
    rw [h] at hd
    cases hd
  rw [Token.ofText,if_neg (by simp [Text.not_isDigit_of_isBlank h]),if_neg (hne '+' (by decide)),
    if_neg (hne '(' (by decide)),if_neg (hne ')' (by decide))]

theorem Tokenized.ofText_eq {t : Text} {ts : List Token} (h : Tokenized t ts) :
    Token.ofText t = ts := by
  induction h with
  | nil => rfl
  | blank hc _ ih => rw [Token.ofText_blank hc,ih]
  | plus _ ih => rw [Token.ofText_plus,ih]
  | openParen _ ih => rw [Token.ofText_open,ih]
  | closeParen _ ih => rw [Token.ofText_close,ih]
  | number hne hds hstop _ ih => rw [Token.ofText_digits hne hds hstop,ih]

theorem Tokenized.inSum_of_mem {t : Text} {ts : List Token} (h : Tokenized t ts) :
    ∀ c ∈ t, inSum c = true := by
  induction h with
  | nil => simp
  | blank hc _ ih => exact List.forall_mem_cons.mpr ⟨by simp [inSum,hc],ih⟩
  | plus _ ih => exact List.forall_mem_cons.mpr ⟨by decide,ih⟩
  | openParen _ ih => exact List.forall_mem_cons.mpr ⟨by decide,ih⟩
  | closeParen _ ih => exact List.forall_mem_cons.mpr ⟨by decide,ih⟩
  | number _ hds _ _ ih =>
    exact List.forall_mem_append.mpr ⟨fun c hc => by simp [inSum,hds c hc],ih⟩

/-- A digit before a text joins the number that the text begins with, or is a number alone. -/
theorem Tokenized.digit {c : Char} {t : Text} {ts : List Token} (hc : Text.isDigit c = true)
    (h : Tokenized t ts) : Tokenized (c :: t)
      (if t.head?.any Text.isDigit then Token.consDigit c ts else .number [c] :: ts) := by
  split
  · next hdigit =>
    cases h with
    | nil => cases hdigit
    | blank hb => simp [Text.not_isDigit_of_isBlank hb] at hdigit
    | plus => cases hdigit
    | openParen => cases hdigit
    | closeParen => cases hdigit
    | @number ds t ts _ hds hstop hrest =>
      have hlonger : Tokenized ((c :: ds) ++ t) (.number (c :: ds) :: ts) :=
        .number (List.cons_ne_nil c ds) (List.forall_mem_cons.mpr ⟨hc,hds⟩) hstop hrest
      exact hlonger
  · next hstop =>
    have halone : Tokenized ([c] ++ t) (.number [c] :: ts) :=
      .number (List.cons_ne_nil c []) (by simpa using hc) (by simpa using hstop) h
    exact halone

theorem tokenized_ofText {t : Text} (h : ∀ c ∈ t, inSum c = true) :
    Tokenized t (Token.ofText t) := by
  induction t with
  | nil => exact .nil
  | cons c t ih =>
    obtain ⟨hc,ht⟩ := List.forall_mem_cons.mp h
    have hrest := ih ht
    by_cases hdigit : Text.isDigit c = true
    · rw [Token.ofText,if_pos hdigit]
      exact hrest.digit hdigit
    · simp only [inSum,Bool.or_eq_true,decide_eq_true_eq] at hc
      rcases hc with (((hc | rfl) | rfl) | rfl) | hc
      · exact absurd hc hdigit
      · rw [Token.ofText_plus]
        exact .plus hrest
      · rw [Token.ofText_open]
        exact .openParen hrest
      · rw [Token.ofText_close]
        exact .closeParen hrest
      · rw [Token.ofText_blank hc]
        exact .blank hc hrest

theorem Tokenized.infix_of_number {t : Text} {ts : List Token} (h : Tokenized t ts) {ds : Text}
    (hmem : .number ds ∈ ts) : ds <:+: t ∧ ∀ c ∈ ds, Text.isDigit c = true := by
  induction h with
  | nil => cases hmem
  | blank _ _ ih => exact (ih hmem).imp_left List.infix_cons
  | plus _ ih => exact (ih (by simpa using hmem)).imp_left List.infix_cons
  | openParen _ ih => exact (ih (by simpa using hmem)).imp_left List.infix_cons
  | closeParen _ ih => exact (ih (by simpa using hmem)).imp_left List.infix_cons
  | @number run t _ _ hds _ _ ih =>
    rcases List.mem_cons.mp hmem with hself | hmem
    · obtain rfl := Token.number.inj hself
      exact ⟨(List.prefix_append ds t).isInfix,hds⟩
    · exact (ih hmem).imp_left fun hi => hi.trans (List.suffix_append run t).isInfix

/-! ## Phrases -/

/-- The kinds of phrases. -/
inductive Phrase where
  | sum | term

/-- The token sequences of a phrase. -/
inductive Derives : Phrase → List Token → Prop
  | term {ts} : Derives .term ts → Derives .sum ts
  | plus {ts us} : Derives .sum ts → Derives .term us → Derives .sum (ts ++ .plus :: us)
  | number (ds) : Derives .term [.number ds]
  | group {ts} : Derives .sum ts → Derives .term (.openParen :: (ts ++ [.closeParen]))

/-- What a token adds to a sum. -/
def Token.value : Token → ℕ
  | .number ds => Text.digitsValue ds
  | .plus | .openParen | .closeParen => 0

/-- The total of the numbers among tokens. -/
def total (ts : List Token) : ℕ := (ts.map Token.value).sum

@[simp] theorem total_nil : total [] = 0 := rfl

@[simp] theorem total_cons (token : Token) (ts : List Token) :
    total (token :: ts) = token.value + total ts := List.sum_cons

@[simp] theorem total_append (ts us : List Token) : total (ts ++ us) = total ts + total us := by
  rw [total,List.map_append,List.sum_append,total,total]

/-- No number among the tokens is too long to be read. -/
def Short (ts : List Token) : Prop := ∀ ds, .number ds ∈ ts → ds.length ≤ Text.digitLimit

theorem Short.append {ts us : List Token} (h : Short (ts ++ us)) : Short ts ∧ Short us :=
  ⟨fun ds hds => h ds (List.mem_append_left us hds),
    fun ds hds => h ds (List.mem_append_right ts hds)⟩

theorem Short.tail {token : Token} {ts : List Token} (h : Short (token :: ts)) : Short ts :=
  fun ds hds => h ds (List.mem_cons_of_mem token hds)

/-- A phrase that is due adds its total and leaves the open parentheses alone. -/
theorem Derives.addUp_eq {phrase : Phrase} {ts : List Token} (h : Derives phrase ts)
    (hshort : Short ts) (outer : List ℕ) (sum : ℕ) (rest : List Token) :
    addUp outer sum true (ts ++ rest) = addUp outer (sum + total ts) false rest := by
  induction h generalizing outer sum rest with
  | term _ ih => exact ih hshort outer sum rest
  | @plus ts us _ _ ihs iht =>
    obtain ⟨hts,hus⟩ := hshort.append
    rw [List.append_assoc,ihs hts,List.cons_append,addUp,iht hus.tail,total_append,total_cons,
      Token.value,Nat.zero_add,Nat.add_assoc]
  | number ds =>
    have hread := Text.readDigits_of_length_le (hshort ds List.mem_cons_self)
    rw [List.singleton_append,addUp,hread,total_cons,total_nil,Token.value,Nat.add_zero]
  | @group ts _ ih =>
    have hts := hshort.tail.append.1
    rw [List.cons_append,List.append_assoc,addUp,ih hts,List.singleton_append,addUp]
    simp [Token.value]

/-- Two sums with a plus sign between them are a sum. -/
theorem Derives.join {phrase : Phrase} {ts us : List Token} (hts : Derives .sum ts)
    (hus : Derives phrase us) : Derives .sum (ts ++ .plus :: us) := by
  induction hus with
  | term _ ih => exact ih
  | @plus vs ws _ hws ihs _ =>
    rw [← List.cons_append,← List.append_assoc]
    exact .plus ihs hws
  | number ds => exact .plus hts (.number ds)
  | group hsum _ => exact .plus hts (.group hsum)

/-! ## Adding up a phrase -/

/-- Whether tokens that follow a whole sum end there, if no parenthesis is open, or close the
innermost one and come to the result `n` after it. -/
def Closes (n : ℕ) : List ℕ → List Token → Prop
  | [], ts => ts = []
  | _ :: outer, ts => ∃ sum rest, ts = .closeParen :: rest ∧ addUp outer sum false rest = .ok n

theorem addUp_due {n : ℕ} {outer : List ℕ} {sum : ℕ} {ts : List Token}
    (h : addUp outer sum true ts = .ok n) :
    (∃ ds rest m, ts = .number ds :: rest ∧ addUp outer m false rest = .ok n) ∨
      ∃ rest, ts = .openParen :: rest ∧ addUp (sum :: outer) 0 true rest = .ok n := by
  cases ts with
  | nil => simp [addUp] at h
  | cons token rest =>
    cases token with
    | number ds =>
      rw [addUp] at h
      split at h
      · exact .inl ⟨ds,rest,_,rfl,h⟩
      · cases h
    | openParen => exact .inr ⟨rest,rfl,by rwa [addUp] at h⟩
    | plus => simp [addUp] at h
    | closeParen => simp [addUp] at h

/-- After a term the sum ends, or a plus sign follows. -/
theorem addUp_ended {n : ℕ} {outer : List ℕ} {sum : ℕ} {ts : List Token}
    (h : addUp outer sum false ts = .ok n) :
    Closes n outer ts ∨ ∃ rest, ts = .plus :: rest ∧ addUp outer sum true rest = .ok n := by
  cases ts with
  | nil =>
    cases outer with
    | nil => exact .inl rfl
    | cons m outer => simp [addUp] at h
  | cons token rest =>
    cases token with
    | number ds => cases outer <;> simp [addUp] at h
    | openParen => cases outer <;> simp [addUp] at h
    | plus => exact .inr ⟨rest,rfl,by cases outer <;> simpa only [addUp] using h⟩
    | closeParen =>
      cases outer with
      | nil => simp [addUp] at h
      | cons m outer => exact .inl ⟨m + sum,rest,rfl,by rwa [addUp] at h⟩

/-- What is added up to a result begins with a sum where a term is due, and goes on with one after
it. -/
theorem exists_sum_of_addUp {n : ℕ} (ts : List Token) :
    (∀ outer sum, addUp outer sum true ts = .ok n →
      ∃ us vs, ts = us ++ vs ∧ Derives .sum us ∧ Closes n outer vs) ∧
    (∀ outer sum before, Derives .sum before → addUp outer sum false ts = .ok n →
      ∃ us vs, ts = us ++ vs ∧ Derives .sum (before ++ us) ∧ Closes n outer vs) := by
  -- what follows a group is shorter than the tokens, but not their tail
  induction hlength : ts.length using Nat.strong_induction_on generalizing ts with
  | _ k ih =>
    have hrest : ∀ {token rest}, ts = token :: rest → rest.length < k := by
      rintro token rest rfl
      simp [← hlength]
    constructor
    · intro outer sum h
      rcases addUp_due h with ⟨ds,rest,m,hts,hm⟩ | ⟨rest,hts,hinner⟩
      · obtain ⟨us,vs,rfl,hus,hvs⟩ :=
          (ih _ (hrest hts) rest rfl).2 outer m _ (.term (.number ds)) hm
        exact ⟨.number ds :: us,vs,hts,hus,hvs⟩
      · obtain ⟨us,vs,rfl,hus,m,after,rfl,hafter⟩ := (ih _ (hrest hts) rest rfl).1 _ _ hinner
        have hshorter : after.length < k := by
          have hle := hrest hts
          simp only [List.length_append,List.length_cons] at hle
          omega
        obtain ⟨ws,xs,rfl,hws,hxs⟩ :=
          (ih _ hshorter after rfl).2 outer m _ (.term (.group hus)) hafter
        exact ⟨_,xs,by simp [hts],hws,hxs⟩
    · intro outer sum before hbefore h
      rcases addUp_ended h with hcloses | ⟨rest,hts,hdue⟩
      · exact ⟨[],ts,rfl,by rwa [List.append_nil],hcloses⟩
      · obtain ⟨us,vs,rfl,hus,hvs⟩ := (ih _ (hrest hts) rest rfl).1 outer sum hdue
        exact ⟨.plus :: us,vs,hts,hbefore.join hus,hvs⟩

theorem addUp_eq_ok_iff {ts : List Token} (hshort : Short ts) {n : ℕ} :
    addUp [] 0 true ts = .ok n ↔ Derives .sum ts ∧ n = total ts := by
  have hwhole : Derives .sum ts → addUp [] 0 true ts = .ok (total ts) := by
    intro h
    have hsum := h.addUp_eq hshort [] 0 []
    rwa [List.append_nil,Nat.zero_add] at hsum
  constructor
  · intro h
    obtain ⟨us,vs,hts,hus,hvs⟩ := (exists_sum_of_addUp ts).1 [] 0 h
    obtain rfl : vs = [] := hvs
    rw [List.append_nil] at hts
    subst hts
    rw [hwhole hus] at h
    exact ⟨hus,(Except.ok.inj h).symm⟩
  · rintro ⟨h,rfl⟩
    exact hwhole h

theorem addUp_ne_error {ts : List Token} (hshort : Short ts) (e : NumeralError) :
    addUp [] 0 true ts ≠ .error (some e) := by
  intro h
  obtain ⟨before,ds,after,-,rfl,-,-,hlong⟩ := addUp_eq_error_iff.mp ⟨e,h⟩
  have hle := hshort ds (by simp)
  omega

/-! ## The sum of a text -/

theorem Derives.ne_nil {phrase : Phrase} {ts : List Token} (h : Derives phrase ts) : ts ≠ [] := by
  induction h with
  | term _ ih => exact ih
  | plus => simp
  | number => simp
  | group => simp

theorem Tokenized.ne_nil {t : Text} {ts : List Token} (h : Tokenized t ts)
    (hsum : Derives .sum ts) : t ≠ [] := by
  rintro rfl
  exact hsum.ne_nil h.ofText_eq.symm

theorem Derives.sumOf_eq {t : Text} {ts : List Token} (hsum : Derives .sum ts)
    (h : Tokenized t ts) (hshort : Short ts) : sumOf t = .ok (total ts) := by
  have hall : t.all inSum = true := List.all_eq_true.mpr h.inSum_of_mem
  rw [sumOf,if_neg (by simp [h.ne_nil hsum,hall]),h.ofText_eq,
    (addUp_eq_ok_iff hshort).mpr ⟨hsum,rfl⟩]

/-- A text is malformed if it is not written in tokens, or these are not those of a sum. -/
theorem sumOf_eq_malformed {t : Text} (hshort : ∀ ts, Tokenized t ts → Short ts)
    (h : ∀ ts, Tokenized t ts → ¬ Derives .sum ts) : sumOf t = .error (.malformed t) := by
  unfold sumOf
  split
  · rfl
  · next hgood =>
    have htokens : Tokenized t (Token.ofText t) := tokenized_ofText (by simp_all)
    rcases hadd : addUp [] 0 true (Token.ofText t) with (_ | e) | n
    · rfl
    · exact absurd hadd (addUp_ne_error (hshort _ htokens) e)
    · exact absurd ((addUp_eq_ok_iff (hshort _ htokens)).mp hadd).1 (h _ htokens)

/-- Digits of two scripts, a group, blanks between the tokens. -/
def groupedSum : Text := "12 + (٣+4)".toList

end DrawFormula.Expression
