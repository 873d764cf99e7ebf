import DrawFormula.Proofs.Expression.Evaluation

/-! # Sums that cannot be added up

Adding up fails at a number with more digits than are converted, once it is met: everything before
it is the beginning of a sum in which a term is due, with numbers that can be read. A text that is
no sum before such a number is met has the value 0 instead.
-/
namespace DrawFormula.Expression

/-- The place in a sum after a token: the number of open parentheses and whether a term is due;
`none` if the token does not go on with a sum. -/
def Token.next : ℕ × Bool → Token → Option (ℕ × Bool)
  | (depth,true), .number _ => some (depth,false)
  | (depth,true), .openParen => some (depth + 1,true)
  | (depth,false), .plus => some (depth,true)
  | (depth + 1,false), .closeParen => some (depth,false)
  | _, _ => none

/-- Whether from a place in a sum on the tokens lead to a number that is too long. -/
def Stumbles (place : ℕ × Bool) (tokens : List Token) : Prop :=
  ∃ (before : List Token) (digits : Text) (after : List Token) (depth : ℕ),
    tokens = before ++ .number digits :: after ∧
      before.foldlM Token.next place = some (depth,true) ∧
      (∀ ds, .number ds ∈ before → ds.length ≤ Text.digitLimit) ∧
      Text.digitLimit < digits.length

theorem not_stumbles_nil (place : ℕ × Bool) : ¬ Stumbles place [] := by
  rintro ⟨before,digits,after,depth,h,-⟩
  simp at h

/-- The first token is the number that is too long, or it can be read and leads on to the next
place. -/
theorem stumbles_cons {place : ℕ × Bool} {token : Token} {rest : List Token} :
    Stumbles place (token :: rest) ↔
      (place.2 = true ∧ ∃ ds, token = .number ds ∧ Text.digitLimit < ds.length) ∨
      (∀ ds, token = .number ds → ds.length ≤ Text.digitLimit) ∧
        ∃ next, token.next place = some next ∧ Stumbles next rest := by
  constructor
  · rintro ⟨before,digits,after,depth,heq,hplace,hshort,hlong⟩
    cases before with
    | nil =>
      obtain ⟨rfl,-⟩ := List.cons.inj heq
      exact .inl ⟨congrArg Prod.snd (Option.some.inj hplace),digits,rfl,hlong⟩
    | cons first before =>
      obtain ⟨rfl,rfl⟩ := List.cons.inj heq
      rw [List.foldlM_cons,Option.bind_eq_bind,Option.bind_eq_some_iff] at hplace
      obtain ⟨next,hnext,hplace⟩ := hplace
      refine .inr ⟨fun ds hds => hshort ds (by simp [hds]),next,hnext,?_⟩
      exact ⟨before,digits,after,depth,rfl,hplace,
        fun ds hds => hshort ds (List.mem_cons_of_mem _ hds),hlong⟩
  · rintro (⟨hdue,digits,rfl,hlong⟩ | ⟨hshort,next,hnext,hrest⟩)
    · exact ⟨[],digits,rest,place.1,rfl,congrArg some (Prod.ext rfl hdue),nofun,hlong⟩
    · obtain ⟨before,digits,after,depth,rfl,hplace,hshort',hlong⟩ := hrest
      refine ⟨token :: before,digits,after,depth,rfl,?_,fun ds hds => ?_,hlong⟩
      · rw [List.foldlM_cons,hnext]
        exact hplace
      · rcases List.mem_cons.mp hds with hself | hds
        · exact hshort ds hself.symm
        · exact hshort' ds hds

/-- Adding up fails for the sake of a number just if it stumbles. -/
theorem addUp_eq_error_iff {outer : List ℕ} {total : ℕ} {due : Bool} {tokens : List Token} :
    (∃ e, addUp outer total due tokens = .error (some e)) ↔ Stumbles (outer.length,due) tokens := by
  induction tokens generalizing outer total due with
  | nil =>
    refine iff_of_false ?_ (not_stumbles_nil _)
    rintro ⟨e,h⟩
    cases outer <;> cases due <;> cases h
  | cons token rest ih =>
    rw [stumbles_cons]
    -- what is due decides what a token means
    cases due with
    | true =>
      cases token with
      | number ds =>
        by_cases hlong : Text.digitLimit < ds.length
        · simp [addUp,Text.readDigits,hlong]
        · simp [addUp,Text.readDigits,hlong,Token.next,ih,Nat.not_lt.mp hlong]
      | plus => simp [addUp,Token.next]
      | openParen => simp [addUp,Token.next,ih]
      | closeParen => simp [addUp,Token.next]
    | false =>
      cases token with
      | number ds => cases outer <;> simp [addUp,Token.next]
      | plus => cases outer <;> simp [addUp,Token.next,ih]
      | openParen => cases outer <;> simp [addUp,Token.next]
      | closeParen => cases outer <;> simp [addUp,Token.next,ih]

/-- Whether a text is a sum up to a number that is too long. -/
def Overlong (t : Text) : Prop := t.all inSum = true ∧ Stumbles (0,true) (Token.ofText t)

theorem sumOrZero_eq_error_iff {t : Text} : (∃ e, sumOrZero t = .error e) ↔ Overlong t := by
  have hadd : (∃ e, addUp [] 0 true (Token.ofText t) = .error (some e)) ↔
    Stumbles (0,true) (Token.ofText t) := addUp_eq_error_iff
  rw [Overlong,← hadd]
  by_cases hall : t.all inSum = true
  · cases t with
    | nil => simp [sumOrZero,sumOf,Token.ofText,addUp]
    | cons c t =>
      rw [sumOrZero,sumOf,if_neg (by simp [hall])]
      rcases addUp [] 0 true (Token.ofText (c :: t)) with (_ | e) | n <;> simp [hall]
  · simp [sumOrZero,sumOf,hall]

/-! ## Long literals -/

theorem overlong_literal (l : Literal) (h : Text.digitLimit < l.digits.length) :
    Overlong l.digits := by
  have hdigits : ∀ c ∈ l.digits, Text.isDigit c = true := fun c hc =>
    Text.isDigit_of_ascii (l.ascii c hc)
  have htokens : Token.ofText (l.digits ++ []) = .number l.digits :: Token.ofText [] :=
    Token.ofText_digits l.digits_ne_nil hdigits rfl
  rw [List.append_nil] at htokens
  refine ⟨List.all_eq_true.mpr fun c hc => ?_,?_⟩
  · simp [inSum,hdigits c hc]
  · rw [htokens,stumbles_cons]
    exact .inl ⟨rfl,l.digits,rfl,h⟩

theorem substitute_literal (l : Literal) (d : Draw) (sorted : Bool) {cache : Element.Cache}
    (hc : cache.enabled = false) : substitute l.digits d sorted cache = (.ok l.digits,cache) := by
  have hresolve : resolve d.special l.digits = l.digits :=
    Tree.resolve_text d.special (.literal l : Tree Condition)
  have hscan : Lexeme.scan l.digits = l.digits.map .char := Tree.scan_text (.literal l)
  have hunknown : unknownIn (l.digits.map .char) = [] := Tree.unknownIn_lexemes (.literal l)
  have hcollapse : collapsePlus l.digits = l.digits := by
    simpa [plusRun,Core.text,Core.bare,Core.withRuns] using collapsePlus_text 0 0 (.number l)
  simp only [substitute,hresolve,hscan,substituteAll_of_disabled hc,hunknown,
    Tree.contribution_digits d sorted l.ascii,hcollapse]

end DrawFormula.Expression
