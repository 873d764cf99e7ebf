import DrawFormula.Formula.Reader
import DrawFormula.Proofs.Text.Decimal
import Mathlib.Tactic.Ring

/-! # Marked numbers at the end of a formula

The numbers that a formula is written with are read back one after the other, and no text before
them is taken for a number: the offset is written with its sign, which only the first of the marked
numbers can begin with.
-/
namespace DrawFormula.Formula
open Text

/-! ## One marked number -/

/-- A text that does not begin with a digit. -/
def EndsDigits (t : Text) : Prop := ∀ c ∈ t.head?, isDigit c = false

theorem takeWhile_digits {ds rest : Text} (h : ∀ c ∈ ds, isDigit c = true)
    (hr : EndsDigits rest) : (ds ++ rest).takeWhile isDigit = ds := by
  rw [List.takeWhile_append_of_pos h]
  cases rest with
  | nil => simp
  | cons c rest =>
    have hc := hr c rfl
    rw [List.takeWhile_cons_of_neg (by simp [hc]),List.append_nil]

theorem dropWhile_digits {ds rest : Text} (h : ∀ c ∈ ds, isDigit c = true)
    (hr : EndsDigits rest) : (ds ++ rest).dropWhile isDigit = rest := by
  rw [List.dropWhile_append_of_pos h]
  cases rest with
  | nil => rfl
  | cons c rest =>
    have hc := hr c rfl
    rw [List.dropWhile_cons_of_neg (by simp [hc])]

theorem isDigit_of_mem_digits {n : ℕ} {c : Char} (h : c ∈ ofNat n) : isDigit c = true :=
  isDigit_of_ascii (isDigit_of_mem_ofNat h)

section Optional
variable {p : Char → Bool}

theorem optional_number {mark : Char} (hm : p mark = true) (n : ℕ) {rest : Text}
    (hr : EndsDigits rest) :
    optional p (mark :: (ofNat n ++ rest)) = (some (mark,ofNat n),rest) := by
  have hdigits : ∀ c ∈ ofNat n, isDigit c = true := fun c hc => isDigit_of_mem_digits hc
  have htake := takeWhile_digits hdigits hr
  have hdrop := dropWhile_digits hdigits hr
  have hne := ofNat_ne_nil n
  generalize ofNat n = ds at htake hdrop hne ⊢
  cases ds with
  | nil => exact absurd rfl hne
  | cons d ds => rw [optional,marked?,if_pos hm,htake,hdrop]

theorem optional_none {t : Text} (h : ∀ c ∈ t.head?, p c = false) : optional p t = (none,t) := by
  cases t with
  | nil => rfl
  | cons c t =>
    have hc := h c rfl
    rw [optional,marked?,if_neg (by simp [hc])]

/-- What is read as a marked number is its mark and its digits. -/
theorem optional_cases (p : Char → Bool) (t : Text) :
    optional p t = (none,t) ∨ ∃ c ds rest, p c = true ∧ ds ≠ [] ∧ (∀ d ∈ ds, isDigit d = true) ∧
      t = c :: (ds ++ rest) ∧ optional p t = (some (c,ds),rest) := by
  cases t with
  | nil => exact .inl rfl
  | cons c t =>
    by_cases hc : p c = true
    · cases htake : t.takeWhile isDigit with
      | nil =>
        left
        rw [optional,marked?,if_pos hc,htake]
      | cons d ds =>
        right
        have hcat := List.takeWhile_append_dropWhile (p := isDigit) (l := t)
        have hall : ∀ c ∈ t.takeWhile isDigit, isDigit c = true :=
          List.all_eq_true.mp List.all_takeWhile
        rw [htake] at hcat hall
        refine ⟨c,d :: ds,t.dropWhile isDigit,hc,by simp,hall,by rw [hcat],?_⟩
        rw [optional,marked?,if_pos hc,htake]
    · left
      rw [optional,marked?,if_neg hc]

end Optional

/-! ## All marked numbers -/

/-- The characters of marked numbers after the first one. -/
def InSuffix (c : Char) : Prop := isDigit c = true ∨ c = '=' ∨ c = '左' ∨ c = '右'

theorem inSuffix_of_optional {p : Char → Bool} (hp : ∀ c, p c = true → InSuffix c) {t : Text}
    (h : ∀ c ∈ (optional p t).2, InSuffix c) : ∀ c ∈ t, InSuffix c := by
  rcases optional_cases p t with heq | ⟨c,ds,rest,hc,-,hds,rfl,heq⟩
  · rwa [heq] at h
  · rw [heq] at h
    intro d hd
    simp only [List.mem_cons,List.mem_append] at hd
    rcases hd with rfl | hd | hd
    · exact hp _ hc
    · exact .inl (hds d hd)
    · exact h d hd

/-- Marked numbers hold no sign except at their start. -/
theorem inSuffix_of_readSuffix? {t : Text} {s : Suffix} (h : readSuffix? t = some s) :
    ∀ c ∈ t.tail, InSuffix c := by
  unfold readSuffix? at h
  simp only at h
  have hend : ∀ c ∈ (optional (· = '右') (optional (· = '左') (optional (· = '=')
      (optional (fun c => c = '+' || c = '-') t).2).2).2).2, InSuffix c := by
    split at h
    · next hempty =>
      rw [List.isEmpty_iff] at hempty
      simp [hempty]
    · cases h
  have hrest : ∀ c ∈ (optional (fun c => c = '+' || c = '-') t).2, InSuffix c :=
    inSuffix_of_optional (by simp [InSuffix]) (inSuffix_of_optional (by simp [InSuffix])
      (inSuffix_of_optional (by simp [InSuffix]) hend))
  rcases optional_cases (fun c => c = '+' || c = '-') t with heq | ⟨c,ds,rest,-,-,hds,rfl,heq⟩
  · rw [heq] at hrest
    exact fun c hc => hrest c (List.mem_of_mem_tail hc)
  · rw [heq] at hrest
    intro d hd
    rw [List.tail_cons,List.mem_append] at hd
    rcases hd with hd | hd
    · exact .inl (hds d hd)
    · exact hrest d hd

/-- The expression ends where a sign begins the marked numbers. -/
theorem splitSuffix?_append {e : Text} (he : e ≠ []) {sign : Char} (hs : ¬ InSuffix sign)
    {t : Text} {s : Suffix} (h : readSuffix? (sign :: t) = some s) :
    splitSuffix? (e ++ sign :: t) = some (e,s) := by
  induction e with
  | nil => exact absurd rfl he
  | cons c e ih =>
    rw [List.cons_append,splitSuffix?]
    cases e with
    | nil => rw [List.nil_append,h]
    | cons d e =>
      cases hread : readSuffix? (d :: e ++ sign :: t) with
      | none => rw [ih (by simp)]; rfl
      | some s' =>
        have hin := inSuffix_of_readSuffix? hread sign (by simp)
        exact absurd hin hs

theorem splitSuffix?_eq_some {t e : Text} {s : Suffix} (h : splitSuffix? t = some (e,s)) :
    e ≠ [] ∧ ∃ rest, t = e ++ rest ∧ readSuffix? rest = some s := by
  induction t generalizing e with
  | nil => cases h
  | cons c t ih =>
    rw [splitSuffix?] at h
    cases hread : readSuffix? t with
    | some s' =>
      rw [hread] at h
      obtain ⟨rfl,rfl⟩ : [c] = e ∧ s' = s := by simpa using h
      exact ⟨by simp,t,rfl,hread⟩
    | none =>
      rw [hread] at h
      simp only [Option.map_eq_some_iff,Prod.mk.injEq] at h
      obtain ⟨⟨e',s'⟩,hsplit,rfl,rfl⟩ := h
      obtain ⟨-,rest,rfl,hrest⟩ := ih hsplit
      exact ⟨by simp,rest,rfl,hrest⟩

/-! ## The marked numbers of a formula -/

/-- Numbers that can be written and read. -/
structure Sized (f : Formula) : Prop where
  periods_pos : 0 < f.periods
  periods_lt : f.periods < 10 ^ digitLimit
  offset_lt : f.offset.natAbs < 10 ^ digitLimit
  left_nonneg : 0 ≤ f.left
  left_lt : f.left.toNat < 10 ^ digitLimit
  right_nonneg : 0 ≤ f.right
  right_lt : f.right.toNat < 10 ^ digitLimit

/-- Widths that can be written, however large the numbers are. -/
structure Widths (f : Formula) : Prop where
  left_nonneg : 0 ≤ f.left
  right_nonneg : 0 ≤ f.right

theorem Sized.widths {f : Formula} (h : f.Sized) : f.Widths := ⟨h.left_nonneg,h.right_nonneg⟩

/-- The sign of an offset. -/
def offsetSign (v : ℤ) : Char := if 0 ≤ v then '+' else '-'

theorem ofIntSigned_eq (v : ℤ) : ofIntSigned v = offsetSign v :: ofNat v.natAbs := by
  cases v <;> rfl

theorem not_inSuffix_offsetSign (v : ℤ) : ¬ InSuffix (offsetSign v) := by
  unfold offsetSign InSuffix
  split <;> decide

/-- The digits of a width, nothing for a width of 0. -/
def widthDigits (w : ℤ) : Option Text := if w = 0 then none else some (ofNat w.toNat)

/-- The marked numbers of a formula. -/
def suffix (f : Formula) : Suffix :=
  ⟨some (offsetSign f.offset,ofNat f.offset.natAbs),some (ofNat f.periods),widthDigits f.left,
    widthDigits f.right⟩

/-- The written form of the marked numbers after the offset's sign. -/
def suffixText (f : Formula) : Text :=
  ofNat f.offset.natAbs ++ '=' :: (ofNat f.periods ++ widthText '左' f.left ++
    widthText '右' f.right)

theorem text_eq (f : Formula) : f.text = '[' :: f.rule.letter :: (f.resultType.token ++
    ']' :: (f.expression ++ offsetSign f.offset :: f.suffixText)) := by
  simp [text,suffixText,ofIntSigned_eq]

theorem widthText_eq (mark : Char) {w : ℤ} (h : 0 ≤ w) :
    widthText mark w = [] ∧ widthDigits w = none ∨
      widthText mark w = mark :: ofNat w.toNat ∧ widthDigits w = some (ofNat w.toNat) := by
  unfold widthText widthDigits
  split
  · exact .inl ⟨rfl,rfl⟩
  · exact .inr ⟨by rw [ofInt_of_nonneg h],rfl⟩

theorem head?_widthText (mark : Char) (w : ℤ) : ∀ c ∈ (widthText mark w).head?, c = mark := by
  unfold widthText
  split <;> simp

theorem optional_width {d : Char} {w : ℤ} (h : 0 ≤ w) {t : Text} (hr : EndsDigits t)
    (hm : ∀ c ∈ t.head?, c ≠ d) :
    optional (· = d) (widthText d w ++ t) = ((widthDigits w).map (d,·),t) := by
  rcases widthText_eq d h with ⟨ht,hd⟩ | ⟨ht,hd⟩
  · rw [ht,hd,List.nil_append,optional_none (by simpa using hm)]
    rfl
  · rw [ht,hd,List.cons_append,optional_number (by simp) _ hr]
    rfl

theorem readSuffix?_suffixText {f : Formula} (h : f.Widths) :
    readSuffix? (offsetSign f.offset :: f.suffixText) = some f.suffix := by
  have hsign : (fun c => c = '+' || c = '-') (offsetSign f.offset) = true := by
    unfold offsetSign
    split <;> rfl
  have hequals : ∀ rest, EndsDigits ('=' :: rest) := by
    intro rest c hc
    obtain rfl : '=' = c := by simpa using hc
    decide
  have hright : EndsDigits (widthText '右' f.right) := by
    intro c hc
    rw [head?_widthText _ _ c hc]
    decide
  have hleft : EndsDigits (widthText '左' f.left ++ widthText '右' f.right) := by
    intro c hc
    rcases widthText_eq '左' h.left_nonneg with ⟨ht,-⟩ | ⟨ht,-⟩
    · rw [ht] at hc
      exact hright c hc
    · obtain rfl : '左' = c := by simpa [ht] using hc
      decide
  have hmark : ∀ c ∈ (widthText '右' f.right).head?, c ≠ '左' := by
    intro c hc
    rw [head?_widthText _ _ c hc]
    decide
  have hfirst : optional (fun c => c = '+' || c = '-') (offsetSign f.offset :: f.suffixText) = _ :=
    optional_number hsign _ (hequals _)
  have hsecond : optional (· = '=') ('=' :: (ofNat f.periods ++ widthText '左' f.left ++
      widthText '右' f.right)) =
        (some ('=',ofNat f.periods),widthText '左' f.left ++ widthText '右' f.right) := by
    rw [List.append_assoc]
    exact optional_number (by simp) _ hleft
  have hthird := optional_width h.left_nonneg hright hmark
  have hfourth := optional_width (d := '右') h.right_nonneg (t := []) (by simp [EndsDigits])
    (by simp)
  rw [List.append_nil] at hfourth
  simp only [readSuffix?,hfirst,hsecond,hthird,hfourth,List.isEmpty_nil,if_true,suffix,
    Option.map_some]
  cases widthDigits f.left <;> cases widthDigits f.right <;> rfl

theorem signedNumber_eq (sign : Char) (ds : Text) : signedNumber (some (sign,ds)) =
    (readDigits ds).map fun n : ℕ => if sign = '-' then -(n : ℤ) else n := by
  rw [signedNumber]
  cases readDigits ds <;> rfl

theorem numberOr_widthDigits {w : ℤ} (h : 0 ≤ w) (hlt : w.toNat < 10 ^ digitLimit) :
    numberOr 0 (widthDigits w) = .ok w.toNat := by
  unfold widthDigits
  split
  · next hw =>
    subst hw
    rfl
  · exact readDigits_ofNat hlt

/-- The numbers of a formula are read from its marked numbers. -/
theorem withNumbers_suffix {f : Formula} (h : f.Sized) :
    withNumbers f.rule f.resultType f.expression f.suffix = .ok f := by
  have hoffset : signedNumber (some (offsetSign f.offset,ofNat f.offset.natAbs)) =
      .ok f.offset := by
    rw [signedNumber_eq,readDigits_ofNat h.offset_lt]
    have hvalue : (if offsetSign f.offset = '-' then -(f.offset.natAbs : ℤ) else f.offset.natAbs) =
        f.offset := by
      unfold offsetSign
      by_cases hpos : 0 ≤ f.offset
      · rw [if_pos hpos,if_neg (by decide)]
        omega
      · rw [if_neg hpos,if_pos rfl]
        omega
    rw [Except.map,hvalue]
  have hperiods : numberOr defaultPeriods (some (ofNat f.periods)) = .ok f.periods :=
    readDigits_ofNat h.periods_lt
  have hleft := numberOr_widthDigits h.left_nonneg h.left_lt
  have hright := numberOr_widthDigits h.right_nonneg h.right_lt
  have hpos : f.periods ≠ 0 := Nat.pos_iff_ne_zero.mp h.periods_pos
  have hl := Int.toNat_of_nonneg h.left_nonneg
  have hr := Int.toNat_of_nonneg h.right_nonneg
  simp only [withNumbers,suffix,hoffset,hperiods,hleft,hright,Except.mapError,bind,Except.bind,
    hpos,if_false,pure,Except.pure,hl,hr]

/-! ## Numbers that are read -/

theorem readDigits_lt {ds : Text} {n : ℕ} (h : readDigits ds = .ok n) : n < 10 ^ digitLimit := by
  unfold readDigits at h
  split at h
  · cases h
  · next hlen =>
    cases h
    exact Nat.lt_of_lt_of_le (digitsValue_lt ds) (Nat.pow_le_pow_right (by decide) (by omega))

theorem numberOr_lt {default n : ℕ} (hd : default < 10 ^ digitLimit) {digits : Option Text}
    (h : numberOr default digits = .ok n) : n < 10 ^ digitLimit := by
  cases digits with
  | none =>
    cases h
    exact hd
  | some ds => exact readDigits_lt h

theorem signedNumber_lt {number : Option (Char × Text)} {v : ℤ} (h : signedNumber number = .ok v) :
    v.natAbs < 10 ^ digitLimit := by
  cases number with
  | none =>
    cases h
    exact Nat.pow_pos (by decide)
  | some number =>
    obtain ⟨sign,ds⟩ := number
    rw [signedNumber_eq] at h
    cases hread : readDigits ds with
    | error e => simp [hread,Except.map] at h
    | ok n =>
      have hlt := readDigits_lt hread
      simp only [hread,Except.map,Except.ok.injEq] at h
      have habs : v.natAbs = n := by
        split at h <;> omega
      rwa [habs]

/-- A formula that is read has numbers that can be written and read, and its other parts are the
given ones. -/
theorem withNumbers_eq_ok {rule : Rule} {resultType : ResultType} {expression : Text} {s : Suffix}
    {f : Formula} (h : withNumbers rule resultType expression s = .ok f) :
    f.Sized ∧ f.rule = rule ∧ f.resultType = resultType ∧ f.expression = expression := by
  have hdefault : defaultPeriods < 10 ^ digitLimit :=
    Nat.lt_of_lt_of_le (show defaultPeriods < 10 ^ 2 by decide)
      (Nat.pow_le_pow_right (by decide) (by decide))
  unfold withNumbers at h
  cases hp : numberOr defaultPeriods s.periods with
  | error e => simp [hp,Except.mapError,bind,Except.bind] at h
  | ok periods =>
    cases ho : signedNumber s.offset with
    | error e =>
      simp only [hp,ho,Except.mapError,bind,Except.bind] at h
      split at h <;> cases h
    | ok offset =>
      cases hl : numberOr 0 s.left with
      | error e =>
        simp only [hp,ho,hl,Except.mapError,bind,Except.bind] at h
        split at h <;> cases h
      | ok left =>
        cases hr : numberOr 0 s.right with
        | error e =>
          simp only [hp,ho,hl,hr,Except.mapError,bind,Except.bind] at h
          split at h <;> cases h
        | ok right =>
          simp only [hp,ho,hl,hr,Except.mapError,bind,Except.bind,pure,Except.pure] at h
          split at h
          · cases h
          · next hpos =>
            cases h
            have hzero : 0 < 10 ^ digitLimit := Nat.pow_pos (by decide)
            exact ⟨⟨Nat.pos_of_ne_zero hpos,numberOr_lt hdefault hp,signedNumber_lt ho,
              Int.natCast_nonneg left,numberOr_lt hzero hl,Int.natCast_nonneg right,
              numberOr_lt hzero hr⟩,rfl,rfl,rfl⟩

end DrawFormula.Formula
