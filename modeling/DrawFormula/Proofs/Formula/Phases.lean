import DrawFormula.Proofs.Formula.Outline

/-! # The numerals that conversion leaves

A text without private-use characters for words put aside is converted once and for all. The only
numerals left are the fives of the five phases without a ping character before them, and there are as
many of these as the text had.
-/
namespace DrawFormula.Formula
open Text

/-- The word for the five phases. -/
def fivePhases : Text := ['五','行']

/-- At how many places of a text a part begins. -/
def occurrences (part : Text) : Text → ℕ
  | [] => 0
  | c :: t => (if part <+: c :: t then 1 else 0) + occurrences part t

/-! ## The five phases after a ping character -/

theorem head?_digitizePingFive (t : Text) : (digitizePingFive t).head? = t.head? := by
  induction t using digitizePingFive_induction with
  | nil => rfl
  | word t ih => rfl
  | char c t hno ih => rw [digitizePingFive_cons hno]; rfl

theorem fivePhases_prefix_cons_iff {c : Char} {t : Text} :
    fivePhases <+: c :: t ↔ c = '五' ∧ t.head? = some '行' := by
  rw [fivePhases,List.cons_prefix_cons]
  cases t with
  | nil => simp
  | cons d t => simp [List.cons_prefix_cons,eq_comm]

theorem occurrences_fivePhases_cons (c : Char) (t : Text) : occurrences fivePhases (c :: t) =
    (if c = '五' ∧ t.head? = some '行' then 1 else 0) + occurrences fivePhases t := by
  simp only [occurrences,fivePhases_prefix_cons_iff]

theorem pingFivePhase_prefix_cons_iff {c : Char} {t : Text} :
    pingFivePhase <+: c :: t ↔ c = '平' ∧ fivePhases <+: t := by
  rw [pingFivePhase,List.cons_prefix_cons,eq_comm]
  rfl

theorem fivePhases_prefix_digitizePingFive_iff (t : Text) :
    fivePhases <+: digitizePingFive t ↔ fivePhases <+: t := by
  cases t with
  | nil => rfl
  | cons c t =>
    by_cases hping : pingFivePhase <+: c :: t
    · obtain ⟨rest,hrest⟩ := hping
      rw [← hrest]
      simp [pingFivePhase,fivePhases,digitizePingFive,List.cons_prefix_cons]
    · rw [digitizePingFive_cons hping,fivePhases_prefix_cons_iff,fivePhases_prefix_cons_iff,
        head?_digitizePingFive]

theorem not_pingFivePhase_digitizePingFive (t : Text) :
    ¬ pingFivePhase <:+: digitizePingFive t := by
  induction t using digitizePingFive_induction with
  | nil => decide
  | word t ih =>
    rw [digitizePingFive]
    simp [List.infix_cons_iff,ih,pingFivePhase_prefix_cons_iff,fivePhases,List.cons_prefix_cons]
  | char c t hno ih =>
    rw [digitizePingFive_cons hno,List.infix_cons_iff,pingFivePhase_prefix_cons_iff,
      fivePhases_prefix_digitizePingFive_iff,← pingFivePhase_prefix_cons_iff]
    exact fun h => h.elim hno ih

/-! ## Words that are put back -/

section Restored
variable {aside : List Text} (hw : aside.Sublist protectedWords) {s : Text}
include hw

theorem restoreChar_cases (c : Char) :
    (∃ k < 9, ∃ w ∈ protectedWords, aside[k]? = some w ∧ c = placeholder k) ∨
      restoreChar aside c = [c] := by
  have hlen : aside.length ≤ 9 := hw.length_le
  by_cases h : ∃ k < aside.length, placeholder k = c
  · obtain ⟨k,hk,rfl⟩ := h
    exact .inl ⟨k,by omega,_,hw.subset (List.getElem_mem hk),List.getElem?_eq_getElem hk,rfl⟩
  · simp only [not_exists,not_and] at h
    exact .inr (restoreChar_of_ne hlen h)

/-- If a text without numerals is put back and holds the phase of the fifth ping number, a ping
character stands before a word that begins with the five phases. -/
theorem exists_place_of_pingFivePhase (hs : ∀ c ∈ s, isNumeral c = false)
    (h : pingFivePhase <:+: restore aside s) :
    ∃ k < 9, ∃ w, aside[k]? = some w ∧ fivePhases <+: w ∧ ['平',placeholder k] <:+: s := by
  have words : ∀ w ∈ protectedWords, '平' ∉ w ∧ (w.head? = some '五' → fivePhases <+: w) := by
    simp only [← List.isPrefixOf_iff_prefix]
    decide
  induction s with
  | nil => exact absurd (List.infix_nil.mp h) (by decide)
  | cons c s ih =>
    rw [List.forall_mem_cons] at hs
    rw [restore_cons] at h
    rcases infix_append_cases h with h | ⟨s₁,s₂,hsplit,hne,hpre⟩
    · obtain ⟨k,hk,w,hget,hphases,hin⟩ := ih hs.2 h
      exact ⟨k,hk,w,hget,hphases,hin.trans (List.suffix_cons c s).isInfix⟩
    · obtain ⟨d,s₂,rfl⟩ := List.exists_cons_of_ne_nil hne
      rw [List.cons_append] at hpre
      obtain ⟨rfl,hphases⟩ := pingFivePhase_prefix_cons_iff.mp hpre
      rcases restoreChar_cases hw c with ⟨k,hk,w,hmem,hget,rfl⟩ | hself
      · rw [restoreChar_placeholder hk hget] at hsplit
        exact absurd (by simp [hsplit]) (words w hmem).1
      · -- the ping character stands for itself, and the phases begin behind it
        rw [hself] at hsplit
        obtain ⟨rfl,rfl,rfl⟩ : s₁ = [] ∧ c = '平' ∧ s₂ = [] := by
          cases s₁ <;> simp_all
        cases s with
        | nil => exact absurd (List.prefix_nil.mp hphases) (by decide)
        | cons d s =>
          rw [List.nil_append,restore_cons] at hphases
          rcases restoreChar_cases hw d with ⟨k,hk,w,hmem,hget,rfl⟩ | hself
          · rw [restoreChar_placeholder hk hget] at hphases
            obtain ⟨e,w,rfl⟩ := List.exists_cons_of_ne_nil (word_ne_nil hmem)
            obtain ⟨rfl,-⟩ := fivePhases_prefix_cons_iff.mp hphases
            exact ⟨k,hk,_,hget,(words _ hmem).2 rfl,⟨[],s,rfl⟩⟩
          · rw [hself] at hphases
            obtain ⟨rfl,-⟩ := fivePhases_prefix_cons_iff.mp hphases
            exact absurd (hs.2 '五' List.mem_cons_self) (by decide)

end Restored

theorem pingFivePhase_infix_restore {aside : List Text} {k : ℕ} (hk : k < 9) {w s : Text}
    (hget : aside[k]? = some w) (hphases : fivePhases <+: w) (h : ['平',placeholder k] <:+: s) :
    pingFivePhase <:+: restore aside s := by
  obtain ⟨s₁,s₂,rfl⟩ := h
  obtain ⟨w,rfl⟩ := hphases
  have hping : restoreChar aside '平' = ['平'] := restoreChar_of_lt aside (by decide)
  rw [restore_append,restore_append,restore_cons,restore_cons,hping,restoreChar_placeholder hk hget]
  exact ⟨restore aside s₁,w ++ restore aside s₂,by simp [pingFivePhase,fivePhases,restore]⟩

/-! ## Texts without private-use characters -/

/-- A text without the private-use characters that stand for words put aside. -/
def Plain (t : Text) : Prop := ∀ c ∈ t, c.toNat < 0xe000 ∨ 0xe008 < c.toNat

instance (t : Text) : Decidable (Plain t) :=
  inferInstanceAs (Decidable (∀ c ∈ t, c.toNat < 0xe000 ∨ 0xe008 < c.toNat))

namespace Plain
variable {t : Text} (h : Plain t)
include h

theorem digitizePingFive : Plain (digitizePingFive t) := by
  intro c hc
  rcases mem_of_mem_digitizePingFive hc with ht | hd
  · exact h c ht
  · have hb := toNat_of_isDigit hd
    omega

theorem digitize : Plain (digitize t) := by
  intro c hc
  rcases mem_of_mem_digitize hc with ht | hd | ⟨w,hw,hcw⟩
  · exact h c ht
  · have hb := toNat_of_isDigit hd
    omega
  · have hb := mem_word hw hcw
    omega

theorem placeholder_not_mem {k : ℕ} (hk : k < 9) : placeholder k ∉ t := by
  intro hmem
  have hn := placeholder_toNat hk
  have hb := h _ hmem
  omega

theorem restore_eq_self {aside : List Text} (hlen : aside.length ≤ 9) : restore aside t = t :=
  Formula.restore_eq_self fun _ hc =>
    restoreChar_of_ne hlen fun _ hk he => h.placeholder_not_mem (by omega) (he ▸ hc)

theorem restore_putAllAside : restore (putAllAside t).2 (putAllAside t).1 = t := by
  rw [Formula.restore_putAllAside,h.restore_eq_self (length_putAllAside_le t)]

/-- No ping character comes to stand before the five phases. -/
theorem not_pingFivePhase_digitize : ¬ pingFivePhase <:+: Formula.digitize t := by
  intro hin
  have hu := h.digitizePingFive
  have hback := hu.restore_putAllAside
  have hw := putAllAside_snd (Formula.digitizePingFive t)
  rw [digitize_eq] at hin
  obtain ⟨k,hk,w,hget,hphases,hpair⟩ :=
    exists_place_of_pingFivePhase hw (fun _ => isNumeral_of_mem_inDigits) hin
  have hother : ∀ c ∈ ['平',placeholder k], inNumber c = false := by
    have hplace := isNumeral_placeholder hk
    have hn := placeholder_toNat hk
    have hdigit : (placeholder k).isDigit = false := by
      by_contra hd
      have hb := toNat_of_isDigit (by simpa using hd : (placeholder k).isDigit = true)
      omega
    simp [inNumber,hplace,hdigit,show isNumeral '平' = false by decide,
      show ('平').isDigit = false by decide]
  rw [← infix_outline_iff hother,outline_inDigits,infix_outline_iff hother] at hpair
  have hping := pingFivePhase_infix_restore hk hget hphases hpair
  rw [hback] at hping
  exact not_pingFivePhase_digitizePingFive t hping

theorem steady_digitize : Steady (Formula.digitize t) := by
  refine ⟨fun k hk => ?_,h.not_pingFivePhase_digitize⟩
  have hlen := length_putAllAside_le (Formula.digitize t)
  exact h.digitize.placeholder_not_mem (by omega)

end Plain

/-! ## Fives that stand alone -/

/-- How many fives have no phases behind them. -/
def loneFives : Text → ℕ
  | [] => 0
  | c :: t => (if c = '五' ∧ t.head? ≠ some '行' then 1 else 0) + loneFives t

theorem count_five (t : Text) : t.count '五' = loneFives t + occurrences fivePhases t := by
  induction t with
  | nil => rfl
  | cons c t ih =>
    rw [List.count_cons,ih,loneFives,occurrences_fivePhases_cons]
    by_cases hc : c = '五' <;> by_cases ht : t.head? = some '行' <;> simp [hc,ht] <;> omega

theorem loneFives_append {w : Text} (h : w.getLast? ≠ some '五') (t : Text) :
    loneFives (w ++ t) = loneFives w + loneFives t := by
  induction w with
  | nil => simp [loneFives]
  | cons c w ih =>
    cases w with
    | nil =>
      have hc : c ≠ '五' := by simpa using h
      simp [loneFives,hc]
    | cons d w =>
      have hd := ih (by simpa [List.getLast?_cons] using h)
      calc loneFives (c :: (d :: w ++ t))
          = (if c = '五' ∧ (d :: w).head? ≠ some '行' then 1 else 0) + loneFives (d :: w ++ t) := rfl
        _ = (if c = '五' ∧ (d :: w).head? ≠ some '行' then 1 else 0) +
            (loneFives (d :: w) + loneFives t) := by rw [hd]
        _ = loneFives (c :: d :: w) + loneFives t := (Nat.add_assoc _ _ _).symm

/-- No word ends in a five, and behind every five in a word are the phases. -/
theorem loneFives_word_append {w : Text} (h : w ∈ protectedWords) (t : Text) :
    loneFives (w ++ t) = loneFives t := by
  have table : ∀ w ∈ protectedWords, w.getLast? ≠ some '五' ∧ loneFives w = 0 := by decide
  obtain ⟨hlast,hzero⟩ := table w h
  rw [loneFives_append hlast,hzero,Nat.zero_add]

section PutAside
variable {w : Text} (hw : w ∈ protectedWords) {k : ℕ} (hk : k < 9)
include hw hk

theorem head?_replaceAll_phase (t : Text) :
    (replaceAll w [placeholder k] t).head? = some '行' ↔ t.head? = some '行' := by
  have hne := word_ne_nil hw
  have hplace : placeholder k ≠ '行' := by
    intro he
    have hn := placeholder_toNat hk
    rw [he] at hn
    exact absurd hn (by simp only [show ('行').toNat = 0x884c by rfl]; omega)
  induction t using replaceAll_induction hne with
  | nil => rfl
  | hit t ih =>
    rw [replaceAll_hit hne,List.head?_append_of_ne_nil _ hne]
    simp [hplace,word_head? hw]
  | miss c t hmiss ih => rw [replaceAll_miss hmiss]; rfl

theorem loneFives_replaceAll (t : Text) :
    loneFives (replaceAll w [placeholder k] t) = loneFives t := by
  have hne := word_ne_nil hw
  have hplace : placeholder k ≠ '五' := by
    rintro he
    have hnumeral := isNumeral_placeholder hk
    rw [he] at hnumeral
    exact absurd hnumeral (by decide)
  induction t using replaceAll_induction hne with
  | nil => rfl
  | hit t ih =>
    rw [replaceAll_hit hne,loneFives_word_append hw,List.singleton_append,loneFives,ih]
    simp [hplace]
  | miss c t hmiss ih =>
    rw [replaceAll_miss hmiss,loneFives,loneFives,ih]
    simp only [ne_eq,head?_replaceAll_phase hw hk]

end PutAside

theorem occurrences_replaceAll_fivePhases {k : ℕ} (hk : k < 9) (t : Text) :
    occurrences fivePhases (replaceAll fivePhases [placeholder k] t) = 0 := by
  have hmem : fivePhases ∈ protectedWords := by decide
  have hne := word_ne_nil hmem
  have hplace : placeholder k ≠ '五' := by
    rintro he
    have hnumeral := isNumeral_placeholder hk
    rw [he] at hnumeral
    exact absurd hnumeral (by decide)
  induction t using replaceAll_induction hne with
  | nil => rfl
  | hit t ih =>
    rw [replaceAll_hit hne,List.singleton_append,occurrences_fivePhases_cons,ih]
    simp [hplace]
  | miss c t hmiss ih =>
    rw [fivePhases_prefix_cons_iff,← head?_replaceAll_phase hmem hk] at hmiss
    rw [replaceAll_miss,occurrences_fivePhases_cons,ih,if_neg hmiss]
    rwa [fivePhases_prefix_cons_iff,← head?_replaceAll_phase hmem hk]

theorem loneFives_foldl_putAside {words : List Text} (hw : ∀ w ∈ words, w ∈ protectedWords)
    (state : Text × List Text) (hlen : state.2.length + words.length ≤ 9) :
    loneFives (words.foldl putAside state).1 = loneFives state.1 := by
  induction words generalizing state with
  | nil => rfl
  | cons w words ih =>
    rw [List.length_cons] at hlen
    have hstep := length_putAside_le state w
    rw [List.foldl_cons,ih (fun v hv => hw v (by simp [hv])) _ (by omega),putAside_fst]
    exact loneFives_replaceAll (hw w (by simp)) (by omega) state.1

/-- Once all words are put aside the fives that are left stood alone. -/
theorem count_five_putAllAside (t : Text) : (putAllAside t).1.count '五' = loneFives t := by
  have hlone : loneFives (putAllAside t).1 = loneFives t :=
    loneFives_foldl_putAside (fun _ h => h) (t,[]) (Nat.le_refl 9)
  have hnone : occurrences fivePhases (putAllAside t).1 = 0 := by
    have hsplit : protectedWords = protectedWords.dropLast ++ [fivePhases] := rfl
    obtain ⟨more,hmore,hsub⟩ := foldl_putAside_snd protectedWords.dropLast (t,[])
    rw [putAllAside,hsplit,List.foldl_append,List.foldl_cons,List.foldl_nil,putAside_fst]
    apply occurrences_replaceAll_fivePhases
    rw [hmore]
    exact Nat.lt_of_le_of_lt hsub.length_le (by decide)
  rw [count_five,hlone,hnone,Nat.add_zero]

/-! ## Fives that are left -/

theorem filter_outline (t : Text) :
    (outline t).filterMap id = t.filter fun c => !inNumber c := by
  induction t with
  | nil => rfl
  | cons c t ih =>
    cases hc : inNumber c with
    | true =>
      rw [outline_cons_number hc,openGap,List.filter_cons_of_neg (by simp [hc]),← ih]
      split <;> rfl
    | false =>
      have hkept : id (some c) = some c := rfl
      rw [outline_cons_other hc,List.filterMap_cons_some hkept,
        List.filter_cons_of_pos (by simp [hc]),ih]

theorem restoreChar_of_inNumber (aside : List Text) {c : Char} (h : inNumber c = true) :
    restoreChar aside c = [c] := by
  apply restoreChar_of_lt
  rcases (Bool.or_eq_true _ _).mp h with hn | hd
  · exact (isNumeral_bounds hn).2
  · have hb := toNat_of_isDigit hd
    omega

theorem count_five_restore (aside : List Text) (t : Text) : (restore aside t).count '五' =
    weight (fun c => (restoreChar aside c).count '五') (t.filter fun c => !inNumber c) +
      t.count '五' := by
  induction t with
  | nil => rfl
  | cons c t ih =>
    rw [restore_cons,List.count_append,ih,List.count_cons]
    cases hc : inNumber c with
    | true =>
      rw [restoreChar_of_inNumber aside hc,List.filter_cons_of_neg (by simp [hc]),List.count_singleton]
      omega
    | false =>
      have hne : (c == '五') = false := by
        rw [beq_eq_false_iff_ne]
        rintro rfl
        exact absurd hc (by decide)
      rw [List.filter_cons_of_pos (by simp [hc]),weight_cons,hne]
      simp only [Bool.false_eq_true,if_false]
      omega

/-- Conversion leaves as many fives as there are five phases without a ping character before. -/
theorem Plain.count_five_digitize {t : Text} (h : Plain t) :
    (Formula.digitize t).count '五' = occurrences fivePhases (Formula.digitizePingFive t) := by
  have hback := h.digitizePingFive.restore_putAllAside
  have hnone : (inDigits (putAllAside (Formula.digitizePingFive t)).1).count '五' = 0 := by
    rw [List.count_eq_zero]
    intro hmem
    exact absurd (isNumeral_of_mem_inDigits hmem) (by decide)
  have hbefore := count_five_restore (putAllAside (Formula.digitizePingFive t)).2
    (putAllAside (Formula.digitizePingFive t)).1
  have hafter := count_five_restore (putAllAside (Formula.digitizePingFive t)).2
    (inDigits (putAllAside (Formula.digitizePingFive t)).1)
  rw [← filter_outline,outline_inDigits,filter_outline,hnone,← digitize_eq] at hafter
  rw [hback,count_five_putAllAside,count_five] at hbefore
  omega

theorem occurrences_digitizePingFive (t : Text) :
    occurrences fivePhases (digitizePingFive t) + occurrences pingFivePhase t =
      occurrences fivePhases t := by
  induction t using digitizePingFive_induction with
  | nil => rfl
  | word t ih =>
    simp [digitizePingFive,occurrences,fivePhases_prefix_cons_iff,pingFivePhase_prefix_cons_iff]
    omega
  | char c t hno ih =>
    rw [digitizePingFive_cons hno,occurrences_fivePhases_cons,occurrences_fivePhases_cons,
      occurrences,if_neg hno,head?_digitizePingFive]
    omega

/-! ## Conversion -/

theorem outline_restore_congr (aside : List Text) {s t : Text} (h : outline s = outline t) :
    outline (restore aside s) = outline (restore aside t) := by
  have hnumber : ∀ c, inNumber c = true →
      restoreChar aside c ≠ [] ∧ ∀ d ∈ restoreChar aside c, inNumber d = true := by
    intro c hc
    rw [restoreChar_of_inNumber aside hc]
    simpa using hc
  rw [restore,restore,outline_flatMap hnumber,outline_flatMap hnumber,h]

theorem Plain.outline_digitize {t : Text} (h : Plain t) :
    outline (Formula.digitize t) = outline t := by
  have hback := h.digitizePingFive.restore_putAllAside
  rw [digitize_eq,outline_restore_congr _ (outline_inDigits _),hback,outline_digitizePingFive]

/-- A text without private-use characters is converted once and for all. The only numerals left are
the fives of the five phases without a ping character before them, as many as the text had, and
nothing but the numbers has changed. -/
theorem digitize_leaves_phases (t : Text) (h : Plain t) :
    digitize (digitize t) = digitize t ∧
      (∀ s c rest, digitize t = s ++ c :: rest → isNumeral c = true →
        c = '五' ∧ rest.head? = some '行' ∧ s.getLast? ≠ some '平') ∧
      (digitize t).count '五' + occurrences pingFivePhase t = occurrences fivePhases t ∧
      outline (digitize t) = outline t := by
  refine ⟨digitize_eq_self (digitized_digitize t) h.steady_digitize,?_,?_,h.outline_digitize⟩
  · intro s c rest hsplit hc
    have hdigitized := digitized_digitize t
    rw [hsplit] at hdigitized
    obtain ⟨rfl,hphases⟩ := (digitized_cons_iff.mp hdigitized.right).1 hc
    refine ⟨rfl,hphases,fun hping => h.not_pingFivePhase_digitize ?_⟩
    obtain ⟨before,rfl⟩ := List.getLast?_eq_some_iff.mp hping
    obtain ⟨after,rfl⟩ := List.head?_eq_some_iff.mp hphases
    exact ⟨before,after,by simp [hsplit,pingFivePhase]⟩
  · rw [h.count_five_digitize,occurrences_digitizePingFive]

theorem digitize_leaves_phases_twice :
    let t : Text := "平五行二十三五行五行类十五".toList
    Plain t ∧ digitize t = "平5行23五行五行类15".toList ∧
      digitize (digitize t) = digitize t ∧ (digitize t).count '五' = 2 := by
  intro t
  have hplain : Plain t := by decide +kernel
  have hall := digitize_leaves_phases t hplain
  have hcount : occurrences pingFivePhase t = 1 ∧ occurrences fivePhases t = 3 := by decide +kernel
  exact ⟨hplain,by decide +kernel,hall.1,by omega⟩

end DrawFormula.Formula
