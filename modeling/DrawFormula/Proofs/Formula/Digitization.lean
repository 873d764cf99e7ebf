import DrawFormula.Proofs.Formula.ProtectedWords

/-! # Texts that conversion keeps

What conversion has once written in digits it keeps, with two exceptions: a private-use character
that stands for a word put aside becomes that word, and a five that comes between a ping character
and the phases becomes a digit. Both make the text lighter, if a five weighs one and a private-use
character two, so that a text with one of them is never kept.
-/
namespace DrawFormula.Formula
open Text

/-! ## The phase of the fifth ping number -/

/-- The word that is written with a digit. -/
def pingFivePhase : Text := ['平','五','行']

theorem digitizePingFive_cons {c : Char} {t : Text} (h : ¬ pingFivePhase <+: c :: t) :
    digitizePingFive (c :: t) = c :: digitizePingFive t := by
  rw [digitizePingFive]
  intro rest hrest
  exact fun ht => h ⟨rest,by rw [hrest,ht]; rfl⟩

/-- Induction along the words for the phase of the fifth ping number. -/
theorem digitizePingFive_induction {motive : Text → Prop} (nil : motive [])
    (word : ∀ t, motive t → motive ('平' :: '五' :: '行' :: t))
    (char : ∀ c t, ¬ pingFivePhase <+: c :: t → motive t → motive (c :: t)) (t : Text) :
    motive t := by
  have hne : pingFivePhase ≠ [] := by decide
  induction t using replaceAll_induction hne with
  | nil => exact nil
  | hit t ih => exact word t ih
  | miss c t h ih => exact char c t h ih

theorem digitizePingFive_eq_self {t : Text} (h : ¬ pingFivePhase <:+: t) :
    digitizePingFive t = t := by
  induction t with
  | nil => rfl
  | cons c t ih =>
    rw [digitizePingFive_cons (fun hp => h hp.isInfix),
      ih (fun hi => h (hi.trans (List.suffix_cons c t).isInfix))]

theorem mem_of_mem_digitizePingFive {t : Text} {c : Char} (h : c ∈ digitizePingFive t) :
    c ∈ t ∨ c.isDigit := by
  induction t using digitizePingFive_induction with
  | nil => exact .inl h
  | word t ih =>
    simp only [digitizePingFive,List.mem_cons] at h ⊢
    rcases h with rfl | rfl | rfl | h
    · simp
    · right
      decide
    · simp
    · have ht := ih h
      tauto
  | char d t hno ih =>
    rw [digitizePingFive_cons hno,List.mem_cons] at h
    rcases h with rfl | h
    · simp
    · have ht := ih h
      simp only [List.mem_cons]
      tauto

/-! ## Loads -/

/-- What a character weighs: a private-use character can become a five, a five a digit. -/
def load (c : Char) : ℕ :=
  if 0xe000 ≤ c.toNat ∧ c.toNat < 0xe009 then 2 else if c = '五' then 1 else 0

theorem load_of_isDigit {c : Char} (h : c.isDigit) : load c = 0 := by
  have hc := toNat_of_isDigit h
  rw [load,if_neg (by omega),if_neg]
  rintro rfl
  exact absurd h (by decide)

theorem load_placeholder {k : ℕ} (h : k < 9) : load (placeholder k) = 2 := by
  have hn := placeholder_toNat h
  exact if_pos (by omega)

theorem weight_load_word {w : Text} (h : w ∈ protectedWords) : weight load w ≤ 1 := by
  have table : ∀ w ∈ protectedWords, weight load w ≤ 1 := by decide
  exact table w h

theorem weight_load_digitizePingFive_le (t : Text) :
    weight load (digitizePingFive t) ≤ weight load t := by
  induction t using digitizePingFive_induction with
  | nil => exact Nat.le_refl _
  | word t ih =>
    have hfive : load '5' = 0 := by decide
    simp only [digitizePingFive,weight_cons]
    omega
  | char c t hno ih =>
    simp only [digitizePingFive_cons hno,weight_cons]
    omega

theorem weight_load_digitizePingFive_lt {t : Text} (h : pingFivePhase <:+: t) :
    weight load (digitizePingFive t) < weight load t := by
  induction t using digitizePingFive_induction with
  | nil => simp [pingFivePhase] at h
  | word t ih =>
    have hle := weight_load_digitizePingFive_le t
    have hfive : load '5' = 0 ∧ load '五' = 1 := by decide
    simp only [digitizePingFive,weight_cons]
    omega
  | char c t hno ih =>
    have ht := ih ((List.infix_cons_iff.mp h).resolve_left hno)
    simp only [digitizePingFive_cons hno,weight_cons]
    omega

theorem weight_lt_weight {v w : Char → ℕ} {t : Text} (h : ∀ c ∈ t, v c ≤ w c) {d : Char}
    (hd : d ∈ t) (hlt : v d < w d) : weight v t < weight w t := by
  induction t with
  | nil => cases hd
  | cons c t ih =>
    have hc := h c (by simp)
    have hmono := weight_mono (fun e he => h e (List.mem_cons_of_mem c he))
    simp only [weight_cons]
    rcases List.mem_cons.mp hd with rfl | hdt
    · omega
    · have ht := ih (fun e he => h e (List.mem_cons_of_mem c he)) hdt
      omega

/-- What is restored after the conversion weighs no more than what is restored without it. -/
theorem weight_load_restore_inDigits_le (aside : List Text) (t : Text) :
    weight load (restore aside (inDigits t)) ≤ weight load (restore aside t) := by
  rw [restore,restore,weight_flatMap,weight_flatMap]
  apply weight_inDigits_le
  intro c hc
  have hb := toNat_of_isDigit hc
  simp [restoreChar_of_lt aside (show c.toNat < 0xe000 by omega),load_of_isDigit hc]

section Restored
variable {aside : List Text} (hw : aside.Sublist protectedWords)
include hw

theorem restoreChar_word_or_self (c : Char) :
    restoreChar aside c ∈ protectedWords ∨ restoreChar aside c = [c] := by
  have hlen : aside.length ≤ 9 := hw.length_le
  by_cases h : ∃ k < aside.length, placeholder k = c
  · obtain ⟨k,hk,rfl⟩ := h
    rw [restoreChar_placeholder (by omega) (List.getElem?_eq_getElem hk)]
    exact .inl (hw.subset (List.getElem_mem hk))
  · simp only [not_exists,not_and] at h
    exact .inr (restoreChar_of_ne hlen h)

theorem weight_load_restoreChar (c : Char) :
    weight load (restoreChar aside c) ≤ load c ∧
      ∀ k < aside.length, c = placeholder k → weight load (restoreChar aside c) < load c := by
  have hlen : aside.length ≤ 9 := hw.length_le
  have hplace : ∀ k < aside.length, weight load (restoreChar aside (placeholder k)) < 2 := by
    intro k hk
    rw [restoreChar_placeholder (by omega) (List.getElem?_eq_getElem hk)]
    have hone := weight_load_word (hw.subset (List.getElem_mem hk))
    omega
  by_cases h : ∃ k < aside.length, placeholder k = c
  · obtain ⟨k,hk,rfl⟩ := h
    have hlt := hplace k hk
    rw [load_placeholder (by omega)]
    exact ⟨by omega,fun _ _ _ => hlt⟩
  · simp only [not_exists,not_and] at h
    rw [restoreChar_of_ne hlen h]
    exact ⟨by simp,fun k hk hc => absurd hc.symm (h k hk)⟩

theorem weight_load_restore_le (t : Text) : weight load (restore aside t) ≤ weight load t := by
  rw [restore,weight_flatMap]
  exact weight_mono fun c _ => (weight_load_restoreChar hw c).1

theorem weight_load_restore_lt {k : ℕ} (hk : k < aside.length) {t : Text}
    (h : placeholder k ∈ t) : weight load (restore aside t) < weight load t := by
  rw [restore,weight_flatMap]
  exact weight_lt_weight (fun c _ => (weight_load_restoreChar hw c).1) h
    ((weight_load_restoreChar hw _).2 k hk rfl)

end Restored

/-! ## Conversion -/

/-- A text without private-use characters for words put aside and without the phase of the fifth
ping number in a numeral. -/
structure Steady (t : Text) : Prop where
  placeholders : ∀ k < (putAllAside t).2.length, placeholder k ∉ t
  pingFive : ¬ pingFivePhase <:+: t

theorem steady_of_lt {t : Text} (h : ∀ c ∈ t, c.toNat < 0xe000) (hp : ¬ pingFivePhase <:+: t) :
    Steady t := by
  refine ⟨fun k hk hmem => ?_,hp⟩
  have hlen := length_putAllAside_le t
  have hn := placeholder_toNat (show k < 9 by omega)
  have hlt := h _ hmem
  omega

theorem digitize_eq (t : Text) : digitize t = restore (putAllAside (digitizePingFive t)).2
    (inDigits (putAllAside (digitizePingFive t)).1) := by
  simp only [digitize,inDigits]

/-- The result of a conversion has no numeral left but the five of the five phases. -/
theorem digitized_digitize (t : Text) : Digitized (digitize t) := by
  have hw := putAllAside_snd (digitizePingFive t)
  rw [digitize_eq]
  generalize putAllAside (digitizePingFive t) = state at hw
  apply digitized_flatMap
  intro c hc
  rcases restoreChar_word_or_self hw c with hword | hkeep
  · exact digitized_word hword
  · rw [hkeep]
    exact digitized_of_forall (by simpa using isNumeral_of_mem_inDigits hc)

theorem digitize_eq_self {t : Text} (h : Digitized t) (hs : Steady t) : digitize t = t := by
  rw [digitize_eq,digitizePingFive_eq_self hs.pingFive,
    inDigits_eq_self (fun c hc => isNumeral_of_mem_putAllAside h hc),restore_putAllAside]
  apply restore_eq_self
  intro c hc
  apply restoreChar_of_ne (length_putAllAside_le t)
  rintro k hk rfl
  exact hs.placeholders k hk hc

theorem weight_load_digitize_le (t : Text) : weight load (digitize t) ≤ weight load t := by
  generalize hu : digitizePingFive t = u
  have hw := putAllAside_snd u
  calc weight load (digitize t)
      = weight load (restore (putAllAside u).2 (inDigits (putAllAside u).1)) := by
        rw [digitize_eq,hu]
    _ ≤ weight load (restore (putAllAside u).2 (putAllAside u).1) :=
        weight_load_restore_inDigits_le _ _
    _ = weight load (restore (putAllAside u).2 u) := by rw [restore_putAllAside]
    _ ≤ weight load u := weight_load_restore_le hw u
    _ ≤ weight load t := hu ▸ weight_load_digitizePingFive_le t

/-- A text that is not steady loses weight. -/
theorem weight_load_digitize_lt {t : Text} (h : ¬ Steady t) :
    weight load (digitize t) < weight load t := by
  generalize hu : digitizePingFive t = u
  have hw := putAllAside_snd u
  have hle : weight load (digitize t) ≤ weight load (restore (putAllAside u).2 u) := by
    rw [digitize_eq,hu,← restore_putAllAside]
    exact weight_load_restore_inDigits_le _ _
  have hrestore := weight_load_restore_le hw u
  by_cases hfive : pingFivePhase <:+: t
  · have hlt := weight_load_digitizePingFive_lt hfive
    rw [hu] at hlt
    omega
  · obtain rfl : t = u := by rw [← hu,digitizePingFive_eq_self hfive]
    obtain ⟨k,hk,hmem⟩ : ∃ k < (putAllAside t).2.length, placeholder k ∈ t := by
      by_contra hno
      simp only [not_exists,not_and] at hno
      exact h ⟨hno,hfive⟩
    have hlt := weight_load_restore_lt hw hk hmem
    omega

/-- A character of the result was there before, is a digit or belongs to a protected word. -/
theorem mem_of_mem_digitize {t : Text} {c : Char} (h : c ∈ digitize t) :
    c ∈ t ∨ c.isDigit ∨ ∃ w ∈ protectedWords, c ∈ w := by
  rw [digitize_eq] at h
  generalize hu : digitizePingFive t = u at h
  have hrestored : ∀ s, c ∈ restore (putAllAside u).2 s →
      c ∈ s ∧ restoreChar (putAllAside u).2 c = [c] ∨ ∃ w ∈ protectedWords, c ∈ w := by
    intro s hs
    obtain ⟨d,hd,hc⟩ := mem_restore_iff.mp hs
    rcases restoreChar_word_or_self (putAllAside_snd u) d with hword | hkeep
    · exact .inr ⟨_,hword,hc⟩
    · rw [hkeep,List.mem_singleton] at hc
      subst hc
      exact .inl ⟨hd,hkeep⟩
  rcases hrestored _ h with ⟨hc,hkeep⟩ | hword
  · rcases mem_of_mem_inDigits hc with hbody | hdigit
    · have hback : c ∈ restore (putAllAside u).2 (putAllAside u).1 :=
        mem_restore_iff.mpr ⟨c,hbody,by simp [hkeep]⟩
      rw [restore_putAllAside] at hback
      rcases hrestored u hback with ⟨hcu,-⟩ | hword
      · rw [← hu] at hcu
        rcases mem_of_mem_digitizePingFive hcu with ht | hdigit
        · exact .inl ht
        · exact .inr (.inl hdigit)
      · exact .inr (.inr hword)
    · exact .inr (.inl hdigit)
  · exact .inr (.inr hword)

end DrawFormula.Formula
