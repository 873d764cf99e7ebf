import DrawFormula.Proofs.Formula.Numerals
import DrawFormula.Proofs.Text.Compact
import DrawFormula.Proofs.Text.Replacement

/-! # Protected words

The words that are put aside while numerals are converted come back where they stood. A text in
which the only numeral left is the five of the five phases stays as it is, unless it holds a
private-use character that stands for a word put aside, or the phase of the fifth ping number.
-/
namespace DrawFormula.Formula
open Text

/-! ## The words -/

theorem word_ne_nil {w : Text} (h : w ∈ protectedWords) : w ≠ [] := by
  have table : ∀ w ∈ protectedWords, w ≠ [] := by decide
  exact table w h

theorem word_head? {w : Text} (h : w ∈ protectedWords) : w.head? ≠ some '行' := by
  have table : ∀ w ∈ protectedWords, w.head? ≠ some '行' := by decide
  exact table w h

/-- Protected words consist of ideographs. -/
theorem mem_word {w : Text} (h : w ∈ protectedWords) {c : Char} (hc : c ∈ w) :
    0x4e00 ≤ c.toNat ∧ c.toNat ≤ 0x9fff := by
  have table : ∀ w ∈ protectedWords, ∀ c ∈ w, 0x4e00 ≤ c.toNat ∧ c.toNat ≤ 0x9fff := by decide
  exact table w h c hc

theorem placeholder_toNat {k : ℕ} (h : k < 9) : (placeholder k).toNat = 0xe000 + k :=
  toNat_ofNat (.inr (by omega))

theorem isNumeral_placeholder {k : ℕ} (h : k < 9) : isNumeral (placeholder k) = false := by
  have hn := placeholder_toNat h
  by_contra hnum
  have hb := isNumeral_bounds (by simpa using hnum)
  omega

/-! ## Putting back -/

theorem restoreChar_of_lt (aside : List Text) {c : Char} (h : c.toNat < 0xe000) :
    restoreChar aside c = [c] := if_neg (by omega)

theorem restoreChar_placeholder {aside : List Text} {k : ℕ} (hk : k < 9) {w : Text}
    (h : aside[k]? = some w) : restoreChar aside (placeholder k) = w := by
  have hn := placeholder_toNat hk
  rw [restoreChar,if_pos (by omega),hn,Nat.add_sub_cancel_left,List.getD_eq_getElem?_getD,h]
  rfl

/-- A character that stands for no word put aside is kept. -/
theorem restoreChar_of_ne {aside : List Text} (hlen : aside.length ≤ 9) {c : Char}
    (h : ∀ k < aside.length, placeholder k ≠ c) : restoreChar aside c = [c] := by
  unfold restoreChar
  split
  · next hc =>
    by_cases hk : c.toNat - 0xe000 < aside.length
    · refine absurd (Char.toNat_inj.mp ?_) (h _ hk)
      rw [placeholder_toNat (by omega)]
      omega
    · rw [List.getD_eq_getElem?_getD,List.getElem?_eq_none (by omega)]
      rfl
  · rfl

theorem restore_append (aside : List Text) (s t : Text) :
    restore aside (s ++ t) = restore aside s ++ restore aside t := List.flatMap_append

theorem restore_cons (aside : List Text) (c : Char) (t : Text) :
    restore aside (c :: t) = restoreChar aside c ++ restore aside t := List.flatMap_cons

theorem mem_restore_iff {aside : List Text} {c : Char} {t : Text} :
    c ∈ restore aside t ↔ ∃ d ∈ t, c ∈ restoreChar aside d := List.mem_flatMap

theorem restore_eq_self {aside : List Text} {t : Text}
    (h : ∀ c ∈ t, restoreChar aside c = [c]) : restore aside t = t := by
  induction t with
  | nil => rfl
  | cons c t ih =>
    rw [restore_cons,h c (by simp),ih (fun d hd => h d (by simp [hd]))]
    rfl

theorem restore_word (aside : List Text) {w : Text} (h : w ∈ protectedWords) :
    restore aside w = w := by
  apply restore_eq_self
  intro c hc
  have hb := mem_word h hc
  exact restoreChar_of_lt aside (by omega)

/-- A word put aside comes back. -/
theorem restore_replaceAll {aside : List Text} {k : ℕ} (hk : k < 9) {w : Text}
    (hw : w ∈ protectedWords) (h : aside[k]? = some w) (t : Text) :
    restore aside (replaceAll w [placeholder k] t) = restore aside t := by
  induction t using replaceAll_induction (word_ne_nil hw) with
  | nil => rfl
  | hit t ih =>
    rw [replaceAll_hit (word_ne_nil hw),List.singleton_append,restore_cons,
      restoreChar_placeholder hk h,ih,restore_append,restore_word aside hw]
  | miss c t hmiss ih => rw [replaceAll_miss hmiss,restore_cons,restore_cons,ih]

/-! ## One word after the other -/

theorem putAside_fst (state : Text × List Text) (w : Text) :
    (putAside state w).1 = replaceAll w [placeholder state.2.length] state.1 := by
  unfold putAside
  split
  · rfl
  · next h => rw [replaceAll_eq_self (fun hi => h (contains_iff.mpr hi))]

theorem putAside_snd (state : Text × List Text) (w : Text) :
    (putAside state w).2 = state.2 ∧ ¬ w <:+: state.1 ∨ (putAside state w).2 = state.2 ++ [w] := by
  unfold putAside
  split
  · right
    rfl
  · next h =>
    left
    exact ⟨rfl,fun hi => h (contains_iff.mpr hi)⟩

theorem length_putAside_le (state : Text × List Text) (w : Text) :
    (putAside state w).2.length ≤ state.2.length + 1 := by
  rcases putAside_snd state w with ⟨h,-⟩ | h <;> simp [h]

/-- The words put aside so far stay where they are, others come behind them. -/
theorem foldl_putAside_snd (words : List Text) (state : Text × List Text) :
    ∃ more, (words.foldl putAside state).2 = state.2 ++ more ∧ more.Sublist words := by
  induction words generalizing state with
  | nil => exact ⟨[],by simp,List.Sublist.refl _⟩
  | cons w words ih =>
    obtain ⟨more,hmore,hsub⟩ := ih (putAside state w)
    rcases putAside_snd state w with ⟨hs,-⟩ | hs
    · exact ⟨more,by rw [List.foldl_cons,hmore,hs],hsub.cons w⟩
    · exact ⟨w :: more,by rw [List.foldl_cons,hmore,hs,List.append_assoc]; rfl,hsub.cons_cons w⟩

/-- Whatever is put aside, putting all of it back gives what putting back gave before. -/
theorem restore_foldl_putAside {words : List Text} (hw : ∀ w ∈ words, w ∈ protectedWords)
    (state : Text × List Text) (hlen : state.2.length + words.length ≤ 9) :
    restore (words.foldl putAside state).2 (words.foldl putAside state).1 =
      restore (words.foldl putAside state).2 state.1 := by
  induction words generalizing state with
  | nil => rfl
  | cons w words ih =>
    rw [List.length_cons] at hlen
    have hstep := length_putAside_le state w
    rw [List.foldl_cons,ih (fun v hv => hw v (by simp [hv])) _ (by omega),putAside_fst]
    rcases putAside_snd state w with ⟨-,hno⟩ | hs
    · rw [replaceAll_eq_self hno]
    · obtain ⟨more,hmore,-⟩ := foldl_putAside_snd words (putAside state w)
      apply restore_replaceAll (by omega) (hw w (by simp))
      rw [hmore,hs]
      simp

/-- The words put aside are protected words, each at most once. -/
theorem putAllAside_snd (t : Text) : (putAllAside t).2.Sublist protectedWords := by
  obtain ⟨more,hmore,hsub⟩ := foldl_putAside_snd protectedWords (t,[])
  rw [putAllAside,hmore]
  exact hsub

theorem length_putAllAside_le (t : Text) : (putAllAside t).2.length ≤ 9 :=
  (putAllAside_snd t).length_le

theorem restore_putAllAside (t : Text) :
    restore (putAllAside t).2 (putAllAside t).1 = restore (putAllAside t).2 t :=
  restore_foldl_putAside (fun _ h => h) (t,[]) (Nat.le_refl 9)

/-! ## Text without numerals but the five phases -/

/-- Every numeral character is the five of the five phases. -/
inductive Digitized : Text → Prop
  | nil : Digitized []
  | cons {c : Char} {t : Text} : (isNumeral c = true → c = '五' ∧ t.head? = some '行') →
      Digitized t → Digitized (c :: t)

theorem digitized_cons_iff {c : Char} {t : Text} : Digitized (c :: t) ↔
    (isNumeral c = true → c = '五' ∧ t.head? = some '行') ∧ Digitized t := by
  constructor
  · rintro (_ | ⟨hc,ht⟩)
    exact ⟨hc,ht⟩
  · rintro ⟨hc,ht⟩
    exact .cons hc ht

instance decidableDigitized : (t : Text) → Decidable (Digitized t)
  | [] => isTrue .nil
  | _ :: t => @decidable_of_iff _ _ digitized_cons_iff.symm
      (@instDecidableAnd _ _ inferInstance (decidableDigitized t))

theorem digitized_of_forall {t : Text} (h : ∀ c ∈ t, isNumeral c = false) : Digitized t := by
  induction t with
  | nil => exact .nil
  | cons c t ih =>
    refine .cons (fun hc => ?_) (ih (fun d hd => h d (by simp [hd])))
    rw [h c (by simp)] at hc
    cases hc

theorem Digitized.append {s t : Text} (hs : Digitized s) (ht : Digitized t) :
    Digitized (s ++ t) := by
  induction s with
  | nil => exact ht
  | cons c s ih =>
    obtain ⟨hfive,hs⟩ := digitized_cons_iff.mp hs
    refine .cons (fun hc => ⟨(hfive hc).1,?_⟩) (ih hs)
    have hhead := (hfive hc).2
    cases s with
    | nil => simp at hhead
    | cons d s => exact hhead

theorem Digitized.right {s t : Text} (h : Digitized (s ++ t)) : Digitized t := by
  induction s with
  | nil => exact h
  | cons c s ih => exact ih (digitized_cons_iff.mp h).2

/-- The first part of a text that is cut, but not within the five phases. -/
theorem Digitized.left {s t : Text} (h : Digitized (s ++ t)) (ht : t.head? ≠ some '行') :
    Digitized s := by
  induction s with
  | nil => exact .nil
  | cons c s ih =>
    obtain ⟨hfive,hs⟩ := digitized_cons_iff.mp h
    refine .cons (fun hc => ⟨(hfive hc).1,?_⟩) (ih hs)
    have hhead := (hfive hc).2
    cases s with
    | nil => exact absurd hhead ht
    | cons d s => exact hhead

theorem digitized_flatMap {f : Char → Text} {t : Text} (h : ∀ c ∈ t, Digitized (f c)) :
    Digitized (t.flatMap f) := by
  induction t with
  | nil => exact .nil
  | cons c t ih => exact (h c (by simp)).append (ih fun d hd => h d (by simp [hd]))

theorem digitized_word {w : Text} (h : w ∈ protectedWords) : Digitized w := by
  have table : ∀ w ∈ protectedWords, Digitized w := by decide
  exact table w h

/-- Putting a word aside leaves no five without its phases. -/
theorem Digitized.replaceAll {w : Text} (hw : w ∈ protectedWords) {k : ℕ} (hk : k < 9) {t : Text}
    (h : Digitized t) : Digitized (replaceAll w [placeholder k] t) := by
  have hplace := isNumeral_placeholder hk
  induction t using replaceAll_induction (word_ne_nil hw) with
  | nil => exact .nil
  | hit t ih =>
    rw [replaceAll_hit (word_ne_nil hw)]
    exact (digitized_of_forall (by simpa using hplace)).append (ih h.right)
  | miss c t hmiss ih =>
    rw [replaceAll_miss hmiss]
    obtain ⟨hfive,ht⟩ := digitized_cons_iff.mp h
    refine .cons (fun hc => ⟨(hfive hc).1,?_⟩) (ih ht)
    have hhead := (hfive hc).2
    cases t with
    | nil => simp at hhead
    | cons d t =>
      obtain rfl : d = '行' := by simpa using hhead
      have hno : ¬ w <+: '行' :: t := by
        rintro ⟨rest,hrest⟩
        obtain ⟨d,w',rfl⟩ := List.exists_cons_of_ne_nil (word_ne_nil hw)
        simp only [List.cons_append,List.cons.injEq] at hrest
        exact word_head? hw (by simp [hrest.1])
      rw [replaceAll_miss hno]
      rfl

theorem digitized_foldl_putAside {words : List Text} (hw : ∀ w ∈ words, w ∈ protectedWords)
    (state : Text × List Text) (hlen : state.2.length + words.length ≤ 9)
    (h : Digitized state.1) : Digitized (words.foldl putAside state).1 := by
  induction words generalizing state with
  | nil => exact h
  | cons w words ih =>
    rw [List.length_cons] at hlen
    have hstep := length_putAside_le state w
    rw [List.foldl_cons]
    apply ih (fun v hv => hw v (by simp [hv])) _ (by omega)
    rw [putAside_fst]
    exact h.replaceAll (hw w (by simp)) (by omega)

/-- Once the five phases are put aside no numeral is left. -/
theorem isNumeral_of_mem_putAllAside {t : Text} (h : Digitized t) {c : Char}
    (hc : c ∈ (putAllAside t).1) : isNumeral c = false := by
  have hsplit : protectedWords = protectedWords.dropLast ++ [['五','行']] := rfl
  rw [putAllAside,hsplit,List.foldl_append,List.foldl_cons,List.foldl_nil,putAside_fst] at hc
  have hwords : ∀ w ∈ protectedWords.dropLast, w ∈ protectedWords :=
    fun w hw => List.dropLast_subset _ hw
  have hs := digitized_foldl_putAside hwords (t,[]) (Nat.le_succ 8) h
  obtain ⟨more,hmore,hsub⟩ := foldl_putAside_snd protectedWords.dropLast (t,[])
  have hk : (protectedWords.dropLast.foldl putAside (t,[])).2.length < 9 := by
    rw [hmore]
    exact Nat.lt_of_le_of_lt hsub.length_le (by decide)
  generalize protectedWords.dropLast.foldl putAside (t,[]) = state at hc hs hk
  generalize state.1 = s at hc hs
  have hne : ['五','行'] ≠ [] := by simp
  induction s using replaceAll_induction hne with
  | nil => cases hc
  | hit s ih =>
    rw [replaceAll_hit (by simp),List.singleton_append,List.mem_cons] at hc
    rcases hc with rfl | hc
    · exact isNumeral_placeholder hk
    · exact ih hc hs.right
  | miss d s hmiss ih =>
    rw [replaceAll_miss hmiss,List.mem_cons] at hc
    obtain ⟨hfive,hs⟩ := digitized_cons_iff.mp hs
    rcases hc with rfl | hc
    · by_contra hnum
      obtain ⟨rfl,hhead⟩ := hfive (by simpa using hnum)
      apply hmiss
      cases s with
      | nil => simp at hhead
      | cons d s =>
        obtain rfl : d = '行' := by simpa using hhead
        exact ⟨s,rfl⟩
    · exact ih hc hs

end DrawFormula.Formula
