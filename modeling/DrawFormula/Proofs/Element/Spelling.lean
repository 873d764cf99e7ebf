import DrawFormula.Element.Spelling
import Mathlib.Data.List.Basic
import Mathlib.Data.List.Find

/-! # The longest spelling

The reader of names finds the longest spelling that a text begins with, and a text spells at most
one element. Characters that occur in no spelling keep names apart: what follows such a character
never changes how the text before it is read.
-/
namespace DrawFormula.Element

/-! ## The table -/

/-- A number by which the table is taken apart. -/
def tablePart (t : Text) : ℕ := t.foldr (fun c n => c.toNat + n) 0 % 16

/-- Every entry of the table is the one that its text finds. -/
theorem ofSpelling?_of_mem {p : Text × Element} (h : p ∈ spellings) :
    ofSpelling? p.1 = some p.2 := by
  -- a text is compared only with those in its part of the table
  have table : ∀ n < 16, ∀ p ∈ spellings.filter fun s => tablePart s.1 = n,
      (spellings.filter fun s => tablePart s.1 = n).find? (fun s => s.1 = p.1) = some p := by
    decide +kernel
  have hfound := table (tablePart p.1) (Nat.mod_lt _ (by decide)) p (by simpa using h)
  have hpart : (fun s : Text × Element =>
      decide (decide (tablePart s.1 = tablePart p.1) = true ∧ decide (s.1 = p.1) = true)) =
        fun s => decide (s.1 = p.1) := by
    funext s
    simp +contextual
  rw [List.find?_filter,hpart] at hfound
  rw [ofSpelling?,hfound]
  rfl

theorem spelling_unique {p q : Text × Element} (hp : p ∈ spellings) (hq : q ∈ spellings)
    (h : p.1 = q.1) : p = q := by
  have he := ofSpelling?_of_mem hp
  rw [h,ofSpelling?_of_mem hq] at he
  exact Prod.ext h (Option.some.inj he).symm

/-- A spelling has one to four characters. These are ideographs and place digits, and not digits
alone. -/
theorem spelling_table : ∀ p ∈ spellings, (1 ≤ p.1.length ∧ p.1.length ≤ 4) ∧
    (∀ c ∈ p.1, 0x4e00 ≤ c.toNat ∧ c.toNat ≤ 0x9fff ∨ 0x31 ≤ c.toNat ∧ c.toNat ≤ 0x36) ∧
      ∃ c ∈ p.1, 0x4e00 ≤ c.toNat := by decide +kernel

theorem spelling_length {p : Text × Element} (h : p ∈ spellings) :
    1 ≤ p.1.length ∧ p.1.length ≤ 4 := (spelling_table p h).1

theorem spelling_ne_nil {p : Text × Element} (h : p ∈ spellings) : p.1 ≠ [] := by
  intro hn
  have hl := spelling_length h
  simp [hn] at hl

theorem mem_longestFirst_iff {p : Text × Element} : p ∈ longestFirst ↔ p ∈ spellings := by
  simp only [longestFirst,spellingsOfLength,List.mem_append,List.mem_filter,decide_eq_true_eq]
  constructor
  · rintro (((h | h) | h) | h) <;> exact h.1
  · intro h
    have hl := spelling_length h
    simp only [h,true_and]
    omega

theorem longestFirst_pairwise : longestFirst.Pairwise fun p q => q.1.length ≤ p.1.length := by
  have : IsTrans (Text × Element) fun p q => q.1.length ≤ p.1.length :=
    ⟨fun _ _ _ hpq hqr => hqr.trans hpq⟩
  rw [← List.isChain_iff_pairwise]
  decide +kernel

theorem mem_all_append_calendar (e : Element) : e ∈ all ++ calendar := by
  have hreading : ∀ r : Reading, r ∈ Reading.all := by intro r; cases r <;> decide
  have hattribute : ∀ a : Attribute, a ∈ Attribute.all := by intro a; cases a <;> decide
  cases e <;> simp [all,calendar,hreading,hattribute]

theorem mem_spellings_of_canonical {p : Text × Element} (h : p ∈ canonicalSpellings) :
    p ∈ spellings := List.mem_append_left _ (List.mem_append_left _ h)

/-- Every element has its canonical name in the table. -/
theorem name_mem_canonicalSpellings (e : Element) : (e.name,e) ∈ canonicalSpellings :=
  List.mem_map_of_mem (mem_all_append_calendar e)

theorem name_mem_spellings {p : Text × Element} (_ : p ∈ spellings) :
    (p.2.name,p.2) ∈ spellings := mem_spellings_of_canonical (name_mem_canonicalSpellings p.2)

theorem mem_spellings_of_mem_all {e : Element} (_ : e ∈ Element.all) : (e.name,e) ∈ spellings :=
  mem_spellings_of_canonical (name_mem_canonicalSpellings e)

/-! ## The first match is the longest one -/

theorem longestFirst_find? {t : Text} {p : Text × Element}
    (h : longestFirst.find? (fun s => s.1.isPrefixOf t) = some p) :
    p ∈ spellings ∧ p.1 <+: t ∧ ∀ q ∈ spellings, q.1 <+: t → q.1.length ≤ p.1.length := by
  obtain ⟨hp,pre,post,hsplit,hpre⟩ := List.find?_eq_some_iff_append.mp h
  have hmem : ∀ q, q ∈ spellings ↔ q ∈ pre ∨ q = p ∨ q ∈ post := by
    intro q
    rw [← mem_longestFirst_iff,hsplit,List.mem_append,List.mem_cons]
  refine ⟨(hmem p).mpr (.inr (.inl rfl)),by simpa using hp,?_⟩
  intro q hq hqt
  rcases (hmem q).mp hq with hq | rfl | hq
  · have hno := hpre q hq
    simp [List.isPrefixOf_iff_prefix.mpr hqt] at hno
  · exact le_rfl
  · have hsorted := longestFirst_pairwise
    rw [hsplit,List.pairwise_append,List.pairwise_cons] at hsorted
    exact hsorted.2.1.1 q hq

theorem leading?_eq_some_iff {before : Option Char} {t : Text} {p : Text × Element} :
    leading? before t = some p ↔ continuesNumeral before t = false ∧ p ∈ spellings ∧ p.1 <+: t ∧
      ∀ q ∈ spellings, q.1 <+: t → q.1.length ≤ p.1.length := by
  cases hc : continuesNumeral before t with
  | true => simp [leading?,hc]
  | false =>
    simp only [leading?,hc,Bool.false_eq_true,↓reduceIte,true_and]
    refine ⟨longestFirst_find?,?_⟩
    rintro ⟨hp,hpt,hmax⟩
    cases hf : longestFirst.find? (fun s => s.1.isPrefixOf t) with
    | none =>
      have hnone := List.find?_eq_none.mp hf p (mem_longestFirst_iff.mpr hp)
      simp [hpt] at hnone
    | some q =>
      obtain ⟨hq,hqt,hqmax⟩ := longestFirst_find? hf
      have hlen : q.1.length = p.1.length := (hmax q hq hqt).antisymm (hqmax p hp hpt)
      have hqp : q.1 <+: p.1 := List.prefix_of_prefix_length_le hqt hpt hlen.le
      rw [spelling_unique hq hp (hqp.eq_of_length hlen)]

theorem leading?_eq_none_iff {before : Option Char} {t : Text} :
    leading? before t = none ↔ continuesNumeral before t = true ∨
      ∀ p ∈ spellings, ¬ p.1 <+: t := by
  cases hc : continuesNumeral before t with
  | true => simp [leading?,hc]
  | false =>
    simp only [leading?,hc,Bool.false_eq_true,↓reduceIte,List.find?_eq_none,false_or]
    simp [mem_longestFirst_iff]

/-! ## Characters that keep names apart -/

/-- A character that occurs in no spelling and is no digit sign. -/
def Apart (c : Char) : Prop := (∀ p ∈ spellings, c ∉ p.1) ∧ Text.isDigitSign c = false

/-- A text that is empty or begins with a character that keeps names apart. -/
def OpensApart (t : Text) : Prop := ∀ c ∈ t.head?, Apart c

@[simp] theorem opensApart_nil : OpensApart [] := by simp [OpensApart]

theorem opensApart_cons {c : Char} (h : Apart c) (t : Text) : OpensApart (c :: t) := by
  simpa [OpensApart] using h

theorem mem_spelling {p : Text × Element} (h : p ∈ spellings) {c : Char} (hc : c ∈ p.1) :
    0x4e00 ≤ c.toNat ∧ c.toNat ≤ 0x9fff ∨ 0x31 ≤ c.toNat ∧ c.toNat ≤ 0x36 :=
  (spelling_table p h).2.1 c hc

theorem apart_of_toNat {c : Char} (hn : c.toNat < 0x31 ∨ 0x36 < c.toNat ∧ c.toNat < 0x4e00)
    (hd : Text.isDigitSign c = false) : Apart c := by
  refine ⟨fun p hp hc => ?_,hd⟩
  have hrange := mem_spelling hp hc
  omega

theorem exists_ideograph_mem {p : Text × Element} (h : p ∈ spellings) :
    ∃ c ∈ p.1, 0x4e00 ≤ c.toNat := (spelling_table p h).2.2

theorem prefix_append_iff_of_opensApart {p : Text × Element} (hp : p ∈ spellings) {t rest : Text}
    (hr : OpensApart rest) : p.1 <+: t ++ rest ↔ p.1 <+: t := by
  refine ⟨fun h => ?_,fun h => h.trans (List.prefix_append t rest)⟩
  rcases List.prefix_or_prefix_of_prefix h (List.prefix_append t rest) with ht | ⟨more,ht⟩
  · exact ht
  · rw [← ht,List.prefix_append_right_inj] at h
    cases more with
    | nil => simp [← ht]
    | cons c more =>
      obtain ⟨u,rfl⟩ := h
      have hc : c ∈ p.1 := by simp [← ht]
      exact absurd hc ((hr c (by simp)).1 p hp)

/-- Whether and how a text begins with a name does not depend on what is kept apart from it. -/
theorem leading?_append {before : Option Char} {t rest : Text} (hr : OpensApart rest) :
    leading? before (t ++ rest) = leading? before t := by
  have hc : continuesNumeral before (t ++ rest) = continuesNumeral before t := by
    cases t with
    | cons c t => rfl
    | nil =>
      cases rest with
      | nil => rfl
      | cons c rest => simp [continuesNumeral,(hr c (by simp)).2]
  have hf : longestFirst.find? (fun s => s.1.isPrefixOf (t ++ rest)) =
      longestFirst.find? (fun s => s.1.isPrefixOf t) := by
    apply List.find?_congr
    intro p hp
    apply Bool.eq_iff_iff.mpr
    simpa using prefix_append_iff_of_opensApart (mem_longestFirst_iff.mp hp) hr
  simp only [leading?,hc,hf]

/-- A spelling that ends the text or is kept apart from its rest is read as a whole. -/
theorem leading?_spelling {before : Option Char} {p : Text × Element} (hp : p ∈ spellings)
    (hb : continuesNumeral before p.1 = false) : leading? before p.1 = some p := by
  rw [leading?_eq_some_iff]
  exact ⟨hb,hp,List.prefix_rfl,fun q _ h => h.length_le⟩

end DrawFormula.Element
