import DrawFormula.Proofs.Expression.CanonicalNames
import DrawFormula.Proofs.Expression.Pieces
import DrawFormula.Proofs.Formula.Digitization

/-! # What respelling keeps

Respelling a text replaces stretches between the marks of its blocks by the same stretches with
canonical names. Canonical names hold no numerals and no private-use characters, so that respelling
adds no weight and leaves a text without numerals one.
-/
namespace DrawFormula.Expression
open Element Formula

/-! ## Stretches between marks -/

/-- A text and the same text with canonical names in some of the stretches between its marks. -/
inductive Respelled : Text → Text → Prop
  | nil : Respelled [] []
  | mark (c : Char) {s t : Text} : c ∈ blockMarks → Respelled s t → Respelled (c :: s) (c :: t)
  | stretch (a a' : Text) {s t : Text} : a' = a ∨ a' = canonical a →
      (∀ c ∈ s.head?, c ∈ blockMarks) → Respelled s t → Respelled (a ++ s) (a' ++ t)

theorem respelled_respell (t : Text) : Respelled t (respell t) := by
  induction t using brace_induction with
  | nil => exact .nil
  | block b rest hb ih =>
    rw [respell_block hb]
    have hhead : ∀ c ∈ blockMarks, ∀ s : Text, ∀ d ∈ (c :: s).head?, d ∈ blockMarks := by
      intro c hc s d hd
      obtain rfl : c = d := by simpa using hd
      exact hc
    have hno := Respelled.stretch b.no _ (.inr rfl) (hhead '}' (by decide) rest)
      (.mark '}' (by decide) ih)
    have hyes := Respelled.stretch b.yes _ (.inr rfl) (hhead ':' (by decide) _)
      (.mark ':' (by decide) hno)
    have hcond := Respelled.stretch b.condition _ (.inl rfl) (hhead '?' (by decide) _)
      (.mark '?' (by decide) hyes)
    simpa [Block.text] using Respelled.mark '{' (by decide) hcond
  | brace rest h ih =>
    rw [respell_cons (apart_of_mem_blockMarks (by decide)) h]
    exact .mark '{' (by decide) ih
  | plain a rest ha hrest ih =>
    rw [respell_append ha (opensApart_of_brace hrest)]
    refine .stretch a _ (.inr rfl) (fun c hc => ?_) ih
    rcases hrest with rfl | hrest
    · cases hc
    · rw [hrest] at hc
      obtain rfl := Option.some.inj hc
      decide

/-! ## Characters -/

theorem mem_respell {t : Text} {c : Char} (h : c ∈ respell t) :
    c ∈ t ∨ ∃ p ∈ spellings, c ∈ p.1 := by
  have hrel := respelled_respell t
  generalize respell t = u at hrel h
  induction hrel with
  | nil => exact .inl h
  | mark d hd _ ih =>
    rcases List.mem_cons.mp h with rfl | h
    · exact .inl (by simp)
    · exact (ih h).imp_left (List.mem_cons_of_mem d)
  | stretch a a' ha hs _ ih =>
    rcases List.mem_append.mp h with h | h
    · rcases ha with rfl | rfl
      · exact .inl (List.mem_append_left _ h)
      · exact (mem_canonicalFrom h).imp_left (List.mem_append_left _)
    · exact (ih h).imp_left (List.mem_append_right a)

/-! ## Loads -/

theorem weight_load_name {p : Text × Element} (hp : p ∈ spellings) :
    weight load p.2.name = 0 := by
  have table : ∀ p ∈ spellings, weight load p.2.name = 0 := by decide +kernel
  exact table p hp

theorem weight_load_canonicalFrom_le (before : Option Char) (t : Text) :
    weight load (canonicalFrom before t) ≤ weight load t := by
  induction before, t using Lexeme.scan_induction with
  | nil before => exact Nat.le_refl _
  | name before p rest hp ih =>
    have hname := weight_load_name (leading?_eq_some_iff.mp hp).2.1
    rw [canonicalFrom_name hp,weight_append,weight_append]
    omega
  | char before c rest hc ih =>
    rw [canonicalFrom_char hc,weight_cons,weight_cons]
    omega

theorem weight_load_respell_le (t : Text) : weight load (respell t) ≤ weight load t := by
  have hrel := respelled_respell t
  generalize respell t = u at hrel
  induction hrel with
  | nil => exact Nat.le_refl _
  | mark d hd _ ih =>
    rw [weight_cons,weight_cons]
    omega
  | stretch a a' ha hs _ ih =>
    rw [weight_append,weight_append]
    have hle : weight load a' ≤ weight load a := by
      rcases ha with rfl | rfl
      · exact Nat.le_refl _
      · exact weight_load_canonicalFrom_le none a
    omega

/-! ## Numerals -/

theorem digitized_name {p : Text × Element} (hp : p ∈ spellings) : Digitized p.2.name := by
  have table : ∀ p ∈ spellings, Digitized p.2.name := by decide +kernel
  exact table p hp

/-- No name begins with the character after the five of the five phases. -/
theorem head?_canonicalFrom_phase {before : Option Char} {t : Text} (h : t.head? = some '行') :
    (canonicalFrom before t).head? = some '行' := by
  obtain ⟨c,t,rfl⟩ := List.exists_cons_of_ne_nil (show t ≠ [] by rintro rfl; simp at h)
  obtain rfl : c = '行' := by simpa using h
  have table : ∀ p ∈ spellings, p.1.head? ≠ some '行' := by decide +kernel
  have hl : leading? before ('行' :: t) = none := by
    rw [leading?_eq_none_iff]
    right
    rintro p hp ⟨u,hu⟩
    obtain ⟨d,s,hs⟩ := List.exists_cons_of_ne_nil (spelling_ne_nil hp)
    rw [hs] at hu
    exact table p hp (by rw [hs,(List.cons.inj hu).1]; rfl)
  rw [canonicalFrom_char hl]
  rfl

theorem digitized_canonicalFrom {t : Text} (h : Digitized t) (before : Option Char) :
    Digitized (canonicalFrom before t) := by
  induction before, t using Lexeme.scan_induction with
  | nil before => exact h
  | name before p rest hp ih =>
    rw [canonicalFrom_name hp]
    exact (digitized_name (leading?_eq_some_iff.mp hp).2.1).append (ih h.right)
  | char before c rest hc ih =>
    rw [canonicalFrom_char hc]
    obtain ⟨hfive,hrest⟩ := digitized_cons_iff.mp h
    exact .cons (fun hn => ⟨(hfive hn).1,head?_canonicalFrom_phase (hfive hn).2⟩) (ih hrest)

/-- Respelling leaves no five without its phases. -/
theorem digitized_respell {t : Text} (h : Digitized t) : Digitized (respell t) := by
  have hrel := respelled_respell t
  generalize respell t = u at hrel
  induction hrel with
  | nil => exact h
  | mark d hd _ ih =>
    refine .cons (fun hn => ?_) (ih (digitized_cons_iff.mp h).2)
    have table : ∀ d ∈ blockMarks, isNumeral d = false := by decide
    rw [table d hd] at hn
    cases hn
  | @stretch a a' s t ha hs _ ih =>
    have hphase : s.head? ≠ some '行' := by
      intro he
      exact absurd (hs '行' he) (by decide)
    have hleft : Digitized a := h.left hphase
    refine Digitized.append ?_ (ih h.right)
    rcases ha with rfl | rfl
    · exact hleft
    · exact digitized_canonicalFrom hleft none

/-! ## Parts that are settled -/

/-- The parts of a piece in which names are read. -/
def Piece.parts : Piece → List Text
  | plain t => [t]
  | block b => [b.yes,b.no]

/-- Every part of a text in which names are read is settled. -/
def PartsSettled (t : Text) : Prop := ∀ piece ∈ Piece.ofText t, ∀ w ∈ piece.parts, NamesSettled w

/-- A respelled text is kept by respelling just if its parts are settled. -/
theorem respell_respell_iff (t : Text) :
    respell (respell t) = respell t ↔ PartsSettled (respell t) := by
  have hpieces := ofText_respell t
  have hpiece : ∀ piece ∈ Piece.ofText t, piece.canonical.canonical = piece.canonical ↔
      ∀ w ∈ piece.canonical.parts, NamesSettled w := by
    intro piece _
    cases piece with
    | plain a => simp [Piece.canonical,Piece.parts,canonical_canonical_iff]
    | block b => simp [Piece.canonical,Piece.parts,canonical_canonical_iff]
  constructor
  · intro h piece hp
    have hkept := ofText_respell (respell t)
    rw [h,hpieces,List.map_map] at hkept
    rw [hpieces] at hp
    obtain ⟨original,ho,rfl⟩ := List.mem_map.mp hp
    exact (hpiece original ho).mp (List.map_inj_left.mp hkept original ho).symm
  · intro h
    rw [respell_eq,hpieces,List.map_map]
    have hkept : (Piece.ofText t).map (Piece.canonical ∘ Piece.canonical) =
        (Piece.ofText t).map Piece.canonical := by
      apply List.map_congr_left
      intro piece hp
      apply (hpiece piece hp).mpr
      exact h _ (by rw [hpieces]; exact List.mem_map_of_mem hp)
    rw [hkept,← respell_eq]

/-! ## Normal forms -/

theorem digitized_normalize (t : Text) : Digitized (normalize t) :=
  digitized_respell (digitized_digitize _)

/-- Normal forms hold neither blanks nor full-width characters. -/
theorem compact_of_mem_normalize {t : Text} {c : Char} (h : c ∈ normalize t) :
    Text.Compact c := by
  rw [normalize_eq] at h
  rcases mem_respell h with h | ⟨p,hp,hc⟩
  · rcases mem_of_mem_digitize h with h | hd | ⟨w,hw,hc⟩
    · apply Text.compact_of_mem_squeeze h
      intro d hd
      obtain ⟨d',-,rfl⟩ := List.mem_map.mp hd
      exact Text.halfwidthChar_halfwidthChar d'
    · have hb := Text.toNat_of_isDigit hd
      exact Text.compact_of_toNat (by omega)
    · have hb := mem_word hw hc
      exact Text.compact_of_toNat (by omega)
  · have hb := mem_spelling hp hc
    exact Text.compact_of_toNat (by omega)

theorem normalize_of_compact {t : Text} (h : ∀ c ∈ t, Text.Compact c) :
    normalize t = respell (digitize t) := by
  rw [normalize_eq,Text.halfwidth_eq_self h,Text.squeeze_eq_self h]

theorem weight_load_normalize_le {t : Text} (h : ∀ c ∈ t, Text.Compact c) :
    weight load (normalize t) ≤ weight load (digitize t) := by
  rw [normalize_of_compact h]
  exact weight_load_respell_le _

/-- A normal form is kept by normalising just if conversion and respelling keep it. -/
theorem normalize_normalize_iff (t : Text) : normalize (normalize t) = normalize t ↔
    Steady (normalize t) ∧ PartsSettled (normalize t) := by
  have hcompact : ∀ c ∈ normalize t, Text.Compact c := fun c hc => compact_of_mem_normalize hc
  have hparts := respell_respell_iff (digitize (Text.squeeze (Text.halfwidth t)))
  rw [← normalize_eq] at hparts
  constructor
  · intro h
    have hsteady : Steady (normalize t) := by
      by_contra hno
      have hlt := weight_load_digitize_lt hno
      have hle := weight_load_normalize_le hcompact
      rw [h] at hle
      omega
    rw [normalize_of_compact hcompact,digitize_eq_self (digitized_normalize t) hsteady] at h
    exact ⟨hsteady,hparts.mp h⟩
  · rintro ⟨hsteady,h⟩
    rw [normalize_of_compact hcompact,digitize_eq_self (digitized_normalize t) hsteady]
    exact hparts.mpr h

end DrawFormula.Expression
