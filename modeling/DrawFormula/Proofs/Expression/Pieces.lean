import DrawFormula.Proofs.Expression.Block
import DrawFormula.Proofs.Expression.Lexeme
import DrawFormula.Proofs.Text.Replacement

/-! # Canonical names piece by piece

The names of a text are replaced in its plain parts and in both outcomes of its blocks. The marks of
blocks keep names apart, so the new text is cut into the same blocks as the old one, each of them
with canonical names.
-/
namespace DrawFormula.Expression
open Element

/-! ## Marks of blocks -/

/-- The characters that mark a block. -/
def blockMarks : Text := ['{','}','?',':']

theorem apart_of_mem_blockMarks {c : Char} (h : c ∈ blockMarks) : Apart c := by
  simp only [blockMarks,List.mem_cons,List.not_mem_nil,or_false] at h
  rcases h with rfl | rfl | rfl | rfl <;> exact apart_of_toNat (by decide) (by decide)

theorem not_mem_canonical {t : Text} {c : Char} (hc : Apart c) (h : c ∉ t) : c ∉ canonical t := by
  intro hmem
  rcases mem_canonicalFrom hmem with ht | ⟨p,hp,hcp⟩
  · exact h ht
  · exact hc.1 p hp hcp

theorem inField_canonical {stop : Char} (hs : stop ∈ blockMarks) {f : Text}
    (h : ∀ c ∈ f, Block.inField stop c = true) :
    ∀ c ∈ canonical f, Block.inField stop c = true := by
  have hout : ∀ m ∈ blockMarks, m = '{' ∨ m = '}' ∨ m = stop → m ∉ canonical f := by
    intro m hm hbad
    apply not_mem_canonical (apart_of_mem_blockMarks hm)
    intro hmem
    have hin := h m hmem
    simp only [Block.inField,Bool.and_eq_true,decide_eq_true_eq] at hin
    tauto
  intro c hc
  simp only [Block.inField,Bool.and_eq_true,decide_eq_true_eq]
  refine ⟨⟨?_,?_⟩,?_⟩
  · rintro rfl
    exact hout '{' (by decide) (by simp) hc
  · rintro rfl
    exact hout '}' (by decide) (by simp) hc
  · rintro rfl
    exact hout c hs (by simp) hc

/-! ## Blocks with canonical names -/

namespace Block

/-- A field of the text with canonical names is a field with canonical names. -/
theorem field?_canonical {stop : Char} (hs : stop ∈ blockMarks) (t : Text) :
    field? stop (canonical t) =
      (field? stop t).map fun found => (canonical found.1,canonical found.2) := by
  generalize hf : t.takeWhile (inField stop) = f
  have hcat := List.takeWhile_append_dropWhile (p := inField stop) (l := t)
  have hall : ∀ c ∈ t.takeWhile (inField stop), inField stop c = true :=
    List.all_eq_true.mp List.all_takeWhile
  rw [hf] at hcat hall
  have hcanon := inField_canonical hs hall
  cases hd : t.dropWhile (inField stop) with
  | nil =>
    rw [hd,List.append_nil] at hcat
    rw [← hcat]
    have hdrop : (canonical f).dropWhile (inField stop) = [] := by
      rw [List.dropWhile_eq_nil_iff]
      exact hcanon
    have hdrop' : f.dropWhile (inField stop) = [] := by
      rw [List.dropWhile_eq_nil_iff]
      exact hall
    simp [field?,hdrop,hdrop']
  | cons d rest =>
    have hdin : inField stop d = false := by
      have hhead := List.head_dropWhile_not (inField stop) (l := t) (by simp [hd])
      simpa [hd] using hhead
    have hdmark : d ∈ blockMarks := by
      simp only [inField,Bool.and_eq_false_iff,decide_eq_false_iff_not,not_not] at hdin
      rcases hdin with (rfl | rfl) | rfl
      · decide
      · decide
      · exact hs
    rw [hd] at hcat
    rw [← hcat,canonical_append (opensApart_cons (apart_of_mem_blockMarks hdmark) rest),
      canonical_cons (apart_of_mem_blockMarks hdmark)]
    by_cases hstop : d = stop
    · subst hstop
      cases f with
      | nil => simp [field?,hdin]
      | cons c f =>
        have hne : canonical (c :: f) ≠ [] := by
          rw [canonical_eq,ne_eq,canonicalFrom_eq_nil_iff]
          simp
        rw [field?_eq_some_iff.mpr ⟨⟨hne,hcanon⟩,rfl⟩,
          field?_eq_some_iff.mpr ⟨⟨by simp,hall⟩,rfl⟩]
        rfl
    · rw [field?_eq_none hcanon hdin hstop,field?_eq_none hall hdin hstop]
      rfl

/-- The block with canonical names everywhere. -/
def respelled (b : Block) : Block := ⟨canonical b.condition,canonical b.yes,canonical b.no⟩

theorem leading?_canonical (t : Text) :
    leading? ('{' :: canonical t) = (leading? ('{' :: t)).map respelled := by
  simp only [leading?]
  rw [field?_canonical (by decide)]
  cases field? '?' t with
  | none => rfl
  | some found =>
    simp only [Option.map_some,Option.bind_some]
    rw [field?_canonical (by decide)]
    cases field? ':' found.2 with
    | none => rfl
    | some found' =>
      simp only [Option.map_some,Option.bind_some]
      rw [field?_canonical (by decide)]
      cases field? '}' found'.2 <;> rfl

/-- Only the text up to the next opening brace decides about a block. -/
theorem leading?_append {t rest : Text} (h : rest = [] ∨ rest.head? = some '{') :
    leading? ('{' :: (t ++ rest)) = leading? ('{' :: t) := by
  apply Option.ext
  intro b
  rw [leading?_eq_some_iff,leading?_eq_some_iff]
  refine and_congr_right fun hb => ?_
  have hno : ∀ c ∈ b.text.tail, c ≠ '{' := by
    intro c hc
    simp only [text,List.tail_cons,List.mem_append,List.mem_cons,List.not_mem_nil,or_false] at hc
    have hfields : ∀ stop f, IsField stop f → '{' ∉ f := by
      intro stop f hf hmem
      have hin := hf.2 '{' hmem
      simp [inField] at hin
    rintro rfl
    have hcond := hfields _ _ hb.condition
    have hyes := hfields _ _ hb.yes
    have hnof := hfields _ _ hb.no
    simp [hcond,hyes,hnof] at hc
  have htext : b.text = '{' :: b.text.tail := rfl
  rw [htext,List.cons_prefix_cons,List.cons_prefix_cons]
  refine and_congr_right fun _ => ⟨fun hp => ?_,fun hp => hp.trans (List.prefix_append t rest)⟩
  rcases h with rfl | hrest
  · rwa [List.append_nil] at hp
  · obtain ⟨d,rest,rfl⟩ := List.exists_cons_of_ne_nil (show rest ≠ [] by rintro rfl; simp at hrest)
    obtain rfl : d = '{' := by simpa using hrest
    exact (Text.prefix_append_cons_iff (fun hmem => hno _ hmem rfl)).mp hp

end Block

namespace Piece

/-- The piece with canonical names outside a condition. -/
def canonical : Piece → Piece
  | plain t => plain (Expression.canonical t)
  | block b => block ⟨b.condition,Expression.canonical b.yes,Expression.canonical b.no⟩

theorem text_canonical (p : Piece) : p.canonical.text = p.normalize := by cases p <;> rfl

/-! ## Plain text before pieces -/

/-- Pieces that do not begin with plain text in the middle of a name. -/
def StartApart (ps : List Piece) : Prop := ∀ t rest, ps = plain t :: rest → OpensApart t

theorem foldr_consPlain {a : Text} (h : a ≠ []) (ps : List Piece) :
    (∃ t rest, ps = plain t :: rest ∧ a.foldr consPlain ps = plain (a ++ t) :: rest) ∨
      (∀ t rest, ps ≠ plain t :: rest) ∧ a.foldr consPlain ps = plain a :: ps := by
  induction a with
  | nil => exact absurd rfl h
  | cons c a ih =>
    cases a with
    | nil =>
      cases ps with
      | nil => exact .inr ⟨by simp,rfl⟩
      | cons p ps =>
        cases p with
        | plain t => exact .inl ⟨t,ps,rfl,rfl⟩
        | block b => exact .inr ⟨by simp,rfl⟩
    | cons d a =>
      rcases ih (by simp) with ⟨t,rest,hps,hfold⟩ | ⟨hps,hfold⟩
      · exact .inl ⟨t,rest,hps,by rw [List.foldr_cons,hfold]; rfl⟩
      · exact .inr ⟨hps,by rw [List.foldr_cons,hfold]; rfl⟩

theorem flatMap_text_foldr (a : Text) (ps : List Piece) :
    (a.foldr consPlain ps).flatMap text = a ++ ps.flatMap text := by
  induction a with
  | nil => rfl
  | cons c a ih =>
    rw [List.foldr_cons,flatMap_text_consPlain,ih]
    rfl

theorem map_canonical_foldr {a : Text} {ps : List Piece} (h : StartApart ps) :
    (a.foldr consPlain ps).map canonical =
      (Expression.canonical a).foldr consPlain (ps.map canonical) := by
  by_cases ha : a = []
  · subst ha
    rfl
  have hne : Expression.canonical a ≠ [] := by
    rwa [canonical_eq,ne_eq,canonicalFrom_eq_nil_iff]
  rcases foldr_consPlain ha ps with ⟨t,rest,rfl,hfold⟩ | ⟨hps,hfold⟩
  · rw [hfold]
    rcases foldr_consPlain hne ((plain t :: rest).map canonical) with
      ⟨t',rest',hmap,hfold'⟩ | ⟨hno,-⟩
    · obtain ⟨rfl,rfl⟩ : Expression.canonical t = t' ∧ rest.map canonical = rest' := by
        simpa [canonical] using hmap
      rw [hfold',List.map_cons,canonical,canonical_append (h t rest rfl)]
    · exact absurd rfl (hno (Expression.canonical t) (rest.map canonical))
  · rw [hfold]
    rcases foldr_consPlain hne (ps.map canonical) with ⟨t',rest',hmap,-⟩ | ⟨-,hfold'⟩
    · cases ps with
      | nil => cases hmap
      | cons p ps =>
        cases p with
        | plain t => exact absurd rfl (hps t ps)
        | block b => cases hmap
    · rw [hfold']
      rfl

theorem map_canonical_consPlain {c : Char} (h : Apart c) (ps : List Piece) :
    (consPlain c ps).map canonical = consPlain c (ps.map canonical) := by
  cases ps with
  | nil => simp [consPlain,canonical,canonical_cons h]
  | cons p ps => cases p <;> simp [consPlain,canonical,canonical_cons h]

theorem ofText_append {a : Text} (h : '{' ∉ a) (rest : Text) :
    ofText (a ++ rest) = a.foldr consPlain (ofText rest) := by
  induction a with
  | nil => rfl
  | cons c a ih =>
    rw [List.mem_cons,not_or] at h
    rw [List.cons_append,ofText_cons_of_ne (Ne.symm h.1),ih h.2]
    rfl

theorem startApart_ofText {rest : Text} (h : OpensApart rest) : StartApart (ofText rest) := by
  intro t more hps
  induction rest using ofText_induction with
  | nil => cases hps
  | block b rest hb ih =>
    rw [ofText_block hb] at hps
    cases hps
  | char c rest hc ih =>
    rw [ofText_cons hc] at hps
    have hhead : ∃ s, t = c :: s := by
      unfold consPlain at hps
      split at hps
      · exact ⟨_,by simpa [eq_comm] using (List.cons.inj hps).1⟩
      · exact ⟨[],by simpa [eq_comm] using (List.cons.inj hps).1⟩
    obtain ⟨s,rfl⟩ := hhead
    exact opensApart_cons (h c rfl) s

end Piece

/-! ## The text with canonical names -/

/-- The text with canonical names outside the conditions of its blocks. -/
def respell (t : Text) : Text := (Piece.ofText t).flatMap Piece.normalize

theorem normalize_eq (t : Text) :
    normalize t = respell (Formula.digitize (Text.squeeze (Text.halfwidth t))) := rfl

theorem respell_eq (t : Text) :
    respell t = ((Piece.ofText t).map Piece.canonical).flatMap Piece.text := by
  rw [respell,List.flatMap_map]
  simp only [Piece.text_canonical]

@[simp] theorem respell_nil : respell [] = [] := rfl

theorem respell_block {b : Block} (h : b.Proper) (rest : Text) :
    respell (b.text ++ rest) =
      Block.text ⟨b.condition,canonical b.yes,canonical b.no⟩ ++ respell rest := by
  rw [respell,Piece.ofText_block h]
  rfl

theorem respell_append {a rest : Text} (ha : '{' ∉ a) (hr : OpensApart rest) :
    respell (a ++ rest) = canonical a ++ respell rest := by
  rw [respell_eq,Piece.ofText_append ha,Piece.map_canonical_foldr (Piece.startApart_ofText hr),
    Piece.flatMap_text_foldr,respell_eq]

theorem respell_cons {c : Char} (hc : Apart c) {rest : Text}
    (h : Block.leading? (c :: rest) = none) : respell (c :: rest) = c :: respell rest := by
  rw [respell_eq,Piece.ofText_cons h,Piece.map_canonical_consPlain hc,Piece.flatMap_text_consPlain,
    respell_eq]

theorem respell_cons_of_ne {c : Char} (hc : Apart c) (hne : c ≠ '{') (rest : Text) :
    respell (c :: rest) = c :: respell rest := respell_cons hc (Block.leading?_of_ne hne rest)

theorem respell_eq_canonical {a : Text} (h : '{' ∉ a) : respell a = canonical a := by
  simpa using respell_append h opensApart_nil

/-! ## Pieces of the text with canonical names -/

/-- A text up to its first opening brace, and from there on. -/
theorem exists_brace_split (t : Text) :
    ∃ a rest, t = a ++ rest ∧ '{' ∉ a ∧ (rest = [] ∨ rest.head? = some '{') := by
  induction t with
  | nil => exact ⟨[],[],rfl,by simp,.inl rfl⟩
  | cons c t ih =>
    by_cases hc : c = '{'
    · exact ⟨[],c :: t,rfl,by simp,.inr (by simp [hc])⟩
    · obtain ⟨a,rest,rfl,ha,hrest⟩ := ih
      exact ⟨c :: a,rest,rfl,by simpa [ha] using Ne.symm hc,hrest⟩

/-- Induction along the opening braces of a text. -/
theorem brace_induction {motive : Text → Prop} (nil : motive [])
    (block : ∀ (b : Block) rest, b.Proper → motive rest → motive (b.text ++ rest))
    (brace : ∀ rest, Block.leading? ('{' :: rest) = none → motive rest → motive ('{' :: rest))
    (plain : ∀ a rest, '{' ∉ a → rest = [] ∨ rest.head? = some '{' → motive rest →
      motive (a ++ rest))
    (t : Text) : motive t := by
  induction hn : t.length using Nat.strong_induction_on generalizing t with
  | _ n ih =>
    cases t with
    | nil => exact nil
    | cons c t =>
      by_cases hc : c = '{'
      · subst hc
        cases h : Block.leading? ('{' :: t) with
        | none => exact brace t h (ih t.length (by simp [← hn]) t rfl)
        | some b =>
          obtain ⟨hb,rest,hrest⟩ := Block.leading?_eq_some_iff.mp h
          have hlen : rest.length < n := by
            rw [← hn,← hrest,List.length_append,Block.length_text,Block.width]
            omega
          rw [← hrest]
          exact block b rest hb (ih rest.length hlen rest rfl)
      · obtain ⟨a,rest,rfl,ha,hrest⟩ := exists_brace_split t
        have hlen : rest.length < n := by
          rw [← hn,List.length_cons,List.length_append]
          omega
        exact plain (c :: a) rest (by simpa [ha] using Ne.symm hc) hrest (ih rest.length hlen rest rfl)

theorem opensApart_of_brace {t : Text} (h : t = [] ∨ t.head? = some '{') : OpensApart t := by
  rcases h with rfl | h
  · exact opensApart_nil
  · intro c hc
    obtain rfl : '{' = c := by simpa [h] using hc
    exact apart_of_mem_blockMarks (by decide)

theorem respell_head? {t : Text} (h : t = [] ∨ t.head? = some '{') :
    respell t = [] ∨ (respell t).head? = some '{' := by
  rcases h with rfl | h
  · exact .inl rfl
  · right
    obtain ⟨c,t,rfl⟩ := List.exists_cons_of_ne_nil (show t ≠ [] by rintro rfl; simp at h)
    obtain rfl : c = '{' := by simpa using h
    cases hl : Block.leading? ('{' :: t) with
    | none => simp [respell_cons (apart_of_mem_blockMarks (by decide)) hl]
    | some b =>
      obtain ⟨hb,rest,hrest⟩ := Block.leading?_eq_some_iff.mp hl
      rw [← hrest,respell_block hb]
      rfl

/-- A brace that opens no block opens none with canonical names either. -/
theorem leading?_respell {t : Text} (h : Block.leading? ('{' :: t) = none) :
    Block.leading? ('{' :: respell t) = none := by
  obtain ⟨a,rest,rfl,ha,hrest⟩ := exists_brace_split t
  rw [Block.leading?_append hrest] at h
  rw [respell_append ha (opensApart_of_brace hrest),
    Block.leading?_append (respell_head? hrest),Block.leading?_canonical,h]
  rfl

theorem proper_canonical {b : Block} (h : b.Proper) :
    Block.Proper ⟨b.condition,canonical b.yes,canonical b.no⟩ := by
  have hfield : ∀ stop ∈ blockMarks, ∀ f, Block.IsField stop f →
      Block.IsField stop (canonical f) := by
    intro stop hs f hf
    refine ⟨?_,inField_canonical hs hf.2⟩
    rw [canonical_eq,ne_eq,canonicalFrom_eq_nil_iff]
    exact hf.1
  exact ⟨h.condition,hfield ':' (by decide) _ h.yes,hfield '}' (by decide) _ h.no⟩

/-- The new text has the pieces of the old one, with canonical names. -/
theorem ofText_respell (t : Text) :
    Piece.ofText (respell t) = (Piece.ofText t).map Piece.canonical := by
  induction t using brace_induction with
  | nil => rfl
  | block b rest hb ih =>
    rw [respell_block hb,Piece.ofText_block (proper_canonical hb),ih,Piece.ofText_block hb]
    rfl
  | brace rest h ih =>
    have hbrace : Apart '{' := apart_of_mem_blockMarks (by decide)
    rw [respell_cons hbrace h,Piece.ofText_cons (leading?_respell h),ih,Piece.ofText_cons h,
      Piece.map_canonical_consPlain hbrace]
  | plain a rest ha hrest ih =>
    have hr := opensApart_of_brace hrest
    have ha' : '{' ∉ canonical a := not_mem_canonical (apart_of_mem_blockMarks (by decide)) ha
    rw [respell_append ha hr,Piece.ofText_append ha',ih,Piece.ofText_append ha,
      Piece.map_canonical_foldr (Piece.startApart_ofText hr)]

end DrawFormula.Expression
