import DrawFormula.Proofs.Expression.CanonicalNames
import DrawFormula.Proofs.Expression.Listing
import DrawFormula.Proofs.Expression.Remembered
import DrawFormula.Proofs.Expression.Rounds

/-! # Names that touch

Canonical names stand one after another with nothing between them or with operators and parentheses.
Where a longer spelling begins with such a name, it goes on with a character that neither begins
another name nor is an operator or a parenthesis. So the text has just one reading, and normalising,
listing and substituting all go by it.
-/
namespace DrawFormula.Expression
open Element

/-! ## Names and separators -/

/-- The operators and parentheses. -/
def separators : Text := ['+','-','*','×','/','÷','%','(',')']

/-- The characters that the names of elements other than those of the day begin with. -/
def drawStarts : Text := ['期','总','平','特']

theorem apart_of_mem_separators {c : Char} (h : c ∈ separators) : Apart c := by
  have table : ∀ c ∈ separators, (c.toNat < 0x31 ∨ 0x36 < c.toNat ∧ c.toNat < 0x4e00) ∧
      Text.isDigitSign c = false := by decide
  exact apart_of_toNat (table c h).1 (table c h).2

theorem exists_name_eq_cons {e : Element} (h : e ∈ Element.all) :
    ∃ c ∈ drawStarts, ∃ name, e.name = c :: name := by
  cases e with
  | period r => exact ⟨'期',by decide,_,rfl⟩
  | total r => exact ⟨'总',by decide,_,rfl⟩
  | ping place a => exact ⟨'平',by decide,_,rfl⟩
  | special a => exact ⟨'特',by decide,_,rfl⟩
  | weekday | stem | branch | stemBranch => exact absurd h (by decide)

/-- No other name begins within a spelling that begins as these names do. -/
theorem not_mem_drawStarts {q : Text × Element} (hq : q ∈ spellings) {c : Char}
    (hc : c ∈ drawStarts) (hhead : q.1.head? = some c) : ∀ d ∈ q.1.tail, d ∉ drawStarts := by
  intro d hd hstart
  have hweekday : q.1 ≠ ['星','期'] := by
    intro he
    rw [he] at hhead
    obtain rfl : '星' = c := Option.some.inj hhead
    exact absurd hc (by decide)
  have hday : q.1 ≠ ['干','支'] := by
    intro he
    rw [he] at hhead
    obtain rfl : '干' = c := Option.some.inj hhead
    exact absurd hc (by decide)
  have hsubset : ∀ d ∈ drawStarts, d ∈ nameStarts := by decide
  exact not_mem_nameStarts hq hweekday hday hd (hsubset d hstart)

/-- A name is read up to the next name or separator. -/
theorem leading?_name {e : Element} (he : e ∈ Element.all) {rest : Text}
    (hr : ∀ c ∈ rest.head?, c ∈ separators ∨ c ∈ drawStarts) (before : Option Char) :
    leading? before (e.name ++ rest) = some (e.name,e) := by
  have hmem := mem_spellings_of_mem_all he
  refine leading?_eq_some_iff.mpr
    ⟨continuesNumeral_name hmem before rest,hmem,List.prefix_append _ _,?_⟩
  intro q hq hqt
  by_contra hlonger
  have hlonger : e.name.length < q.1.length := not_le.mp hlonger
  obtain ⟨more,hmore⟩ := List.prefix_of_prefix_length_le (List.prefix_append e.name rest) hqt
    hlonger.le
  obtain ⟨start,hstart,name,hname⟩ := exists_name_eq_cons he
  obtain ⟨c,more,rfl⟩ : ∃ c cs, more = c :: cs := by
    apply List.exists_cons_of_ne_nil
    rintro rfl
    rw [← hmore] at hlonger
    simp at hlonger
  -- the character after the name belongs to the longer spelling and to the text behind the name
  have hc : c ∈ rest.head? := by
    rw [← hmore,List.prefix_append_right_inj] at hqt
    obtain ⟨u,rfl⟩ := hqt
    rfl
  have hinside : c ∈ q.1.tail := by simp [← hmore,hname]
  rcases hr c hc with hsep | hnext
  · exact (apart_of_mem_separators hsep).1 q hq (List.mem_of_mem_tail hinside)
  · exact not_mem_drawStarts hq hstart (by simp [← hmore,hname]) c hinside hnext

namespace Lexeme

/-- An element other than those of the day, an operator or a parenthesis. -/
def Ordinary : Lexeme → Prop
  | name e => e ∈ Element.all
  | char c => c ∈ separators

instance : (l : Lexeme) → Decidable l.Ordinary
  | name e => inferInstanceAs (Decidable (e ∈ Element.all))
  | char c => inferInstanceAs (Decidable (c ∈ separators))

theorem Ordinary.head?_text {l : Lexeme} (h : l.Ordinary) :
    ∃ c, l.text.head? = some c ∧ (c ∈ separators ∨ c ∈ drawStarts) := by
  cases l with
  | name e =>
    obtain ⟨c,hc,name,hname⟩ := exists_name_eq_cons h
    exact ⟨c,by rw [text,hname,List.head?_cons],.inr hc⟩
  | char c => exact ⟨c,rfl,.inl h⟩

/-- The characters of ordinary lexemes stand for themselves: they have no half-width form, are no
numerals and open no block. -/
theorem Ordinary.of_mem_text {l : Lexeme} (h : l.Ordinary) {c : Char} (hc : c ∈ l.text) :
    Tree.Written c ∧ Formula.isNumeral c = false ∧ c ≠ '{' := by
  cases l with
  | name e =>
    have hmem := mem_spellings_of_mem_all h
    have table : ∀ e ∈ Element.all, ∀ c ∈ e.name, Formula.isNumeral c = false := by decide +kernel
    have hinner := Tree.inner_of_mem_spelling ⟨e.name,e,hmem⟩ hc
    exact ⟨Tree.written_of_mem_spelling hmem hc,table e h c hc,hinner.1⟩
  | char d =>
    obtain rfl : c = d := by simpa [text] using hc
    have table : ∀ c ∈ separators,
        Tree.Written c ∧ Formula.isNumeral c = false ∧ c ≠ '{' := by decide
    exact table c h

end Lexeme

/-! ## The one reading -/

section Ordinary
variable {ls : List Lexeme} (h : ∀ l ∈ ls, l.Ordinary)
include h

theorem scanFrom_flatMap_text (before : Option Char) :
    Lexeme.scanFrom before 0 (ls.flatMap Lexeme.text) = ls := by
  induction ls generalizing before with
  | nil => rfl
  | cons l ls ih =>
    obtain ⟨hl,hls⟩ := List.forall_mem_cons.mp h
    rw [List.flatMap_cons]
    cases l with
    | name e =>
      have hnext : ∀ c ∈ (ls.flatMap Lexeme.text).head?, c ∈ separators ∨ c ∈ drawStarts := by
        intro c hc
        cases ls with
        | nil => simp at hc
        | cons l ls =>
          obtain ⟨d,hd,hstart⟩ := (hls l (by simp)).head?_text
          rw [List.flatMap_cons,List.head?_append,hd] at hc
          obtain rfl : d = c := by simpa using hc
          exact hstart
      have hlead := leading?_name hl hnext before
      rw [Lexeme.text,Lexeme.scanFrom_name (p := (e.name,e)) hlead,ih hls]
    | char c =>
      have hlead : leading? before (c :: ls.flatMap Lexeme.text) = none :=
        Lexeme.leading?_eq_none_of_opensApart (opensApart_cons (apart_of_mem_separators hl) _)
      rw [Lexeme.text,List.singleton_append,Lexeme.scanFrom_char hlead,ih hls]

theorem scan_flatMap_text : Lexeme.scan (ls.flatMap Lexeme.text) = ls :=
  scanFrom_flatMap_text h none

theorem of_mem_flatMap_text {c : Char} (hc : c ∈ ls.flatMap Lexeme.text) :
    Tree.Written c ∧ Formula.isNumeral c = false ∧ c ≠ '{' := by
  obtain ⟨l,hl,hc⟩ := List.mem_flatMap.mp hc
  exact (h l hl).of_mem_text hc

theorem normalize_flatMap_text : normalize (ls.flatMap Lexeme.text) = ls.flatMap Lexeme.text := by
  have hchars := fun c hc => of_mem_flatMap_text h (c := c) hc
  have hcompact : ∀ c ∈ ls.flatMap Lexeme.text, Text.Compact c := fun c hc =>
    Text.compact_of_toNat (hchars c hc).1
  have hdigitized := Formula.digitized_of_forall fun c hc => (hchars c hc).2.1
  have hsteady : Formula.Steady (ls.flatMap Lexeme.text) := by
    apply Formula.steady_of_lt
    · intro c hc
      have hw := (hchars c hc).1
      unfold Tree.Written at hw
      omega
    · intro hp
      have hfive := (hchars '五' (hp.subset (by decide))).2.1
      exact absurd hfive (by decide)
  have hbrace : '{' ∉ ls.flatMap Lexeme.text := fun hmem => (hchars _ hmem).2.2 rfl
  rw [normalize_eq,Text.halfwidth_eq_self hcompact,Text.squeeze_eq_self hcompact,
    Formula.digitize_eq_self hdigitized hsteady,respell_eq_canonical hbrace,canonical,
    scan_flatMap_text h]

theorem elements_flatMap_text :
    elements (ls.flatMap Lexeme.text) = (ls.filterMap Lexeme.element?).eraseDups := by
  have hplain := Piece.flatMap_ofText_append (f := Piece.bothOutcomes) (fun _ => rfl)
    (fun c hc => (of_mem_flatMap_text h hc).2.2) []
  rw [List.append_nil] at hplain
  rw [elements_eq,normalize_flatMap_text h,hplain,namesOf]
  exact congrArg (fun ls => (List.filterMap Lexeme.element? ls).eraseDups)
    ((congrArg Lexeme.scan (List.append_nil _)).trans (scan_flatMap_text h))

theorem resolve_flatMap_text (special : ℤ) :
    resolve special (ls.flatMap Lexeme.text) = ls.flatMap Lexeme.text := by
  apply resolve_eq_self
  rintro ⟨b,-,hb⟩
  have hbrace := hb.subset (show '{' ∈ b.text from List.mem_cons_self)
  exact (of_mem_flatMap_text h hbrace).2.2 rfl

theorem unknownIn_ordinary : unknownIn ls = [] := by
  refine List.filterMap_eq_nil_iff.mpr fun l hl => ?_
  cases l with
  | name e => rfl
  | char c =>
    have table : ∀ c ∈ separators, isIdeograph c = false := by decide
    simp [table c (h _ hl)]

end Ordinary

namespace Lexeme

/-- What stands for a lexeme in the sum before plus signs are merged: the value of an element, a
plus sign for every operator, and parentheses. -/
def summand (d : Draw) (sorted : Bool) : Lexeme → Text
  | name e => Text.ofInt (e.value d sorted)
  | char c => if c = '(' ∨ c = ')' then [c] else ['+']

theorem Ordinary.contribution_eq {l : Lexeme} (h : l.Ordinary) (d : Draw) (sorted : Bool) :
    l.contribution d sorted = l.summand d sorted := by
  cases l with
  | name e => rfl
  | char c =>
    have table : ∀ c ∈ separators,
        substituteChar c = if c = '(' ∨ c = ')' then [c] else ['+'] := by decide
    exact table c h

end Lexeme

/-- Canonical names that touch, or have any operators and parentheses between them, are read in one
way. Normalising keeps the text, its elements are the names in order of first appearance, and a sum
has the value of each name in its place, a plus sign for every operator and nothing else. -/
theorem touching_names_agree {ls : List Lexeme} (h : ∀ l ∈ ls, l.Ordinary) :
    let t := ls.flatMap Lexeme.text
    normalize t = t ∧
    elements t = (ls.filterMap Lexeme.element?).eraseDups ∧
    ∀ (d : Draw) (sorted : Bool) (cache : Element.Cache), Cache.Faithful [d] cache →
      (substituteAll d sorted (Lexeme.scan (resolve d.special t)) cache).1 =
          ls.flatMap (Lexeme.summand d sorted) ∧
        (substitute t d sorted cache).1 =
          .ok (collapsePlus (ls.flatMap (Lexeme.summand d sorted))) := by
  intro t
  refine ⟨normalize_flatMap_text h,elements_flatMap_text h,fun d sorted cache hcache => ?_⟩
  have hscan : Lexeme.scan (resolve d.special t) = ls := by
    rw [resolve_flatMap_text h,scan_flatMap_text h]
  have hanswers : Answers (Cache.Faithful [d]) d :=
    (Consistent.of_nodup (by simp)).answers (by simp)
  have hsummands : ls.flatMap (Lexeme.contribution d sorted) =
      ls.flatMap (Lexeme.summand d sorted) :=
    List.flatMap_congr fun l hl => (h l hl).contribution_eq d sorted
  have hall : (substituteAll d sorted ls cache).1 = ls.flatMap (Lexeme.summand d sorted) := by
    rw [(substituteAll_of_answers hanswers sorted ls hcache).1,hsummands]
  refine ⟨by rw [hscan,hall],?_⟩
  simp only [substitute,hscan,unknownIn_ordinary h,hall]

/-- The period, its tail and the special number with nothing between them but a run of signs. -/
theorem touching_names_agree_period :
    let ls : List Lexeme := [.name (.period .whole),.name (.period .tail),.char ')',.char '×',
      .name (.special .number),.name (.period .whole)]
    let t := "期数期数尾)×特号期数".toList
    ls.flatMap Lexeme.text = t ∧ normalize t = t ∧
      elements t = [.period .whole,.period .tail,.special .number] ∧
      (substitute t largeEvenDraw false (Memo.empty 0)).1 = .ok "11)+301".toList := by
  intro ls t
  have hordinary : ∀ l ∈ ls, l.Ordinary := by decide
  have ht : ls.flatMap Lexeme.text = t := by decide
  have hagree := touching_names_agree hordinary
  rw [ht] at hagree
  obtain ⟨hnormal,helements,hsubstitute⟩ := hagree
  have hsum := (hsubstitute largeEvenDraw false (Memo.empty 0) (Cache.faithful_empty _ 0)).2
  refine ⟨ht,hnormal,?_,?_⟩
  · rw [helements]
    decide
  · rw [hsum]
    decide

end DrawFormula.Expression
