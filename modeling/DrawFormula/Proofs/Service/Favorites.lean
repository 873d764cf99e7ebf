import DrawFormula.Proofs.Favorites.Invariant
import DrawFormula.Proofs.Service.Calls

/-! # Favorites of a service

Favorites are used by operations on them and by calls of the service. A call does at most one
operation, and adds a formula only if it can be read. Starting without a file, whatever the clock
reads, the groups stay well arranged; and the service says that there is no group just where a
formula that can be read is to go into a group that is not there.
-/
namespace DrawFormula
open Favorites

namespace Service
variable {clock : Clock} {s : State}

/-- A use of a service's favorites. -/
inductive Use where
  | operate (op : Operation)
  | call (c : Call)

/-- The state after a use. -/
def Use.after (clock : Clock) (s : State) : Use → State
  | .operate op => { s with favorites := (s.favorites.apply clock op).2 }
  | .call c => (c.answer clock s).2

/-- The state after uses. -/
def State.used (clock : Clock) (s : State) (uses : List Use) : State :=
  uses.foldl (Use.after clock) s

/-! ## Calls -/

/-- Whether favorites are left alone or changed by one operation, which adds nothing that cannot be
read. -/
def OperatedOnce (clock : Clock) (c c' : Collection) : Prop :=
  c' = c ∨ ∃ op, c' = (c.apply clock op).2 ∧
    ∀ id formula, op = .addFormula id formula → ∃ x, Formula.read formula = .ok x

theorem snd_answered {α : Type} (f : α → Reply) (r : Except Error α × Collection) :
    (Collection.answered f r).2 = r.2 := by
  unfold Collection.answered
  split <;> rfl

theorem favorites_onFavorites {α : Type} (s : State) (r : Except Error α × Collection)
    (f : α → Response) : (s.onFavorites r f).2.favorites = r.2 := by
  rw [after_onFavorites]

theorem favorites_importHistory (s : State) (r : Import) :
    (s.importHistory r).2.favorites = s.favorites := by
  obtain ⟨history,saved,heq⟩ := altersHistory_importHistory s r
  rw [heq]

theorem operatedOnce_addGroup (clock : Clock) (s : State) (name : Text) :
    OperatedOnce clock s.favorites (s.addGroup clock name).2.favorites := by
  unfold State.addGroup
  split
  · exact .inl rfl
  · exact .inr ⟨.addGroup _,(favorites_onFavorites ..).trans (snd_answered ..).symm,nofun⟩

theorem operatedOnce_addFormula (clock : Clock) (s : State) (id formula : Text) :
    OperatedOnce clock s.favorites (s.addFormula clock id formula).2.favorites := by
  unfold State.addFormula
  dsimp only
  split
  · exact .inl rfl
  · exact .inl rfl
  · next x hx =>
    refine .inr ⟨.addFormula id (Text.strip formula),
      (favorites_onFavorites ..).trans (snd_answered ..).symm,?_⟩
    rintro _ _ ⟨rfl,rfl⟩
    exact ⟨x,hx⟩

theorem operatedOnce_withChecked {α : Type} {checked : Checked α} {f : α → Answer}
    (h : ∀ a, OperatedOnce clock s.favorites (f a).2.favorites) :
    OperatedOnce clock s.favorites (Call.withChecked s checked f).2.favorites :=
  after_withChecked (P := fun s' => OperatedOnce clock s.favorites s'.favorites) (.inl rfl) h

theorem operatedOnce_removeFormula (clock : Clock) (s : State) (id formula : Text) :
    OperatedOnce clock s.favorites (s.removeFormula clock id formula).2.favorites :=
  .inr ⟨.removeFormula id (Text.strip formula),
    (favorites_onFavorites ..).trans (snd_answered ..).symm,nofun⟩

theorem operatedOnce_changeSettings (clock : Clock) (s : State) (changes : Changes) :
    OperatedOnce clock s.favorites (s.changeSettings changes).2.favorites := by
  unfold State.changeSettings
  split <;> exact .inl rfl

theorem operatedOnce_answerOn (clock : Clock) (s : State) (c : Call) (r : Resource)
    (m : Option Method) : OperatedOnce clock s.favorites (c.answerOn clock s r m).2.favorites := by
  have hsame : OperatedOnce clock s.favorites s.favorites := .inl rfl
  -- One case for each route, in their order. Only looking, adding and removing touch favorites, and
  -- the others that change the state at all change its draws or its settings.
  unfold Call.answerOn
  split
  case h_1 | h_2 | h_3 | h_4 => exact operatedOnce_withChecked fun _ => hsame
  case h_5 | h_12 | h_14 => exact hsame
  case h_6 => exact operatedOnce_withChecked fun r => .inl (favorites_importHistory s r)
  case h_7 => exact .inr ⟨.look,rfl,nofun⟩
  case h_8 => exact operatedOnce_withChecked (operatedOnce_addGroup clock s)
  case h_9 id =>
    exact .inr ⟨.deleteGroup id,(favorites_onFavorites ..).trans (snd_answered ..).symm,nofun⟩
  case h_10 id => exact operatedOnce_withChecked (operatedOnce_addFormula clock s id)
  case h_11 id => exact operatedOnce_withChecked (operatedOnce_removeFormula clock s id)
  case h_13 => exact operatedOnce_withChecked (operatedOnce_changeSettings clock s)

/-- A call does at most one operation on favorites. -/
theorem operatedOnce_answer (clock : Clock) (s : State) (c : Call) :
    OperatedOnce clock s.favorites (c.answer clock s).2.favorites := by
  unfold Call.answer
  split
  · exact .inl rfl
  · exact operatedOnce_answerOn ..

/-! ## Uses -/

/-- Whether the groups are well arranged and all their formulas satisfy `P`. -/
def WellKept (clock : Clock) (P : Text → Prop) (c : Collection) : Prop :=
  ∃ gs, c.Shows clock gs ∧ Arranged gs ∧ ∀ g ∈ gs, ∀ f ∈ g.formulas, P f

variable {P : Text → Prop} {c : Collection}

theorem wellKept_ofEntries_nil (clock : Clock) (P : Text → Prop) :
    WellKept clock P (.ofEntries []) := by
  refine ⟨_,Collection.shows_mk clock [] 0,arranged_orDefault arranged_nil _,?_⟩
  exact fun g hg => List.mem_singleton.mp hg ▸ fun f hf => absurd hf List.not_mem_nil

theorem WellKept.apply (h : WellKept clock P c) {op : Operation}
    (hop : ∀ id f, op = .addFormula id f → P f) : WellKept clock P (c.apply clock op).2 := by
  obtain ⟨gs,hshows,hgs,hformulas⟩ := h
  obtain ⟨gs',hshows',hsuits⟩ := suits_apply hshows hgs op
  exact ⟨gs',hshows',hsuits.arranged hgs,hsuits.forall_formulas hformulas hop⟩

theorem WellKept.after (h : WellKept clock P s.favorites)
    (hread : ∀ f x, Formula.read f = .ok x → P f) {u : Use}
    (hu : ∀ id f, u = .operate (.addFormula id f) → P f) :
    WellKept clock P (u.after clock s).favorites := by
  cases u with
  | operate op => exact h.apply fun id f hop => hu id f (hop ▸ rfl)
  | call c =>
    rcases operatedOnce_answer clock s c with hsame | ⟨op,hop,hadd⟩
    · rw [Use.after,hsame]
      exact h
    · rw [Use.after,hop]
      exact h.apply fun id f hf => (hadd id f hf).elim (hread f)

theorem WellKept.used (h : WellKept clock P s.favorites)
    (hread : ∀ f x, Formula.read f = .ok x → P f) {uses : List Use}
    (huses : ∀ id f, Use.operate (.addFormula id f) ∈ uses → P f) :
    WellKept clock P (s.used clock uses).favorites := by
  induction uses generalizing s with
  | nil => exact h
  | cons u rest ih =>
    exact ih (h.after hread fun id f hu => huses id f (hu ▸ List.mem_cons_self))
      fun id f hf => huses id f (List.mem_cons_of_mem u hf)

/-! ## A group that is not there -/

theorem status_addFormula {gs : List Group} (h : s.favorites.Shows clock gs) (hgs : Arranged gs)
    (id formula : Text) :
    (s.addFormula clock id formula).1.status = 404 ↔
      (∃ x, Formula.read (Text.strip formula) = .ok x) ∧ ∀ g ∈ gs, g.id ≠ id := by
  unfold State.addFormula
  dsimp only
  split
  case h_1 herror => simp [herror,Response.status]
  case h_2 herror => simp [herror,Response.status]
  case h_3 x hx =>
    obtain ⟨any,c',hadd,hentries,hany⟩ := addFormula_groups h hgs id (Text.strip formula)
    rw [← addressed_free_iff (Group.id_add (Text.strip formula)) id,hadd,State.onFavorites]
    dsimp only
    rw [hentries]
    rcases split_groups id (addressed id (Group.add (Text.strip formula)) gs) with
      ⟨hnone,hfree⟩ | ⟨before,g,after,hsplit,hid,hsome⟩
    · have hfalse : any = false := by
        rw [← Bool.not_eq_true,hany]
        rintro ⟨g,hg,hid,-⟩
        exact (addressed_free_iff (Group.id_add (Text.strip formula)) id).mp hfree g hg hid
      rw [hnone,hfalse]
      exact iff_of_true rfl ⟨⟨x,hx⟩,hfree⟩
    · rw [hsome,hsplit]
      refine iff_of_false ?_ fun hfree =>
        hfree.2 g (List.mem_append_right _ List.mem_cons_self) hid
      cases any <;> simp [Response.status]

theorem status_answer {gs : List Group} (h : s.favorites.Shows clock gs) (hgs : Arranged gs)
    {c : Call} {id : Text} (hc : Resource.ofTarget? c.target = some (.groupFormulas id))
    (hpost : Method.ofName? c.method = some .post) :
    (c.answer clock s).1.status = 404 ↔ ∃ formula, c.textBody "formula" = .ok formula ∧
      (∃ x, Formula.read (Text.strip formula) = .ok x) ∧ ∀ g ∈ gs, g.id ≠ id := by
  unfold Call.answer
  simp only [hc,hpost,Call.answerOn]
  cases hbody : c.textBody "formula" with
  | ok formula =>
    rw [Call.withChecked,status_addFormula h hgs]
    constructor
    · exact fun hfree => ⟨formula,rfl,hfree⟩
    · rintro ⟨_,⟨rfl⟩,hfree⟩
      exact hfree
  | bad problems =>
    refine iff_of_false ?_ ?_
    · simp [Call.withChecked,Response.status]
    · rintro ⟨_,⟨⟩,-⟩

end Service

end DrawFormula
