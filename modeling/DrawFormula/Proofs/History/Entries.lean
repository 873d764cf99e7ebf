import DrawFormula.History.Store
import Mathlib.Data.Int.Notation
import Mathlib.Data.Nat.Notation
import Mathlib.Data.List.Nodup
import Mathlib.Data.Set.Card

/-! # Looking up the draw of a period

A list in descending order of periods is a map from periods to draws. To put a draw into it sets the
draw of its period, and to insert one sets it only if the period has none yet; so of several draws
of a period the last one stays when they are put, and the first one when they are inserted. The
order is kept, and the list has one entry for each period that has a draw.
-/
namespace DrawFormula.History

/-- The draw of a period. -/
def drawOf? (p : ℤ) (draws : List Draw) : Option Draw := draws.find? fun d => d.period = p

/-- The last of several draws of a period. -/
def lastOf? (p : ℤ) (draws : List Draw) : Option Draw := drawOf? p draws.reverse

/-- Strictly descending order of periods. -/
def Descending (draws : List Draw) : Prop := draws.Pairwise fun a b => b.period < a.period

variable {p : ℤ} {d e : Draw} {draws rest more : List Draw}

/-- The values of a draw make it, with any day. -/
theorem make_eq_ok (d : Draw) (weekday : Option ℤ) (stemBranch : Option Text) :
    Draw.make d.period d.numbers d.zodiacYear weekday stemBranch =
      .ok { d with weekday := weekday, stemBranch := stemBranch } := by
  rw [Draw.make]
  simp only [d.length_numbers,d.nodup_numbers,d.year_inRange,dif_pos,and_self]
  exact dif_pos d.numbers_inRange

/-! ## Looking up -/

theorem drawOf?_cons (p : ℤ) (d : Draw) (rest : List Draw) :
    drawOf? p (d :: rest) = if d.period = p then some d else drawOf? p rest := by
  unfold drawOf?
  rw [List.find?_cons]
  split <;> simp_all

theorem period_of_drawOf? (h : drawOf? p draws = some d) : d.period = p := by
  simpa using List.find?_some h

theorem drawOf?_eq_none (h : ∀ e ∈ draws, e.period ≠ p) : drawOf? p draws = none := by
  simpa [drawOf?] using h

theorem isSome_drawOf?_iff : (drawOf? p draws).isSome ↔ ∃ d ∈ draws, d.period = p := by
  simp [drawOf?]

theorem lastOf?_nil (p : ℤ) : lastOf? p [] = none := rfl

theorem lastOf?_cons (p : ℤ) (d : Draw) (rest : List Draw) :
    lastOf? p (d :: rest) = (lastOf? p rest).or (drawOf? p [d]) := by
  simp [lastOf?,drawOf?,List.find?_append]

/-- Where no period is repeated the first draw of a period is the last one. -/
theorem lastOf?_eq_drawOf? (h : (draws.map Draw.period).Nodup) : lastOf? p draws = drawOf? p draws := by
  induction draws with
  | nil => rfl
  | cons d rest ih =>
    obtain ⟨hd,hrest⟩ := List.nodup_cons.mp h
    rw [lastOf?_cons,ih hrest,drawOf?_cons,drawOf?_cons]
    split
    · next hp =>
      have hnone : drawOf? p rest = none :=
        drawOf?_eq_none fun e he hep => hd (List.mem_map.mpr ⟨e,he,hep.trans hp.symm⟩)
      rw [hnone,Option.none_or]
    · exact Option.or_none

/-- Where no period is repeated a draw is looked up by its period. -/
theorem mem_iff_drawOf? (h : (draws.map Draw.period).Nodup) :
    d ∈ draws ↔ drawOf? d.period draws = some d := by
  constructor
  · intro hd
    obtain ⟨e,he⟩ := Option.isSome_iff_exists.mp (isSome_drawOf?_iff.mpr ⟨d,hd,rfl⟩)
    have hsame := List.inj_on_of_nodup_map h (List.mem_of_find?_eq_some he) hd
      (period_of_drawOf? he)
    rw [he,hsame]
  · exact List.mem_of_find?_eq_some

namespace Descending

theorem nodup (h : Descending draws) : (draws.map Draw.period).Nodup := by
  rw [List.Nodup,List.pairwise_map]
  exact h.imp fun hlt => hlt.ne'

theorem mem_iff (h : Descending draws) : d ∈ draws ↔ drawOf? d.period draws = some d :=
  mem_iff_drawOf? h.nodup

theorem head?_eq_some_iff (h : Descending draws) :
    draws.head? = some d ↔
      drawOf? d.period draws = some d ∧ ∀ q e, drawOf? q draws = some e → q ≤ d.period := by
  cases draws with
  | nil => simp [drawOf?]
  | cons e rest =>
    obtain ⟨he,-⟩ := List.pairwise_cons.mp h
    constructor
    · rintro hd
      obtain rfl : e = d := by simpa using hd
      refine ⟨h.mem_iff.mp List.mem_cons_self,fun q x hx => ?_⟩
      have hmem : x ∈ e :: rest := List.mem_of_find?_eq_some hx
      rw [← period_of_drawOf? hx]
      rcases List.mem_cons.mp hmem with rfl | hx
      · exact le_rfl
      · exact (he x hx).le
    · rintro ⟨hd,hmax⟩
      rcases List.mem_cons.mp (h.mem_iff.mpr hd) with rfl | hrest
      · rfl
      · exact absurd (hmax _ e (h.mem_iff.mp List.mem_cons_self)) (not_le.mpr (he d hrest))

/-- There are as many draws as periods that have one. -/
theorem length_eq (h : Descending draws) : draws.length = {q | (drawOf? q draws).isSome}.ncard := by
  have hset : {q | (drawOf? q draws).isSome} = ((draws.map Draw.period).toFinset : Set ℤ) := by
    ext q
    simp [isSome_drawOf?_iff]
  rw [hset,Set.ncard_coe_finset,List.toFinset_card_of_nodup h.nodup,List.length_map]

end Descending

/-! ## Putting draws into a list -/

theorem drawOf?_put (p : ℤ) (d : Draw) (draws : List Draw) :
    drawOf? p (put d draws) = if d.period = p then some d else drawOf? p draws := by
  induction draws with
  | nil => exact drawOf?_cons p d []
  | cons e rest ih =>
    unfold put
    split
    · exact drawOf?_cons p d _
    · split
      · next hp =>
        rw [drawOf?_cons,drawOf?_cons,hp]
        split <;> rfl
      · rw [drawOf?_cons,ih,drawOf?_cons]
        split <;> split <;> simp_all

theorem drawOf?_putAll (p : ℤ) (draws more : List Draw) :
    drawOf? p (putAll draws more) = (lastOf? p more).or (drawOf? p draws) := by
  induction more generalizing draws with
  | nil => rfl
  | cons d rest ih =>
    have hstep := ih (put d draws)
    rw [drawOf?_put] at hstep
    rw [lastOf?_cons,Option.or_assoc,drawOf?_cons]
    refine hstep.trans ?_
    split <;> rfl

theorem length_put (h : Descending draws) (d : Draw) :
    (put d draws).length = draws.length + if draws.any fun e => e.period = d.period then 0 else 1 := by
  induction draws with
  | nil => rfl
  | cons e rest ih =>
    obtain ⟨he,hrest⟩ := List.pairwise_cons.mp h
    unfold put
    split
    · next hlt =>
      -- all periods of the list are smaller
      have hnone : (e :: rest).any (fun x => x.period = d.period) = false := by
        simp only [List.any_eq_false,decide_eq_true_eq]
        intro x hx
        rcases List.mem_cons.mp hx with rfl | hx
        · exact hlt.ne
        · exact ((he x hx).trans hlt).ne
      rw [hnone]
      rfl
    · split
      · next hp => simp [hp]
      · next hne =>
        rw [List.length_cons,ih hrest,List.any_cons,decide_eq_false hne,Bool.false_or,
          List.length_cons]
        omega

theorem length_putAll (h : Descending draws) (more : List Draw) :
    (putAll draws more).length = draws.length + countNew draws more := by
  induction more generalizing draws with
  | nil => rfl
  | cons d rest ih =>
    have hstep := ih (pairwise_put d h)
    rw [length_put h,Nat.add_assoc] at hstep
    exact hstep

/-! ## Draws from a text -/

theorem mem_insertNew (h : e ∈ insertNew d draws) : e = d ∨ e ∈ draws := by
  induction draws with
  | nil => simpa [insertNew] using h
  | cons x rest ih =>
    unfold insertNew at h
    split at h
    · exact List.mem_cons.mp h
    · split at h
      · exact .inr h
      · rcases List.mem_cons.mp h with rfl | h
        · exact .inr List.mem_cons_self
        · exact (ih h).imp_right (List.mem_cons_of_mem x)

theorem Descending.insertNew (h : Descending draws) (d : Draw) : Descending (insertNew d draws) := by
  induction draws with
  | nil => exact List.pairwise_singleton _ d
  | cons e rest ih =>
    obtain ⟨he,hrest⟩ := List.pairwise_cons.mp h
    unfold History.insertNew
    split
    · next hlt =>
      refine List.pairwise_cons.mpr ⟨fun x hx => ?_,h⟩
      rcases List.mem_cons.mp hx with rfl | hx
      · exact hlt
      · exact (he x hx).trans hlt
    · split
      · exact h
      · refine List.pairwise_cons.mpr ⟨fun x hx => ?_,ih hrest⟩
        rcases mem_insertNew hx with rfl | hx
        · omega
        · exact he x hx

theorem drawOf?_insertNew (h : Descending draws) (p : ℤ) (d : Draw) :
    drawOf? p (insertNew d draws) = (drawOf? p draws).or (drawOf? p [d]) := by
  induction draws with
  | nil => rfl
  | cons e rest ih =>
    obtain ⟨he,hrest⟩ := List.pairwise_cons.mp h
    unfold insertNew
    split
    · next hlt =>
      rw [drawOf?_cons p d (e :: rest),drawOf?_cons p d []]
      split
      · next hp =>
        have hnone : drawOf? p (e :: rest) = none := by
          refine drawOf?_eq_none fun x hx => ?_
          rw [← hp]
          rcases List.mem_cons.mp hx with rfl | hx
          · exact hlt.ne
          · exact ((he x hx).trans hlt).ne
        rw [hnone,Option.none_or]
      · exact Option.or_none.symm
    · split
      · next hp =>
        rw [drawOf?_cons p e rest,drawOf?_cons p d [],hp]
        split
        · rfl
        · exact Option.or_none.symm
      · rw [drawOf?_cons,ih hrest,drawOf?_cons p e rest]
        split <;> rfl

theorem drawOf?_foldl_insertNew (h : Descending draws) (p : ℤ) (more : List Draw) :
    Descending (more.foldl (fun draws d => insertNew d draws) draws) ∧
      drawOf? p (more.foldl (fun draws d => insertNew d draws) draws) =
        (drawOf? p draws).or (drawOf? p more) := by
  induction more generalizing draws with
  | nil => exact ⟨h,Option.or_none.symm⟩
  | cons d rest ih =>
    obtain ⟨hdescending,hlookup⟩ := ih (h.insertNew d)
    refine ⟨hdescending,hlookup.trans ?_⟩
    rw [drawOf?_insertNew h,Option.or_assoc,drawOf?_cons p d rest,drawOf?_cons p d []]
    split <;> rfl

/-- The draw on the first line that holds one of a period. -/
def firstOnLines? (p : ℤ) (text : Text) (zodiacYear : ℤ) : Option Draw :=
  (Text.splitLines text).findSome? fun line =>
    (ofLine line zodiacYear).toOption.filter fun d => d.period = p

theorem descending_ofText (text : Text) (zodiacYear : ℤ) : Descending (ofText text zodiacYear) :=
  (drawOf?_foldl_insertNew .nil 0 _).1

theorem drawOf?_ofText (p : ℤ) (text : Text) (zodiacYear : ℤ) :
    drawOf? p (ofText text zodiacYear) = firstOnLines? p text zodiacYear := by
  have hlookup := (drawOf?_foldl_insertNew .nil p
    ((Text.splitLines text).filterMap fun line => (ofLine line zodiacYear).toOption)).2
  refine hlookup.trans ?_
  rw [drawOf?,List.find?_nil,Option.none_or,drawOf?,← List.head?_filter,List.filter_filterMap,
    List.head?_filterMap]
  rfl

theorem lastOf?_ofText (p : ℤ) (text : Text) (zodiacYear : ℤ) :
    lastOf? p (ofText text zodiacYear) = firstOnLines? p text zodiacYear := by
  rw [lastOf?_eq_drawOf? (descending_ofText text zodiacYear).nodup,drawOf?_ofText]

end DrawFormula.History
