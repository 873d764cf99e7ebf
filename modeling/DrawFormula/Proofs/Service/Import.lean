import DrawFormula.Proofs.History.Refinement
import DrawFormula.Service.State

/-! # What an import leaves behind

An import brings a text, draws or both. It is answered by how many periods are new, or refused
because one of the draws breaks a rule. Draws are merged all or none; but the text is merged first,
so that a refused import leaves everything as it was only if no text came with it.
-/
namespace DrawFormula

namespace History

theorem Descending.ext {a b : List Draw} (ha : Descending a) (hb : Descending b)
    (h : ∀ p, drawOf? p a = drawOf? p b) : a = b := by
  have hperm : a.Perm b := (List.perm_ext_iff_of_nodup (List.Nodup.of_map _ ha.nodup)
    (List.Nodup.of_map _ hb.nodup)).mpr fun d => by rw [ha.mem_iff,hb.mem_iff,h]
  exact hperm.eq_of_pairwise (fun x y _ _ hx hy => absurd hx hy.not_gt) ha hb

/-- To merge draws of different periods changes no draw just if all of them are there. -/
theorem Store.toList_merge_eq_iff (s : Store) {draws : List Draw}
    (h : (draws.map Draw.period).Nodup) :
    (s.merge draws).toList = s.toList ↔ ∀ d ∈ draws, s.get? d.period = some d := by
  have hlookup (p : ℤ) : (s.merge draws).get? p = (drawOf? p draws).or (s.get? p) := by
    rw [s.get?_merge draws p,lastOf?_eq_drawOf? h]
    cases drawOf? p draws <;> rfl
  constructor
  · intro hsame d hd
    have hfound : (drawOf? d.period draws).isSome := isSome_drawOf?_iff.mpr ⟨d,hd,rfl⟩
    obtain ⟨e,he⟩ := Option.isSome_iff_exists.mp hfound
    have hde : e = d :=
      List.inj_on_of_nodup_map h (List.mem_of_find?_eq_some he) hd (period_of_drawOf? he)
    have hmerged : (s.merge draws).get? d.period = some d := by rw [hlookup,he,hde,Option.some_or]
    exact (congrArg (drawOf? d.period) hsame.symm).trans hmerged
  · intro hthere
    refine Descending.ext (s.merge draws).descending s.descending fun p => (hlookup p).trans ?_
    cases hp : drawOf? p draws with
    | none => rfl
    | some d =>
      rw [← period_of_drawOf? hp]
      exact (hthere d (List.mem_of_find?_eq_some hp)).symm

end History

namespace Service.State
variable {s : State} {r : Import}

theorem descending_textDraws {draws : List Draw} (h : r.textDraws? = some draws) :
    History.Descending draws := by
  unfold Import.textDraws? at h
  split at h
  · cases h
  · cases h
  · cases h
    exact History.descending_ofText _ _

/-! ## The text of an import -/

theorem size_importText (s : State) (r : Import) :
    (s.importText r).2.history.size = s.history.size + (s.importText r).1 := by
  unfold importText
  split
  · rfl
  · exact s.history.size_merge _

theorem told_importText (s : State) (r : Import) : (s.importText r).2.history.told =
    s.history.told.map (· + r.textDraws?.isSome.toNat) := by
  unfold importText
  split
  · next hnone =>
    rw [hnone]
    exact (List.map_id _).symm
  · next draws hsome =>
    rw [hsome]
    rfl

theorem toList_importText_eq_iff (s : State) (r : Import) :
    (s.importText r).2.history.toList = s.history.toList ↔
      ∀ draws, r.textDraws? = some draws → ∀ d ∈ draws, s.history.get? d.period = some d := by
  unfold importText
  split
  · next hnone => simp [hnone]
  · next draws hsome =>
    have hiff := s.history.toList_merge_eq_iff (descending_textDraws hsome).nodup
    constructor
    · intro hsame draws' h'
      cases hsome.symm.trans h'
      exact hiff.mp hsame
    · exact fun h => hiff.mpr (h draws hsome)

theorem importText_of_none (h : r.textDraws? = none) : s.importText r = (0,s) := by
  unfold importText
  rw [h]

/-! ## The whole import -/

theorem importHistory_eq (s : State) (r : Import) : s.importHistory r =
    if r.draws.isEmpty then (s.importText r).2.imported (s.importText r).1
    else match RawDraw.toHistory r.draws with
      | .error e => (.refused e.message.toList,(s.importText r).2)
      | .ok draws => ((s.importText r).2.merge draws).imported
          ((s.importText r).1 + (s.importText r).2.history.growth draws) := rfl

theorem importHistory_of_error {e : DrawError} (h : RawDraw.toHistory r.draws = .error e) :
    s.importHistory r = (.refused e.message.toList,(s.importText r).2) := by
  have hdraws : r.draws.isEmpty = false := by
    cases hr : r.draws with
    | nil =>
      rw [hr] at h
      cases h
    | cons => rfl
  rw [importHistory_eq,hdraws,h]
  rfl

theorem importHistory_of_ok {draws : List Draw} (h : RawDraw.toHistory r.draws = .ok draws) :
    ∃ added, ∃ after : State, s.importHistory r = after.imported added ∧
      after.history.size = s.history.size + added := by
  have htext := size_importText s r
  rw [importHistory_eq]
  split
  · exact ⟨_,_,rfl,htext⟩
  · rw [h]
    refine ⟨_,_,rfl,?_⟩
    rw [← Nat.add_assoc,← htext]
    exact History.Store.size_merge _ draws

/-- An import is refused just if a draw breaks a rule, and else answered by the number of periods
that are new and of all there are. A refused import leaves what the import of its text alone leaves:
the listeners have been told of a change just if there was a text, and the draws are those before
just if all draws of the text were there already. -/
theorem importHistory_answer (s : State) (r : Import) :
    ∃ response after, s.importHistory r = (response,after) ∧
      (response.status = 200 ∨ response.status = 400) ∧
      (response.status = 400 ↔ ∃ e, RawDraw.toHistory r.draws = .error e) ∧
      (response.status = 200 → ∃ added : ℕ, after.history.size = s.history.size + added ∧
        response.body = .record [("added",.int added),("total",.int after.history.size)]) ∧
      (response.status = 400 →
        after = (s.importHistory { r with draws := [] }).2 ∧
        after.history.told = s.history.told.map (· + r.textDraws?.isSome.toNat) ∧
        (after.history.toList = s.history.toList ↔ ∀ draws, r.textDraws? = some draws →
          ∀ d ∈ draws, s.history.get? d.period = some d) ∧
        (r.text = none ∨ r.text = some [] → after = s)) := by
  cases h : RawDraw.toHistory r.draws with
  | error e =>
    refine ⟨_,_,importHistory_of_error h,.inr rfl,⟨fun _ => ⟨e,rfl⟩,fun _ => rfl⟩,nofun,
      fun _ => ⟨rfl,told_importText s r,toList_importText_eq_iff s r,fun htext => ?_⟩⟩
    have hnone : r.textDraws? = none := by
      unfold Import.textDraws?
      rcases htext with htext | htext <;> rw [htext]
    rw [importText_of_none hnone]
  | ok draws =>
    obtain ⟨added,after,hanswer,hsize⟩ := importHistory_of_ok (s := s) h
    refine ⟨_,_,hanswer,.inl rfl,⟨nofun,nofun⟩,fun _ => ⟨added,hsize,rfl⟩,nofun⟩

/-- A text with a draw, and a draw in which a number is repeated. -/
def halfBad : Import := ⟨some "1 1 2 3 4 5 6 7".toList,[⟨2,[1,1,2,3,4,5,6],7,none,none⟩],7⟩

/-- A refused import changes the history, tells the listener and saves. -/
theorem importHistory_halfBad : ∃ response after,
    (empty .default).importHistory halfBad = (response,after) ∧ response.status = 400 ∧
      (empty .default).history.toList.length = 0 ∧ after.history.toList.length = 1 ∧
      after.history.told = [1] ∧ (empty .default).saved = none ∧ after.saved.isSome := by
  refine ⟨_,_,rfl,?_,rfl,?_,?_,rfl,?_⟩
  · decide
  · decide
  · decide
  · decide

end Service.State

end DrawFormula
