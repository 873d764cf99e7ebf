import DrawFormula.Favorites.Operation
import DrawFormula.Proofs.Text.Integer
import Mathlib.Data.List.Nodup
import Mathlib.Data.List.Perm.Subperm

/-! # Groups of favorites

As long as all entries are groups, each operation on a collection is an operation on its list of
groups. A new group gets the first free identifier from the time on, for among one more time than
there are groups one is free. To add or remove a formula changes the formulas of the groups with an
identifier and nothing else. So groups keep different identifiers and have no formula twice.
-/
namespace DrawFormula.Favorites
variable {id formula : Text} {g : Group} {gs : List Group} {clock : Clock} {c : Collection}

/-- Whether groups have different identifiers and no formula twice, and their other fields have
names of their own. -/
structure Arranged (gs : List Group) : Prop where
  ids : (gs.map Group.id).Nodup
  formulas : ∀ g ∈ gs, g.formulas.Nodup
  others : ∀ g ∈ gs, ∀ f ∈ g.others, f.1 ≠ "id".toList ∧ f.1 ≠ "formulas".toList

theorem arranged_nil : Arranged [] where
  ids := List.nodup_nil
  formulas _ hg := absurd hg List.not_mem_nil
  others _ hg := absurd hg List.not_mem_nil

/-! ## Reading groups back -/

theorem texts?_map_str (formulas : List Text) :
    texts? (.arr (formulas.map .str)) = some formulas := by
  rw [texts?]
  induction formulas with
  | nil => rfl
  | cons f rest ih =>
    rw [List.map_cons,List.mapM_cons,ih]
    rfl

theorem ofJson_toJson (h : ∀ f ∈ g.others, f.1 ≠ "id".toList ∧ f.1 ≠ "formulas".toList) :
    Entry.ofJson (Entry.group g).toJson = .group g := by
  have hid : (Entry.group g).toJson.field? "id" = some (.str g.id) := rfl
  have hformulas : (Entry.group g).toJson.field? "formulas" =
      some (.arr (g.formulas.map .str)) := rfl
  have htexts : texts? (.arr (g.formulas.map .str)) = some g.formulas := texts?_map_str g.formulas
  have hothers : ((Entry.group g).toJson.fields?.getD []).filter (fun f =>
      f.1 ≠ "id".toList ∧ f.1 ≠ "formulas".toList) = g.others := by
    have hfields : (Entry.group g).toJson.fields?.getD [] = ("id".toList,.str g.id) ::
        ("formulas".toList,.arr (g.formulas.map .str)) :: g.others := rfl
    rw [hfields,List.filter_cons_of_neg (by simp),List.filter_cons_of_neg (by simp)]
    exact List.filter_eq_self.mpr fun f hf => decide_eq_true (h f hf)
  simp only [Entry.ofJson,hid,hformulas,Option.bind_some,Json.str?,htexts]
  rw [hothers]

/-! ## Finding groups -/

theorem split_groups (id : Text) (gs : List Group) :
    (split id (gs.map .group) = .ok none ∧ ∀ g ∈ gs, g.id ≠ id) ∨
      ∃ before g after, gs = before ++ g :: after ∧ g.id = id ∧
        split id (gs.map .group) = .ok (some (before.map .group,.group g,after.map .group)) := by
  induction gs with
  | nil => exact .inl ⟨rfl,fun _ hg => absurd hg List.not_mem_nil⟩
  | cons g rest ih =>
    by_cases hg : g.id = id
    · refine .inr ⟨[],g,rest,rfl,hg,?_⟩
      simp only [List.map_cons,split,Entry.hasId,hg,decide_true,List.map_nil]
    · rcases ih with ⟨hnone,hrest⟩ | ⟨before,x,after,rfl,hx,hsome⟩
      · refine .inl ⟨?_,List.forall_mem_cons.mpr ⟨hg,hrest⟩⟩
        simp only [List.map_cons,split,Entry.hasId,hg,decide_false,hnone]
      · refine .inr ⟨g :: before,x,after,rfl,hx,?_⟩
        simp only [List.map_cons,split,Entry.hasId,hg,decide_false,hsome]

theorem without_groups (id : Text) (gs : List Group) :
    Collection.without id (gs.map .group) = .ok ((gs.filter fun g => g.id ≠ id).map .group) := by
  induction gs with
  | nil => rfl
  | cons g rest ih =>
    rw [List.map_cons,Collection.without,ih,List.filter_cons]
    by_cases hg : g.id = id <;> simp [Entry.hasId,hg,bind,Except.bind,pure,Except.pure]

/-! ## A free identifier -/

theorem stampId_injective : Function.Injective stampId := fun _ _ h =>
  Text.ofInt_injective (List.cons.inj (List.cons.inj h).2).2

theorem freeTime_cases (gs : List Group) (fuel : ℕ) (time : ℤ) :
    ∃ t, freeTime (gs.map .group) fuel time = .ok t ∧ time ≤ t ∧
      (∀ u, time ≤ u → u < t → stampId u ∈ gs.map Group.id) ∧
      (stampId t ∉ gs.map Group.id ∨ t = time + fuel) := by
  induction fuel generalizing time with
  | zero => exact ⟨time,rfl,Int.le_refl _,fun u _ _ => by omega,.inr (by omega)⟩
  | succ fuel ih =>
    rcases split_groups (stampId time) gs with ⟨hnone,hfree⟩ | ⟨before,g,after,hgs,hg,hsome⟩
    · refine ⟨time,by simp only [freeTime,hnone],Int.le_refl _,fun u _ _ => by omega,.inl ?_⟩
      rintro hmem
      obtain ⟨g,hg,hid⟩ := List.mem_map.mp hmem
      exact hfree g hg hid
    · obtain ⟨t,ht,hle,htaken,hend⟩ := ih (time + 1)
      refine ⟨t,by simp only [freeTime,hsome,ht],by omega,fun u hu hut => ?_,?_⟩
      · rcases Int.lt_or_eq_of_le hu with hu | rfl
        · exact htaken u (by omega) hut
        · exact List.mem_map.mpr ⟨g,hgs ▸ List.mem_append_right _ List.mem_cons_self,hg⟩
      · exact hend.imp_right fun h => by omega

/-- Of one more time than there are groups one has a free identifier. -/
theorem exists_free (gs : List Group) (time : ℤ) :
    ∃ u, time ≤ u ∧ u ≤ time + gs.length ∧ stampId u ∉ gs.map Group.id := by
  by_contra hnone
  push Not at hnone
  have hnodup : ((List.range (gs.length + 1)).map fun k : ℕ => stampId (time + k)).Nodup := by
    refine List.Nodup.map (fun j k h => ?_) List.nodup_range
    have := stampId_injective h
    omega
  have hsubset : ((List.range (gs.length + 1)).map fun k : ℕ => stampId (time + k)) ⊆
      gs.map Group.id := by
    intro t ht
    obtain ⟨k,hk,rfl⟩ := List.mem_map.mp ht
    have hk := List.mem_range.mp hk
    exact hnone (time + k) (by omega) (by omega)
  have hlength := (List.subperm_of_subset hnodup hsubset).length_le
  simp only [List.length_map,List.length_range] at hlength
  omega

theorem freeTime_groups (gs : List Group) (time : ℤ) :
    ∃ t, freeTime (gs.map .group) gs.length time = .ok t ∧ time ≤ t ∧
      stampId t ∉ gs.map Group.id ∧ ∀ u, time ≤ u → u < t → stampId u ∈ gs.map Group.id := by
  obtain ⟨t,ht,hle,htaken,hend⟩ := freeTime_cases gs gs.length time
  refine ⟨t,ht,hle,?_,htaken⟩
  rcases hend with hfree | rfl
  · exact hfree
  · obtain ⟨u,hle,hu,hfree⟩ := exists_free gs time
    rcases Int.lt_or_eq_of_le hu with hlt | rfl
    · exact absurd (htaken u hle hlt) hfree
    · exact hfree

/-! ## What a collection shows -/

/-- Whether these are the groups when a collection is looked at. -/
def Collection.Shows (clock : Clock) (c : Collection) (gs : List Group) : Prop :=
  (c.opened clock).entries = gs.map .group

/-- The groups that are shown where these are kept, with the default group if there is none. -/
def orDefault (time : ℤ) (gs : List Group) : List Group :=
  if gs.isEmpty then [newGroup defaultId defaultName time] else gs

namespace Collection

theorem opened_opened (clock : Clock) (c : Collection) :
    (c.opened clock).opened clock = c.opened clock := by
  by_cases h : c.entries.isEmpty
  · have hopened : c.opened clock =
        ⟨[.group (newGroup defaultId defaultName (clock c.readings))],c.readings + 1⟩ := if_pos h
    rw [hopened]
    rfl
  · have hopened : c.opened clock = c := if_neg h
    rw [hopened,hopened]

theorem shows_mk (clock : Clock) (gs : List Group) (readings : ℕ) :
    Shows clock ⟨gs.map .group,readings⟩ (orDefault (clock readings) gs) := by
  unfold Shows opened orDefault
  cases gs <;> rfl

theorem shows_of_entries (h : c.entries = gs.map .group) (hne : gs ≠ []) : c.Shows clock gs := by
  have hentries : ¬c.entries.isEmpty := by simpa [h] using hne
  rw [Shows,opened,if_neg hentries]
  exact h

namespace Shows

theorem opened (h : c.Shows clock gs) : (c.opened clock).Shows clock gs := by
  rw [Shows,opened_opened]
  exact h

/-- What is shown is read back from the form it is written in. -/
theorem entriesOf_toJson (h : c.Shows clock gs) (hgs : Arranged gs) :
    entriesOf (c.opened clock).toJson = .ok (gs.map .group) := by
  have hentries : (c.opened clock).entries = gs.map .group := h
  have hread : ((gs.map Entry.group).map Entry.toJson).map Entry.ofJson = gs.map .group := by
    rw [List.map_map,List.map_map]
    exact List.map_congr_left fun g hg => ofJson_toJson (hgs.others g hg)
  rw [Collection.toJson,hentries]
  exact congrArg Except.ok hread

theorem ne_nil (h : c.Shows clock gs) : gs ≠ [] := by
  rintro rfl
  unfold Shows Collection.opened at h
  split at h
  · cases h
  · next hne => exact hne (by rw [h]; rfl)

theorem groups_eq {gs' : List Group} (h : c.Shows clock gs) (h' : c.Shows clock gs') : gs = gs' :=
  List.map_injective_iff.mpr (fun _ _ => Entry.group.inj) (h.symm.trans h')

end Shows

end Collection

theorem others_newGroup {id : Text} {name : Json} {created : ℤ} :
    ∀ f ∈ (newGroup id name created).others, f.1 ≠ "id".toList ∧ f.1 ≠ "formulas".toList := by
  simp [newGroup]

theorem arranged_orDefault (h : Arranged gs) (time : ℤ) : Arranged (orDefault time gs) := by
  unfold orDefault
  split
  · exact ⟨List.nodup_singleton _,List.forall_mem_singleton.mpr List.nodup_nil,
      List.forall_mem_singleton.mpr others_newGroup⟩
  · exact h

/-! ## Changing formulas -/

/-- The group with its formulas changed by `f`, if it has the identifier and `f` has an answer. -/
def Group.changed (id : Text) (f : List Text → Option (List Text)) (g : Group) : Group :=
  if g.id = id then { g with formulas := (f g.formulas).getD g.formulas } else g

variable {f : List Text → Option (List Text)}

theorem Group.id_changed (id : Text) (f : List Text → Option (List Text)) (g : Group) :
    (g.changed id f).id = g.id := by
  unfold changed
  split <;> rfl

theorem Group.changed_of_ne (h : g.id ≠ id) : g.changed id f = g := if_neg h

theorem Group.changed_of_none (h : f g.formulas = none) : g.changed id f = g := by
  unfold changed
  rw [h]
  split <;> rfl

theorem map_changed_eq_self (h : ∀ g ∈ gs, g.id = id → f g.formulas = none) :
    gs.map (Group.changed id f) = gs := by
  refine (List.map_congr_left fun g hg => ?_).trans (List.map_id gs)
  by_cases hid : g.id = id
  · exact Group.changed_of_none (h g hg hid)
  · exact Group.changed_of_ne hid

theorem map_changed_split {before after : List Group} {formulas : List Text}
    (h : ((before ++ g :: after).map Group.id).Nodup) (hf : f g.formulas = some formulas) :
    (before ++ g :: after).map (Group.changed g.id f) =
      before ++ { g with formulas := formulas } :: after := by
  simp only [List.map_append,List.map_cons,List.nodup_append,List.nodup_cons] at h
  have hbefore : before.map (Group.changed g.id f) = before := map_changed_eq_self fun x hx hid =>
    absurd hid (h.2.2 x.id (List.mem_map_of_mem hx) g.id List.mem_cons_self)
  have hafter : after.map (Group.changed g.id f) = after := map_changed_eq_self fun x hx hid =>
    absurd (hid ▸ List.mem_map_of_mem hx) h.2.1.1
  rw [List.map_append,List.map_cons,hbefore,hafter,Group.changed,if_pos rfl,hf,Option.getD_some]

/-- To change formulas is to change the formulas of a group with the identifier, if there is one. -/
theorem changeFormulas_groups (h : c.Shows clock gs) (hids : (gs.map Group.id).Nodup)
    (id : Text) (f : List Text → Option (List Text)) (foreign : Json → Except Error (Option Json)) :
    ∃ any c', c.changeFormulas clock id f foreign = (.ok any,c') ∧
      c'.entries = (gs.map (Group.changed id f)).map .group ∧
      (any = true ↔ ∃ g ∈ gs, g.id = id ∧ (f g.formulas).isSome) := by
  have hentries : (c.opened clock).entries = gs.map .group := h
  unfold Collection.changeFormulas
  rcases split_groups id gs with ⟨hnone,hfree⟩ | ⟨before,g,after,rfl,rfl,hsome⟩
  · refine ⟨false,c.opened clock,by simp only [hentries,hnone],?_,?_⟩
    · rw [map_changed_eq_self fun g hg hid => absurd hid (hfree g hg)]
      exact h
    · simpa using fun g hg hid => absurd hid (hfree g hg)
  · have hmem : g ∈ before ++ g :: after := List.mem_append_right _ List.mem_cons_self
    cases hf : f g.formulas with
    | none =>
      -- no other group has the identifier
      have hnone : ∀ x ∈ before ++ g :: after, x.id = g.id → f x.formulas = none :=
        fun x hx hid => List.inj_on_of_nodup_map hids hx hmem hid ▸ hf
      refine ⟨false,c.opened clock,by simp only [hentries,hsome,hf],?_,?_⟩
      · rw [map_changed_eq_self hnone]
        exact h
      · refine ⟨nofun,?_⟩
        rintro ⟨x,hx,hid,hchanged⟩
        rw [hnone x hx hid] at hchanged
        cases hchanged
    | some formulas =>
      refine ⟨true,⟨before.map .group ++ .group { g with formulas := formulas } ::
        after.map .group,(c.opened clock).readings⟩,by simp only [hentries,hsome,hf],?_,
        fun _ => ⟨g,hmem,rfl,hf ▸ rfl⟩,fun _ => rfl⟩
      rw [map_changed_split hids hf,List.map_append,List.map_cons]

end DrawFormula.Favorites
