import DrawFormula.Proofs.Favorites.Groups

/-! # What operations on favorites do to the groups

On groups with different identifiers and no formula twice no operation fails. What it does to the
groups and what it answers is said without the entries of a file: `Operation.Suits` relates the
groups before, the answer and the groups after. The groups stay as well arranged as they are.
-/
namespace DrawFormula.Favorites
variable {op : Operation} {reply : Reply} {gs gs' gs'' : List Group} {clock : Clock}
  {c : Collection} {id formula : Text} {any : Bool}

/-! ## Operations on groups -/

/-- The group with one more formula, unless it is there. -/
def Group.add (formula : Text) (g : Group) : Group :=
  if formula ∈ g.formulas then g else { g with formulas := g.formulas ++ [formula] }

/-- The group without a formula. -/
def Group.remove (formula : Text) (g : Group) : Group :=
  { g with formulas := g.formulas.filter fun f => f ≠ formula }

/-- The groups with `f` applied to those with an identifier. -/
def addressed (id : Text) (f : Group → Group) (gs : List Group) : List Group :=
  gs.map fun g => if g.id = id then f g else g

/-- Whether an answer and the groups after an operation suit the groups before it. -/
def Operation.Suits (gs : List Group) : Operation → Reply → List Group → Prop
  | .look, .shown entries, gs' => entries = gs.map .group ∧ gs' = gs
  | .addGroup name, .added g, gs' =>
    (∃ time, g = newGroup (stampId time) name time) ∧ g.id ∉ gs.map Group.id ∧ gs' = gs ++ [g]
  | .deleteGroup id, .changed any, gs' =>
    (any = true ↔ id ∈ gs.map Group.id) ∧
      ∃ time, gs' = orDefault time (gs.filter fun g => g.id ≠ id)
  | .addFormula id formula, .changed any, gs' =>
    (any = true ↔ ∃ g ∈ gs, g.id = id ∧ formula ∉ g.formulas) ∧
      gs' = addressed id (Group.add formula) gs
  | .removeFormula id formula, .changed any, gs' =>
    (any = true ↔ ∃ g ∈ gs, g.id = id ∧ formula ∈ g.formulas) ∧
      gs' = addressed id (Group.remove formula) gs
  | _, _, _ => False

theorem addressed_eq_self {f : Group → Group} (h : ∀ g ∈ gs, g.id = id → f g = g) :
    addressed id f gs = gs := by
  refine (List.map_congr_left fun g hg => ?_).trans (List.map_id gs)
  split
  · next hid => exact h g hg hid
  · rfl

theorem filter_ne_eq_self {formulas : List Text} (h : formula ∉ formulas) :
    (formulas.filter fun f => f ≠ formula) = formulas :=
  List.filter_eq_self.mpr fun _ hf => decide_eq_true (ne_of_mem_of_not_mem hf h)

theorem Group.remove_of_not_mem {g : Group} (h : formula ∉ g.formulas) : g.remove formula = g := by
  rw [remove,filter_ne_eq_self h]

theorem Group.remove_add {g : Group} (h : formula ∉ g.formulas) :
    (g.add formula).remove formula = g := by
  have hadd : g.add formula = { g with formulas := g.formulas ++ [formula] } := if_neg h
  rw [hadd,remove,List.filter_append,filter_ne_eq_self h]
  simp

theorem Group.id_add (formula : Text) (g : Group) : (g.add formula).id = g.id := by
  unfold add
  split <;> rfl

theorem Group.others_add (formula : Text) (g : Group) : (g.add formula).others = g.others := by
  unfold add
  split <;> rfl

theorem addressed_ne_nil {f : Group → Group} (hne : gs ≠ []) : addressed id f gs ≠ [] := by
  simpa [addressed] using hne

theorem map_id_addressed {f : Group → Group} (hid : ∀ g, (f g).id = g.id) :
    (addressed id f gs).map Group.id = gs.map Group.id := by
  rw [addressed,List.map_map]
  refine List.map_congr_left fun g _ => ?_
  by_cases hg : g.id = id <;> simp [hg,hid]

theorem addressed_free_iff {f : Group → Group} (hid : ∀ g, (f g).id = g.id) (other : Text) :
    (∀ g ∈ addressed id f gs, g.id ≠ other) ↔ ∀ g ∈ gs, g.id ≠ other := by
  have hmem (gs : List Group) : (∀ g ∈ gs, g.id ≠ other) ↔ other ∉ gs.map Group.id := by simp
  rw [hmem,hmem,map_id_addressed hid]

theorem addressed_addressed {f k : Group → Group} (hid : ∀ g, (f g).id = g.id) (gs : List Group) :
    addressed id k (addressed id f gs) = addressed id (fun g => k (f g)) gs := by
  rw [addressed,addressed,List.map_map]
  refine List.map_congr_left fun g _ => ?_
  by_cases hg : g.id = id <;> simp [hg,hid]

theorem orDefault_filter (hid : id ∉ gs.map Group.id) (hne : gs ≠ []) (time : ℤ) :
    orDefault time (gs.filter fun g => g.id ≠ id) = gs := by
  have hkept : (gs.filter fun g => g.id ≠ id) = gs := List.filter_eq_self.mpr fun g hg =>
    decide_eq_true fun hg' => hid (hg' ▸ List.mem_map_of_mem hg)
  rw [hkept,orDefault,if_neg (by simpa using hne)]

/-! ## One operation -/

theorem suits_addGroup (h : c.Shows clock gs) (name : Json) :
    ∃ gs', (c.apply clock (.addGroup name)).2.Shows clock gs' ∧
      (Operation.addGroup name).Suits gs (c.apply clock (.addGroup name)).1 gs' := by
  have hentries : (c.opened clock).entries = gs.map .group := h
  obtain ⟨t,ht,-,hfree,-⟩ := freeTime_groups gs (clock (c.opened clock).readings)
  have hadd : c.addGroup clock name = (.ok (newGroup (stampId t) name t),
      ⟨(gs ++ [newGroup (stampId t) name t]).map .group,(c.opened clock).readings + 1⟩) := by
    simp only [Collection.addGroup,hentries,List.length_map,ht,List.map_append,List.map_cons,
      List.map_nil]
  refine ⟨gs ++ [newGroup (stampId t) name t],?_,?_⟩
  · rw [Collection.apply,hadd]
    exact Collection.shows_of_entries rfl (by simp)
  · rw [Collection.apply,hadd]
    exact ⟨⟨t,rfl⟩,hfree,rfl⟩

theorem suits_deleteGroup (h : c.Shows clock gs) (id : Text) :
    ∃ gs', (c.apply clock (.deleteGroup id)).2.Shows clock gs' ∧
      (Operation.deleteGroup id).Suits gs (c.apply clock (.deleteGroup id)).1 gs' := by
  have hentries : (c.opened clock).entries = gs.map .group := h
  have hlength : (gs.filter fun g => g.id ≠ id).length = gs.length ↔ id ∉ gs.map Group.id := by
    rw [List.length_filter_eq_length_iff]
    simp
  have hdelete : c.deleteGroup clock id =
      if id ∈ gs.map Group.id then
        (.ok true,⟨(gs.filter fun g => g.id ≠ id).map .group,(c.opened clock).readings⟩)
      else (.ok false,c.opened clock) := by
    simp only [Collection.deleteGroup,hentries,without_groups,List.length_map,hlength]
    by_cases hid : id ∈ gs.map Group.id <;>
      simp only [hid,not_true,not_false_eq_true,if_true,if_false]
  rw [Collection.apply,hdelete]
  by_cases hid : id ∈ gs.map Group.id
  · rw [if_pos hid]
    exact ⟨_,Collection.shows_mk clock _ _,iff_of_true rfl hid,_,rfl⟩
  · rw [if_neg hid]
    exact ⟨gs,h.opened,iff_of_false Bool.false_ne_true hid,0,(orDefault_filter hid h.ne_nil 0).symm⟩

theorem addFormula_groups (h : c.Shows clock gs) (hgs : Arranged gs) (id formula : Text) :
    ∃ any c', c.addFormula clock id formula = (.ok any,c') ∧
      c'.entries = (addressed id (Group.add formula) gs).map .group ∧
      (any = true ↔ ∃ g ∈ gs, g.id = id ∧ formula ∉ g.formulas) := by
  obtain ⟨any,c',hadd,hentries,hany⟩ := changeFormulas_groups h hgs.ids id
    (fun formulas => if formulas.contains formula then none else some (formulas ++ [formula]))
    (Foreign.add formula)
  refine ⟨any,c',hadd,hentries.trans (congrArg _ (List.map_congr_left fun g _ => ?_)),
    hany.trans (by simp)⟩
  rw [Group.changed,Group.add]
  by_cases hmem : formula ∈ g.formulas <;> simp [hmem]

theorem removeFormula_groups (h : c.Shows clock gs) (hgs : Arranged gs) (id formula : Text) :
    ∃ any c', c.removeFormula clock id formula = (.ok any,c') ∧
      c'.entries = (addressed id (Group.remove formula) gs).map .group ∧
      (any = true ↔ ∃ g ∈ gs, g.id = id ∧ formula ∈ g.formulas) := by
  obtain ⟨any,c',hremove,hentries,hany⟩ := changeFormulas_groups h hgs.ids id
    (fun formulas =>
      if formulas.contains formula then some (formulas.filter (· ≠ formula)) else none)
    (Foreign.remove formula)
  refine ⟨any,c',hremove,hentries.trans (congrArg _ (List.map_congr_left fun g _ => ?_)),
    hany.trans (by simp)⟩
  rw [Group.changed]
  by_cases hmem : formula ∈ g.formulas
  · simp [hmem,Group.remove]
  · simp [hmem,Group.remove_of_not_mem hmem]

theorem suits_apply (h : c.Shows clock gs) (hgs : Arranged gs) (op : Operation) :
    ∃ gs', (c.apply clock op).2.Shows clock gs' ∧ op.Suits gs (c.apply clock op).1 gs' := by
  cases op with
  | look => exact ⟨gs,h.opened,h,rfl⟩
  | addGroup name => exact suits_addGroup h name
  | deleteGroup id => exact suits_deleteGroup h id
  | addFormula id formula =>
    obtain ⟨any,c',hadd,hentries,hany⟩ := addFormula_groups h hgs id formula
    rw [Collection.apply,hadd]
    exact ⟨_,Collection.shows_of_entries hentries (addressed_ne_nil h.ne_nil),hany,rfl⟩
  | removeFormula id formula =>
    obtain ⟨any,c',hremove,hentries,hany⟩ := removeFormula_groups h hgs id formula
    rw [Collection.apply,hremove]
    exact ⟨_,Collection.shows_of_entries hentries (addressed_ne_nil h.ne_nil),hany,rfl⟩

/-! ## What every operation keeps -/

theorem forall_mem_addressed {f : Group → Group} {P : Group → Prop} (h : ∀ g ∈ gs, P g)
    (hf : ∀ g, P g → P (f g)) : ∀ g ∈ addressed id f gs, P g := by
  rw [addressed,List.forall_mem_map]
  intro g hg
  split
  · exact hf g (h g hg)
  · exact h g hg

theorem arranged_addressed {f : Group → Group} (h : Arranged gs) (hid : ∀ g, (f g).id = g.id)
    (hformulas : ∀ g : Group, g.formulas.Nodup → (f g).formulas.Nodup)
    (hothers : ∀ g, (f g).others = g.others) : Arranged (addressed id f gs) where
  ids := by
    rw [map_id_addressed hid]
    exact h.ids
  formulas := forall_mem_addressed h.formulas hformulas
  others := forall_mem_addressed h.others fun g hg => hothers g ▸ hg

theorem nodup_add {g : Group} (h : g.formulas.Nodup) : (g.add formula).formulas.Nodup := by
  unfold Group.add
  split
  · exact h
  · next hmem => exact List.concat_eq_append ▸ h.concat hmem

theorem arranged_concat_newGroup {id : Text} {name : Json} {created : ℤ} (h : Arranged gs)
    (hid : id ∉ gs.map Group.id) : Arranged (gs ++ [newGroup id name created]) where
  ids := by
    rw [List.map_append,List.map_singleton,← List.concat_eq_append]
    exact h.ids.concat hid
  formulas := List.forall_mem_append.mpr
    ⟨h.formulas,List.forall_mem_singleton.mpr List.nodup_nil⟩
  others := List.forall_mem_append.mpr ⟨h.others,List.forall_mem_singleton.mpr others_newGroup⟩

theorem arranged_filter (h : Arranged gs) (p : Group → Bool) : Arranged (gs.filter p) where
  ids := h.ids.sublist (List.filter_sublist.map _)
  formulas g hg := h.formulas g (List.mem_of_mem_filter hg)
  others g hg := h.others g (List.mem_of_mem_filter hg)

theorem Operation.Suits.arranged (h : op.Suits gs reply gs') (hgs : Arranged gs) : Arranged gs' := by
  cases op <;> cases reply <;> try exact absurd h id
  case look.shown entries =>
    obtain ⟨-,rfl⟩ := h
    exact hgs
  case addGroup.added name g =>
    obtain ⟨⟨time,rfl⟩,hid,rfl⟩ := h
    exact arranged_concat_newGroup hgs hid
  case deleteGroup.changed id any =>
    obtain ⟨-,time,rfl⟩ := h
    exact arranged_orDefault (arranged_filter hgs _) time
  case addFormula.changed id formula any =>
    obtain ⟨-,rfl⟩ := h
    exact arranged_addressed hgs (Group.id_add formula) (fun g hg => nodup_add hg)
      (Group.others_add formula)
  case removeFormula.changed id formula any =>
    obtain ⟨-,rfl⟩ := h
    exact arranged_addressed hgs (fun _ => rfl) (fun g hg => hg.filter _) fun _ => rfl

/-- An operation that answers no leaves the groups as they are. -/
theorem Operation.Suits.eq_of_false (h : op.Suits gs (.changed false) gs') (hne : gs ≠ []) :
    gs' = gs := by
  cases op with
  | look | addGroup => exact absurd h id
  | deleteGroup id =>
    obtain ⟨hany,time,rfl⟩ := h
    exact orDefault_filter (fun hid => Bool.false_ne_true (hany.mpr hid)) hne time
  | addFormula id formula =>
    obtain ⟨hany,rfl⟩ := h
    refine addressed_eq_self fun g hg hid => if_pos ?_
    by_contra hmem
    exact Bool.false_ne_true (hany.mpr ⟨g,hg,hid,hmem⟩)
  | removeFormula id formula =>
    obtain ⟨hany,rfl⟩ := h
    exact addressed_eq_self fun g hg hid => Group.remove_of_not_mem fun hmem =>
      Bool.false_ne_true (hany.mpr ⟨g,hg,hid,hmem⟩)

/-- To remove a formula that was added just before restores the groups. -/
theorem Operation.Suits.restores (hgs : Arranged gs)
    (hadd : (Operation.addFormula id formula).Suits gs (.changed true) gs')
    (hremove : (Operation.removeFormula id formula).Suits gs' reply gs'') :
    reply = .changed true ∧ gs'' = gs := by
  obtain ⟨hany,rfl⟩ := hadd
  obtain ⟨g,hg,rfl,hmem⟩ := hany.mp rfl
  cases reply <;> try exact absurd hremove id
  case changed any =>
  obtain ⟨hany,rfl⟩ := hremove
  constructor
  · have hthere : any = true := by
      refine hany.mpr ⟨g.add formula,List.mem_map.mpr ⟨g,hg,if_pos rfl⟩,g.id_add formula,?_⟩
      rw [Group.add,if_neg hmem]
      exact List.mem_append_right _ (List.mem_singleton_self formula)
    rw [hthere]
  · rw [addressed_addressed (Group.id_add formula)]
    -- the formula was added to the only group with the identifier
    refine addressed_eq_self fun x hx hid => ?_
    rw [List.inj_on_of_nodup_map hgs.ids hx hg hid]
    exact Group.remove_add hmem

/-! ## Where formulas come from -/

/-- What holds of all formulas and of one that is added holds of all formulas afterwards. -/
theorem Operation.Suits.forall_formulas {P : Text → Prop} (h : op.Suits gs reply gs')
    (hgs : ∀ g ∈ gs, ∀ f ∈ g.formulas, P f) (hop : ∀ id f, op = .addFormula id f → P f) :
    ∀ g ∈ gs', ∀ f ∈ g.formulas, P f := by
  cases op <;> cases reply <;> try exact absurd h id
  case look.shown entries =>
    obtain ⟨-,rfl⟩ := h
    exact hgs
  case addGroup.added name g =>
    obtain ⟨⟨time,rfl⟩,-,rfl⟩ := h
    intro x hx
    rcases List.mem_append.mp hx with hx | hx
    · exact hgs x hx
    · exact List.mem_singleton.mp hx ▸ fun f hf => absurd hf List.not_mem_nil
  case deleteGroup.changed id any =>
    obtain ⟨-,time,rfl⟩ := h
    unfold orDefault
    split
    · exact fun g hg => List.mem_singleton.mp hg ▸ fun f hf => absurd hf List.not_mem_nil
    · exact fun g hg => hgs g (List.mem_of_mem_filter hg)
  case addFormula.changed id formula any =>
    obtain ⟨-,rfl⟩ := h
    refine forall_mem_addressed hgs fun g hg => ?_
    unfold Group.add
    split
    · exact hg
    · exact List.forall_mem_append.mpr ⟨hg,List.forall_mem_singleton.mpr (hop id formula rfl)⟩
  case removeFormula.changed id formula any =>
    obtain ⟨-,rfl⟩ := h
    exact forall_mem_addressed hgs fun g hg f hf => hg f (List.mem_of_mem_filter hf)

end DrawFormula.Favorites
