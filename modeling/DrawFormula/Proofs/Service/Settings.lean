import DrawFormula.Proofs.Json.RoundTrip
import DrawFormula.Proofs.Service.Calls

/-! # Settings of a service

Settings are changed by the calls that put them, and by no other call. A call that gives settings
integers or nothing is accepted as long as the number of periods, if it gives one, is positive; so a
setting has what the last accepted call gave it, and a call that is not accepted changes nothing.
The number of periods itself may be set to nothing. The file of the settings is read back as them.
-/
namespace DrawFormula

namespace Checked
variable {α : Type} {a : α}

theorem under_eq_ok_iff {c : Checked α} {step : Text} : c.under step = .ok a ↔ c = .ok a := by
  cases c <;> simp [under]

theorem map_eq_ok_iff {β : Type} {c : Checked α} {f : α → β} {b : β} :
    c.map f = .ok b ↔ ∃ a, c = .ok a ∧ f a = b := by
  cases c <;> simp [map]

theorem all_eq_ok_iff {cs : List (Checked α)} {as : List α} :
    all cs = .ok as ↔ cs = as.map .ok := by
  induction cs generalizing as with
  | nil => cases as <;> simp [all]
  | cons c rest ih =>
    cases as with
    | nil => cases c <;> cases hrest : all rest <;> simp [all,map,apply,hrest]
    | cons a as =>
      rw [List.map_cons,List.cons.injEq,← ih]
      cases c <;> cases hrest : all rest <;> simp [all,map,apply,hrest]

end Checked

namespace Setting

theorem mem_all (name : Setting) : name ∈ Setting.all := by
  cases name <;> decide

theorem ofName?_name (name : Setting) : ofName? name.name = some name := by
  cases name <;> rfl

theorem nodup_names : (all.map name).Nodup := by decide

end Setting

/-! ## The file of settings -/

namespace Settings

theorem ext {s s' : Settings} (h : ∀ name, s.value name = s'.value name) : s = s' := by
  cases s
  cases s'
  exact congrArg mk (funext h)

theorem update_cons (s : Settings) (name : Setting) (v : Json) (rest : List (Text × Json)) :
    s.update ((name.name,v) :: rest) = (s.set name v).update rest := by
  rw [update,List.foldl_cons]
  simp only [Setting.ofName?_name]
  rfl

/-- Each of the named settings is set to its new value, if there is one. -/
theorem value_update (g : Setting → Option Json) (names : List Setting) (s : Settings)
    (name : Setting) :
    (s.update (names.filterMap fun n => (g n).map (Prod.mk n.name))).value name =
      if name ∈ names then (g name).getD (s.value name) else s.value name := by
  induction names generalizing s with
  | nil => rfl
  | cons first rest ih =>
    cases hfirst : g first with
    | none =>
      rw [List.filterMap_cons_none (by simp [hfirst]),ih]
      by_cases hname : name = first
      · subst hname
        simp [hfirst]
      · simp [hname]
    | some v =>
      rw [List.filterMap_cons_some (b := (first.name,v)) (by simp [hfirst]),update_cons,ih]
      by_cases hname : name = first
      · subst hname
        simp [hfirst,set]
      · simp [hname,set]

theorem ofJson_toJson (s : Settings) : ofJson s.toJson = .ok s := by
  refine congrArg Except.ok (ext fun name => ?_)
  have hvalue := value_update (fun n => some (s.value n)) Setting.all default name
  simp only [Option.map_some,List.filterMap_eq_map',if_pos name.mem_all] at hvalue
  exact hvalue

theorem plain_toJson {s : Settings} (h : ∀ name, (s.value name).Plain) : s.toJson.Plain := by
  have hfields (names : List Setting) :
      Json.PlainFields (names.map fun n => (n.name,s.value n)) := by
    induction names with
    | nil => trivial
    | cons first rest ih => exact ⟨h first,ih⟩
  refine ⟨?_,hfields Setting.all⟩
  rw [List.map_map]
  exact Setting.nodup_names

/-- Settings without fractions and with readable integers are those of their own file. -/
theorem ofText_text {s : Settings} (h : ∀ name, (s.value name).Plain) : ofText s.text = .ok s := by
  rw [ofText,text,Json.read_indented (plain_toJson h)]
  exact ofJson_toJson s

theorem ofText_blankText : ofText blankText = .ok default := rfl

end Settings

namespace Service
variable {clock : Favorites.Clock} {s : State} {c : Call} {name : Setting}

/-! ## What a call gives -/

/-- What a value says that a setting is to be: an integer or nothing. -/
def meaning? (v : Json) : Option (Option ℤ) :=
  match Checked.optional Checked.int v with
  | .ok x => some x
  | .bad _ => none

namespace Call

/-- The value in the body of a call for a setting. -/
def sent? (c : Call) (name : Setting) : Option Json :=
  ((c.body.bind Json.fields?).bind fun fs => fs.find? fun f => f.1 = name.name).map Prod.snd

/-- What a call gives for a setting. -/
def given? (c : Call) (name : Setting) : Option (Option ℤ) := (c.sent? name).bind meaning?

/-- Whether the body of a call has fields, and integers or nothing in those of settings. -/
def WellFormed (c : Call) : Prop :=
  (∃ fs, c.body = some (.obj fs)) ∧ ∀ name v, c.sent? name = some v → ∃ x, meaning? v = some x

/-- Whether a call gives a number of periods that is not positive. -/
def GivesBadPeriods (c : Call) : Prop := ∃ n ≤ 0, c.given? .periods = some (some n)

/-- What a call gives for settings, in the order of settings. -/
def changes (c : Call) : Changes :=
  Setting.all.filterMap fun name => (c.given? name).map (Prod.mk name)

end Call

theorem meaning?_eq_some_iff {v : Json} {x : Option ℤ} :
    meaning? v = some x ↔ Checked.optional Checked.int v = .ok x := by
  unfold meaning?
  cases Checked.optional Checked.int v <;> simp

theorem Call.mem_changes {x : Option ℤ} : (name,x) ∈ c.changes ↔ c.given? name = some x := by
  simp [changes,Setting.mem_all]

theorem areAllowed_changes : c.changes.areAllowed = true ↔ ¬ c.GivesBadPeriods := by
  simp only [Changes.areAllowed,List.all_eq_true,Call.GivesBadPeriods,not_exists,not_and]
  constructor
  · intro hall n hn hgiven
    have hpositive := hall _ (Call.mem_changes.mpr hgiven)
    simp at hpositive
    omega
  · rintro hnone ⟨name,x⟩ hmem
    have hgiven := Call.mem_changes.mp hmem
    cases x with
    | none => simp
    | some n =>
      by_cases hname : name = .periods
      · subst hname
        have hpositive : ¬ n ≤ 0 := fun hle => hnone n hle hgiven
        simpa using hpositive
      · simp [hname]

/-- A field of a setting asks for what it gives. -/
theorem ofField?_eq {fs : List (Text × Json)} (h : c.body = some (.obj fs)) (name : Setting) :
    Changes.ofField? fs name = (c.sent? name).map fun v =>
      ((Checked.optional Checked.int v).under name.name).map fun x => (name,x) := by
  simp only [Call.sent?,h,Option.bind_some,Json.fields?,Option.map_map]
  rfl

theorem checkBody_changes (h : c.WellFormed) : c.checkBody Changes.check = .ok c.changes := by
  obtain ⟨⟨fs,hfs⟩,hvalues⟩ := h
  have hall : Setting.all.filterMap (Changes.ofField? fs) = c.changes.map .ok := by
    rw [Call.changes,List.map_filterMap]
    refine List.filterMap_congr fun name _ => ?_
    rw [ofField?_eq hfs,Call.given?]
    cases hsent : c.sent? name with
    | none => rfl
    | some v =>
      obtain ⟨x,hx⟩ := hvalues name v hsent
      simp [hx,meaning?_eq_some_iff.mp hx,Checked.under,Checked.map]
  rw [Call.checkBody,hfs,Checked.under_eq_ok_iff]
  exact Checked.all_eq_ok_iff.mpr hall

theorem wellFormed_of_checkBody {changes : Changes} (h : c.checkBody Changes.check = .ok changes) :
    c.WellFormed := by
  rw [Call.checkBody,Checked.under_eq_ok_iff] at h
  split at h
  · cases h
  · cases h
  · next v hnull hv =>
    cases v with
    | obj fs =>
      refine ⟨⟨fs,hv⟩,fun name v' hsent => ?_⟩
      have hall := Checked.all_eq_ok_iff.mp h
      have hfield := ofField?_eq hv name
      rw [hsent,Option.map_some] at hfield
      have hmem := List.mem_filterMap.mpr ⟨name,Setting.mem_all name,hfield⟩
      rw [hall,List.mem_map] at hmem
      obtain ⟨change,-,hok⟩ := hmem
      obtain ⟨x,hx,-⟩ := Checked.map_eq_ok_iff.mp hok.symm
      exact ⟨x,meaning?_eq_some_iff.mpr (Checked.under_eq_ok_iff.mp hx)⟩
    | _ => cases h

/-! ## What a call changes -/

/-- The value that a setting is given, or else the one it had. -/
def given (old : Json) (new : Option (Option ℤ)) : Json := (new.map (Json.opt .int)).getD old

theorem value_update_changes (settings : Settings) (c : Call) (name : Setting) :
    (settings.update c.changes.toFields).value name =
      given (settings.value name) (c.given? name) := by
  have hvalue := Settings.value_update (fun n => (c.given? n).map (Json.opt .int)) Setting.all
    settings name
  rw [if_pos name.mem_all] at hvalue
  rw [Changes.toFields,Call.changes,List.map_filterMap]
  simp only [Option.map_map] at hvalue ⊢
  exact hvalue

/-- A call that puts settings is not well formed, or it is refused, or it is accepted and gives
settings what it gives. -/
theorem answer_put_cases (clock : Favorites.Clock) (s : State) (h : c.Uses .settings .put) :
    (¬ c.WellFormed ∧ ∃ problems, c.answer clock s = (.invalid problems,s)) ∨
    (c.WellFormed ∧ c.GivesBadPeriods ∧
      c.answer clock s = (.refused "periods must be positive".toList,s)) ∨
    (c.WellFormed ∧ ¬ c.GivesBadPeriods ∧ ∃ settings : Settings,
      c.answer clock s = (.value settings.toJson,{ s with settings := settings }) ∧
      ∀ name, settings.value name = given (s.settings.value name) (c.given? name)) := by
  rw [answer_of_uses h,Call.answerOn]
  cases hbody : c.checkBody Changes.check with
  | bad problems =>
    refine .inl ⟨fun hwell => ?_,problems,rfl⟩
    rw [checkBody_changes hwell] at hbody
    cases hbody
  | ok changes =>
    have hwell := wellFormed_of_checkBody hbody
    rw [checkBody_changes hwell] at hbody
    obtain rfl := Checked.ok.inj hbody
    right
    by_cases hbad : c.GivesBadPeriods
    · refine .inl ⟨hwell,hbad,?_⟩
      rw [Call.withChecked,State.changeSettings,if_neg (by rwa [areAllowed_changes,not_not])]
    · refine .inr ⟨hwell,hbad,s.settings.update c.changes.toFields,?_,
        value_update_changes s.settings c⟩
      rw [Call.withChecked,State.changeSettings,if_pos (areAllowed_changes.mpr hbad)]
      rfl

/-! ## Calls one after the other -/

/-- The state after calls. -/
def State.called (clock : Favorites.Clock) (s : State) (calls : List Call) : State :=
  calls.foldl (fun s c => (c.answer clock s).2) s

/-- Those of the calls that put settings and are answered as asked. -/
def accepted (clock : Favorites.Clock) : State → List Call → List Call
  | _, [] => []
  | s, c :: rest =>
    let others := accepted clock (c.answer clock s).2 rest
    if c.Uses .settings .put ∧ (c.answer clock s).1.status = 200 then c :: others else others

/-- What the last of the calls that give something for a setting gives for it. -/
def lastGiven? (name : Setting) (calls : List Call) : Option (Option ℤ) :=
  calls.reverse.findSome? fun c => c.given? name

theorem given_lastGiven?_cons (old : Json) (name : Setting) (c : Call) (rest : List Call) :
    given old (lastGiven? name (c :: rest)) =
      given (given old (c.given? name)) (lastGiven? name rest) := by
  rw [lastGiven?,List.reverse_cons,List.findSome?_append,List.findSome?_singleton,lastGiven?]
  cases rest.reverse.findSome? fun c => c.given? name <;> rfl

/-- After calls a setting has what the last accepted call that gives something for it gives. -/
theorem value_called (clock : Favorites.Clock) (s : State) (calls : List Call) (name : Setting) :
    (s.called clock calls).settings.value name =
      given (s.settings.value name) (lastGiven? name (accepted clock s calls)) := by
  induction calls generalizing s with
  | nil => rfl
  | cons c rest ih =>
    rw [State.called,List.foldl_cons]
    refine (ih (c.answer clock s).2).trans ?_
    rw [accepted]
    by_cases hput : c.Uses .settings .put
    · rcases answer_put_cases clock s hput with ⟨-,problems,hanswer⟩ | ⟨-,-,hanswer⟩ |
        ⟨-,-,settings,hanswer,hvalues⟩
      · simp [hanswer,Response.status]
      · simp [hanswer,Response.status]
      · rw [hanswer,if_pos ⟨hput,rfl⟩,given_lastGiven?_cons,hvalues]
    · rw [if_neg fun h => hput h.1,settings_answer hput]

theorem not_givesBadPeriods_of_mem {calls : List Call} (h : c ∈ accepted clock s calls) :
    ¬ c.GivesBadPeriods := by
  induction calls generalizing s with
  | nil => cases h
  | cons first rest ih =>
    rw [accepted] at h
    split at h
    · next hput =>
      rcases List.mem_cons.mp h with rfl | hrest
      · rcases answer_put_cases clock s hput.1 with ⟨-,problems,hanswer⟩ | ⟨-,-,hanswer⟩ |
          ⟨-,hgoes,-⟩
        · simp [hanswer,Response.status] at hput
        · simp [hanswer,Response.status] at hput
        · exact hgoes
      · exact ih hrest
    · exact ih h

theorem exists_of_lastGiven? {calls : List Call} {x : Option ℤ}
    (h : lastGiven? name calls = some x) : ∃ c ∈ calls, c.given? name = some x := by
  obtain ⟨c,hc,hgiven⟩ := List.exists_of_findSome?_eq_some h
  exact ⟨c,List.mem_reverse.mp hc,hgiven⟩

/-- The number of periods is a positive integer unless it was set to nothing. -/
theorem periods_called_iff (clock : Favorites.Clock) (s : State) (calls : List Call)
    (h : s.settings.value .periods = Setting.default .periods) :
    (∃ n : ℤ, 0 < n ∧ (s.called clock calls).settings.value .periods = .int n) ↔
      lastGiven? .periods (accepted clock s calls) ≠ some none := by
  rw [value_called,h]
  cases hlast : lastGiven? .periods (accepted clock s calls) with
  | none => exact iff_of_true ⟨15,by decide,rfl⟩ (by simp)
  | some x =>
    cases x with
    | none => simp [given,Json.opt]
    | some n =>
      obtain ⟨c,hc,hgiven⟩ := exists_of_lastGiven? hlast
      refine iff_of_true ⟨n,?_,rfl⟩ (by simp)
      by_contra hn
      exact not_givesBadPeriods_of_mem hc ⟨n,not_lt.mp hn,hgiven⟩

theorem plain_given {old : Json} {new : Option (Option ℤ)} (hold : old.Plain)
    (hnew : ∀ n, new = some (some n) → Text.isWritable n = true) : (given old new).Plain := by
  match new with
  | none => exact hold
  | some none => trivial
  | some (some n) => exact hnew n rfl

theorem plain_default (name : Setting) : name.default.Plain := by
  cases name <;> trivial

/-- Whatever calls a service that starts without settings has answered, it shows for each setting
what the last accepted call that gave it something gave it, or else its default value. A call that
puts settings is accepted just if it is well formed and does not give periods a number that is not
positive; then it gives settings what it gives, and otherwise it changes nothing. Periods are
positive unless the last accepted call that gave them something gave them nothing; and the file of
the settings, as long as their integers can be read, is read back as the settings. -/
theorem settings_called (clock : Favorites.Clock) {s : State} (h : s.settings = .default)
    (calls : List Call) :
    let after := s.called clock calls
    let last := fun name => lastGiven? name (accepted clock s calls)
    (∀ get : Call, get.Uses .settings .get → get.answer clock after = (.value (.obj
      (Setting.all.map fun name => (name.name,given name.default (last name)))),after)) ∧
    (∀ put : Call, put.Uses .settings .put →
      ((put.answer clock after).1.status = 200 ↔ put.WellFormed ∧ ¬ put.GivesBadPeriods) ∧
      ((put.answer clock after).1.status = 400 ↔ put.WellFormed ∧ put.GivesBadPeriods) ∧
      ((put.answer clock after).1.status = 422 ↔ ¬ put.WellFormed) ∧
      ((put.answer clock after).1.status ≠ 200 → (put.answer clock after).2 = after) ∧
      ((put.answer clock after).1.status = 200 → ∃ settings : Settings,
        put.answer clock after = (.value settings.toJson,{ after with settings := settings }) ∧
        ∀ name, settings.value name = given (after.settings.value name) (put.given? name))) ∧
    ((∃ n : ℤ, 0 < n ∧ after.settings.value .periods = .int n) ↔ last .periods ≠ some none) ∧
    ((∀ name n, last name = some (some n) → Text.isWritable n = true) →
      Settings.ofText after.settings.text = .ok after.settings) := by
  intro after last
  have hvalue (name : Setting) : after.settings.value name = given name.default (last name) := by
    rw [value_called,h]
    rfl
  refine ⟨fun get hget => ?_,fun put hput => ?_,periods_called_iff clock s calls (by rw [h]; rfl),
    fun hwritable => Settings.ofText_text fun name => ?_⟩
  · rw [answer_of_uses hget,Call.answerOn,State.showSettings,Settings.toJson]
    simp only [hvalue]
  · rcases answer_put_cases clock after hput with ⟨hwell,problems,hanswer⟩ |
      ⟨hwell,hbad,hanswer⟩ | ⟨hwell,hgoes,settings,hanswer,hvalues⟩
    · simp [hanswer,Response.status,hwell]
    · simp [hanswer,Response.status,hwell,hbad]
    · simp only [hanswer,Response.status]
      simpa [hwell,hgoes] using hvalues
  · rw [hvalue]
    exact plain_given (plain_default name) (hwritable name)

/-- A call that puts settings, with values for some of them. -/
def putCall (fields : List (String × Json)) : Call :=
  ⟨"PUT".toList,⟨["settings".toList],[]⟩,some (.record fields)⟩

theorem uses_putCall (fields : List (String × Json)) : (putCall fields).Uses .settings .put :=
  ⟨rfl,(by decide : Method.ofName? "PUT".toList = some .put)⟩

theorem settings_called_threePuts :
    let clock : Favorites.Clock := fun _ => 0
    let calls := [putCall [("periods",.int 30),("offset",.int 4)],
      putCall [("periods",.int 0),("offset",.int 5)],putCall [("left_expand",.null)]]
    let after := State.called clock (.empty Engine.default) calls
    let put := putCall [("periods",.int (-1))]
    (State.empty Engine.default).settings = .default ∧ put.Uses .settings .put ∧
      (put.answer clock after).1.status = 400 ∧ (put.answer clock after).2 = after ∧
      (∃ n : ℤ, 0 < n ∧ after.settings.value .periods = .int n) ∧
      Settings.ofText after.settings.text = .ok after.settings := by
  intro clock calls after put
  have hstart : (State.empty Engine.default).settings = .default := rfl
  obtain ⟨-,hputs,hperiods,hfile⟩ := settings_called clock hstart calls
  have huses : put.Uses .settings .put := uses_putCall _
  obtain ⟨-,-,-,hsame,-⟩ := hputs put huses
  have hrefused : (put.answer clock after).1.status = 400 := by decide +kernel
  have hwritable : ∀ name ∈ Setting.all, ((lastGiven? name (accepted clock (.empty Engine.default)
      calls)).all fun x => x.all Text.isWritable) = true := by decide +kernel
  refine ⟨hstart,huses,hrefused,hsame fun hok => ?_,hperiods.mpr (by decide +kernel),
    hfile fun name n hlast => ?_⟩
  · exact absurd (hrefused.symm.trans hok) (by decide)
  · have hname := hwritable name name.mem_all
    rw [show lastGiven? name _ = _ from hlast] at hname
    exact hname

/-- The number of periods is set to nothing by an accepted call. -/
theorem answer_periodsNull : let put := putCall [("periods",.null)]
    put.Uses .settings .put ∧
      (put.answer (fun _ => 0) (.empty Engine.default)).1.status = 200 ∧
      ¬ ∃ n : ℤ, 1 ≤ n ∧ (put.answer (fun _ => 0) (.empty Engine.default)).2.settings.value
        .periods = .int n := by
  intro put
  refine ⟨uses_putCall _,by decide +kernel,?_⟩
  have hnull : (put.answer (fun _ => 0) (.empty Engine.default)).2.settings.value .periods =
    .null := rfl
  rw [hnull]
  rintro ⟨n,-,⟨⟩⟩

end Service
end DrawFormula
