import DrawFormula.Service.Call

/-! # What a call changes

A call changes at most one part of what the service holds: the history with its saved table, the
favorites, or the settings. Only the calls that put settings change these.
-/
namespace DrawFormula.Service
variable {clock : Favorites.Clock} {s : State} {c : Call} {r : Resource}

/-- Whether a call uses a method of a resource. -/
def Call.Uses (c : Call) (r : Resource) (m : Method) : Prop :=
  Resource.ofTarget? c.target = some r ∧ Method.ofName? c.method = some m

instance (c : Call) (r : Resource) (m : Method) : Decidable (c.Uses r m) :=
  inferInstanceAs (Decidable (_ ∧ _))

theorem answer_of_uses {m : Method} (h : c.Uses r m) :
    c.answer clock s = c.answerOn clock s r (some m) := by
  rw [Call.answer,h.1,h.2]

/-- A value that is not well formed leaves the state as it is. -/
theorem after_withChecked {P : State → Prop} {α : Type} {checked : Checked α} {f : α → Answer}
    (hs : P s) (h : ∀ a, P (f a).2) : P (Call.withChecked s checked f).2 := by
  cases checked with
  | ok a => exact h a
  | bad problems => exact hs

/-! ## Parts of the state -/

/-- Whether a state has another history and saved table, if anything. -/
def AltersHistory (s s' : State) : Prop :=
  ∃ history saved, s' = { s with history := history, saved := saved }

/-- Whether a state has other favorites, if anything. -/
def AltersFavorites (s s' : State) : Prop := ∃ favorites, s' = { s with favorites := favorites }

theorem altersHistory_importHistory (s : State) (r : Import) :
    AltersHistory s (s.importHistory r).2 := by
  have htext : AltersHistory s (s.importText r).2 := by
    unfold State.importText
    split
    · exact ⟨_,_,rfl⟩
    · exact ⟨_,_,rfl⟩
  obtain ⟨history,saved,heq⟩ := htext
  unfold State.importHistory
  dsimp only
  split
  · exact ⟨history,saved,heq⟩
  split
  · exact ⟨history,saved,heq⟩
  · rw [heq]
    exact ⟨_,_,rfl⟩

theorem after_onFavorites {α : Type} (s : State)
    (r : Except Favorites.Error α × Favorites.Collection) (f : α → Response) :
    (s.onFavorites r f).2 = { s with favorites := r.2 } := by
  unfold State.onFavorites
  dsimp only
  split
  · rfl
  · rfl

theorem altersFavorites_onFavorites {α : Type} (s : State)
    (r : Except Favorites.Error α × Favorites.Collection) (f : α → Response) :
    AltersFavorites s (s.onFavorites r f).2 := ⟨r.2,after_onFavorites s r f⟩

theorem altersFavorites_addGroup (clock : Favorites.Clock) (s : State) (name : Text) :
    AltersFavorites s (s.addGroup clock name).2 := by
  unfold State.addGroup
  split
  · exact ⟨_,rfl⟩
  · exact altersFavorites_onFavorites ..

theorem altersFavorites_addFormula (clock : Favorites.Clock) (s : State) (id formula : Text) :
    AltersFavorites s (s.addFormula clock id formula).2 := by
  unfold State.addFormula
  dsimp only
  split
  · exact ⟨_,rfl⟩
  · exact ⟨_,rfl⟩
  · exact altersFavorites_onFavorites ..

/-! ## Calls -/

/-- Whether a state has another history or other favorites, if anything. -/
def KeepsSettings (s s' : State) : Prop := AltersHistory s s' ∨ AltersFavorites s s'

theorem keepsSettings_self (s : State) : KeepsSettings s s := .inr ⟨_,rfl⟩

theorem keepsSettings_answerOn (clock : Favorites.Clock) (s : State) (c : Call) {m : Option Method}
    (h : ¬ (r = .settings ∧ m = some .put)) : KeepsSettings s (c.answerOn clock s r m).2 := by
  have hself := keepsSettings_self s
  -- one case for each route, in their order
  unfold Call.answerOn
  split
  case h_1 | h_2 | h_3 | h_4 => exact after_withChecked hself fun _ => hself
  case h_5 | h_12 | h_14 => exact hself
  case h_6 => exact after_withChecked hself fun r => .inl (altersHistory_importHistory s r)
  case h_7 => exact .inr ⟨_,rfl⟩
  case h_8 => exact after_withChecked hself fun name => .inr (altersFavorites_addGroup clock s name)
  case h_9 => exact .inr (altersFavorites_onFavorites ..)
  case h_10 id =>
    exact after_withChecked hself fun f => .inr (altersFavorites_addFormula clock s id f)
  case h_11 =>
    exact after_withChecked hself fun _ => .inr (altersFavorites_onFavorites ..)
  case h_13 => exact absurd ⟨rfl,rfl⟩ h

/-- A call that puts no settings changes the history, or the favorites, or nothing. -/
theorem keepsSettings_answer (clock : Favorites.Clock) (s : State) (h : ¬ c.Uses .settings .put) :
    KeepsSettings s (c.answer clock s).2 := by
  unfold Call.answer
  split
  · exact keepsSettings_self s
  · next r hr =>
    refine keepsSettings_answerOn clock s c ?_
    rintro ⟨rfl,hput⟩
    exact h ⟨hr,hput⟩

theorem settings_answer (h : ¬ c.Uses .settings .put) :
    (c.answer clock s).2.settings = s.settings := by
  rcases keepsSettings_answer clock s h with ⟨_,_,heq⟩ | ⟨_,heq⟩
  · rw [heq]
  · rw [heq]

end DrawFormula.Service
