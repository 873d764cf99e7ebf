import DrawFormula.Element.Cache
import Mathlib.Data.Int.Notation
import Mathlib.Data.List.Nodup

/-! # What a memo remembers

Whatever a memo holds was put there; to forget a key or to count a look-up adds nothing. Hence the
memo of element values answers as the draws do, as long as no two draws that are looked up have one
period and different values: a memo whose values are those of some draws keeps this through every
look-up of them. So does a memo without room, which remembers nothing.
-/
namespace DrawFormula

/-! ## Memos -/

namespace Memo
variable {κ ν : Type} [BEq κ] [Hashable κ]

/-! ### Look-ups -/

/-- A look-up is counted by its answer and changes nothing else. -/
theorem snd_get (m : Memo κ ν) (k : κ) : (m.get k).2 =
    { m with
      hits := m.hits + [(m.get k).1].countP Option.isSome
      misses := m.misses + [(m.get k).1].countP Option.isNone } := by
  unfold get
  split <;> rfl

theorem fst_get (m : Memo κ ν) (k : κ) : (m.get k).1 = m.entries[k]?.join := by
  unfold get
  split
  · next v hv => rw [hv]; rfl
  · next hnone =>
    cases hk : m.entries[k]? with
    | none => rfl
    | some v =>
      cases v with
      | none => rfl
      | some v => exact absurd hk (hnone v)

@[simp] theorem entries_get (m : Memo κ ν) (k : κ) : (m.get k).2.entries = m.entries := by
  rw [snd_get]

theorem get_eq_some_iff {m : Memo κ ν} {k : κ} {v : ν} :
    (m.get k).1 = some v ↔ m.entries[k]? = some (some v) := by
  rw [fst_get,Option.join_eq_some_iff]

@[simp] theorem enabled_get (m : Memo κ ν) (k : κ) : (m.get k).2.enabled = m.enabled := by
  rw [snd_get]
  rfl

/-! ### Puts -/

/-- The memo with a new key at the end of its queue. -/
def enqueue (m : Memo κ ν) (k : κ) (v : Option ν) : Memo κ ν :=
  { m with entries := m.entries.insert k v, inserted := m.inserted.push k }

/-- Without room nothing is put; else the value of a key is set where it stands, or a new key goes
to the end of the queue. -/
theorem put_cases (m : Memo κ ν) (k : κ) (v : Option ν) :
    (m.capacity = 0 ∧ m.put k v = m) ∨
      (k ∈ m.entries ∧ m.put k v = { m with entries := m.entries.insert k v }) ∨
      (k ∉ m.entries ∧ 0 < m.capacity ∧
        m.put k v = (if m.capacity ≤ m.size then m.dropOldest else m).enqueue k v) := by
  unfold put
  split
  · next hdisabled => exact .inl ⟨by simpa [enabled] using hdisabled,rfl⟩
  · next henabled =>
    have hpos : 0 < m.capacity := by simpa [enabled,Nat.pos_iff_ne_zero] using henabled
    split
    · next hk => exact .inr (.inl ⟨Std.HashMap.contains_iff_mem.mp hk,rfl⟩)
    · next hk => exact .inr (.inr ⟨mt Std.HashMap.contains_iff_mem.mpr hk,hpos,rfl⟩)

/-- Unless the queue is empty its first key is forgotten. -/
theorem dropOldest_cases (m : Memo κ ν) : (m.keys = [] ∧ m.dropOldest = m) ∨
    ∃ k, m.keys = k :: m.dropOldest.keys ∧ m.forgotten < m.inserted.size ∧
      m.dropOldest = { m with entries := m.entries.erase k, forgotten := m.forgotten + 1 } := by
  unfold dropOldest
  split
  · next k hk =>
    obtain ⟨hlt,hget⟩ := Array.getElem?_eq_some_iff.mp hk
    refine .inr ⟨k,?_,hlt,rfl⟩
    have hdrop := List.drop_eq_getElem_cons (l := m.inserted.toList) (i := m.forgotten) hlt
    rwa [Array.getElem_toList,hget] at hdrop
  · next hnone => exact .inl ⟨List.drop_eq_nil_of_le (by simpa using hnone),rfl⟩

/-- A put leaves the capacity and the counts alone. -/
theorem put_with (m : Memo κ ν) (k : κ) (v : Option ν) : ∃ entries inserted forgotten,
    m.put k v = { m with entries := entries, inserted := inserted, forgotten := forgotten } := by
  obtain ⟨-,hput⟩ | ⟨-,hput⟩ | ⟨-,-,hput⟩ := put_cases m k v
  · exact ⟨_,_,_,hput⟩
  · exact ⟨_,_,_,hput⟩
  · rw [hput]
    split
    · obtain ⟨-,hdrop⟩ | ⟨j,-,-,hdrop⟩ := dropOldest_cases m
      · exact ⟨_,_,_,by rw [hdrop]; rfl⟩
      · exact ⟨_,_,_,by rw [hdrop]; rfl⟩
    · exact ⟨_,_,_,rfl⟩

@[simp] theorem enabled_put (m : Memo κ ν) (k : κ) (v : Option ν) :
    (m.put k v).enabled = m.enabled := by
  obtain ⟨_,_,_,hput⟩ := put_with m k v
  rw [hput]
  rfl

variable [LawfulBEq κ]

theorem get_put_self {m : Memo κ ν} (h : m.enabled = true) (k : κ) (v : ν) :
    ((m.put k (some v)).get k).1 = some v := by
  rw [get_eq_some_iff]
  obtain ⟨hzero,-⟩ | ⟨-,hput⟩ | ⟨-,-,hput⟩ := put_cases m k (some v)
  · simp [enabled,hzero] at h
  · rw [hput]
    exact Std.HashMap.getElem?_insert_self
  · rw [hput]
    exact Std.HashMap.getElem?_insert_self

theorem entries_dropOldest {m : Memo κ ν} {k : κ} {v : Option ν}
    (h : m.dropOldest.entries[k]? = some v) : m.entries[k]? = some v := by
  obtain ⟨-,hdrop⟩ | ⟨j,-,-,hdrop⟩ := dropOldest_cases m
  · rwa [hdrop] at h
  · rw [hdrop,Std.HashMap.getElem?_erase] at h
    split at h
    · cases h
    · exact h

/-- What is remembered after a value was put is that value or was there before. -/
theorem entries_put {m : Memo κ ν} {k j : κ} {v w : Option ν}
    (h : (m.put k v).entries[j]? = some w) :
    k = j ∧ v = w ∨ m.entries[j]? = some w := by
  have hinsert : ∀ {entries : Std.HashMap κ (Option ν)},
      (entries.insert k v)[j]? = some w → k = j ∧ v = w ∨ entries[j]? = some w := by
    intro entries hj
    rw [Std.HashMap.getElem?_insert] at hj
    split at hj
    · next hk => exact .inl ⟨eq_of_beq hk,Option.some.inj hj⟩
    · exact .inr hj
  obtain ⟨-,hput⟩ | ⟨-,hput⟩ | ⟨-,-,hput⟩ := put_cases m k v
  · exact .inr (hput ▸ h)
  · rw [hput] at h
    exact hinsert h
  · rw [hput] at h
    refine (hinsert h).imp_right fun hroom => ?_
    split at hroom
    · exact entries_dropOldest hroom
    · exact hroom

end Memo

/-! ## Element values -/

namespace Element

/-- Whether draws of one period agree on every element. -/
def Consistent (draws : List Draw) : Prop :=
  ∀ d ∈ draws, ∀ d' ∈ draws, d.period = d'.period →
    ∀ (e : Element) (sorted : Bool), e.value d sorted = e.value d' sorted

theorem Consistent.of_eq {draws : List Draw}
    (h : ∀ d ∈ draws, ∀ d' ∈ draws, d.period = d'.period → d = d') : Consistent draws := by
  intro d hd d' hd' hp e sorted
  rw [h d hd d' hd' hp]

theorem Consistent.of_nodup {draws : List Draw} (h : (draws.map Draw.period).Nodup) :
    Consistent draws :=
  .of_eq fun _ hd _ hd' hp => List.inj_on_of_nodup_map h hd hd' hp

/-- Whether every remembered value is that of each of the draws with its period. -/
def Cache.Faithful (draws : List Draw) (cache : Cache) : Prop :=
  ∀ (e : Element) (sorted : Bool), ∀ d ∈ draws, ∀ v : ℤ,
    cache.entries[((e,d.period,sorted) : Key)]? = some (some v) → v = e.value d sorted

theorem Cache.faithful_empty (draws : List Draw) (capacity : ℕ) :
    Cache.Faithful draws (Memo.empty capacity) := by
  intro e sorted d _ v hv
  simp [Memo.empty] at hv

theorem Cache.Faithful.put {draws : List Draw} {cache : Cache} (h : cache.Faithful draws)
    (hc : Consistent draws) {d : Draw} (hd : d ∈ draws) (e : Element) (sorted : Bool) :
    Cache.Faithful draws (cache.put (e,d.period,sorted) (some (e.value d sorted))) := by
  intro e' sorted' d' hd' v hv
  rcases Memo.entries_put hv with ⟨hkey,hvalue⟩ | hold
  · simp only [Prod.mk.injEq] at hkey
    obtain ⟨rfl,hp,rfl⟩ := hkey
    rw [← Option.some.inj hvalue]
    exact hc d hd d' hd' hp e sorted
  · exact h e' sorted' d' hd' v hold

/-- Whether a draw answers every look-up with its own value, and leads from a class of memos into
the class. -/
def Answers (I : Cache → Prop) (d : Draw) : Prop :=
  ∀ (e : Element) (sorted : Bool) (cache : Cache), I cache →
    (e.lookup d sorted cache).1 = e.value d sorted ∧ I (e.lookup d sorted cache).2

theorem Consistent.answers {draws : List Draw} (hc : Consistent draws) {d : Draw}
    (hd : d ∈ draws) : Answers (Cache.Faithful draws) d := by
  intro e sorted cache h
  have hcounted : Cache.Faithful draws (cache.get (e,d.period,sorted)).2 := by
    intro e' sorted' d' hd' v hv
    rw [Memo.entries_get] at hv
    exact h e' sorted' d' hd' v hv
  simp only [lookup]
  split
  · split
    · next v after hget =>
      have hv : (cache.get (e,d.period,sorted)).1 = some v := by rw [hget]
      rw [hget] at hcounted
      exact ⟨h e sorted d hd v (Memo.get_eq_some_iff.mp hv),hcounted⟩
    · next after hget =>
      rw [hget] at hcounted
      exact ⟨rfl,hcounted.put hc hd e sorted⟩
  · exact ⟨rfl,h⟩

theorem lookup_of_get {cache : Cache} (h : cache.enabled = true) {e : Element} {d : Draw}
    {sorted : Bool} {v : ℤ} (hget : (cache.get (e,d.period,sorted)).1 = some v) :
    (e.lookup d sorted cache).1 = v := by
  simp only [lookup,h,if_true]
  split
  · next w after hfound =>
    rw [hfound] at hget
    exact Option.some.inj hget
  · next after hfound =>
    rw [hfound] at hget
    cases hget

theorem get_lookup {cache : Cache} (h : cache.enabled = true) (e : Element) (d : Draw)
    (sorted : Bool) : (e.lookup d sorted cache).2.enabled = true ∧
      ((e.lookup d sorted cache).2.get (e,d.period,sorted)).1 =
        some (e.lookup d sorted cache).1 := by
  have hcounted := Memo.enabled_get cache (e,d.period,sorted)
  simp only [lookup,h,if_true]
  split
  · next v after hget =>
    have hv : (cache.get (e,d.period,sorted)).1 = some v := by rw [hget]
    have hafter : (cache.get (e,d.period,sorted)).2 = after := by rw [hget]
    subst hafter
    rw [Memo.get_eq_some_iff] at hv ⊢
    exact ⟨by rw [hcounted,h],by rwa [Memo.entries_get]⟩
  · next after hget =>
    rw [hget,h] at hcounted
    exact ⟨by rw [Memo.enabled_put,hcounted],Memo.get_put_self hcounted _ _⟩

/-- A memo with room answers for every draw of a period as it did for the one before. -/
theorem lookup_lookup {cache : Cache} (h : cache.enabled = true) (e : Element) {d d' : Draw}
    (hp : d'.period = d.period) (sorted : Bool) :
    (e.lookup d' sorted (e.lookup d sorted cache).2).1 = (e.lookup d sorted cache).1 := by
  obtain ⟨henabled,hget⟩ := get_lookup h e d sorted
  exact lookup_of_get henabled (by rw [hp,hget])

/-- A memo without room is never asked. -/
theorem answers_of_disabled (d : Draw) : Answers (fun cache => cache.enabled = false) d := by
  intro e sorted cache h
  simp [lookup,h]

end Element

end DrawFormula
