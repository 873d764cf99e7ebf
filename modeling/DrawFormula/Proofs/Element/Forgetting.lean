import DrawFormula.Proofs.Element.Cache
import Mathlib.Data.List.DropRight
import Mathlib.Data.List.Induction
import Mathlib.Data.Nat.Notation
import Mathlib.Data.Set.Card

/-! # What a memo forgets

The remembered keys stand in a queue. A new key goes to its end, and the first one leaves it when
there is no room; a key that is put again keeps its place. So the keys that are remembered are those
inserted last, and how long a key stays is counted in insertions of other keys.
-/
namespace DrawFormula.Memo
variable {κ ν : Type} [BEq κ] [Hashable κ]

/-! ## Operations -/

/-- What is asked of a memo. -/
inductive Operation (κ ν : Type) where
  | put (k : κ) (v : Option ν)
  | get (k : κ)
  | clear

namespace Operation

def isGet : Operation κ ν → Bool
  | get _ => true
  | _ => false

def isClear : Operation κ ν → Bool
  | clear => true
  | _ => false

/-- The value that is put for a key. -/
def valueFor? (k : κ) : Operation κ ν → Option (Option ν)
  | put j v => if j == k then some v else none
  | _ => none

end Operation

/-- The answer to an operation, and the memo after it. -/
def apply (m : Memo κ ν) : Operation κ ν → Option ν × Memo κ ν
  | .put k v => (none,m.put k v)
  | .get k => m.get k
  | .clear => (none,m.clear)

/-- The memo after operations. -/
def run (m : Memo κ ν) (ops : List (Operation κ ν)) : Memo κ ν :=
  ops.foldl (fun m op => (m.apply op).2) m

/-- The key that an operation inserts: that of a put, if it is absent. -/
def newKey? (m : Memo κ ν) : Operation κ ν → Option κ
  | .put k _ => if k ∈ m.entries then none else some k
  | _ => none

/-- The keys that operations insert while they are absent, in order. -/
def insertedBy (m : Memo κ ν) : List (Operation κ ν) → List κ
  | [] => []
  | op :: rest => (m.newKey? op).toList ++ insertedBy (m.apply op).2 rest

/-- The answers to the look-ups among operations, in order. -/
def answersTo (m : Memo κ ν) : List (Operation κ ν) → List (Option ν)
  | [] => []
  | op :: rest => (if op.isGet then [(m.apply op).1] else []) ++ answersTo (m.apply op).2 rest

/-- The operations after the last one that clears the memo. -/
def sinceClear (ops : List (Operation κ ν)) : List (Operation κ ν) :=
  ops.rtakeWhile fun op => !op.isClear

/-- The value that operations put for a key at last. -/
def lastPut? (k : κ) (ops : List (Operation κ ν)) : Option (Option ν) :=
  ops.reverse.findSome? (Operation.valueFor? k)

section Histories
variable (m : Memo κ ν) (ops : List (Operation κ ν)) (op : Operation κ ν)

@[simp] theorem run_concat : run m (ops ++ [op]) = ((run m ops).apply op).2 := by simp [run]

theorem insertedBy_concat :
    insertedBy m (ops ++ [op]) = insertedBy m ops ++ ((run m ops).newKey? op).toList := by
  induction ops generalizing m with
  | nil => simp [insertedBy,run]
  | cons first rest ih => simpa [insertedBy,run] using ih _

theorem answersTo_concat : answersTo m (ops ++ [op]) =
    answersTo m ops ++ if op.isGet then [((run m ops).apply op).1] else [] := by
  induction ops generalizing m with
  | nil => simp [answersTo,run]
  | cons first rest ih => simpa [answersTo,run] using ih _

theorem length_answersTo : (answersTo m ops).length = ops.countP Operation.isGet := by
  induction ops generalizing m with
  | nil => rfl
  | cons op rest ih =>
    rw [answersTo,List.length_append,ih,List.countP_cons]
    split <;> simp [Nat.add_comm]

omit [Hashable κ] in
theorem lastPut?_concat (k : κ) :
    lastPut? k (ops ++ [op]) = (op.valueFor? k).or (lastPut? k ops) := by
  simp only [lastPut?,List.reverse_append,List.reverse_singleton,List.singleton_append,
    List.findSome?_cons]
  cases op.valueFor? k <;> rfl

omit [BEq κ] [Hashable κ] in
theorem sinceClear_concat :
    sinceClear (ops ++ [op]) = if op.isClear then [] else sinceClear ops ++ [op] := by
  simp only [sinceClear,List.rtakeWhile_concat]
  cases op.isClear <;> rfl

end Histories

/-! ## The queue of keys -/

/-- Whether the queue of keys holds what is remembered, each key once, within the capacity. -/
structure Queued (m : Memo κ ν) : Prop where
  forgotten_le : m.forgotten ≤ m.inserted.size
  nodup : m.keys.Nodup
  mem_iff : ∀ k, k ∈ m.entries ↔ k ∈ m.keys
  length_le : m.keys.length ≤ m.capacity

theorem queued_empty (capacity : ℕ) : (empty capacity : Memo κ ν).Queued where
  forgotten_le := Nat.le_refl _
  nodup := List.nodup_nil
  mem_iff := by simp [empty,keys]
  length_le := Nat.zero_le _

variable [LawfulBEq κ]

namespace Queued
variable {m : Memo κ ν} (h : m.Queued)
include h

/-- There are as many entries as keys in the queue. -/
theorem size_eq : m.size = m.keys.length := by
  have hperm : m.entries.keys.Perm m.keys :=
    (List.perm_ext_iff_of_nodup Std.HashMap.nodup_keys h.nodup).mpr fun k => by
      rw [Std.HashMap.mem_keys,h.mem_iff]
  rw [size,← Std.HashMap.length_keys,hperm.length_eq]

omit [LawfulBEq κ] in
theorem keys_eq_nil (hzero : m.capacity = 0) : m.keys = [] :=
  List.length_eq_zero_iff.mp (by have hlength := h.length_le; omega)

/-- The queue without its first key. -/
theorem dropOldest : m.dropOldest.Queued ∧ m.dropOldest.capacity = m.capacity ∧
    m.dropOldest.keys = m.keys.tail ∧
      ∀ j ∈ m.dropOldest.keys, m.dropOldest.entries[j]? = m.entries[j]? := by
  obtain ⟨hnil,hsame⟩ | ⟨k,hkeys,hlt,hdrop⟩ := dropOldest_cases m
  · rw [hsame,hnil]
    exact ⟨h,rfl,rfl,by simp⟩
  · have hnodup := h.nodup
    have hlength := h.length_le
    rw [hkeys] at hnodup hlength
    obtain ⟨hk,hrest⟩ := List.nodup_cons.mp hnodup
    have hentries : m.dropOldest.entries = m.entries.erase k := by rw [hdrop]
    have hcapacity : m.dropOldest.capacity = m.capacity := by rw [hdrop]
    refine ⟨⟨?_,hrest,fun j => ?_,?_⟩,hcapacity,by rw [hkeys,List.tail_cons],fun j hj => ?_⟩
    · rw [hdrop]
      exact hlt
    · rw [hentries,Std.HashMap.mem_erase,h.mem_iff,hkeys,List.mem_cons,beq_eq_false_iff_ne]
      constructor
      · rintro ⟨hne,rfl | hj⟩
        · exact absurd rfl hne
        · exact hj
      · exact fun hj => ⟨fun heq => hk (heq ▸ hj),.inr hj⟩
    · rw [hcapacity]
      exact Nat.le_of_succ_le hlength
    · have hne : k ≠ j := fun heq => hk (heq ▸ hj)
      rw [hentries,Std.HashMap.getElem?_erase,if_neg (by simpa using hne)]

/-- The queue with a new key at its end. -/
theorem enqueue {k : κ} (hk : k ∉ m.keys) (hroom : m.keys.length < m.capacity) (v : Option ν) :
    (m.enqueue k v).Queued ∧ (m.enqueue k v).keys = m.keys ++ [k] := by
  have hkeys : (m.enqueue k v).keys = m.keys ++ [k] := by
    simp only [Memo.enqueue,keys,Array.toList_push]
    exact List.drop_append_of_le_length (by simpa using h.forgotten_le)
  refine ⟨⟨?_,?_,fun j => ?_,?_⟩,hkeys⟩
  · simpa [Memo.enqueue] using Nat.le_succ_of_le h.forgotten_le
  · rw [hkeys]
    exact h.nodup.append (List.nodup_singleton k) (List.disjoint_singleton.mpr hk)
  · rw [hkeys,Memo.enqueue,Std.HashMap.mem_insert,h.mem_iff,List.mem_append,List.mem_singleton,
      beq_iff_eq,or_comm,eq_comm]
  · rw [hkeys,List.length_append]
    exact hroom

/-- The queue as it is before a new key comes, with a place left for it. -/
theorem room {n : ℕ} (hcapacity : m.capacity = n + 1) :
    ∃ room, (if m.capacity ≤ m.size then m.dropOldest else m) = room ∧ room.Queued ∧
      room.capacity = n + 1 ∧ room.keys = m.keys.rtake n ∧
        ∀ j ∈ room.keys, room.entries[j]? = m.entries[j]? := by
  have hlength := h.length_le
  refine ⟨_,rfl,?_⟩
  rw [h.size_eq]
  split
  · obtain ⟨hqueued,hsame,hkeys,hentries⟩ := h.dropOldest
    refine ⟨hqueued,hsame.trans hcapacity,?_,hentries⟩
    have hone : m.keys.length - n = 1 := by omega
    rw [hkeys,List.rtake,hone,List.drop_one]
  · have hzero : m.keys.length - n = 0 := by omega
    exact ⟨h,hcapacity,by rw [List.rtake,hzero,List.drop_zero],fun _ _ => rfl⟩

/-- A put sets one value; a key that was absent comes to the end of the queue, which is then cut to
the capacity. -/
theorem put (k : κ) (v : Option ν) : (m.put k v).Queued ∧
    (m.put k v).keys = (if k ∈ m.keys then m.keys else (m.keys ++ [k]).rtake m.capacity) ∧
      ∀ j ∈ (m.put k v).keys,
        (m.put k v).entries[j]? = if k == j then some v else m.entries[j]? := by
  obtain ⟨hzero,hput⟩ | ⟨hk,hput⟩ | ⟨hk,hpos,hput⟩ := put_cases m k v
  · rw [hput,h.keys_eq_nil hzero,hzero,List.rtake_zero]
    exact ⟨h,by simp,by simp⟩
  · have hmem := (h.mem_iff k).mp hk
    rw [hput,if_pos hmem]
    refine ⟨⟨h.forgotten_le,h.nodup,fun j => ?_,h.length_le⟩,rfl,fun j _ => ?_⟩
    · rw [Std.HashMap.mem_insert,h.mem_iff,beq_iff_eq]
      exact ⟨fun hj => hj.elim (fun heq => heq ▸ hmem) id,.inr⟩
    · exact Std.HashMap.getElem?_insert
  · have hmem := mt (h.mem_iff k).mpr hk
    obtain ⟨n,hcapacity⟩ := Nat.exists_eq_add_one.mpr hpos
    obtain ⟨room,hroom,hqueued,hsame,hkeys,hentries⟩ := h.room hcapacity
    rw [hput,hroom,if_neg hmem,hcapacity,List.rtake_concat_succ,← hkeys]
    have hnew : k ∉ room.keys := fun hk => hmem (List.mem_of_mem_drop (hkeys ▸ hk))
    have hlength : room.keys.length < room.capacity := by
      rw [hkeys,hsame,List.rtake,List.length_drop]
      omega
    obtain ⟨hafter,hlonger⟩ := hqueued.enqueue hnew hlength v
    refine ⟨hafter,hlonger,fun j hj => ?_⟩
    rw [Memo.enqueue,Std.HashMap.getElem?_insert]
    split
    · rfl
    · next hne =>
      rw [hlonger,List.mem_append,List.mem_singleton] at hj
      exact hentries j (hj.resolve_right fun heq => hne (beq_iff_eq.mpr heq.symm))

end Queued

/-! ## Insertions -/

/-- What comes to the end of a list that is cut is not affected by the cut. -/
theorem rtake_rtake_append {α : Type} (n : ℕ) (xs : List α) (x : α) :
    (xs.rtake n ++ [x]).rtake n = (xs ++ [x]).rtake n := by
  cases n with
  | zero => simp
  | succ n =>
    rw [List.rtake_concat_succ,List.rtake_concat_succ]
    simp only [List.rtake,List.drop_drop,List.length_drop]
    congr 2
    omega

/-- Whether as many items of a list as are given, or fewer, do not repeat one where they stand
together. -/
def Spread {α : Type} (n : ℕ) (xs : List α) : Prop :=
  ∀ ys, ys <:+: xs → ys.length ≤ n → ys.Nodup

theorem Spread.concat {α : Type} {n : ℕ} {xs : List α} {x : α} (h : Spread n xs)
    (hx : x ∉ xs.rtake n) : Spread n (xs ++ [x]) := by
  intro ys hys hlength
  rcases List.infix_concat_iff.mp hys with hend | hys
  · rcases List.suffix_concat_iff.mp hend with rfl | ⟨zs,rfl,hzs⟩
    · exact List.nodup_nil
    · rw [List.length_append,List.length_singleton] at hlength
      have hlast : zs <:+ xs.rtake n := by
        refine List.suffix_of_suffix_length_le hzs (List.drop_suffix _ _) ?_
        have hle := hzs.length_le
        rw [List.rtake,List.length_drop]
        omega
      exact (h zs hzs.isInfix (by omega)).append (List.nodup_singleton x)
        (List.disjoint_singleton.mpr fun hmem => hx (hlast.subset hmem))
  · exact h ys hys hlength

/-- How a memo has come from an empty one by operations among which none clears it. -/
structure Recalls (capacity : ℕ) (recent : List (Operation κ ν)) (m : Memo κ ν) : Prop where
  reached : run (empty capacity) recent = m
  capacity_eq : m.capacity = capacity
  queued : m.Queued
  keys_eq : m.keys = (insertedBy (empty capacity) recent).rtake capacity
  spread : Spread capacity (insertedBy (empty capacity : Memo κ ν) recent)
  value_eq : ∀ k ∈ m.keys, m.entries[k]? = lastPut? k recent
  hits_eq : m.hits = (answersTo (empty capacity) recent).countP Option.isSome
  misses_eq : m.misses = (answersTo (empty capacity) recent).countP Option.isNone

namespace Recalls
variable {capacity : ℕ} {recent : List (Operation κ ν)} {m : Memo κ ν}

theorem empty (capacity : ℕ) : Recalls capacity [] (empty capacity : Memo κ ν) where
  reached := rfl
  capacity_eq := rfl
  queued := queued_empty capacity
  keys_eq := by simp [Memo.empty,keys,insertedBy]
  spread := by simp [Spread,insertedBy]
  value_eq := by simp [Memo.empty,keys]
  hits_eq := rfl
  misses_eq := rfl

theorem clear (h : Recalls capacity recent m) : Recalls capacity [] m.clear := by
  rw [Memo.clear,h.capacity_eq]
  exact empty capacity

theorem put (h : Recalls capacity recent m) (k : κ) (v : Option ν) :
    Recalls capacity (recent ++ [.put k v]) (m.put k v) := by
  obtain ⟨hqueued,hkeys,hentries⟩ := h.queued.put k v
  have hreached : run (Memo.empty capacity) (recent ++ [.put k v]) = m.put k v := by
    rw [run_concat,h.reached]
    rfl
  have hanswers : answersTo (Memo.empty capacity) (recent ++ [.put k v]) =
      answersTo (Memo.empty capacity) recent := by
    rw [answersTo_concat]
    exact List.append_nil _
  have hinserted : insertedBy (Memo.empty capacity) (recent ++ [.put k v]) =
      insertedBy (Memo.empty capacity) recent ++ (m.newKey? (.put k v)).toList := by
    rw [insertedBy_concat,h.reached]
  have hvalue : ∀ j ∈ (m.put k v).keys,
      (m.put k v).entries[j]? = lastPut? j (recent ++ [.put k v]) := by
    intro j hj
    rw [hentries j hj,lastPut?_concat,Operation.valueFor?]
    split
    · rfl
    · next hne =>
      rw [Option.none_or]
      refine h.value_eq j ?_
      rw [hkeys] at hj
      split at hj
      · exact hj
      · have hmem := List.mem_of_mem_drop hj
        rw [List.mem_append,List.mem_singleton] at hmem
        exact hmem.resolve_right fun heq => hne (beq_iff_eq.mpr heq.symm)
  obtain ⟨entries,inserted,forgotten,hwith⟩ := put_with m k v
  have hcapacity : (m.put k v).capacity = capacity := by rw [hwith,h.capacity_eq]
  have hhits : (m.put k v).hits = m.hits := by rw [hwith]
  have hmisses : (m.put k v).misses = m.misses := by rw [hwith]
  by_cases hk : k ∈ m.keys
  · have hold : m.newKey? (.put k v) = none := if_pos ((h.queued.mem_iff k).mpr hk)
    rw [hold,Option.toList_none,List.append_nil] at hinserted
    rw [if_pos hk] at hkeys
    exact ⟨hreached,hcapacity,hqueued,by rw [hkeys,hinserted,h.keys_eq],hinserted ▸ h.spread,hvalue,
      by rw [hhits,hanswers,h.hits_eq],by rw [hmisses,hanswers,h.misses_eq]⟩
  · have hnew : m.newKey? (.put k v) = some k := if_neg (mt (h.queued.mem_iff k).mp hk)
    rw [hnew,Option.toList_some] at hinserted
    rw [if_neg hk,h.capacity_eq,h.keys_eq,rtake_rtake_append] at hkeys
    exact ⟨hreached,hcapacity,hqueued,by rw [hkeys,hinserted],
      hinserted ▸ h.spread.concat (h.keys_eq ▸ hk),hvalue,
      by rw [hhits,hanswers,h.hits_eq],by rw [hmisses,hanswers,h.misses_eq]⟩

omit [LawfulBEq κ] in
theorem get (h : Recalls capacity recent m) (k : κ) :
    Recalls capacity (recent ++ [.get k]) (m.get k).2 := by
  have hinserted : insertedBy (Memo.empty capacity) (recent ++ [.get k]) =
      insertedBy (Memo.empty capacity : Memo κ ν) recent := by
    rw [insertedBy_concat]
    exact List.append_nil _
  have hanswers : answersTo (Memo.empty capacity) (recent ++ [.get k]) =
      answersTo (Memo.empty capacity) recent ++ [(m.get k).1] := by
    rw [answersTo_concat,h.reached]
    rfl
  have hreached : run (Memo.empty capacity) (recent ++ [.get k]) = (m.get k).2 := by
    rw [run_concat,h.reached]
    rfl
  rw [snd_get] at hreached ⊢
  refine ⟨hreached,h.capacity_eq,⟨h.queued.forgotten_le,h.queued.nodup,h.queued.mem_iff,
    h.queued.length_le⟩,hinserted ▸ h.keys_eq,hinserted ▸ h.spread,fun j hj => ?_,?_,?_⟩
  · rw [lastPut?_concat]
    exact h.value_eq j hj
  · rw [hanswers,List.countP_append,← h.hits_eq]
  · rw [hanswers,List.countP_append,← h.misses_eq]

/-- What one operation preserves. -/
theorem apply {ops : List (Operation κ ν)} (h : Recalls capacity (sinceClear ops) m)
    (op : Operation κ ν) : Recalls capacity (sinceClear (ops ++ [op])) (m.apply op).2 := by
  rw [sinceClear_concat]
  cases op with
  | put k v => exact h.put k v
  | get k => exact h.get k
  | clear => exact h.clear

end Recalls

theorem recalls_run (capacity : ℕ) (ops : List (Operation κ ν)) :
    Recalls capacity (sinceClear ops) (run (empty capacity) ops) := by
  induction ops using List.reverseRecOn with
  | nil => exact .empty capacity
  | append_singleton ops op ih =>
    rw [run_concat]
    exact ih.apply op

/-! ## How long a key is remembered -/

/-- An item is among the last ones of a list just if fewer come after its last occurrence. -/
theorem mem_rtake_iff {α : Type} {n : ℕ} {before later : List α} {x : α} (hx : x ∉ later) :
    x ∈ (before ++ x :: later).rtake n ↔ later.length < n := by
  have hend : x :: later <:+ before ++ x :: later := List.suffix_append _ _
  have hcut : (before ++ x :: later).rtake n <:+ before ++ x :: later := List.drop_suffix _ _
  have hlength : ((before ++ x :: later).rtake n).length =
      min n (before.length + (later.length + 1)) := by
    rw [List.rtake,List.length_drop,List.length_append,List.length_cons]
    omega
  constructor
  · intro hmem
    by_contra hle
    have hshort : (before ++ x :: later).rtake n <:+ later :=
      List.suffix_of_suffix_length_le hcut ((List.suffix_cons x later).trans hend) (by omega)
    exact hx (hshort.subset hmem)
  · intro hlt
    have hlong : x :: later <:+ (before ++ x :: later).rtake n :=
      List.suffix_of_suffix_length_le hend hcut (by rw [hlength,List.length_cons]; omega)
    exact hlong.subset List.mem_cons_self

/-- Fewer items come after a place just if fewer different ones do, if so many never repeat one. -/
theorem Spread.ncard_lt_iff {α : Type} {n : ℕ} {before later : List α}
    (h : Spread n (before ++ later)) : {x | x ∈ later}.ncard < n ↔ later.length < n := by
  classical
  have hcard : {x | x ∈ later}.ncard = later.toFinset.card := by
    rw [← Set.ncard_coe_finset,List.coe_toFinset]
  rw [hcard]
  constructor
  · intro hlt
    by_contra hle
    have hinfix : later.take n <:+: before ++ later :=
      (List.take_prefix n later).isInfix.trans (List.suffix_append before later).isInfix
    have hnodup := h _ hinfix (List.length_take_le n later)
    have hsome : (later.take n).toFinset ⊆ later.toFinset := fun x hx =>
      List.mem_toFinset.mpr (List.mem_of_mem_take (List.mem_toFinset.mp hx))
    have hle' := Finset.card_le_card hsome
    rw [List.toFinset_card_of_nodup hnodup,List.length_take] at hle'
    omega
  · exact fun hlt => (List.toFinset_card_le later).trans_lt hlt

namespace Recalls
variable {capacity : ℕ} {recent : List (Operation κ ν)} {m : Memo κ ν}

theorem fst_get (h : Recalls capacity recent m) (k : κ) :
    (m.get k).1 = if k ∈ m.keys then (lastPut? k recent).join else none := by
  rw [Memo.fst_get]
  split
  · next hk => rw [h.value_eq k hk]
  · next hk =>
    rw [Std.HashMap.getElem?_eq_none (mt (h.queued.mem_iff k).mp hk)]
    rfl

/-- A put of a key that is there leaves the queue alone, and all other answers. -/
theorem overwrite (h : Recalls capacity recent m) {k : κ} (hk : k ∈ m.entries) (v : Option ν) :
    (m.put k v).keys = m.keys ∧ ∀ j, j ≠ k → ((m.put k v).get j).1 = (m.get j).1 := by
  have hkeys : (m.put k v).keys = m.keys := by
    rw [(h.queued.put k v).2.1,if_pos ((h.queued.mem_iff k).mp hk)]
  refine ⟨hkeys,fun j hj => ?_⟩
  have hlast : lastPut? j (recent ++ [.put k v]) = lastPut? j recent := by
    rw [lastPut?_concat,Operation.valueFor?,if_neg (by simpa using hj.symm),Option.none_or]
  rw [(h.put k v).fst_get,h.fst_get,hkeys,hlast]

omit [LawfulBEq κ] in
theorem hits_add_misses (h : Recalls capacity recent m) :
    m.hits + m.misses = recent.countP Operation.isGet := by
  have hnone : (Option.isNone : Option ν → Bool) = fun a => decide ¬ a.isSome = true := by
    funext a
    cases a <;> rfl
  rw [h.hits_eq,h.misses_eq,← length_answersTo (Memo.empty capacity : Memo κ ν),hnone]
  exact (List.length_eq_countP_add_countP Option.isSome).symm

end Recalls

/-- A memo is what the operations since it was cleared make of an empty one. It keeps the keys
inserted last, oldest first. A key that was inserted answers with the value put for it at last, until
so many other keys are inserted as there is room for; a put of a key that is there changes neither
the queue nor another answer. Look-ups are counted by their answers. -/
theorem run_firstInFirstOut (capacity : ℕ) (ops : List (Operation κ ν)) :
    let m := run (empty capacity) ops
    let recent := sinceClear ops
    let inserted := insertedBy (empty capacity : Memo κ ν) recent
    m = run (empty capacity) recent ∧ m.size ≤ capacity ∧ m.keys = inserted.rtake capacity ∧
    (∀ k, k ∉ inserted → (m.get k).1 = none) ∧
    (∀ k before later, inserted = before ++ k :: later → k ∉ later →
      (m.get k).1 = (if later.length < capacity then (lastPut? k recent).join else none) ∧
        ({j | j ∈ later}.ncard < capacity ↔ later.length < capacity)) ∧
    (∀ k v, k ∈ m.entries → (m.put k v).keys = m.keys ∧
      ∀ j, j ≠ k → ((m.put k v).get j).1 = (m.get j).1) ∧
    m.hits + m.misses = recent.countP Operation.isGet ∧
      m.hits = (answersTo (empty capacity) recent).countP Option.isSome := by
  intro m recent inserted
  have h : Recalls capacity recent m := recalls_run capacity ops
  have hkeys : m.keys = inserted.rtake capacity := h.keys_eq
  refine ⟨h.reached.symm,?_,hkeys,fun k hk => ?_,fun k before later hinserted hk => ⟨?_,?_⟩,
    fun k v hk => h.overwrite hk v,h.hits_add_misses,h.hits_eq⟩
  · rw [h.queued.size_eq,← h.capacity_eq]
    exact h.queued.length_le
  · rw [h.fst_get,if_neg]
    exact fun hmem => hk (List.mem_of_mem_drop (hkeys ▸ hmem))
  · rw [h.fst_get,hkeys,hinserted]
    simp only [mem_rtake_iff hk]
  · have hspread : Spread capacity ((before ++ [k]) ++ later) := by
      rw [List.append_assoc,List.singleton_append,← hinserted]
      exact h.spread
    exact hspread.ncard_lt_iff

/-- The value of key 1 is put again, and it is still the first one to be forgotten. -/
theorem run_firstInFirstOut_overwritten :
    let ops : List (Operation ℕ ℕ) := [.put 7 (some 70),.clear,.put 1 (some 10),.put 2 (some 20),
      .put 1 (some 11),.get 1,.put 3 (some 30),.get 1]
    insertedBy (empty 2 : Memo ℕ ℕ) (sinceClear ops) = [1] ++ 2 :: [3] ∧ 2 ∉ [3] ∧
      ((run (empty 2) ops).get 2).1 = some 20 ∧ ((run (empty 2) ops).get 1).1 = none ∧
        (run (empty 2) ops).hits + (run (empty 2) ops).misses = 2 := by
  intro ops
  have hrecent : sinceClear ops = [.put 1 (some 10),.put 2 (some 20),.put 1 (some 11),.get 1,
    .put 3 (some 30),.get 1] := rfl
  have hinserted : insertedBy (empty 2 : Memo ℕ ℕ) (sinceClear ops) = [1,2,3] := by
    rw [hrecent]
    simp [insertedBy,newKey?,apply,put,Memo.get,empty,enabled,size,Std.HashMap.size_insert]
  obtain ⟨-,-,-,-,hremembered,-,hcounts,-⟩ := run_firstInFirstOut 2 ops
  have htwo := (hremembered 2 [1] [3] hinserted (by decide)).1
  have hone := (hremembered 1 [] [2,3] hinserted (by decide)).1
  exact ⟨hinserted,by decide,htwo,hone,hcounts⟩

end DrawFormula.Memo
