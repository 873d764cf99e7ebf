import DrawFormula.Worker.Answer
import Mathlib.Data.Nat.Notation

/-! # Answers end with their last message

A worker answers each request by messages of which the last one, and no other, ends the task. Both
kinds of requests are answered so, whatever their history, formulas and parameters, and the JSON
forms of the messages keep it.
-/
namespace DrawFormula

/-! ## Messages in order -/

namespace Mail
variable {μ : Type} [Mail μ]

/-- Whether no message follows a last one. -/
def Orderly (ms : List μ) : Prop := ms.Pairwise fun m _ => Mail.isLast m = false

/-- Whether one of the messages is a last one. -/
def hasLast (ms : List μ) : Bool := ms.any Mail.isLast

/-- Whether the messages are a last one and messages before it that are none. -/
def Conclusive (ms : List μ) : Prop :=
  ∃ progress last, ms = progress ++ [last] ∧ (∀ m ∈ progress, Mail.isLast m = false) ∧
    Mail.isLast last = true

@[simp] theorem orderly_nil : Orderly ([] : List μ) := List.Pairwise.nil

@[simp] theorem hasLast_nil : hasLast ([] : List μ) = false := rfl

@[simp] theorem hasLast_cons (m : μ) (ms : List μ) :
    hasLast (m :: ms) = (Mail.isLast m || hasLast ms) := rfl

@[simp] theorem hasLast_append (ms more : List μ) :
    hasLast (ms ++ more) = (hasLast ms || hasLast more) := List.any_append

theorem hasLast_eq_false_iff {ms : List μ} :
    hasLast ms = false ↔ ∀ m ∈ ms, Mail.isLast m = false := by
  simp [hasLast]

theorem filter_isLast_of_none {ms : List μ} (h : hasLast ms = false) :
    ms.filter Mail.isLast = [] :=
  List.filter_eq_nil_iff.mpr fun m hm => by simp [hasLast_eq_false_iff.mp h m hm]

theorem Orderly.within {ms more : List μ} (h : Orderly more) (hms : ms <:+: more) :
    Orderly ms := h.sublist hms.sublist

/-- Nothing comes behind a last message. -/
theorem Orderly.eq_nil_of_append {ms more : List μ} (h : Orderly (ms ++ more))
    (hms : hasLast ms = true) : more = [] := by
  rcases more with _ | ⟨m,rest⟩
  · rfl
  · obtain ⟨-,-,hbefore⟩ := List.pairwise_append.mp h
    have hnone : hasLast ms = false :=
      hasLast_eq_false_iff.mpr fun a ha => hbefore a ha m List.mem_cons_self
    rw [hms] at hnone
    cases hnone

theorem Orderly.eq_nil_of_cons {m : μ} {rest : List μ} (h : Orderly (m :: rest))
    (hm : Mail.isLast m = true) : rest = [] := by
  have hnil : Orderly ([m] ++ rest) := h
  exact hnil.eq_nil_of_append (by simp [hm])

theorem orderly_append {ms more : List μ} (hms : hasLast ms = false) (hmore : Orderly more) :
    Orderly (ms ++ more) := by
  have hnone := hasLast_eq_false_iff.mp hms
  exact List.pairwise_append.mpr ⟨List.pairwise_of_forall_mem_list fun a ha _ _ => hnone a ha,hmore,
    fun a ha _ _ => hnone a ha⟩

theorem conclusive_iff {ms : List μ} : Conclusive ms ↔ Orderly ms ∧ hasLast ms = true := by
  constructor
  · rintro ⟨progress,last,rfl,hprogress,hlast⟩
    refine ⟨orderly_append (hasLast_eq_false_iff.mpr hprogress) (List.pairwise_singleton _ _),?_⟩
    simp [hlast]
  · rintro ⟨horderly,hhas⟩
    rcases List.eq_nil_or_concat ms with rfl | ⟨progress,last,rfl⟩
    · simp at hhas
    · rw [List.concat_eq_append] at horderly hhas ⊢
      obtain ⟨-,-,hbefore⟩ := List.pairwise_append.mp horderly
      have hprogress : ∀ m ∈ progress, Mail.isLast m = false :=
        fun m hm => hbefore m hm last (List.mem_singleton_self last)
      refine ⟨progress,last,rfl,hprogress,?_⟩
      simpa [hasLast_eq_false_iff.mpr hprogress] using hhas

theorem Conclusive.orderly {ms : List μ} (h : Conclusive ms) : Orderly ms :=
  (conclusive_iff.mp h).1

theorem Conclusive.hasLast {ms : List μ} (h : Conclusive ms) : Mail.hasLast ms = true :=
  (conclusive_iff.mp h).2

theorem conclusive_singleton {m : μ} (h : Mail.isLast m = true) : Conclusive [m] :=
  ⟨[],m,rfl,fun _ hm => absurd hm List.not_mem_nil,h⟩

theorem Conclusive.cons {m : μ} {ms : List μ} (hm : Mail.isLast m = false) (h : Conclusive ms) :
    Conclusive (m :: ms) := by
  obtain ⟨progress,last,rfl,hprogress,hlast⟩ := h
  exact ⟨m :: progress,last,rfl,List.forall_mem_cons.mpr ⟨hm,hprogress⟩,hlast⟩

end Mail

/-! ## Answers to requests -/

open Mail

theorem VerifyRequest.conclusive_testBatches (r : VerifyRequest) (history : List Draw)
    (batch : Batch) (groups : List (List FormulaLine)) (tested : List Backtest)
    (cache : Element.Cache) :
    Conclusive (r.testBatches history batch groups tested cache) := by
  induction groups generalizing tested cache with
  | nil => exact conclusive_singleton rfl
  | cons lines rest ih =>
    rw [testBatches]
    split
    · exact conclusive_singleton rfl
    · exact (ih _ _).cons rfl

theorem VerifyRequest.conclusive_answer (engine : Engine) (r : VerifyRequest) :
    Conclusive (r.answer engine) := by
  unfold answer
  split
  · exact conclusive_singleton rfl
  · split
    · exact conclusive_singleton rfl
    · exact r.conclusive_testBatches _ _ _ _ _

theorem SearchRequest.conclusive_answer (engine : Engine) (r : SearchRequest) :
    Conclusive (r.answer engine) := by
  have hprogress (ps : List Search.Progress) {last : Message} (h : Mail.isLast last = true) :
      Conclusive (ps.map Message.searching ++ [last]) := by
    refine ⟨_,last,rfl,fun m hm => ?_,h⟩
    obtain ⟨p,-,rfl⟩ := List.mem_map.mp hm
    rfl
  unfold answer
  split
  · exact conclusive_singleton rfl
  · dsimp only
    split
    · exact hprogress _ rfl
    · exact hprogress _ rfl

/-- Every request is answered by messages that end with a last one. -/
theorem Request.conclusive_answer (engine : Engine) (r : Request) :
    Conclusive (r.answer engine) := by
  cases r with
  | verify r => exact r.conclusive_answer engine
  | search r => exact r.conclusive_answer engine

theorem Message.isLast_toJson (m : Message) : Mail.isLast m.toJson = Mail.isLast m := by
  cases m <;> rfl

theorem Mail.Conclusive.map_toJson {ms : List Message} (h : Conclusive ms) :
    Conclusive (ms.map Message.toJson) := by
  obtain ⟨progress,last,rfl,hprogress,hlast⟩ := h
  refine ⟨progress.map Message.toJson,last.toJson,List.map_append,fun m hm => ?_,?_⟩
  · obtain ⟨p,hp,rfl⟩ := List.mem_map.mp hm
    exact p.isLast_toJson.trans (hprogress p hp)
  · exact last.isLast_toJson.trans hlast

namespace Worker

/-- How a worker answers requests: by messages of which the last one, and no other, ends the
task. -/
structure Answering (ρ μ : Type) [Mail μ] where
  answer : ρ → List μ
  conclusive : ∀ r, Conclusive (answer r)

/-- How requests are answered in JSON. -/
def Answering.ofEngine (engine : Engine) : Answering Request Json where
  answer r := (r.answer engine).map Message.toJson
  conclusive r := (r.conclusive_answer engine).map_toJson

end Worker

end DrawFormula
