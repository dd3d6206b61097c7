/-
# Status conditions

The conditions of a Kubernetes status, one for each type. A report becomes a
condition through `meta.SetStatusCondition`, of which the documentation is all
there is: a report of a new type is appended, one of a type that is there takes
that condition's place, and the transition time moves only when the status does.

Key definitions: `Report`, `Condition`, `ConditionList`, `SetStatusCondition`.
Key theorems: `ConditionList.find_eq_some_iff`, `SetStatusCondition.report_set`.
-/
import QuakeKube.Lib.Text
import Mathlib.Tactic.Common

namespace Conditions

open Go

/-- `metav1.ConditionStatus`. -/
inductive ConditionStatus
  | ConditionTrue | ConditionFalse | ConditionUnknown
deriving DecidableEq

/-- A condition whose transition time is not set. -/
structure Report where
  type : Text
  status : ConditionStatus
  reason : Text
  message : Text
  observedGeneration : Int64
deriving DecidableEq

/-- `metav1.Condition`. -/
structure Condition extends Report where
  lastTransitionTime : ℤ
deriving DecidableEq

/-- The transition time of a report that takes a condition's place at `now`. -/
def Condition.transition (c : Condition) (r : Report) (now : ℤ) : ℤ :=
  if c.status = r.status then c.lastTransitionTime else now

/-- `meta.SetStatusCondition`, as it is documented. -/
structure SetStatusCondition where
  setList : List Condition → Report → ℤ → List Condition
  append : ∀ {cs : List Condition} {r : Report} (now : ℤ), (∀ c ∈ cs, c.type ≠ r.type) →
    setList cs r now = cs ++ [⟨r, now⟩]
  replace : ∀ {before after : List Condition} {c : Condition} {r : Report} (now : ℤ),
    (∀ x ∈ before, x.type ≠ r.type) → c.type = r.type →
      setList (before ++ c :: after) r now = before ++ ⟨r, c.transition r now⟩ :: after

/-- The two cases of the documentation, one after the other. -/
theorem SetStatusCondition.setList_cases (S : SetStatusCondition) (cs : List Condition) (r : Report) (now : ℤ) :
    ((∀ c ∈ cs, c.type ≠ r.type) ∧ S.setList cs r now = cs ++ [⟨r, now⟩]) ∨
      ∃ before c after, (∀ x ∈ before, x.type ≠ r.type) ∧ c.type = r.type ∧
        cs = before ++ c :: after ∧ S.setList cs r now = before ++ ⟨r, c.transition r now⟩ :: after := by
  cases h : cs.find? (·.type = r.type) with
  | none =>
    have hnone : ∀ c ∈ cs, c.type ≠ r.type := by simpa using h
    exact .inl ⟨hnone, S.append now hnone⟩
  | some c =>
    obtain ⟨hc, before, after, rfl, hb⟩ := List.find?_eq_some_iff_append.mp h
    have hct : c.type = r.type := by simpa using hc
    have hbt : ∀ x ∈ before, x.type ≠ r.type := by simpa using hb
    exact .inr ⟨before, c, after, hbt, hct, rfl, S.replace now hbt hct⟩

/-- The conditions of a status: no type comes twice. -/
structure ConditionList where
  list : List Condition
  onePerType : (list.map (·.type)).Nodup
deriving DecidableEq

namespace ConditionList

def empty : ConditionList := ⟨[], List.nodup_nil⟩

/-- `meta.FindStatusCondition`. -/
def find (cs : ConditionList) (type : Text) : Option Condition := cs.list.find? (·.type = type)

@[simp] theorem find_empty (t : Text) : empty.find t = none := rfl

variable {cs : ConditionList} {c : Condition} {t : Text}

theorem find_eq_none_iff : cs.find t = none ↔ ∀ c ∈ cs.list, c.type ≠ t := by
  simp [find]

theorem find_eq_some_iff : cs.find t = some c ↔ c ∈ cs.list ∧ c.type = t := by
  refine ⟨fun h => ⟨List.mem_of_find?_eq_some h, by simpa using List.find?_some h⟩, ?_⟩
  rintro ⟨hc, rfl⟩
  have hone := cs.onePerType
  obtain ⟨before, after, hcs⟩ := List.append_of_mem hc
  rw [hcs, List.map_append, List.map_cons, List.nodup_append] at hone
  rw [find, hcs, List.find?_eq_some_iff_append]
  refine ⟨by simp, before, after, rfl, fun x hx => ?_⟩
  have := hone.2.2 _ (List.mem_map_of_mem hx) _ List.mem_cons_self
  simpa using this

/-- What was last reported of a type. -/
def report (cs : ConditionList) (type : Text) : Option Report := (cs.find type).map (·.toReport)

@[simp] theorem report_empty (t : Text) : empty.report t = none := rfl

theorem report_eq_none_iff : cs.report t = none ↔ ∀ c ∈ cs.list, c.type ≠ t := by
  rw [report, Option.map_eq_none_iff, find_eq_none_iff]

/-- What holds of some condition of a type holds of the last report. -/
theorem exists_mem_iff {p : Report → Prop} :
    (∃ c ∈ cs.list, c.type = t ∧ p c.toReport) ↔ ∃ r, cs.report t = some r ∧ p r := by
  simp only [report, Option.map_eq_some_iff, find_eq_some_iff]
  constructor
  · rintro ⟨c, hc, ht, hp⟩
    exact ⟨_, ⟨c, ⟨hc, ht⟩, rfl⟩, hp⟩
  · rintro ⟨_, ⟨c, ⟨hc, ht⟩, rfl⟩, hp⟩
    exact ⟨c, hc, ht, hp⟩

end ConditionList

namespace SetStatusCondition

variable (S : SetStatusCondition)

theorem onePerType_setList {cs : List Condition} (h : (cs.map (·.type)).Nodup) (r : Report) (now : ℤ) :
    ((S.setList cs r now).map (·.type)).Nodup := by
  rcases S.setList_cases cs r now with ⟨hnone, hset⟩ | ⟨before, c, after, -, hc, rfl, hset⟩
  · rw [hset, List.map_append, List.nodup_append]
    refine ⟨h, by simp, fun t ht u hu => ?_⟩
    obtain ⟨c, hc, rfl⟩ := List.mem_map.mp ht
    rw [List.map_singleton, List.mem_singleton] at hu
    rw [hu]
    exact hnone c hc
  · rw [hset]
    rw [List.map_append, List.map_cons, hc] at h
    rwa [List.map_append, List.map_cons]

def set (cs : ConditionList) (r : Report) (now : ℤ) : ConditionList :=
  ⟨S.setList cs.list r now, S.onePerType_setList cs.onePerType r now⟩

variable (cs : ConditionList) (r : Report) (now : ℤ) {t : Text}

/-- The report is what is found of its type. -/
theorem find_set_self : ∃ time, (S.set cs r now).find r.type = some ⟨r, time⟩ := by
  simp only [ConditionList.find_eq_some_iff, set]
  rcases S.setList_cases cs.list r now with ⟨-, hset⟩ | ⟨before, c, after, -, -, -, hset⟩
  · exact ⟨now, by simp [hset]⟩
  · exact ⟨c.transition r now, by simp [hset]⟩

/-- The other types are left alone. -/
theorem find_set_of_ne (ht : t ≠ r.type) : (S.set cs r now).find t = cs.find t := by
  change (S.setList cs.list r now).find? _ = cs.list.find? _
  rcases S.setList_cases cs.list r now with ⟨-, hset⟩ | ⟨before, c, after, -, hc, hcs, hset⟩
  · simp [hset, Ne.symm ht]
  · have hct : c.type ≠ t := fun h => ht (h.symm.trans hc)
    rw [hset, hcs]
    simp [List.find?_append, Ne.symm ht, hct]

/-- **What is reported** after a report. -/
theorem report_set : (S.set cs r now).report t = if t = r.type then some r else cs.report t := by
  by_cases ht : t = r.type
  · obtain ⟨time, hfind⟩ := S.find_set_self cs r now
    rw [if_pos ht, ht, ConditionList.report, hfind]
    rfl
  · rw [if_neg ht, ConditionList.report, S.find_set_of_ne cs r now ht]
    rfl

/-- A report that is there already changes nothing, the transition time included. -/
theorem set_of_report {cs : ConditionList} {r : Report} (h : cs.report r.type = some r) (now : ℤ) :
    S.set cs r now = cs := by
  obtain ⟨c, hfind, hc⟩ := Option.map_eq_some_iff.mp h
  obtain ⟨hmem, htype⟩ := ConditionList.find_eq_some_iff.mp hfind
  have hlist : S.setList cs.list r now = cs.list := by
    rcases S.setList_cases cs.list r now with ⟨hnone, -⟩ | ⟨before, c', after, -, hc', hcs, hset⟩
    · exact absurd htype (hnone c hmem)
    · -- the condition that is replaced is the one of the report
      have hfind' : cs.find r.type = some c' := ConditionList.find_eq_some_iff.mpr ⟨by simp [hcs], hc'⟩
      obtain rfl : c = c' := Option.some.inj (hfind.symm.trans hfind')
      have hstatus : c.status = r.status := congrArg (·.status) hc
      have htime : c.transition r now = c.lastTransitionTime := if_pos hstatus
      calc S.setList cs.list r now = before ++ ⟨r, c.transition r now⟩ :: after := hset
        _ = before ++ ⟨c.toReport, c.lastTransitionTime⟩ :: after := by rw [htime, hc]
        _ = cs.list := hcs.symm
  simp only [set, hlist]

/-- The same report again changes nothing. -/
theorem set_set (now' : ℤ) : S.set (S.set cs r now) r now' = S.set cs r now := by
  apply S.set_of_report
  rw [S.report_set, if_pos rfl]

/-! ### A function that does what is documented -/

/-- Puts the report in the first place of its type. -/
def upsertList : List Condition → Report → ℤ → List Condition
  | [], r, now => [⟨r, now⟩]
  | c :: cs, r, now =>
    if c.type = r.type then ⟨r, c.transition r now⟩ :: cs else c :: upsertList cs r now

theorem upsertList_append {before : List Condition} {r : Report} (now : ℤ)
    (h : ∀ c ∈ before, c.type ≠ r.type) (after : List Condition) :
    upsertList (before ++ after) r now = before ++ upsertList after r now := by
  induction before with
  | nil => rfl
  | cons c cs ih =>
    obtain ⟨hc, hcs⟩ := List.forall_mem_cons.mp h
    rw [List.cons_append, upsertList, if_neg hc, ih hcs, List.cons_append]

def upsert : SetStatusCondition where
  setList := upsertList
  append {cs r} now h := by simpa [upsertList] using upsertList_append now h []
  replace {before after c r} now h hc := by rw [upsertList_append now h, upsertList, if_pos hc]

end SetStatusCondition
end Conditions
