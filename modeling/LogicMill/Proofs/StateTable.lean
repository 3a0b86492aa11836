import LogicMill.StateTable
import Mathlib.Data.List.Basic

/-! # State tables and the names mentioned

A table that was built by interning one name after another holds the distinct names among those
mentioned, in the order in which they were first mentioned.

* `StateTable.Holds t mentioned`: the table `t` is the one after the names `mentioned`.
* `StateTable.Holds.intern_ok`, `StateTable.Holds.intern_error_iff`: a name of proper length is numbered
  by its place in that order, unless it is new and the table is full. The storage never runs out.
* `StateTable.idxOf_mentioned`: a number once given stays.
-/

namespace LogicMill
set_option autoImplicit false

/-! ## Distinct names in order -/

theorem eraseDups_concat (names : List Bytes) (name : Bytes) :
    (names ++ [name]).eraseDups =
      if name ∈ names then names.eraseDups else names.eraseDups ++ [name] := by
  rw [List.eraseDups_append]
  split
  · next h => simp [List.removeAll, h]
  · next h => simp [List.removeAll, h, List.eraseDups_cons]

namespace StateTable

/-- The number of a name among the distinct names mentioned does not change when more names are
mentioned. -/
theorem idxOf_mentioned {name : Bytes} {mentioned : List Bytes} (h : name ∈ mentioned)
    (more : List Bytes) :
    (mentioned ++ more).eraseDups.idxOf name = mentioned.eraseDups.idxOf name := by
  rw [List.eraseDups_append, List.idxOf_append_of_mem (List.mem_eraseDups.2 h)]

theorem length_mentioned_le (mentioned more : List Bytes) :
    mentioned.eraseDups.length ≤ (mentioned ++ more).eraseDups.length := by
  rw [List.eraseDups_append, List.length_append]
  exact Nat.le_add_right _ _

/-! ## Looking names up -/

theorem find?_eq_some_iff {t : StateTable} {name : Bytes} {id : Nat} :
    t.find? name = some id ↔ t.names.toList[id]? = some name := by
  rw [find?, t.ids_iff, Array.getElem?_toList]

theorem find?_of_mem {t : StateTable} {name : Bytes} (h : name ∈ t.names.toList) :
    t.find? name = some (t.names.toList.idxOf name) :=
  find?_eq_some_iff.2 (List.getElem?_idxOf h)

theorem find?_of_notMem {t : StateTable} {name : Bytes} (h : name ∉ t.names.toList) :
    t.find? name = none := by
  cases hid : t.find? name with
  | none => rfl
  | some id => exact absurd (List.mem_of_getElem? (find?_eq_some_iff.1 hid)) h

/-! ## Interning -/

theorem intern_of_mem {t : StateTable} {name : Bytes} (h : name ∈ t.names.toList) :
    t.intern name = .ok (t.names.toList.idxOf name, t) := by
  have hfind := find?_of_mem h
  unfold intern
  split
  · next id hid =>
    rw [hfind] at hid
    cases hid
    rfl
  · next hnone =>
    rw [hfind] at hnone
    cases hnone

/-- What happens to a new name of proper length. The storage is not asked while `used` keeps to the
largest size of the names. -/
theorem intern_of_new {t : StateTable} {name : Bytes} (h : name ∉ t.names.toList)
    (hpos : 0 < Utf8.count name) (hlen : Utf8.count name ≤ maxNameLength)
    (hused : t.used ≤ t.size * (maxNameLength + 1)) :
    t.intern name =
      if maxStates ≤ t.size then .error .tableFull
      else .ok (t.size, t.add name (find?_of_notMem h)) := by
  have hfind := find?_of_notMem h
  unfold intern
  split
  · next id hid =>
    rw [hfind] at hid
    cases hid
  · rw [if_neg (by omega), if_neg (by omega)]
    split
    · rfl
    · next hroom =>
      have hstorage : ¬ nameStorage < t.used + Utf8.count name + 1 := by
        simp only [nameStorage, maxStates, maxNameLength] at *
        omega
      rw [if_neg hstorage]

/-! ## The names mentioned -/

/-- The table that comes of mentioning names one after another. -/
structure Holds (t : StateTable) (mentioned : List Bytes) : Prop where
  names_eq : t.names.toList = mentioned.eraseDups
  size_le : t.size ≤ maxStates
  used_le : t.used ≤ t.size * (maxNameLength + 1)

/-- The names that every table holds. -/
def builtin : List Bytes := [utf8 "INIT", utf8 "HALT"]

theorem holds_initial : initial.Holds builtin where
  names_eq := by decide
  size_le := by decide
  used_le := by decide

namespace Holds

variable {t : StateTable} {mentioned : List Bytes} {name : Bytes}

theorem length_eq (h : t.Holds mentioned) : mentioned.eraseDups.length = t.size := by
  rw [← h.names_eq, Array.length_toList, size]

theorem mem_iff (h : t.Holds mentioned) : name ∈ t.names.toList ↔ name ∈ mentioned := by
  rw [h.names_eq, List.mem_eraseDups]

/-- Mentioning one more name gives its number, if the table has room for it. -/
theorem intern_ok (h : t.Holds mentioned) (hpos : 0 < Utf8.count name)
    (hlen : Utf8.count name ≤ maxNameLength)
    (hroom : (mentioned ++ [name]).eraseDups.length ≤ maxStates) :
    ∃ t', t.intern name = .ok ((mentioned ++ [name]).eraseDups.idxOf name, t') ∧
      t'.Holds (mentioned ++ [name]) := by
  by_cases hmem : name ∈ mentioned
  · have hsame : (mentioned ++ [name]).eraseDups = mentioned.eraseDups := by
      rw [eraseDups_concat, if_pos hmem]
    refine ⟨t, ?_, ⟨by rw [h.names_eq, hsame], h.size_le, h.used_le⟩⟩
    rw [intern_of_mem (h.mem_iff.2 hmem), h.names_eq, hsame]
  · have hnew : (mentioned ++ [name]).eraseDups = mentioned.eraseDups ++ [name] := by
      rw [eraseDups_concat, if_neg hmem]
    have hsize : t.size < maxStates := by
      rw [hnew, List.length_append, h.length_eq] at hroom
      exact hroom
    have hfresh : name ∉ t.names.toList := fun hin => hmem (h.mem_iff.1 hin)
    refine ⟨t.add name (find?_of_notMem hfresh), ?_, ?_, ?_, ?_⟩
    · rw [intern_of_new hfresh hpos hlen h.used_le, if_neg (by omega), hnew,
        List.idxOf_append_of_notMem (by rwa [List.mem_eraseDups]), h.length_eq]
      simp
    · rw [hnew, ← h.names_eq]
      simp [add]
    · simp only [add, size, Array.size_push] at hsize ⊢
      exact hsize
    · have hused := h.used_le
      simp only [add, size, Array.size_push, Nat.add_mul] at hused ⊢
      omega

/-- A name that would be one too many is refused. -/
theorem intern_full (h : t.Holds mentioned) (hpos : 0 < Utf8.count name)
    (hlen : Utf8.count name ≤ maxNameLength)
    (hfull : ¬ (mentioned ++ [name]).eraseDups.length ≤ maxStates) :
    t.intern name = .error .tableFull := by
  have hsize := h.size_le
  by_cases hmem : name ∈ mentioned
  · rw [eraseDups_concat, if_pos hmem, h.length_eq] at hfull
    exact absurd hsize hfull
  · rw [eraseDups_concat, if_neg hmem, List.length_append, h.length_eq] at hfull
    rw [intern_of_new (fun hin => hmem (h.mem_iff.1 hin)) hpos hlen h.used_le]
    exact if_pos (Nat.le_of_lt_succ (Nat.lt_of_not_le hfull))

/-- A name of proper length is refused exactly if it is new and the table is full. -/
theorem intern_error_iff (h : t.Holds mentioned) (hpos : 0 < Utf8.count name)
    (hlen : Utf8.count name ≤ maxNameLength) {e : InternError} :
    t.intern name = .error e ↔
      e = .tableFull ∧ name ∉ mentioned ∧ mentioned.eraseDups.length = maxStates := by
  have hsize := h.size_le
  rw [← h.length_eq] at hsize
  have hconcat := eraseDups_concat mentioned name
  by_cases hroom : (mentioned ++ [name]).eraseDups.length ≤ maxStates
  · obtain ⟨t', hok, -⟩ := h.intern_ok hpos hlen hroom
    rw [hok]
    refine ⟨fun herror => (nomatch herror), fun ⟨_, hnew, hfull⟩ => ?_⟩
    rw [hconcat, if_neg hnew, List.length_append, List.length_singleton] at hroom
    omega
  · rw [h.intern_full hpos hlen hroom]
    have hnew : name ∉ mentioned := by
      intro hmem
      rw [hconcat, if_pos hmem] at hroom
      exact hroom hsize
    rw [hconcat, if_neg hnew, List.length_append, List.length_singleton] at hroom
    refine ⟨fun herror => ?_, fun ⟨he, _⟩ => by rw [he]⟩
    cases herror
    exact ⟨rfl, hnew, by omega⟩

/-- A name of proper length that was given a number is numbered by its place among those mentioned. -/
theorem of_intern (h : t.Holds mentioned) (hpos : 0 < Utf8.count name)
    (hlen : Utf8.count name ≤ maxNameLength) {id : Nat} {t' : StateTable}
    (hid : t.intern name = .ok (id, t')) :
    t'.Holds (mentioned ++ [name]) ∧ id = (mentioned ++ [name]).eraseDups.idxOf name := by
  by_cases hroom : (mentioned ++ [name]).eraseDups.length ≤ maxStates
  · obtain ⟨t₁, hok, hholds⟩ := h.intern_ok hpos hlen hroom
    rw [hok] at hid
    cases hid
    exact ⟨hholds, rfl⟩
  · rw [h.intern_full hpos hlen hroom] at hid
    cases hid

theorem length_le (h : t.Holds mentioned) : mentioned.eraseDups.length ≤ maxStates := by
  rw [h.length_eq]
  exact h.size_le

end Holds

end StateTable

end LogicMill
