import LogicMill.Files
import LogicMill.Sink
import Mathlib.Data.List.Basic

/-! # Bytes that are stored

What a device or a file holds after it was written to, and that nothing else has changed.

* `Budget.bytes_put`: a write that does not fail stores all that it was given.
* `Sticky.bytes_putAll`: so do several, if the last of them has not failed.
* `Files.lookup_set`, `Files.node?_set_of_ne`, `Files.node?_set_self`: the entries after one of them is set.
* `Files.openWrite_ok`: what a file opened for writing holds.
-/

namespace LogicMill
set_option autoImplicit false

/-! ## Devices -/

theorem Budget.bytes_put {b : Budget} {data : Bytes} (h : (b.put data).failure = none) :
    (b.put data).device.bytes = b.bytes ++ data := by
  unfold put at h ⊢
  cases hroom : b.room with
  | none => simp [bytes]
  | some room =>
    simp only [hroom] at h ⊢
    by_cases hle : data.length ≤ room
    · simp [hle, bytes]
    · simp [hle] at h

namespace Sticky

/-- A writer that has failed does nothing more. -/
theorem putAll_failed {σ : Type} [Device σ] {w : Sticky σ} (h : w.failure ≠ none) (parts : List Bytes) :
    w.putAll parts = w := by
  induction parts with
  | nil => rfl
  | cons part parts ih =>
    obtain ⟨t, ht⟩ := Option.ne_none_iff_exists'.1 h
    have hput : w.put part = w := by simp [put, write, ht]
    simp only [putAll, List.foldl_cons, hput]
    exact ih

theorem bytes_putAll {b : Budget} {parts : List Bytes}
    (h : (putAll ⟨b, none⟩ parts).failure = none) :
    (putAll ⟨b, none⟩ parts).device.bytes = b.bytes ++ parts.flatten := by
  induction parts generalizing b with
  | nil => simp [putAll]
  | cons part parts ih =>
    have hput : put ⟨b, none⟩ part =
        ⟨(b.put part).device, (b.put part).failure.map fun cause => ⟨cause, [utf8 "write failed"]⟩⟩ := rfl
    have hall : putAll ⟨b, none⟩ (part :: parts) = (put ⟨b, none⟩ part).putAll parts := rfl
    rw [hall] at h ⊢
    cases hfailure : (b.put part).failure with
    | none =>
      rw [hput, hfailure, Option.map_none] at h ⊢
      rw [ih h, Budget.bytes_put hfailure, List.flatten_cons, List.append_assoc]
    | some cause =>
      rw [hfailure, Option.map_some] at hput
      rw [hput, putAll_failed (by simp)] at h
      cases h

end Sticky

/-! ## Files -/

namespace Files

variable {f f' : Files} {place other : List Bytes} {node : Node}

theorem lookup_map (entries : List (List Bytes × Node)) (place other : List Bytes) (node : Node) :
    (entries.map fun (p, n) => if p == place then (p, node) else (p, n)).lookup other =
      if other = place then (entries.lookup other).map fun _ => node else entries.lookup other := by
  induction entries with
  | nil => simp
  | cons entry entries ih =>
    obtain ⟨p, n⟩ := entry
    simp only [beq_iff_eq] at ih
    by_cases ho : other = p
    · subst ho
      by_cases hp : other = place <;> simp [hp]
    · have hbeq : (other == p) = false := by simpa using ho
      by_cases hp : p = place
      · subst hp
        simp only [List.map_cons, beq_self_eq_true, if_true, List.lookup_cons, hbeq, if_neg ho] at ih ⊢
        simpa using ih
      · simp only [List.map_cons, beq_iff_eq, if_neg hp, List.lookup_cons, hbeq]
        exact ih

theorem lookup_set (f : Files) (place other : List Bytes) (node : Node) :
    (f.set place node).entries.lookup other =
      if other = place then some node else f.entries.lookup other := by
  unfold set
  split
  · next hsome =>
    obtain ⟨old, hold⟩ := Option.isSome_iff_exists.1 hsome
    rw [lookup_map]
    by_cases ho : other = place
    · subst ho
      simp [hold]
    · simp [ho]
  · next hnone =>
    rw [List.lookup_append]
    by_cases ho : other = place
    · subst ho
      simp [Option.not_isSome_iff_eq_none.1 hnone]
    · have hbeq : (other == place) = false := by simpa using ho
      simp [ho, List.lookup_cons, hbeq]

@[simp] theorem cwd_set (f : Files) (place : List Bytes) (node : Node) : (f.set place node).cwd = f.cwd := by
  unfold set
  split <;> rfl

theorem node?_set_of_ne (node : Node) (h : other ≠ place) :
    (f.set place node).node? other = f.node? other := by
  simp [node?, lookup_set, h]

/-- An entry that can be set is not on the way to the working directory. -/
theorem node?_set_self (node : Node) (h : f.node? place ≠ some .directory) :
    (f.set place node).node? place = some node := by
  have hway : ¬ place.isPrefixOf f.cwd := by
    intro hway
    simp [node?, hway] at h
  simp [node?, lookup_set, hway]

theorem node?_append_of_ne (data : Bytes) (h : other ≠ place) :
    (f.append place data).node? other = f.node? other :=
  node?_set_of_ne _ h

theorem node?_overwrite_of_ne (data : Bytes) (h : other ≠ place) :
    (f.overwrite place data).node? other = f.node? other :=
  node?_set_of_ne _ h

theorem node?_overwrite_self {data : Bytes} (h : f.node? place = some (.file [])) :
    (f.overwrite place data).node? place = some (.file data) := by
  have hcontent : f.content place = [] := by simp [content, h]
  rw [overwrite, hcontent, node?_set_self _ (by simp [h])]
  simp

theorem openWrite_ok {truncate : Bool} {path : Bytes} (h : f.openWrite truncate path = .ok (place, f')) :
    (∀ other, other ≠ place → f'.node? other = f.node? other) ∧
      (truncate = true → f'.node? place = some (.file [])) := by
  unfold openWrite at h
  split at h
  · split at h <;> cases h
  · split at h
    · cases h
    · next way hway =>
      split at h
      · cases h
      · next content hnode =>
        cases h
        cases truncate with
        | true =>
          have hself := node?_set_self (.file []) (show f.node? place ≠ some .directory by simp [hnode])
          exact ⟨fun other hne => node?_set_of_ne _ hne, fun _ => hself⟩
        | false => exact ⟨fun other _ => rfl, fun h => by cases h⟩
      · next hnode =>
        cases h
        have hself := node?_set_self (.file []) (show f.node? place ≠ some .directory by simp [hnode])
        exact ⟨fun other hne => node?_set_of_ne _ hne, fun _ => hself⟩

end Files

end LogicMill
