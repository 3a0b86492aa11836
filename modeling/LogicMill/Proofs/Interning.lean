import LogicMill.Proofs.StateTable
import Mathlib.Data.List.Nodup

/-! # Tables under any calls

A table that is reached from the built-in one by calls of `intern`, on any names and with failures in
between, numbers its names without gaps, keeps every number that it gave and stays within its limits.

* `StateTable.attempt`, `StateTable.attemptAll`, `StateTable.interned`: the table after a call, after a
  sequence of calls, and after calls on the built-in table. A call that fails leaves the table alone.
* `StateTable.find?_eq_some_iff_name`: names and numbers are inverse to each other.
* `StateTable.intern_ok_cases`, `StateTable.intern_error_cases`: what a call can do.
* `StateTable.Grows t t'`: the table `t'` continues `t`. Names and numbers stay.
* `StateTable.Sound`: the limits, as every call keeps them.
* `StateTable.interned_spec`: all of this for every sequence of calls.
-/

namespace LogicMill.StateTable
set_option autoImplicit false

variable {t t' t'' : StateTable} {name : Bytes} {id : ℕ}

/-! ## Calls -/

def attempt (t : StateTable) (name : Bytes) : StateTable :=
  match t.intern name with
  | .ok (_, grown) => grown
  | .error _ => t

def attemptAll (t : StateTable) (names : List Bytes) : StateTable := names.foldl attempt t

/-- The table after calls of `intern` on the built-in table. -/
def interned (calls : List Bytes) : StateTable := initial.attemptAll calls

theorem attemptAll_cons (t : StateTable) (name : Bytes) (names : List Bytes) :
    t.attemptAll (name :: names) = (t.attempt name).attemptAll names := rfl

theorem attempt_ok (h : t.intern name = .ok (id, t')) : t.attempt name = t' := by
  unfold attempt
  rw [h]

theorem attempt_error {e : InternError} (h : t.intern name = .error e) : t.attempt name = t := by
  unfold attempt
  rw [h]

/-! ## Names and numbers -/

theorem getElem?_names (h : id < t.size) : t.names.toList[id]? = some (t.name id) := by
  have hid : id < t.names.size := h
  have hneg : ¬ (id : Int) < 0 := by omega
  simp [name, hid, hneg]

theorem find?_eq_some_iff_name : t.find? name = some id ↔ id < t.size ∧ t.name id = name := by
  rw [find?_eq_some_iff]
  constructor
  · intro h
    have hid : id < t.size := by
      have := List.getElem?_eq_some_iff.1 h
      exact this.1
    rw [getElem?_names hid] at h
    exact ⟨hid, Option.some.inj h⟩
  · rintro ⟨hid, rfl⟩
    exact getElem?_names hid

theorem name_inj {a b : ℕ} (ha : a < t.size) (hb : b < t.size) (h : t.name a = t.name b) : a = b := by
  have hfind : t.find? (t.name b) = some a := find?_eq_some_iff_name.2 ⟨ha, h⟩
  have hfind' : t.find? (t.name b) = some b := find?_eq_some_iff_name.2 ⟨hb, rfl⟩
  rw [hfind] at hfind'
  exact Option.some.inj hfind'

theorem nodup_names (t : StateTable) : t.names.toList.Nodup := by
  rw [List.nodup_iff_getElem?_ne_getElem?]
  intro a b hab hb heq
  have hb' : b < t.size := hb
  have ha : a < t.size := Nat.lt_trans hab hb'
  rw [getElem?_names ha, getElem?_names hb'] at heq
  exact Nat.ne_of_lt hab (name_inj ha hb' (Option.some.inj heq))

/-! ## What a call can do -/

/-- A call that succeeds finds the name, or gives the next number to a new one that fits. -/
theorem intern_ok_cases (h : t.intern name = .ok (id, t')) :
    t.find? name = some id ∧ t' = t ∨
      ∃ fresh, id = t.size ∧ t' = t.add name fresh ∧ 1 ≤ Utf8.count name ∧
        Utf8.count name ≤ maxNameLength ∧ t.size < maxStates := by
  unfold intern at h
  split at h
  · next found hfind =>
    cases h
    exact .inl ⟨hfind, rfl⟩
  · next hfresh =>
    split_ifs at h with hempty hlong hfull hstorage
    cases h
    exact .inr ⟨hfresh, rfl, rfl, by omega, by omega, by omega⟩

/-- A call that fails was made on a new name, which is empty, or too long, or one too many. The storage
is asked last. -/
theorem intern_error_cases {e : InternError} (h : t.intern name = .error e) :
    t.find? name = none ∧
      (e = .emptyName ∧ Utf8.count name = 0 ∨ e = .nameTooLong ∧ maxNameLength < Utf8.count name ∨
        e = .tableFull ∧ maxStates ≤ t.size ∨
        e = .storageFull ∧ Utf8.count name ≤ maxNameLength ∧ t.size < maxStates ∧
          nameStorage < t.used + Utf8.count name + 1) := by
  unfold intern at h
  split at h
  · cases h
  · next hfresh =>
    refine ⟨hfresh, ?_⟩
    split_ifs at h with hempty hlong hfull hstorage
    · cases h
      exact .inl ⟨rfl, hempty⟩
    · cases h
      exact .inr (.inl ⟨rfl, hlong⟩)
    · cases h
      exact .inr (.inr (.inl ⟨rfl, hfull⟩))
    · cases h
      exact .inr (.inr (.inr ⟨rfl, by omega, by omega, hstorage⟩))

/-! ## Growth -/

/-- The table `t'` has the names of `t` first, under the same numbers. -/
def Grows (t t' : StateTable) : Prop := t.names.toList <+: t'.names.toList

namespace Grows

theorem refl (t : StateTable) : t.Grows t := List.prefix_refl _

theorem trans (h : t.Grows t') (h' : t'.Grows t'') : t.Grows t'' := List.IsPrefix.trans h h'

theorem size_le (h : t.Grows t') : t.size ≤ t'.size := List.IsPrefix.length_le h

theorem lt_size (h : t.Grows t') (hid : id < t.size) : id < t'.size :=
  Nat.lt_of_lt_of_le hid h.size_le

theorem name_eq (h : t.Grows t') (hid : id < t.size) : t'.name id = t.name id := by
  have hget : t.names.toList[id]? = some (t.name id) := getElem?_names hid
  have hget' : t'.names.toList[id]? = some (t'.name id) := getElem?_names (h.lt_size hid)
  obtain ⟨more, hmore⟩ := h
  rw [← hmore, List.getElem?_append_left (by exact hid), hget] at hget'
  exact (Option.some.inj hget').symm

theorem find?_eq (h : t.Grows t') (hfind : t.find? name = some id) : t'.find? name = some id := by
  obtain ⟨hid, rfl⟩ := find?_eq_some_iff_name.1 hfind
  exact find?_eq_some_iff_name.2 ⟨h.lt_size hid, h.name_eq hid⟩

end Grows

theorem grows_add (fresh : t.find? name = none) : t.Grows (t.add name fresh) := by
  refine ⟨[name], ?_⟩
  simp [add]

/-- A name that was given a number has this number in the table that the call leaves. -/
theorem intern_grows (h : t.intern name = .ok (id, t')) : t.Grows t' ∧ t'.find? name = some id := by
  rcases intern_ok_cases h with ⟨hfind, rfl⟩ | ⟨fresh, rfl, rfl, -⟩
  · exact ⟨.refl _, hfind⟩
  · refine ⟨grows_add fresh, ?_⟩
    rw [find?_eq_some_iff]
    simp [add, size]

theorem intern_of_find? (h : t.find? name = some id) : t.intern name = .ok (id, t) := by
  have hmem : name ∈ t.names.toList := List.mem_of_getElem? (find?_eq_some_iff.1 h)
  have hid := find?_of_mem hmem
  rw [h] at hid
  rw [intern_of_mem hmem, ← Option.some.inj hid]

theorem grows_attempt (t : StateTable) (name : Bytes) : t.Grows (t.attempt name) := by
  cases h : t.intern name with
  | error e =>
    rw [attempt_error h]
    exact .refl t
  | ok result =>
    rw [attempt_ok h]
    exact (intern_grows h).1

theorem grows_attemptAll (t : StateTable) (names : List Bytes) : t.Grows (t.attemptAll names) := by
  induction names generalizing t with
  | nil => exact .refl t
  | cons name names ih =>
    rw [attemptAll_cons]
    exact (t.grows_attempt name).trans (ih (t.attempt name))

/-! ## Limits -/

/-- What every call keeps. The last field keeps the storage from running out before the numbers do: a
name and the character that ends it take at most `maxNameLength + 1`. -/
structure Sound (t : StateTable) : Prop where
  builtin : initial.Grows t
  size_le : t.size ≤ maxStates
  count : ∀ name ∈ t.names.toList, 1 ≤ Utf8.count name ∧ Utf8.count name ≤ maxNameLength
  used_le : t.used ≤ t.size * (maxNameLength + 1)

theorem sound_initial : initial.Sound where
  builtin := .refl initial
  size_le := by decide
  count := by decide
  used_le := by decide

namespace Sound

theorem attempt (h : t.Sound) (name : Bytes) : (t.attempt name).Sound := by
  cases hintern : t.intern name with
  | error e =>
    rw [attempt_error hintern]
    exact h
  | ok result =>
    rw [attempt_ok hintern]
    rcases intern_ok_cases hintern with ⟨-, hsame⟩ | ⟨fresh, -, hgrown, hpos, hlen, hroom⟩
    · rw [hsame]
      exact h
    · rw [hgrown]
      have hsize : (t.add name fresh).size = t.size + 1 := by simp [add, size]
      have hnames : (t.add name fresh).names.toList = t.names.toList ++ [name] := by simp [add]
      have hused : (t.add name fresh).used = t.used + Utf8.count name + 1 := rfl
      refine ⟨h.builtin.trans (grows_add fresh), by omega, fun other hother => ?_, ?_⟩
      · rw [hnames, List.mem_append, List.mem_singleton] at hother
        rcases hother with hother | rfl
        · exact h.count other hother
        · exact ⟨hpos, hlen⟩
      · have := h.used_le
        rw [hsize, hused, Nat.add_mul]
        omega

theorem attemptAll (h : t.Sound) (names : List Bytes) : (t.attemptAll names).Sound := by
  induction names generalizing t with
  | nil => exact h
  | cons name names ih => exact ih (h.attempt name)

theorem two_le_size (h : t.Sound) : 2 ≤ t.size := h.builtin.size_le

theorem name_init (h : t.Sound) : t.name 0 = utf8 "INIT" :=
  h.builtin.name_eq (show 0 < initial.size by decide)

theorem name_halt (h : t.Sound) : t.name 1 = utf8 "HALT" :=
  h.builtin.name_eq (show 1 < initial.size by decide)

theorem count_name (h : t.Sound) (hid : id < t.size) :
    1 ≤ Utf8.count (t.name id) ∧ Utf8.count (t.name id) ≤ maxNameLength :=
  h.count _ (List.mem_of_getElem? (getElem?_names hid))

/-- While there is a number left there is storage left. -/
theorem ne_storageFull (h : t.Sound) {e : InternError} (hintern : t.intern name = .error e) :
    e ≠ .storageFull := by
  rintro rfl
  obtain ⟨-, ⟨he, -⟩ | ⟨he, -⟩ | ⟨he, -⟩ | ⟨-, hlen, hroom, hstorage⟩⟩ := intern_error_cases hintern
  · cases he
  · cases he
  · cases he
  · have hused := h.used_le
    have hslots : (t.size + 1) * (maxNameLength + 1) ≤ nameStorage :=
      Nat.mul_le_mul_right (maxNameLength + 1) hroom
    rw [Nat.add_mul] at hslots
    omega

/-- The names that a call takes: those that are there, and any other of proper length while there is a
number left. -/
theorem intern_ok_iff (h : t.Sound) :
    (∃ id grown, t.intern name = .ok (id, grown)) ↔
      (∃ id, t.find? name = some id) ∨
        (1 ≤ Utf8.count name ∧ Utf8.count name ≤ maxNameLength) ∧ t.size < maxStates := by
  constructor
  · rintro ⟨id, grown, hintern⟩
    rcases intern_ok_cases hintern with ⟨hfind, -⟩ | ⟨-, -, -, hpos, hlen, hroom⟩
    · exact .inl ⟨id, hfind⟩
    · exact .inr ⟨⟨hpos, hlen⟩, hroom⟩
  · intro htaken
    cases hintern : t.intern name with
    | ok result => exact ⟨result.1, result.2, rfl⟩
    | error e =>
      have hstorage := h.ne_storageFull hintern
      obtain ⟨hfresh, hcause⟩ := intern_error_cases hintern
      rcases htaken with ⟨id, hfind⟩ | ⟨⟨hpos, hlen⟩, hroom⟩
      · rw [hfresh] at hfind
        cases hfind
      · rcases hcause with ⟨-, hempty⟩ | ⟨-, hlong⟩ | ⟨-, hfull⟩ | ⟨he, -⟩
        · omega
        · omega
        · omega
        · exact absurd he hstorage

end Sound

theorem sound_interned (calls : List Bytes) : (interned calls).Sound := sound_initial.attemptAll calls

/-- A table reached by any calls is a bounded bijection that only grows. The numbers `0` and `1` are
those of the built-in names; a name has a number exactly if it is the name of that number, so the names
are distinct and the numbers are those below the size; there are at most `maxStates` names, each of one
to `maxNameLength` letters; a number that was given stays through all further calls. A call succeeds
exactly if the name is there, or is of proper length and there is a number left; else the table is left
as it was, and it is never the storage that is full. -/
theorem interned_spec (calls : List Bytes) :
    let t := interned calls
    (2 ≤ t.size ∧ t.name 0 = utf8 "INIT" ∧ t.name 1 = utf8 "HALT") ∧
    (∀ name id, t.find? name = some id ↔ id < t.size ∧ t.name id = name) ∧
    t.names.toList.Nodup ∧
    (∀ id, (∃ name, t.find? name = some id) ↔ id < t.size) ∧
    t.size ≤ maxStates ∧
    (∀ id < t.size, 1 ≤ Utf8.count (t.name id) ∧ Utf8.count (t.name id) ≤ maxNameLength) ∧
    (∀ name id grown, t.intern name = .ok (id, grown) → ∀ more,
      (grown.attemptAll more).intern name = .ok (id, grown.attemptAll more) ∧
        (grown.attemptAll more).name id = name) ∧
    (∀ name, (∃ id grown, t.intern name = .ok (id, grown)) ↔
      (∃ id, t.find? name = some id) ∨
        (1 ≤ Utf8.count name ∧ Utf8.count name ≤ maxNameLength) ∧ t.size < maxStates) ∧
    ∀ name e, t.intern name = .error e → interned (calls ++ [name]) = t ∧ e ≠ .storageFull := by
  intro t
  have hsound : t.Sound := sound_interned calls
  refine ⟨⟨hsound.two_le_size, hsound.name_init, hsound.name_halt⟩,
    fun name id => find?_eq_some_iff_name, t.nodup_names, fun id => ⟨?_, fun hid => ?_⟩,
    hsound.size_le, fun id hid => hsound.count_name hid, fun name id grown h more => ?_,
    fun name => hsound.intern_ok_iff, fun name e h => ⟨?_, hsound.ne_storageFull h⟩⟩
  · rintro ⟨name, hfind⟩
    exact (find?_eq_some_iff_name.1 hfind).1
  · exact ⟨t.name id, find?_eq_some_iff_name.2 ⟨hid, rfl⟩⟩
  · have hfind := (grown.grows_attemptAll more).find?_eq (intern_grows h).2
    exact ⟨intern_of_find? hfind, (find?_eq_some_iff_name.1 hfind).2⟩
  · have hcalls : interned (calls ++ [name]) = t.attempt name := List.foldl_append
    rw [hcalls, attempt_error h]

end LogicMill.StateTable
