import LogicMill.Proofs.Listing
import LogicMill.Proofs.Renaming
import LogicMill.Proofs.WellFormed

/-! # Listings of programs that were put together by hand

A program need not come from a text: its table may have been filled in any order, with names that no
instruction uses. If its names and symbols can be written in a rule text at all, then its listing is
such a text, and assembling it gives the same program but for the numbers of its states.

* `Instruction.Listable`: what can be written so that it is read as it was.
* `Symbol.shown`, `Program.phrase`: the phrase by which an instruction is shown.
* `Program.namesUsed`, `Program.renumber`: states by the place where they first occur.
* `Program.listing_assembles`: what the listing is assembled to.
* `Program.renames_renumber`: states that are used are told apart by their new numbers.
* `Rules.assemble_listing_renumbered`: the program that is read back, and its runs.
-/

namespace LogicMill
set_option autoImplicit false

/-! ## What can be read back -/

/-- A name in valid UTF-8 without white space. -/
def Readable (name : Bytes) : Prop :=
  Utf8.isValid name = true ∧ ∀ c ∈ Utf8.chars name, Text.isBlank c = false

instance (name : Bytes) : Decidable (Readable name) := @instDecidableAnd _ _ _ (List.decidableBAll _ _)

/-- An instruction whose states have readable names, the first one not like a comment, and whose
symbols are blanks or characters that do not look like one. -/
structure Instruction.Listable (states : StateTable) (i : Instruction) : Prop where
  source : Readable (states.name i.source)
  noComment : ¬ utf8 "//" <+: states.name i.source
  target : Readable (states.name i.target)
  read : i.read.Nameable
  write : i.write.Nameable

theorem Utf8.encode_chars {text : Bytes} (h : isValid text = true) : encode (chars text) = text := by
  have hletters : decode text = (chars text).map .char := by
    rw [chars, List.map_map, List.map_congr_left (g := id), List.map_id]
    intro letter hletter
    have hchar := List.all_eq_true.1 h letter hletter
    cases letter with
    | char c => rfl
    | stray b => cases hchar
  exact (decode_eq_map_char_iff.1 hletters).symm

theorem Readable.field {name : Bytes} (h : Readable name)
    (hcount : 1 ≤ Utf8.count name ∧ Utf8.count name ≤ maxNameLength) : Rules.Field (Utf8.chars name) := by
  have hlength : (Utf8.chars name).length = Utf8.count name := List.length_map _
  refine ⟨List.length_pos_iff.1 ?_, ?_, h.2⟩
  · rw [hlength]
    exact hcount.1
  · rw [hlength]
    exact hcount.2

theorem Readable.noComment {name : Bytes} (h : Readable name) (hname : ¬ utf8 "//" <+: name) :
    ¬ ['/', '/'] <+: Utf8.chars name := by
  rintro ⟨rest, hrest⟩
  apply hname
  have hslashes : utf8 "//" = Utf8.encode ['/', '/'] := by decide
  refine ⟨Utf8.encode rest, ?_⟩
  rw [hslashes, ← Utf8.encode_append, hrest, Utf8.encode_chars h.1]

/-! ## Symbols -/

namespace Symbol

/-- The character by which a symbol is shown. -/
def shown (s : Symbol) : Char := if s = blank then '_' else s.char?.getD '_'

variable {s : Symbol}

theorem shown_symbolOf (c : Char) : (Rules.symbolOf c).shown = Rules.shownChar c := by
  unfold shown Rules.shownChar
  split
  · rfl
  · next h => rw [Rules.symbolOf_of_not_blank h, char?_ofChar, Option.getD_some]

/-- Nameable symbols are those that characters stand for in rules. -/
theorem Nameable.exists_char (h : s.Nameable) :
    ∃ c, Text.isBlank c = false ∧ s = Rules.symbolOf c := by
  rcases h with rfl | ⟨c, rfl, hblank, hc⟩
  · exact ⟨'_', rfl, rfl⟩
  · exact ⟨c, hblank, (Rules.symbolOf_of_ne hc).symm⟩

theorem Nameable.symbolOf_shown (h : s.Nameable) : Rules.symbolOf s.shown = s := by
  obtain ⟨c, -, rfl⟩ := h.exists_char
  rw [shown_symbolOf, Rules.symbolOf_shownChar]

theorem Nameable.text_eq (h : s.Nameable) : s.text = String.utf8EncodeChar s.shown := by
  obtain ⟨c, -, rfl⟩ := h.exists_char
  rw [shown_symbolOf, Rules.text_symbolOf]

theorem Nameable.shown_notBlank (h : s.Nameable) : Text.isBlank s.shown = false := by
  obtain ⟨c, hc, rfl⟩ := h.exists_char
  rw [shown_symbolOf]
  exact Rules.shownChar_notBlank hc

end Symbol

/-! ## Numbers by first occurrence -/

theorem nodup_eraseDups (names : List Bytes) : names.eraseDups.Nodup := by
  induction names using List.reverseRecOn with
  | nil => simp
  | append_singleton names name ih =>
    rw [eraseDups_concat]
    split
    · exact ih
    · next h =>
      have hfresh : name ∉ names.eraseDups := fun hmem => h (List.mem_eraseDups.1 hmem)
      rw [← List.concat_eq_append]
      exact ih.concat hfresh

namespace StateTable

variable {t : StateTable} {id : StateId}

theorem Sound.count_stateName (h : t.Sound) (hid : 0 ≤ id ∧ id < t.size) :
    1 ≤ Utf8.count (t.name id) ∧ Utf8.count (t.name id) ≤ maxNameLength := by
  obtain ⟨n, rfl⟩ := Int.eq_ofNat_of_zero_le hid.1
  exact h.count_name (Int.ofNat_lt.1 hid.2)

theorem name_mem (hid : 0 ≤ id ∧ id < t.size) : t.name id ∈ t.names.toList := by
  obtain ⟨n, rfl⟩ := Int.eq_ofNat_of_zero_le hid.1
  exact List.mem_of_getElem? (getElem?_names (Int.ofNat_lt.1 hid.2))

theorem initial_name : ∀ id : ℕ, id < initial.size →
    initial.name id ∈ builtin ∧ builtin.eraseDups.idxOf (initial.name id) = id := by
  decide

end StateTable

namespace Program

variable (p : Program) {i : Instruction}

/-- The names of the states of an instruction, in order. -/
def stateNames (i : Instruction) : List Bytes := [p.states.name i.source, p.states.name i.target]

/-- The built-in names, then the other names that instructions use, by the place where each of them
first occurs. -/
def namesUsed : List Bytes := (StateTable.builtin ++ p.code.toList.flatMap p.stateNames).eraseDups

/-- The place of the name of a state among those that are used. -/
def renumber (id : StateId) : StateId := p.namesUsed.idxOf (p.states.name id)

/-- The states whose names are used. -/
def usedStates : Set StateId := {id | (0 ≤ id ∧ id < p.states.size) ∧ p.states.name id ∈ p.namesUsed}

/-- The phrase by which an instruction is shown. -/
def phrase (i : Instruction) : Rules.Phrase where
  source := Utf8.chars (p.states.name i.source)
  read := i.read.shown
  target := Utf8.chars (p.states.name i.target)
  write := i.write.shown
  move := i.move

variable {p}

theorem mem_namesUsed {name : Bytes} (hi : i ∈ p.code) (h : name ∈ p.stateNames i) :
    name ∈ p.namesUsed :=
  List.mem_eraseDups.2 (List.mem_append_right _ (List.mem_flatMap.2 ⟨i, by simpa using hi, h⟩))

/-! ## The listing -/

theorem phrase_legible (hsound : p.states.Sound) (hi : i ∈ p.code) (h : i.Listable p.states) :
    (p.phrase i).Legible := by
  obtain ⟨⟨hsource, htarget⟩, hmove⟩ := p.code_valid i hi
  exact {
    source := ⟨h.source.field (hsound.count_stateName hsource), h.source.noComment h.noComment⟩
    read := h.read.shown_notBlank
    target := h.target.field (hsound.count_stateName htarget)
    write := h.write.shown_notBlank
    move := hmove }

theorem shows_phrase (hi : i ∈ p.code) (h : i.Listable p.states) : Rules.Shows p i (p.phrase i) where
  source := (Utf8.encode_chars h.source.1).symm
  read := h.read.text_eq
  target := (Utf8.encode_chars h.target.1).symm
  write := h.write.text_eq
  move := Rules.text_move (p.code_valid i hi).2

theorem names_phrase (h : i.Listable p.states) : (p.phrase i).names = p.stateNames i := by
  simp only [Rules.Phrase.names, phrase, Utf8.encode_chars h.source.1, Utf8.encode_chars h.target.1,
    stateNames]

theorem instruction_phrase (h : i.Listable p.states) :
    (p.phrase i).instruction p.namesUsed = i.rename p.renumber := by
  simp only [Rules.Phrase.instruction, phrase, Utf8.encode_chars h.source.1,
    Utf8.encode_chars h.target.1, h.read.symbolOf_shown, h.write.symbolOf_shown]
  rfl

theorem stateNames_phrases (h : ∀ i ∈ p.code, i.Listable p.states) :
    Rules.stateNames (p.code.toList.map p.phrase) = p.namesUsed := by
  unfold Rules.stateNames Rules.mentions namesUsed
  rw [List.flatMap_map]
  congr 2
  apply List.flatMap_congr
  intro i hi
  exact names_phrase (h i (Array.mem_toList_iff.1 hi))

/-- There are no more names in use than the table has. -/
theorem length_namesUsed_le (hsound : p.states.Sound) : p.namesUsed.length ≤ maxStates := by
  have hsubset : p.namesUsed ⊆ p.states.names.toList := by
    intro name hname
    rw [namesUsed, List.mem_eraseDups, List.mem_append, List.mem_flatMap] at hname
    rcases hname with hname | ⟨i, hi, hname⟩
    · exact hsound.builtin.subset hname
    · obtain ⟨⟨hsource, htarget⟩, -⟩ := p.code_valid i (Array.mem_toList_iff.1 hi)
      simp only [stateNames, List.mem_cons, List.not_mem_nil, or_false] at hname
      rcases hname with rfl | rfl
      · exact StateTable.name_mem hsource
      · exact StateTable.name_mem htarget
  have hlength := ((nodup_eraseDups _).subperm hsubset).length_le
  exact hlength.trans hsound.size_le

/-- The listing is assembled to the instructions under their new numbers, over the names in use. -/
theorem listing_assembles (hsound : p.states.Sound) (h : ∀ i ∈ p.code, i.Listable p.states)
    (file : Bytes) :
    ∃ again, Rules.assemble file p.listing none = .ok again ∧
      again.code = p.code.map (Instruction.rename p.renumber) ∧
      again.states.names.toList = p.namesUsed := by
  have hmem : ∀ i ∈ p.code.toList, i ∈ p.code ∧ i.Listable p.states := fun i hi =>
    ⟨Array.mem_toList_iff.1 hi, h i (Array.mem_toList_iff.1 hi)⟩
  have hlegible : ∀ phrase ∈ p.code.toList.map p.phrase, phrase.Legible := by
    intro phrase hphrase
    obtain ⟨i, hi, rfl⟩ := List.mem_map.1 hphrase
    exact phrase_legible hsound (hmem i hi).1 (hmem i hi).2
  have hlisting : p.listing = Utf8.encode (Rules.plainText (p.code.toList.map p.phrase)) := by
    apply Rules.listing_eq
    rw [List.forall₂_map_right_iff, List.forall₂_same]
    exact fun i hi => shows_phrase (hmem i hi).1 (hmem i hi).2
  have hnames := stateNames_phrases h
  obtain ⟨again, hagain, hcode, hstates⟩ := Rules.assemble_of_ruleText file
    (Rules.ruleText_plainText hlegible) (by simpa using p.size_le)
    (by rw [hnames]; exact length_namesUsed_le hsound)
  rw [hnames] at hcode hstates
  refine ⟨again, by rw [hlisting, hagain], ?_, hstates⟩
  rw [← Array.toList_inj, hcode, List.map_map, Array.toList_map]
  exact List.map_congr_left fun i hi => instruction_phrase (hmem i hi).2

/-! ## The states under their new numbers -/

theorem builtin_mem_usedStates (hsound : p.states.Sound) (id : ℕ) (hid : id < StateTable.initial.size) :
    (id : StateId) ∈ p.usedStates := by
  have hname : p.states.name id = StateTable.initial.name id := hsound.builtin.name_eq hid
  refine ⟨⟨Int.natCast_nonneg id, Int.ofNat_lt.2 (hsound.builtin.lt_size hid)⟩, List.mem_eraseDups.2 ?_⟩
  rw [hname]
  exact List.mem_append_left _ (StateTable.initial_name id hid).1

/-- The built-in names stand first in every table, and first among the names in use. -/
theorem renumber_builtin (hsound : p.states.Sound) (id : ℕ) (hid : id < StateTable.initial.size) :
    p.renumber id = id := by
  have hname : p.states.name id = StateTable.initial.name id := hsound.builtin.name_eq hid
  obtain ⟨hmem, hidx⟩ := StateTable.initial_name id hid
  rw [renumber, hname, namesUsed, StateTable.idxOf_mentioned hmem, hidx]

theorem renames_renumber (hsound : p.states.Sound) : Renames p.renumber p.usedStates p.code where
  injOn := by
    -- Equal new numbers are those of equal names, and the table has each name once.
    rintro a ⟨⟨ha, ha'⟩, hmem⟩ b ⟨⟨hb, hb'⟩, -⟩ heq
    obtain ⟨a, rfl⟩ := Int.eq_ofNat_of_zero_le ha
    obtain ⟨b, rfl⟩ := Int.eq_ofNat_of_zero_le hb
    have hname : p.states.name a = p.states.name b := (List.idxOf_inj hmem).1 (Int.ofNat_inj.1 heq)
    rw [StateTable.name_inj (Int.ofNat_lt.1 ha') (Int.ofNat_lt.1 hb') hname]
  halt_mem := builtin_mem_usedStates hsound 1 (by decide)
  halt_eq := renumber_builtin hsound 1 (by decide)
  source_mem i hi := ⟨(p.code_valid i hi).1.1, mem_namesUsed hi (by simp [stateNames])⟩
  target_mem i hi := ⟨(p.code_valid i hi).1.2, mem_namesUsed hi (by simp [stateNames])⟩

theorem name_renumber {states : StateTable} (hnames : states.names.toList = p.namesUsed) {id : StateId}
    (hid : id ∈ p.usedStates) : states.name (p.renumber id) = p.states.name id := by
  unfold renumber
  rw [← hnames]
  apply Rules.name_idxOf
  rw [hnames]
  exact hid.2

end Program

theorem Machine.create_stepLimit (p : Program) (tape : Tape) {limit : ℤ} (h : 0 < limit) :
    create (some p) (some tape) [.stepLimit limit] =
      .ok { program := p, config := ⟨StateId.init, tape⟩, limit := limit.toNat } := by
  simp only [create, setAll, set_stepLimit _ h]

namespace Rules

/-- A program over a table grown by any calls, whose names and symbols can be read back, can be listed
and assembled again. The new program has as many instructions; each has the states of the same name,
the same symbols and the same move, the states being numbered by first occurrence, with the two that
are built in where they were. Both programs make the same run on the same tape: it ends in the same way
after the same number of steps, in the state of the same name, over the same symbol and with the same
tape. -/
theorem assemble_listing_renumbered {calls : List Bytes} {code : Array Instruction} {program : Program}
    (hbuild : Program.build (StateTable.interned calls) code = .ok program)
    (hlistable : ∀ i ∈ program.code, i.Listable program.states) (file : Bytes) :
    (program.writeListing ({} : Budget)).failure = none ∧
    ∃ again, assemble file (program.writeListing ({} : Budget)).device.bytes none = .ok again ∧
      again.code.size = program.code.size ∧
      (∀ (k : ℕ) (i : Instruction), program.code[k]? = some i →
        ∃ j, again.code[k]? = some j ∧
          again.states.name j.source = program.states.name i.source ∧ j.read = i.read ∧
          again.states.name j.target = program.states.name i.target ∧ j.write = i.write ∧
          j.move = i.move ∧
          j.source = program.renumber i.source ∧ j.target = program.renumber i.target) ∧
      again.states.names.toList = program.namesUsed ∧
      program.renumber StateId.init = StateId.init ∧ program.renumber StateId.halt = StateId.halt ∧
      ∀ (tape : Tape) (limit : ℤ), 0 < limit →
        ∃ m m' : Machine,
          Machine.create (some program) (some tape) [.stepLimit limit] = .ok m ∧
          Machine.create (some again) (some tape) [.stepLimit limit] = .ok m' ∧
          m'.run.1 = { m.run.1 with state := program.renumber m.run.1.state } ∧
          m'.run.2.2.config.tape = m.run.2.2.config.tape := by
  have hsound : program.states.Sound := by
    rw [(build_eq_ok hbuild).2]
    exact StateTable.sound_interned calls
  have hwritten : program.writeListing ({} : Budget) = ⟨Budget.holding program.listing, none⟩ :=
    program.writeListing_holding
  obtain ⟨again, hagain, hcode, hnames⟩ := Program.listing_assembles hsound hlistable file
  have hrenames := Program.renames_renumber hsound
  have hinit : program.renumber StateId.init = StateId.init :=
    Program.renumber_builtin hsound 0 (by decide)
  rw [hwritten]
  refine ⟨rfl, again, by simpa [Budget.bytes, Budget.holding] using hagain, by rw [hcode, Array.size_map],
    fun k i hi => ?_, hnames, hinit, hrenames.halt_eq, fun tape limit hlimit => ?_⟩
  · have hmem := Array.mem_of_getElem? hi
    refine ⟨i.rename program.renumber, by rw [hcode, Array.getElem?_map, hi, Option.map_some], ?_, rfl, ?_,
      rfl, rfl, rfl, rfl⟩
    · exact Program.name_renumber hnames (hrenames.source_mem i hmem)
    · exact Program.name_renumber hnames (hrenames.target_mem i hmem)
  · refine ⟨_, _, Machine.create_stepLimit program tape hlimit, Machine.create_stepLimit again tape hlimit, ?_⟩
    have hconfig : (⟨StateId.init, tape⟩ : Config) = ⟨program.renumber StateId.init, tape⟩ := by
      rw [hinit]
    exact Machine.run_rename hrenames hcode (fun s hs => Program.name_renumber hnames hs) rfl rfl
      (Program.builtin_mem_usedStates hsound 0 (by decide)) hconfig

/-- Two instructions that use the names of their table in another order, and one of them not at all. -/
def crossedCode : Array Instruction :=
  #[⟨StateId.init, .blank, 4, .ofChar 'é', .right⟩, ⟨4, .ofChar '/', 3, .blank, .left⟩]

def crossed : Program where
  states := StateTable.interned [utf8 "unused", utf8 "b", utf8 "a//"]
  code := crossedCode
  index := .ofCode crossedCode
  code_valid := by decide +kernel
  size_le := by decide
  index_eq := rfl

theorem assemble_listing_renumbered_crossed :
    ∃ again, assemble [] (crossed.writeListing ({} : Budget)).device.bytes none = .ok again ∧
      again.states.names.toList = [utf8 "INIT", utf8 "HALT", utf8 "a//", utf8 "b"] ∧
      ∃ j, again.code[1]? = some j ∧ j.source = 2 ∧ j.target = 3 := by
  have hbuild : Program.build (StateTable.interned [utf8 "unused", utf8 "b", utf8 "a//"]) crossedCode =
      .ok crossed := rfl
  have hlistable : ∀ i ∈ crossed.code, i.Listable crossed.states := by
    intro i hi
    simp only [crossed, crossedCode, List.mem_toArray, List.mem_cons, List.not_mem_nil, or_false] at hi
    rcases hi with rfl | rfl
    · exact ⟨by decide +kernel, by decide +kernel, by decide +kernel, .inl rfl,
        .inr ⟨'é', rfl, rfl, by decide⟩⟩
    · exact ⟨by decide +kernel, by decide +kernel, by decide +kernel,
        .inr ⟨'/', rfl, rfl, by decide⟩, .inl rfl⟩
  obtain ⟨-, again, hagain, -, hrules, hnames, -⟩ := assemble_listing_renumbered hbuild hlistable []
  obtain ⟨j, hj, -, -, -, -, -, hsource, htarget⟩ := hrules 1 _ rfl
  refine ⟨again, hagain, ?_, j, hj, ?_, ?_⟩
  · rw [hnames]
    decide +kernel
  · rw [hsource]
    decide +kernel
  · rw [htarget]
    decide +kernel

end Rules

end LogicMill
