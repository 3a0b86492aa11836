import LogicMill.Proofs.Assembly
import LogicMill.Rules.Listing
import Mathlib.Data.List.Forall2

/-! # Listings are read back

The listing of a program is a rule text, and assembling it gives the program back.

* `shownChar`, `Phrase.shown`: the phrase by which an instruction is shown.
* `plainText`: phrases one to a line, which is a rule text if they are legible.
* `listing_eq`, `listing_of_phrases`: the listing of a program as such a text.
* `Program.writeListing_holding`: what is written where there is room for all of it.
* `assemble_listing`: assembling undoes listing for every program that was assembled.
-/

namespace LogicMill
set_option autoImplicit false

/-! ## Symbols and moves in writing -/

theorem Symbol.char?_ofChar (c : Char) : (Symbol.ofChar c).char? = some c := by
  have hcode : (Symbol.ofChar c).code.toUInt32 = c.val := by simp [Symbol.ofChar]
  have hvalid : (Symbol.ofChar c).code.toUInt32.toNat.isValidChar := by
    rw [hcode]
    exact c.valid
  rw [Symbol.char?, dif_pos hvalid, Option.some_inj]
  apply Char.ext
  rw [← UInt32.toNat_inj]
  exact congrArg UInt32.toNat hcode

namespace Rules

/-- The character by which the symbol of a character is shown. -/
def shownChar (c : Char) : Char := if symbolOf c = .blank then '_' else c

theorem symbolOf_of_not_blank {c : Char} (h : symbolOf c ≠ .blank) : symbolOf c = .ofChar c := by
  refine symbolOf_of_ne ?_
  rintro rfl
  exact h rfl

theorem text_symbolOf (c : Char) : (symbolOf c).text = String.utf8EncodeChar (shownChar c) := by
  unfold Symbol.text shownChar
  split
  · rfl
  · next h => rw [symbolOf_of_not_blank h, Symbol.char?_ofChar]

theorem symbolOf_shownChar (c : Char) : symbolOf (shownChar c) = symbolOf c := by
  unfold shownChar
  split
  · next h => rw [h]; rfl
  · rfl

/-! ## Phrases in writing -/

/-- The letter of a move that is a proper one. -/
def moveChar (move : Move) : Char := if move = .left then 'L' else 'R'

theorem moveLetter_moveChar {move : Move} (h : move = .left ∨ move = .right) :
    MoveLetter (moveChar move) move := by
  rcases h with rfl | rfl
  · exact .left
  · exact .right

theorem text_move {move : Move} (h : move = .left ∨ move = .right) :
    move.text = String.utf8EncodeChar (moveChar move) := by
  rcases h with rfl | rfl <;> decide

/-- A phrase with one blank between its fields. -/
def Phrase.plain (phrase : Phrase) : List Char :=
  phrase.source ++ [' '] ++ phrase.read :: [' '] ++ phrase.target ++ [' '] ++ phrase.write :: [' '] ++
    moveChar phrase.move :: []

/-- Phrases one to a line. -/
def plainText (phrases : List Phrase) : List Char := phrases.flatMap fun phrase => phrase.plain ++ ['\n']

theorem Phrase.Legible.written {phrase : Phrase} (h : phrase.Legible) :
    Phrase.Written phrase.plain phrase := by
  have hspace : Spacing [' '] := .one rfl
  have hopens : Phrase.Opens _ phrase :=
    .mk h.source hspace h.read hspace h.target hspace h.write hspace
  exact .mk hopens (moveLetter_moveChar h.move) (.inl (by simp [Padding]))

theorem ruleText_plainText {phrases : List Phrase} (h : ∀ phrase ∈ phrases, phrase.Legible) :
    RuleText (plainText phrases) phrases := by
  induction phrases with
  | nil => exact .closing (.inl .nil)
  | cons phrase phrases ih =>
    have hphrase := (h phrase (List.mem_cons_self ..)).written
    have hrest := ih fun q hq => h q (List.mem_cons_of_mem phrase hq)
    simpa [plainText] using RuleText.rule .nil hphrase hrest

/-- `Shows program i phrase`: the fields of the instruction `i` are written as those of `phrase`. -/
structure Shows (program : Program) (i : Instruction) (phrase : Phrase) : Prop where
  source : program.states.name i.source = Utf8.encode phrase.source
  read : i.read.text = String.utf8EncodeChar phrase.read
  target : program.states.name i.target = Utf8.encode phrase.target
  write : i.write.text = String.utf8EncodeChar phrase.write
  move : i.move.text = String.utf8EncodeChar (moveChar phrase.move)

theorem Shows.line_eq {program : Program} {i : Instruction} {phrase : Phrase}
    (h : Shows program i phrase) : program.line i = Utf8.encode (phrase.plain ++ ['\n']) := by
  have hspace : utf8 " " = String.utf8EncodeChar ' ' := by decide
  have hline : utf8 "\n" = String.utf8EncodeChar '\n' := by decide
  simp [Program.line, Program.fields, Phrase.plain, h.source, h.read, h.target, h.write, h.move, hspace,
    hline]

theorem listing_eq {program : Program} {phrases : List Phrase}
    (h : List.Forall₂ (Shows program) program.code.toList phrases) :
    program.listing = Utf8.encode (plainText phrases) := by
  unfold Program.listing plainText
  generalize program.code.toList = code at h
  induction h with
  | nil => rfl
  | cons hi _ ih => rw [List.flatMap_cons, List.flatMap_cons, Utf8.encode_append, hi.line_eq, ih]

/-! ## Programs that were assembled -/

/-- The phrase by which the instruction of a phrase is shown: a blank is always an underscore. -/
def Phrase.shown (phrase : Phrase) : Phrase :=
  { phrase with read := shownChar phrase.read, write := shownChar phrase.write }

theorem shownChar_notBlank {c : Char} (h : Text.isBlank c = false) :
    Text.isBlank (shownChar c) = false := by
  unfold shownChar
  split
  · rfl
  · exact h

theorem Phrase.Legible.shown {phrase : Phrase} (h : phrase.Legible) : phrase.shown.Legible :=
  ⟨h.source, shownChar_notBlank h.read, h.target, shownChar_notBlank h.write, h.move⟩

theorem Phrase.instruction_shown (names : List Bytes) (phrase : Phrase) :
    phrase.shown.instruction names = phrase.instruction names := by
  simp only [Phrase.instruction, Phrase.shown, symbolOf_shownChar]

theorem stateNames_shown (phrases : List Phrase) :
    stateNames (phrases.map Phrase.shown) = stateNames phrases := by
  unfold stateNames mentions
  rw [List.flatMap_map]
  rfl

theorem name_idxOf {table : StateTable} {name : Bytes} (h : name ∈ table.names.toList) :
    table.name (table.names.toList.idxOf name : Nat) = name := by
  have hget := List.getElem?_idxOf h
  rw [Array.getElem?_toList] at hget
  simp [StateTable.name, hget]

theorem shows_instruction {program : Program} {phrase : Phrase} (h : phrase.Legible)
    (hnames : ∀ name ∈ phrase.names, name ∈ program.states.names.toList) :
    Shows program (phrase.instruction program.states.names.toList) phrase.shown where
  source := name_idxOf (hnames _ (by simp [Phrase.names]))
  read := text_symbolOf phrase.read
  target := name_idxOf (hnames _ (by simp [Phrase.names]))
  write := text_symbolOf phrase.write
  move := text_move h.move

/-- The listing of a program that holds the instructions of legible phrases shows these phrases. -/
theorem listing_of_phrases {program : Program} {phrases : List Phrase}
    (hlegible : ∀ phrase ∈ phrases, phrase.Legible)
    (hcode : program.code.toList = phrases.map (Phrase.instruction (stateNames phrases)))
    (hnames : program.states.names.toList = stateNames phrases) :
    program.listing = Utf8.encode (plainText (phrases.map Phrase.shown)) := by
  apply listing_eq
  rw [hcode, List.forall₂_map_left_iff, List.forall₂_map_right_iff, List.forall₂_same]
  intro phrase hphrase
  rw [← hnames]
  refine shows_instruction (hlegible phrase hphrase) fun name hname => ?_
  rw [hnames, stateNames, List.mem_eraseDups]
  exact List.mem_append_right _ (List.mem_flatMap.2 ⟨phrase, hphrase, hname⟩)

end Rules

/-! ## Listings that are written -/

/-- A device without a limit that has stored the given bytes. -/
def Budget.holding (text : Bytes) : Budget := ⟨text.toArray, none⟩

theorem put_holding (text data : Bytes) :
    Sticky.put ⟨Budget.holding text, none⟩ data = ⟨Budget.holding (text ++ data), none⟩ := by
  simp [Sticky.put, Sticky.write, Device.put, Budget.put, Budget.holding]

theorem putAll_holding (text : Bytes) (parts : List Bytes) :
    Sticky.putAll ⟨Budget.holding text, none⟩ parts =
      ⟨Budget.holding (text ++ parts.flatten), none⟩ := by
  induction parts generalizing text with
  | nil => simp [Sticky.putAll]
  | cons part parts ih =>
    have := ih (text ++ part)
    rw [Sticky.putAll, List.foldl_cons, put_holding]
    rw [Sticky.putAll, List.append_assoc] at this
    rw [this, List.flatten_cons]

theorem Program.writeRules_holding (program : Program) (code : List Instruction) (text : Bytes) :
    program.writeRules code ⟨Budget.holding text, none⟩ =
      ⟨Budget.holding (text ++ code.flatMap program.line), none⟩ := by
  induction code generalizing text with
  | nil => simp [Program.writeRules]
  | cons i code ih =>
    rw [Program.writeRules, Program.writeRule, putAll_holding, put_holding]
    simp only [Option.isSome_none, Bool.false_eq_true, if_false]
    rw [ih, List.flatMap_cons, Program.line, List.append_assoc, List.append_assoc, List.append_assoc]

/-- A listing that is written where there is room for it. -/
theorem Program.writeListing_holding (program : Program) :
    program.writeListing (Budget.holding []) = ⟨Budget.holding program.listing, none⟩ := by
  rw [Program.writeListing, Program.writeRules_holding, List.nil_append, Program.listing]

namespace Rules

theorem find?_congr {a b : StateTable} (h : a.names = b.names) (name : Bytes) :
    a.find? name = b.find? name := by
  apply Option.ext
  intro id
  rw [StateTable.find?_eq_some_iff, StateTable.find?_eq_some_iff, h]

/-- The listing of an assembled program is assembled to a program with the same instructions over the
same table, whose listing is again the same. -/
theorem assemble_listing {file text : Bytes} {program : Program}
    (h : assemble file text none = .ok program) (file' : Bytes) :
    (program.writeListing ({} : Budget)).failure = none ∧
    ∃ again, assemble file' (program.writeListing ({} : Budget)).device.bytes none = .ok again ∧
      again.code = program.code ∧ again.states.names = program.states.names ∧
      (∀ name, again.states.find? name = program.states.find? name) ∧
      (again.writeListing ({} : Budget)).device.bytes =
        (program.writeListing ({} : Budget)).device.bytes := by
  have hwritten : ∀ q : Program, q.writeListing ({} : Budget) = ⟨Budget.holding q.listing, none⟩ :=
    Program.writeListing_holding
  obtain ⟨chars, phrases, -, htext, hrules, hstates, hcode, hnames⟩ := ruleText_of_assemble h
  have hlisting := listing_of_phrases htext.legible hcode hnames
  have hlegible : ∀ phrase ∈ phrases.map Phrase.shown, phrase.Legible := by
    intro phrase hphrase
    obtain ⟨q, hq, rfl⟩ := List.mem_map.1 hphrase
    exact (htext.legible q hq).shown
  obtain ⟨again, hagain, hcode', hnames'⟩ := assemble_of_ruleText file' (ruleText_plainText hlegible)
    (by simpa using hrules) (by rwa [stateNames_shown])
  rw [stateNames_shown] at hcode' hnames'
  rw [List.map_map, Function.comp_def] at hcode'
  simp only [Phrase.instruction_shown] at hcode'
  have hsame : again.states.names = program.states.names := by
    rw [← Array.toList_inj, hnames', hnames]
  rw [hwritten, hlisting]
  refine ⟨rfl, again, by simpa [Budget.bytes, Budget.holding] using hagain, ?_, hsame,
    find?_congr hsame, ?_⟩
  · rw [← Array.toList_inj, hcode', hcode]
  · rw [hwritten, listing_of_phrases htext.legible hcode' hnames']

/-- A text with comments, names made of slashes, a character U+0000 for the blank and no line end. -/
theorem assemble_listing_slashes :
    ∃ program, assemble [] (utf8 "// c\n/ \x00 a//b _ L// d\na//b é / x R") none = .ok program ∧
      ∃ again, assemble [] (program.writeListing ({} : Budget)).device.bytes none = .ok again ∧
        again.code = program.code ∧ again.states.names = program.states.names := by
  have hok : (assemble [] (utf8 "// c\n/ \x00 a//b _ L// d\na//b é / x R") none).isOk = true := by
    decide +kernel
  cases h : assemble [] (utf8 "// c\n/ \x00 a//b _ L// d\na//b é / x R") none with
  | error e =>
    rw [h] at hok
    cases hok
  | ok program =>
    obtain ⟨-, again, hagain, hcode, hnames, -⟩ := assemble_listing h []
    exact ⟨program, rfl, again, hagain, hcode, hnames⟩

end Rules

end LogicMill
