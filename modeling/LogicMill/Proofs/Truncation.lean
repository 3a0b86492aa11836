import LogicMill.Cli.Session
import LogicMill.Proofs.Storing

/-! # Output that is cut short

A device that fails has stored the beginning of what it was given, and a writer that stops there leaves it
with the beginning of the whole output.

* `Device.Honest`: each text is stored from its beginning, and it is told when some of it is not.
* `Device.Takes`: texts that a device takes one after another, all of them.
* `Ledger`: a device together with the texts that it was asked to take.
* `Sticky.putAll_of_takes`, `Sticky.putAll_of_fails`: what is written up to the first failure and past it.
* `Sticky.held_putAll`, `Sticky.stops`: what is stored, and what the device is asked for.
* `Budget.putAll_limited`: what a device with a limit holds at the end.
* `Program.writeRules_eq_putAll`: a listing is one sequence of texts, though it is given up only at the end
  of a line.
* `Sticky.output_cut_short`: all of this, for any calls and for listings, tapes and dumps.
-/

namespace LogicMill
set_option autoImplicit false

/-! ## Devices that report -/

namespace Device

variable {σ : Type} [Device σ]

/-- Of each text the device adds a beginning to what it holds, and all of it unless it fails. -/
structure Honest (held : σ → Bytes) : Prop where
  stores : ∀ d data, ∃ kept, kept <+: data ∧ held (put d data).device = held d ++ kept
  reports : ∀ d data, (put d data).failure = none → held (put d data).device = held d ++ data

/-- Texts that the device takes one after another without a failure, and what it becomes. -/
inductive Takes : σ → List Bytes → σ → Prop
  | nil (d : σ) : Takes d [] d
  | cons {d e : σ} {data : Bytes} {parts : List Bytes} (ok : (put d data).failure = none)
      (rest : Takes (put d data).device parts e) : Takes d (data :: parts) e

theorem takes_or_fails (d : σ) (parts : List Bytes) :
    (∃ e, Takes d parts e) ∨ ∃ before data after e cause, parts = before ++ data :: after ∧
      Takes d before e ∧ (put e data).failure = some cause := by
  induction parts generalizing d with
  | nil => exact .inl ⟨d, .nil d⟩
  | cons part parts ih =>
    cases hfailure : (put d part).failure with
    | some cause => exact .inr ⟨[], part, parts, d, cause, rfl, .nil d, hfailure⟩
    | none =>
      obtain ⟨e, he⟩ | ⟨before, data, after, e, cause, rfl, he, hfails⟩ := ih (put d part).device
      · exact .inl ⟨e, .cons hfailure he⟩
      · exact .inr ⟨part :: before, data, after, e, cause, rfl, .cons hfailure he, hfails⟩

theorem Takes.take {d e : σ} {parts : List Bytes} (h : Takes d parts e) (n : Nat) :
    ∃ e', Takes d (parts.take n) e' := by
  induction h generalizing n with
  | nil d => exact ⟨d, by simpa using .nil d⟩
  | @cons d e data parts ok _ ih =>
    cases n with
    | zero => exact ⟨d, .nil d⟩
    | succ n =>
      obtain ⟨e', he'⟩ := ih n
      exact ⟨e', .cons ok he'⟩

theorem Takes.held {held : σ → Bytes} (honest : Honest held) {d e : σ} {parts : List Bytes}
    (h : Takes d parts e) : held e = held d ++ parts.flatten := by
  induction h with
  | nil d => simp
  | cons ok _ ih => rw [ih, honest.reports _ _ ok, List.flatten_cons, List.append_assoc]

end Device

theorem Budget.honest : Device.Honest Budget.bytes where
  stores b data := by
    cases hroom : b.room with
    | none => exact ⟨data, List.prefix_rfl, by simp [Device.put, put, hroom, bytes]⟩
    | some room =>
      refine ⟨data.take room, List.take_prefix .., ?_⟩
      by_cases hfits : data.length ≤ room
      · simp [Device.put, put, hroom, hfits, bytes, List.take_of_length_le hfits]
      · simp [Device.put, put, hroom, hfits, bytes]
  reports _ _ ok := Budget.bytes_put ok

/-! ## A record of what was asked -/

/-- A device and the texts that it was asked to take, whether it took them or not. -/
structure Ledger (σ : Type) where
  device : σ
  asked : List Bytes := []

namespace Ledger

variable {σ : Type} [Device σ]

instance : Device (Ledger σ) where
  put l data :=
    let r := Device.put l.device data
    ⟨⟨r.device, l.asked ++ [data]⟩, r.taken, r.failure⟩

theorem honest {held : σ → Bytes} (h : Device.Honest held) :
    Device.Honest fun l : Ledger σ => held l.device where
  stores l data := h.stores l.device data
  reports l data ok := h.reports l.device data ok

theorem takes {d e : σ} {parts : List Bytes} (h : Device.Takes d parts e) (asked : List Bytes) :
    Device.Takes (⟨d, asked⟩ : Ledger σ) parts ⟨e, asked ++ parts⟩ := by
  induction h generalizing asked with
  | nil d => simpa using Device.Takes.nil (⟨d, asked⟩ : Ledger σ)
  | @cons d e data parts ok _ ih =>
    have hrest := ih (asked ++ [data])
    rw [List.append_assoc, List.singleton_append] at hrest
    exact .cons ok hrest

end Ledger

/-! ## Writers -/

namespace Sticky

variable {σ : Type} [Device σ]

/-- The ways to write to a writer: a text, given as bytes or as a string, or a single byte. -/
inductive Call where
  | text (data : Bytes)
  | string (data : Bytes)
  | byte (b : UInt8)
deriving Repr, DecidableEq

/-- The bytes of a call. -/
def Call.data : Call → Bytes
  | text data => data
  | string data => data
  | byte b => [b]

theorem putAll_append (w : Sticky σ) (parts parts' : List Bytes) :
    w.putAll (parts ++ parts') = (w.putAll parts).putAll parts' :=
  List.foldl_append ..

theorem putAll_of_takes {d e : σ} {parts : List Bytes} (h : Device.Takes d parts e) :
    putAll ⟨d, none⟩ parts = ⟨e, none⟩ := by
  induction h with
  | nil => rfl
  | cons ok _ ih => simpa [putAll, put, write, ok] using ih

theorem putAll_of_fails {d e : σ} {before : List Bytes} {data cause : Bytes} (h : Device.Takes d before e)
    (hfails : (Device.put e data).failure = some cause) (after : List Bytes) :
    putAll ⟨d, none⟩ (before ++ data :: after) =
      ⟨(Device.put e data).device, some ⟨cause, [utf8 "write failed"]⟩⟩ := by
  have hput : put ⟨e, none⟩ data = ⟨(Device.put e data).device, some ⟨cause, [utf8 "write failed"]⟩⟩ := by
    simp [put, write, hfails]
  calc putAll ⟨d, none⟩ (before ++ data :: after)
      = (putAll ⟨d, none⟩ before).putAll (data :: after) := putAll_append ..
    _ = putAll ⟨e, none⟩ (data :: after) := by rw [putAll_of_takes h]
    _ = (put ⟨e, none⟩ data).putAll after := rfl
    _ = _ := by rw [hput, putAll_failed (by simp)]

/-- What an honest device has stored is a beginning of what was written. -/
theorem held_putAll {held : σ → Bytes} (honest : Device.Honest held) (d : σ) (parts : List Bytes) :
    held (putAll ⟨d, none⟩ parts).device <+: held d ++ parts.flatten := by
  obtain ⟨e, he⟩ | ⟨before, data, after, e, cause, rfl, he, hfails⟩ := Device.takes_or_fails d parts
  · refine ⟨[], ?_⟩
    rw [putAll_of_takes he, he.held honest, List.append_nil]
  · obtain ⟨kept, ⟨lost, hdata⟩, hkept⟩ := honest.stores e data
    refine ⟨lost ++ after.flatten, ?_⟩
    rw [putAll_of_fails he hfails, hkept, he.held honest, ← hdata]
    simp

/-- A writer that has been given the first `n` of some texts, on a device that keeps a record. -/
def upTo (d : σ) (parts : List Bytes) (n : Nat) : Sticky (Ledger σ) := putAll ⟨⟨d, []⟩, none⟩ (parts.take n)

theorem upTo_of_takes {d e : σ} {before : List Bytes} (h : Device.Takes d before e) (rest : List Bytes)
    {n : Nat} (hn : n ≤ before.length) :
    (upTo d (before ++ rest) n).failure = none ∧ (upTo d (before ++ rest) n).device.asked = before.take n := by
  obtain ⟨e', he'⟩ := h.take n
  rw [upTo, List.take_append_of_le_length hn, putAll_of_takes (Ledger.takes he' [])]
  exact ⟨rfl, rfl⟩

theorem upTo_of_fails {d e : σ} {before : List Bytes} {data cause : Bytes} (h : Device.Takes d before e)
    (hfails : (Device.put e data).failure = some cause) (rest : List Bytes) {n : Nat} (hn : before.length < n) :
    upTo d (before ++ data :: rest) n =
      ⟨⟨(Device.put e data).device, before ++ [data]⟩, some ⟨cause, [utf8 "write failed"]⟩⟩ := by
  obtain ⟨k, rfl⟩ : ∃ k, n = before.length + (k + 1) := ⟨n - before.length - 1, by omega⟩
  rw [upTo, List.take_length_add_append, List.take_succ_cons]
  exact putAll_of_fails (Ledger.takes h []) hfails (rest.take k)

/-- Texts are written up to the first that fails: from then on the device is asked for nothing, and the
failure stays the one of that text. -/
inductive Stops (d : σ) (parts : List Bytes) : Prop
  | never (e : σ) (takes : Device.Takes d parts e)
      (along : ∀ n, (upTo d parts n).failure = none ∧ (upTo d parts n).device.asked = parts.take n)
  | once (before : List Bytes) (data : Bytes) (rest : List Bytes) (e : σ) (cause : Bytes)
      (parts_eq : parts = before ++ data :: rest) (takes : Device.Takes d before e)
      (fails : (Device.put e data).failure = some cause)
      (along : ∀ n, (upTo d parts n).failure =
          (if n ≤ before.length then none else some ⟨cause, [utf8 "write failed"]⟩) ∧
        (upTo d parts n).device.asked = (before ++ [data]).take n)

theorem stops (d : σ) (parts : List Bytes) : Stops d parts := by
  obtain ⟨e, he⟩ | ⟨before, data, rest, e, cause, rfl, he, hfails⟩ := Device.takes_or_fails d parts
  · refine .never e he fun n => ?_
    -- past the last text nothing more is written
    have hupTo : upTo d parts n = upTo d (parts ++ []) (min n parts.length) := by
      rw [upTo, upTo, List.append_nil, ← List.take_eq_take_min]
    rw [hupTo, List.take_eq_take_min]
    exact upTo_of_takes he [] (by omega)
  · refine .once before data rest e cause rfl he hfails fun n => ?_
    by_cases hn : n ≤ before.length
    · rw [if_pos hn, List.take_append_of_le_length hn]
      exact upTo_of_takes he (data :: rest) hn
    · have hall : (before ++ [data]).take n = before ++ [data] :=
        List.take_of_length_le (by simp; omega)
      rw [if_neg hn, hall, upTo_of_fails he hfails rest (by omega)]
      exact ⟨rfl, rfl⟩

end Sticky

/-! ## Devices with a limit -/

/-- A device that takes `limit` bytes in all. -/
def Budget.limited (limit : Nat) : Budget := { room := some limit }

/-- Of a text, a device with a limit has stored what fits, and a failure is told if that is not all. -/
structure CutAt (limit : Nat) (text stored : Bytes) (failure : Option Trouble) (contexts : List Bytes) :
    Prop where
  stored : stored = text.take (min limit text.length)
  failure_eq_none : failure = none ↔ text.length ≤ limit
  failure_eq_some : limit < text.length → failure = some ⟨Budget.full, contexts⟩

theorem Budget.putAll_limited {b : Budget} {room : Nat} (h : b.room = some room) (parts : List Bytes) :
    (Sticky.putAll ⟨b, none⟩ parts).device.bytes = b.bytes ++ parts.flatten.take room ∧
      (Sticky.putAll ⟨b, none⟩ parts).failure =
        if parts.flatten.length ≤ room then none else some ⟨Budget.full, [utf8 "write failed"]⟩ := by
  induction parts generalizing b room with
  | nil => simp [Sticky.putAll]
  | cons part parts ih =>
    have hall : Sticky.putAll ⟨b, none⟩ (part :: parts) = (Sticky.put ⟨b, none⟩ part).putAll parts := rfl
    rw [hall, List.flatten_cons, List.length_append]
    by_cases hfits : part.length ≤ room
    · have hput : Sticky.put ⟨b, none⟩ part =
          ⟨⟨b.stored.appendList part, some (room - part.length)⟩, none⟩ := by
        simp [Sticky.put, Sticky.write, Device.put, put, h, hfits]
      obtain ⟨hbytes, hfailure⟩ := ih (b := ⟨b.stored.appendList part, some (room - part.length)⟩) rfl
      rw [hput, hbytes, hfailure, List.take_append, List.take_of_length_le hfits]
      refine ⟨by simp [bytes], ?_⟩
      congr 1
      exact propext (by omega)
    · have hput : Sticky.put ⟨b, none⟩ part =
          ⟨⟨b.stored.appendList (part.take room), some 0⟩, some ⟨full, [utf8 "write failed"]⟩⟩ := by
        simp [Sticky.put, Sticky.write, Device.put, put, h, hfits]
      rw [hput, Sticky.putAll_failed (by simp), List.take_append_of_le_length (by omega), if_neg (by omega)]
      exact ⟨by simp [bytes], rfl⟩

theorem cutAt_putAll (limit : Nat) (parts : List Bytes) :
    CutAt limit parts.flatten (Sticky.putAll ⟨Budget.limited limit, none⟩ parts).device.bytes
      (Sticky.putAll ⟨Budget.limited limit, none⟩ parts).failure [utf8 "write failed"] := by
  obtain ⟨hbytes, hfailure⟩ := Budget.putAll_limited (b := Budget.limited limit) rfl parts
  rw [hbytes, hfailure]
  refine ⟨?_, by simp, fun hlong => if_neg (by omega)⟩
  rw [← List.take_eq_take_min]
  rfl

theorem CutAt.within {limit : Nat} {text stored : Bytes} {failure : Option Trouble} {contexts : List Bytes}
    (h : CutAt limit text stored failure contexts) (context : Bytes) :
    CutAt limit text stored (failure.map fun e => e.within context) (contexts ++ [context]) where
  stored := h.stored
  failure_eq_none := by rw [Option.map_eq_none_iff, h.failure_eq_none]
  failure_eq_some hlong := by rw [h.failure_eq_some hlong, Option.map_some, Trouble.within]

/-! ## Listings, tapes and dumps -/

theorem Program.writeRules_eq_putAll {σ : Type} [Device σ] (p : Program) (code : List Instruction)
    (w : Sticky σ) :
    p.writeRules code w = w.putAll (code.flatMap fun i => p.fields i ++ [utf8 "\n"]) := by
  induction code generalizing w with
  | nil => rfl
  | cons i rest ih =>
    have hline : w.putAll (p.fields i ++ [utf8 "\n"]) = (p.writeRule i w).put (utf8 "\n") :=
      Sticky.putAll_append ..
    rw [List.flatMap_cons, Sticky.putAll_append, hline, writeRules]
    split
    · next hfailed =>
      -- the listing is given up here; the writer would not have written more anyway
      rw [Sticky.putAll_failed (Option.isSome_iff_ne_none.1 hfailed)]
    · exact ih _

theorem Program.cutAt_writeListing (p : Program) (limit : Nat) :
    CutAt limit p.listing (p.writeListing (Budget.limited limit)).device.bytes
      (p.writeListing (Budget.limited limit)).failure [utf8 "write failed"] := by
  have hline : p.line = List.flatten ∘ fun i => p.fields i ++ [utf8 "\n"] := by
    funext i
    simp [Program.line]
  have htext : p.listing = (p.code.toList.flatMap fun i => p.fields i ++ [utf8 "\n"]).flatten := by
    rw [listing, hline, List.flatMap_def, List.flatMap_def, List.flatten_flatten, List.map_map]
  rw [writeListing, writeRules_eq_putAll, htext]
  exact cutAt_putAll limit _

theorem Tape.cutAt_writeLine (t : Tape) (limit : Nat) :
    CutAt limit (t.text ++ utf8 "\n") (t.writeLine ⟨Budget.limited limit, none⟩).device.bytes
      ((t.writeLine ⟨Budget.limited limit, none⟩).failure.map fun e => e.within (utf8 "-o/--output"))
      [utf8 "write failed", utf8 "-o/--output"] := by
  have hcut := (cutAt_putAll limit [t.text, utf8 "\n"]).within (utf8 "-o/--output")
  rwa [List.flatten_cons, List.flatten_singleton] at hcut

namespace Cli

theorem cutAt_writeDump (m : Machine) (o : Outcome) (limit : Nat) :
    CutAt limit ((dumpFields m o).flatMap dumpParts).flatten
      (writeDump m o ⟨Budget.limited limit, none⟩).device.bytes
      (writeDump m o ⟨Budget.limited limit, none⟩).failure [utf8 "write failed"] :=
  cutAt_putAll limit _

theorem Site.cutAt_writeTape_stdout (s : Site) (t : Tape) (limit : Nat) :
    let s' := { s with stdout := Budget.limited limit }
    CutAt limit (t.text ++ utf8 "\n") (s'.writeTape .stdout t).1.stdout.bytes (s'.writeTape .stdout t).2
      [utf8 "write failed", utf8 "-o/--output"] :=
  t.cutAt_writeLine limit

theorem Site.cutAt_writeTape_file (s : Site) (t : Tape) (limit : Nat) {place : List Bytes}
    (h : s.files.node? place = some (.file [])) :
    let s' := { s with outlet.room := some limit }
    CutAt limit (t.text ++ utf8 "\n") ((s'.writeTape (.file place) t).1.files.content place)
      (s'.writeTape (.file place) t).2 [utf8 "write failed", utf8 "-o/--output"] := by
  intro s'
  have hcontent : (s'.writeTape (.file place) t).1.files.content place =
      (t.writeLine ⟨Budget.limited limit, none⟩).device.bytes := by
    rw [Files.content, writeTape, Files.node?_overwrite_self h]
    rfl
  rw [hcontent]
  exact t.cutAt_writeLine limit

end Cli

/-! ## The whole -/

/-- Whatever is written to a device that tells its failures is cut short at the first of them: for every
sequence of calls of a writer, and for listings, tapes and dumps on a device with a limit. -/
theorem Sticky.output_cut_short :
    (∀ (σ : Type) [Device σ] (held : σ → Bytes), Device.Honest held → ∀ (d : σ) (calls : List Call),
      let parts := calls.map Call.data
      Stops d parts ∧ ∀ n, held (upTo d parts n).device.device <+: held d ++ (parts.take n).flatten) ∧
    (∀ (p : Program) (limit : Nat),
      let w := p.writeListing (Budget.limited limit)
      CutAt limit p.listing w.device.bytes w.failure [utf8 "write failed"]) ∧
    (∀ (s : Cli.Site) (t : Tape) (limit : Nat),
      let r := { s with stdout := Budget.limited limit }.writeTape .stdout t
      CutAt limit (t.text ++ utf8 "\n") r.1.stdout.bytes r.2
        [utf8 "write failed", utf8 "-o/--output"]) ∧
    (∀ (s : Cli.Site) (t : Tape) (limit : Nat) (place : List Bytes),
      s.files.node? place = some (.file []) →
      let r := { s with outlet.room := some limit }.writeTape (.file place) t
      CutAt limit (t.text ++ utf8 "\n") (r.1.files.content place) r.2
        [utf8 "write failed", utf8 "-o/--output"]) ∧
    ∀ (m : Machine) (o : Outcome) (limit : Nat),
      let w := Cli.writeDump m o ⟨Budget.limited limit, none⟩
      CutAt limit ((Cli.dumpFields m o).flatMap Cli.dumpParts).flatten w.device.bytes w.failure
        [utf8 "write failed"] := by
  refine ⟨fun σ _ held honest d calls => ⟨stops d _, fun n => ?_⟩, Program.cutAt_writeListing,
    Cli.Site.cutAt_writeTape_stdout, fun s t limit _ => s.cutAt_writeTape_file t limit, Cli.cutAt_writeDump⟩
  -- a device that keeps a record stores what it would store without
  exact held_putAll (Ledger.honest honest) ⟨d, []⟩ _

/-- Calls that write six bytes. -/
def Sticky.sixBytes : List Call := [.text (utf8 "ab"), .byte 99, .string (utf8 "de"), .byte 102]

/-- A device with room for the half of them, after all the calls. -/
def Sticky.halfOfSix : Sticky (Ledger Budget) := upTo (Budget.limited 3) (sixBytes.map Call.data) 4

/-- A tape of four letters. -/
def Tape.fourLetters : Tape where
  cells := #[.ofChar 'a', .ofChar 'b', .ofChar 'c', .ofChar 'd']
  head := 0
  size_le := by decide
  head_lt := by decide

/-- A site with an empty file that takes three bytes. -/
def Cli.Site.threeByteFile : Site :=
  { files := { entries := [([utf8 "out"], .file [])] }, outlet := { room := some 3 } }

theorem Sticky.output_cut_short_halfOfSix :
    (Stops (Budget.limited 3) (sixBytes.map Call.data) ∧
        halfOfSix.device.device.bytes <+: utf8 "abcdef" ∧ halfOfSix.device.device.bytes = utf8 "abc" ∧
        halfOfSix.device.asked = [utf8 "ab", utf8 "c", utf8 "de"] ∧
        halfOfSix.failure = some ⟨utf8 "disk full", [utf8 "write failed"]⟩) ∧
      (Cli.Site.threeByteFile.writeTape (.file [utf8 "out"]) .fourLetters).1.files.content [utf8 "out"] =
        utf8 "abc" := by
  obtain ⟨hcalls, -, -, hfile, -⟩ := output_cut_short
  obtain ⟨hstops, hstored⟩ := hcalls Budget Budget.bytes Budget.honest (Budget.limited 3) sixBytes
  refine ⟨⟨hstops, hstored 4, by decide +kernel, by decide +kernel, by decide +kernel⟩, ?_⟩
  have hcut := hfile Cli.Site.threeByteFile .fourLetters 3 [utf8 "out"] (by decide +kernel)
  exact hcut.stored.trans (by decide +kernel)

end LogicMill
