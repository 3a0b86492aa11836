import LogicMill.Cli.Execute
import LogicMill.Proofs.Listing

/-! # What is written to streams that take all

Streams without a limit never fail, so what an invocation writes to them is told by what it writes, and not
by what they hold already.

* `Reply`: bytes for the two streams; replies follow one another.
* `Site.Takes`: a site has become another one, and a reply has been written on the way.
* `Setup.reply`: what is written about a run on a line, told from the program and the line alone.
* `Setup.answer_takes`, `Setup.batch_takes`: a dialogue and a single run both write this.
-/

namespace LogicMill
set_option autoImplicit false

theorem Budget.eq_holding {b : Budget} (h : b.room = none) : b = Budget.holding b.bytes := by
  obtain ⟨stored, room⟩ := b
  cases h
  simp [Budget.holding, Budget.bytes]

@[simp] theorem Budget.bytes_holding (text : Bytes) : (Budget.holding text).bytes = text := by
  simp [Budget.holding, Budget.bytes]

theorem Budget.put_of_room {b : Budget} (h : b.room = none) (data : Bytes) :
    (b.put data).device = Budget.holding (b.bytes ++ data) := by
  rw [Budget.eq_holding h, Budget.bytes_holding]
  simp [Budget.put, Budget.holding]

theorem putAll_of_room {b : Budget} (h : b.room = none) (parts : List Bytes) :
    Sticky.putAll ⟨b, none⟩ parts = ⟨Budget.holding (b.bytes ++ parts.flatten), none⟩ := by
  rw [← putAll_holding, ← Budget.eq_holding h]

namespace Cli

/-! ## Replies -/

/-- Bytes for the standard output and for the error stream. -/
@[ext]
structure Reply where
  stdout : Bytes := []
  stderr : Bytes := []
deriving Repr, DecidableEq

namespace Reply

instance : Append Reply := ⟨fun r r' => ⟨r.stdout ++ r'.stdout, r.stderr ++ r'.stderr⟩⟩

@[simp] theorem stdout_append (r r' : Reply) : (r ++ r').stdout = r.stdout ++ r'.stdout := rfl

@[simp] theorem stderr_append (r r' : Reply) : (r ++ r').stderr = r.stderr ++ r'.stderr := rfl

@[simp] theorem nil_append (r : Reply) : ({} : Reply) ++ r = r := rfl

@[simp] theorem append_nil (r : Reply) : r ++ {} = r := by ext1 <;> simp

theorem append_assoc (r r' r'' : Reply) : r ++ r' ++ r'' = r ++ (r' ++ r'') := by ext1 <;> simp

/-- Replies one after another. -/
def join (replies : List Reply) : Reply := ⟨replies.flatMap stdout, replies.flatMap stderr⟩

@[simp] theorem join_nil : join [] = {} := rfl

@[simp] theorem join_cons (r : Reply) (replies : List Reply) : join (r :: replies) = r ++ join replies :=
  rfl

/-- The line that reports a failure. -/
def failure (e : Failure) : Reply := { stderr := utf8 "error: " ++ e.text false ++ utf8 "\n" }

end Reply

/-! ## Sites that take all -/

namespace Site

/-- Both streams take any number of bytes. -/
structure Unlimited (s : Site) : Prop where
  stdout : s.stdout.room = none
  stderr : s.stderr.room = none

/-- `s.Takes s' r`: on the way from `s` to `s'` the reply `r` is written, to streams that have room for
all of it and go on to have. -/
structure Takes (s s' : Site) (r : Reply) : Prop where
  unlimited : s'.Unlimited
  stdout : s'.stdout.bytes = s.stdout.bytes ++ r.stdout
  stderr : s'.stderr.bytes = s.stderr.bytes ++ r.stderr

variable {s s' s'' : Site} {r r' : Reply}

theorem Takes.refl (h : s.Unlimited) : s.Takes s {} := ⟨h, by simp, by simp⟩

theorem Takes.trans (h : s.Takes s' r) (h' : s'.Takes s'' r') : s.Takes s'' (r ++ r') where
  unlimited := h'.unlimited
  stdout := by rw [h'.stdout, h.stdout, Reply.stdout_append, List.append_assoc]
  stderr := by rw [h'.stderr, h.stderr, Reply.stderr_append, List.append_assoc]

theorem takes_stdout (h : s.Unlimited) (data : Bytes) :
    s.Takes { s with stdout := Budget.holding (s.stdout.bytes ++ data) } { stdout := data } :=
  ⟨⟨rfl, h.stderr⟩, by simp, by simp⟩

theorem takes_stderr (h : s.Unlimited) (data : Bytes) :
    s.Takes { s with stderr := Budget.holding (s.stderr.bytes ++ data) } { stderr := data } :=
  ⟨⟨h.stdout, rfl⟩, by simp, by simp⟩

theorem print_takes (h : s.Unlimited) (data : Bytes) : s.Takes (s.print data) { stdout := data } := by
  rw [print, Budget.put_of_room h.stdout]
  exact takes_stdout h data

theorem complain_takes (h : s.Unlimited) (data : Bytes) :
    s.Takes (s.complain data) { stderr := data } := by
  rw [complain, Budget.put_of_room h.stderr]
  exact takes_stderr h data

theorem prompt_takes (h : s.Unlimited) : s.Takes s.prompt { stdout := promptText } where
  unlimited := ⟨h.stdout, h.stderr⟩
  stdout := by simp [prompt, Budget.bytes]
  stderr := by simp [prompt]

theorem conclude_ofOutcome? {o : Outcome} {e : Failure} (he : Failure.ofOutcome? o = some e) :
    (conclude false (s, some e)).2 = s.report false e := by
  unfold Failure.ofOutcome? at he
  split at he <;> cases he <;> rfl

theorem report_takes (h : s.Unlimited) (e : Failure) : s.Takes (s.report false e) (.failure e) :=
  complain_takes h _

theorem complainAll_takes (h : s.Unlimited) (records : List Log.Record) :
    s.Takes (records.foldl (fun s r => s.complain r.line) s)
      { stderr := records.flatMap Log.Record.line } := by
  induction records generalizing s with
  | nil => exact .refl h
  | cons record records ih =>
    have hfirst := complain_takes h record.line
    exact hfirst.trans (ih hfirst.unlimited)

theorem log_takes (h : s.Unlimited) (j : Journal) (records : List Log.Record) :
    s.Takes (s.log j records) { stderr := (j.taken records).flatMap Log.Record.line } := by
  have hlines := complainAll_takes h (j.taken records)
  unfold log
  cases j.file? with
  | none => exact hlines
  | some place => exact ⟨⟨hlines.unlimited.stdout, hlines.unlimited.stderr⟩, hlines.stdout, hlines.stderr⟩

theorem writeTape_takes (h : s.Unlimited) (t : Tape) :
    ∃ s', s.writeTape .stdout t = (s', none) ∧ s.Takes s' { stdout := t.text ++ utf8 "\n" } := by
  refine ⟨_, ?_, takes_stdout h _⟩
  simp [writeTape, Tape.writeLine, putAll_of_room h.stdout]

end Site

/-! ## Runs -/

namespace Setup

variable (setup : Setup) (p : Program)

/-- The dump of a run, if one is wanted. -/
def dumpReply (m : Machine) (o : Outcome) : Reply :=
  if setup.options.dump then { stderr := ((dumpFields m o).flatMap dumpParts).flatten } else {}

/-- What follows the dump: the failure that the run has ended in, or the tape, and the number of steps
if it is told. -/
def closingReply (steps : Bool) (m : Machine) (o : Outcome) : Reply :=
  match Failure.ofOutcome? o with
  | some e => .failure e
  | none =>
    { stdout := m.config.tape.text ++ utf8 "\n"
      stderr := if steps then Bytes.ofNat o.steps ++ utf8 " steps\n" else [] }

/-- The records of a run that are logged. -/
def runReply (trace : Array Footprint) (m : Machine) (o : Outcome) : Reply :=
  { stderr := (setup.journal.taken (trace.toList.map stepRecord ++ [runRecord m o])).flatMap
      Log.Record.line }

/-- What is written about a run on a line. -/
def reply (steps : Bool) (line : Bytes) : Reply :=
  match setup.machine p line with
  | .error t => .failure (.trouble t)
  | .ok m =>
    let (o, trace, m) := m.run
    setup.runReply trace m o ++ setup.dumpReply m o ++ closingReply steps m o

variable {setup p} {s : Site} {m : Machine} {o : Outcome}

theorem dump_takes (setup : Setup) (m : Machine) (o : Outcome) (h : s.Unlimited) :
    ∃ s', setup.dump m o s = (s', none) ∧ s.Takes s' (setup.dumpReply m o) := by
  unfold dump dumpReply
  by_cases hdump : setup.options.dump
  · refine ⟨_, ?_, by simpa [hdump] using Site.takes_stderr h _⟩
    simp [hdump, writeDump, putAll_of_room h.stderr]
  · exact ⟨s, by simp [hdump], by simpa [hdump] using Site.Takes.refl h⟩

theorem countSteps_takes (h : s.Unlimited) (steps : Bool) (o : Outcome) :
    s.Takes (countSteps steps o s)
      { stderr := if steps then Bytes.ofNat o.steps ++ utf8 " steps\n" else [] } := by
  unfold countSteps
  cases steps with
  | true => exact Site.complain_takes h _
  | false => exact .refl h

theorem writeTape_countSteps_takes (m : Machine) (h : s.Unlimited) (steps : Bool)
    (he : Failure.ofOutcome? o = none) :
    ∃ s', (countSteps steps o s).writeTape .stdout m.config.tape = (s', none) ∧
      s.Takes s' (closingReply steps m o) := by
  have hcount := countSteps_takes h steps o
  obtain ⟨s', hwrite, htakes⟩ := Site.writeTape_takes hcount.unlimited m.config.tape
  refine ⟨s', hwrite, ?_⟩
  have hboth := hcount.trans htakes
  rw [closingReply, he]
  exact ⟨hboth.unlimited, hboth.stdout, by simpa using hboth.stderr⟩

theorem report_closing_takes (m : Machine) (h : s.Unlimited) (steps : Bool) {e : Failure}
    (he : Failure.ofOutcome? o = some e) : s.Takes (s.report false e) (closingReply steps m o) := by
  rw [closingReply, he]
  exact Site.report_takes h e

/-- A run on a line, up to where a dialogue and a single run differ. -/
theorem run_takes (setup : Setup) (p : Program) (line : Bytes) (h : s.Unlimited) :
    (∃ t, setup.run p line s = .error t ∧ ∀ steps, setup.reply p steps line = .failure (.trouble t)) ∨
      ∃ m o ran dumped told, setup.run p line s = .ok (m, o, ran) ∧ setup.dump m o ran = (dumped, none) ∧
        s.Takes dumped told ∧ ∀ steps, setup.reply p steps line = told ++ closingReply steps m o := by
  unfold run reply
  cases setup.machine p line with
  | error t => exact .inl ⟨t, rfl, fun _ => rfl⟩
  | ok m =>
    -- neither the log nor the dump can fail, and neither depends on whether the steps are told
    have hlog : s.Takes _ (setup.runReply m.run.2.1 m.run.2.2 m.run.1) :=
      Site.log_takes h setup.journal _
    obtain ⟨dumped, hdump, hdumped⟩ := dump_takes setup m.run.2.2 m.run.1 hlog.unlimited
    exact .inr ⟨m.run.2.2, m.run.1, _, dumped, _, rfl, hdump, hlog.trans hdumped, fun _ => rfl⟩

/-- A dialogue goes on after each line, and has written the reply to it. -/
theorem answer_takes (setup : Setup) (p : Program) (h : s.Unlimited) (steps : Bool) (line : Bytes) :
    ∃ s', setup.answer p steps line s = (s', none) ∧ s.Takes s' (setup.reply p steps line) := by
  unfold answer
  obtain ⟨t, hrun, hreply⟩ | ⟨m, o, ran, dumped, told, hrun, hdump, hdumped, hreply⟩ :=
    run_takes setup p line h
  · rw [hrun, hreply]
    exact ⟨_, rfl, Site.report_takes h _⟩
  · simp only [hrun, hdump, hreply]
    cases he : Failure.ofOutcome? o with
    | some e =>
      exact ⟨_, rfl, hdumped.trans (report_closing_takes m hdumped.unlimited steps he)⟩
    | none =>
      obtain ⟨s', hwrite, htakes⟩ := writeTape_countSteps_takes m hdumped.unlimited steps he
      simp only [hwrite]
      exact ⟨s', rfl, hdumped.trans htakes⟩

/-- A single run reports at its end what a dialogue reports at once. -/
theorem batch_takes {stdin : Input} {line : Bytes} (h : s.Unlimited)
    (htape : setup.tapeText stdin s = .ok line) (houtput : setup.options.output = []) :
    s.Takes (conclude false (setup.batch p stdin s)).2 (setup.reply p setup.options.steps line) := by
  have htarget : Target.ofArgument s.files setup.options.output = .ok (.stdout, s.files) := by
    simp [Target.ofArgument, houtput]
  unfold batch
  simp only [htape, htarget]
  obtain ⟨t, hrun, hreply⟩ | ⟨m, o, ran, dumped, told, hrun, hdump, hdumped, hreply⟩ :=
    run_takes setup p line h
  · rw [hrun, hreply]
    exact Site.report_takes h _
  · simp only [hrun, hreply, finish, hdump]
    cases he : Failure.ofOutcome? o with
    | some e =>
      simp only [Site.conclude_ofOutcome? he]
      exact hdumped.trans (report_closing_takes m hdumped.unlimited _ he)
    | none =>
      obtain ⟨s', hwrite, htakes⟩ :=
        writeTape_countSteps_takes m hdumped.unlimited setup.options.steps he
      simp only [hwrite]
      exact hdumped.trans htakes

theorem list_takes (p : Program) (h : s.Unlimited) :
    ∃ s', list p s = (s', none) ∧ s.Takes s' { stdout := p.listing } := by
  refine ⟨_, ?_, Site.takes_stdout h _⟩
  rw [list, Program.writeListing, Budget.eq_holding h.stdout, Program.writeRules_holding]
  simp [Program.listing]

end Setup

end Cli

end LogicMill
