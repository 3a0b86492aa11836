import LogicMill.Proofs.Encoding
import LogicMill.Proofs.Relisting
import LogicMill.Proofs.Stages
import LogicMill.Proofs.Transcript

/-! # Dialogues and single runs

A dialogue answers each line as a single run would that is given the line as its tape. From one line to the
next it keeps only whether the number of steps is told.

* `Dialogue.Typed`: the lines that a single run reads as they are.
* `Options.single`, `Setup.single`: the single run with the options of a dialogue.
* `Setup.transcript`: all that a dialogue writes. `Setup.converse_step` is one line of it,
  `Setup.converse_takes` the whole.
* `Setup.converse_quit`: no line matters after one that asks to quit.
* `Converses`: an invocation begins a dialogue; `Converses.agrees_single` compares it with single runs.
-/

namespace LogicMill.Cli
set_option autoImplicit false

/-! ## Lines on the standard input -/

namespace Dialogue

/-- A line in UTF-8 without a line end in it and without a mark before it. -/
structure Typed (line : Bytes) : Prop where
  valid : Utf8.isValid line = true
  unmarked : ¬ Encoding.mark .marked <+: line
  noReturn : 0x0D ∉ line
  noFeed : 0x0A ∉ line

instance (line : Bytes) : Decidable (Typed line) :=
  decidable_of_iff (Utf8.isValid line = true ∧ ¬ Encoding.mark .marked <+: line ∧ 0x0D ∉ line ∧ 0x0A ∉ line)
    ⟨fun ⟨a, b, c, d⟩ => ⟨a, b, c, d⟩, fun ⟨a, b, c, d⟩ => ⟨a, b, c, d⟩⟩

/-- How a line may end: with a line end, or with the input. -/
def stops : List (List Char) := [[], ['\n'], ['\r', '\n']]

namespace Typed

variable {line : Bytes} {stop : List Char}

theorem suits (h : Typed line) (hstop : stop ∈ stops) :
    Encoding.plain.Suits (Utf8.chars line ++ stop) := by
  intro hhead
  cases hchars : Utf8.chars line with
  | nil =>
    rw [hchars] at hhead
    revert stop
    decide
  | cons c rest =>
    rw [hchars] at hhead
    cases hhead
    refine h.unmarked ⟨Utf8.encode rest, ?_⟩
    rw [← Utf8.encode_chars h.valid, hchars]
    rfl

theorem decode (h : Typed line) (hstop : stop ∈ stops) :
    Input.decode ⟨line ++ Utf8.encode stop, none⟩ = ⟨line ++ Utf8.encode stop, none⟩ := by
  have hwrite := Input.decode_write (h.suits hstop)
  rwa [Encoding.write, Utf8.encode_append, Utf8.encode_chars h.valid] at hwrite

theorem firstLine (h : Typed line) (hstop : stop ∈ stops) :
    Text.firstLine (line ++ Utf8.encode stop) = line := by
  have hfeed : ∀ b ∈ line, (b != 0x0A) = true := by
    intro b hb
    rw [bne_iff_ne]
    rintro rfl
    exact h.noFeed hb
  have hlast : line.getLast? ≠ some 0x0D := fun hlast => h.noReturn (List.mem_of_getLast? hlast)
  rw [Text.firstLine, List.takeWhile_append_of_pos hfeed]
  -- before the line feed of a line end there is at most the byte that is dropped
  have hrest : (Utf8.encode stop).takeWhile (· != 0x0A) = [] ∨
      (Utf8.encode stop).takeWhile (· != 0x0A) = [0x0D] := by
    revert stop
    decide
  rcases hrest with hrest | hrest <;> simp [hrest, Text.dropReturn, hlast]

end Typed

end Dialogue

/-! ## The single run of a dialogue -/

/-- The same options, but for a single run on the standard input. -/
def Options.single (o : Options) (steps : Bool) : Options :=
  { o with interactive := false, tape := standardStream, steps }

def Setup.single (setup : Setup) (steps : Bool) : Setup :=
  { setup with options := setup.options.single steps }

namespace Options

variable {o o' : Options} {terminal : Bool}

theorem program_completed (o : Options) (terminal : Bool) : (o.completed terminal).program = o.program := by
  unfold completed
  split_ifs <;> rfl

theorem completed_interactive (h : (o.completed terminal).interactive = true) :
    o.completed terminal = { o with interactive := true } := by
  unfold completed at h ⊢
  split_ifs at h ⊢ with htape hterminal
  · rfl
  · exact absurd h htape.2
  · rw [← h]

/-- A dialogue was asked for, or there is a terminal and no tape. -/
theorem checked_interactive (h : o.checked terminal = .ok o') (hi : o'.interactive = true) :
    o' = { o with interactive := true } ∧ o.program ≠ [] ∧ o.program ≠ standardStream := by
  simp only [checked, program_completed] at h
  split_ifs at h with hprogram _ _ hstream
  cases h
  exact ⟨completed_interactive hi, hprogram, fun he => hstream ⟨hi, he⟩⟩

theorem checked_single (hne : o.program ≠ []) (hstream : o.program ≠ standardStream) (steps : Bool) :
    (o.single steps).checked terminal = .ok (o.single steps) := by
  have htape : standardStream ≠ [] := by decide
  simp [checked, completed, single, hne, hstream, htape]

end Options

namespace Setup

theorem ofOptions_single {o : Options} {site : Site} {logged : Files} {setup : Setup}
    (h : Setup.ofOptions o site = .ok (setup, logged)) (hi : setup.options.interactive = true) (steps : Bool) :
    setup.options = { o with interactive := true } ∧ o.program ≠ standardStream ∧
      Setup.ofOptions (o.single steps) site = .ok (setup.single steps, logged) := by
  obtain ⟨hchecked, hsettings, hjournal⟩ := ofOptions_eq_ok_iff.1 h
  obtain ⟨hoptions, hne, hstream⟩ := Options.checked_interactive hchecked hi
  have hsingle : setup.options.single steps = o.single steps := by
    rw [hoptions]
    rfl
  refine ⟨hoptions, hstream, ofOptions_eq_ok_iff.2 ⟨?_, hsettings, hjournal⟩⟩
  rw [single, hsingle]
  exact Options.checked_single hne hstream steps

theorem load_single {setup : Setup} (h : setup.options.program ≠ standardStream) (steps : Bool)
    (stdin stdin' : Input) (site : Site) :
    (setup.single steps).load stdin' site = setup.load stdin site := by
  have hprogram : (setup.single steps).options.program = setup.options.program := rfl
  unfold load
  rw [hprogram]
  simp only [Source.ofArgument, if_neg h]
  rfl

theorem load_unlimited {setup : Setup} {stdin : Input} {site loaded : Site} {p : Program}
    (h : site.Unlimited) (hload : setup.load stdin site = .ok (p, loaded)) : loaded.Unlimited := by
  unfold load at hload
  split at hload
  · cases hload
  · split at hload
    · cases hload
    · cases hload
      exact (Site.log_takes h _ _).unlimited

theorem tapeText_single (setup : Setup) (steps : Bool) (site : Site) {line : Bytes} {stop : List Char}
    (h : Dialogue.Typed line) (hstop : stop ∈ Dialogue.stops) :
    (setup.single steps).tapeText ⟨line ++ Utf8.encode stop, none⟩ site = .ok line := by
  have htape : (setup.single steps).options.tape = standardStream := rfl
  simp [tapeText, htape, Source.ofArgument, h.decode hstop, Input.readLine, h.firstLine hstop]

end Setup

/-! ## Transcripts -/

namespace Dialogue

/-- The lines that are answered: all before the first one that asks to quit. -/
def answered (lines : List Bytes) : List Bytes := lines.takeWhile fun line => Request.ofLine line ≠ .quit

/-- Whether the number of steps is told after some lines. -/
def telling (steps : Bool) (lines : List Bytes) : Bool :=
  lines.foldl (fun steps line => if Request.ofLine line = .toggleSteps then !steps else steps) steps

end Dialogue

open Dialogue

def Reply.prompt : Reply := { stdout := Site.promptText }

namespace Setup

section Transcript

variable (setup : Setup) (p : Program)

/-- The answer to a line. -/
def said (steps : Bool) (line : Bytes) : Reply :=
  match Request.ofLine line with
  | .quit => {}
  | .help => { stdout := dialogueHelp }
  | .toggleSteps => { stdout := utf8 "steps: " ++ Text.ofBool (!steps) ++ utf8 "\n" }
  | .listing => { stdout := p.listing }
  | .run => setup.reply p steps line

/-- All that a dialogue writes. The answer to a line depends on the lines before it only by whether the
number of steps is told. In the end there is one more prompt, and a line end unless a line asked to quit. -/
def transcript (steps : Bool) (lines : List Bytes) : Reply :=
  .join ((answered lines).mapIdx fun i line =>
      .prompt ++ setup.said p (telling steps (lines.take i)) line) ++
    (.prompt ++ if answered lines = lines then { stdout := utf8 "\n" } else {})

end Transcript

variable {setup : Setup} {p : Program} {s : Site}

theorem transcript_nil (steps : Bool) :
    setup.transcript p steps [] = .prompt ++ { stdout := utf8 "\n" } := rfl

theorem transcript_quit (steps : Bool) {line : Bytes} (h : Request.ofLine line = .quit)
    (rest : List Bytes) : setup.transcript p steps (line :: rest) = .prompt := by
  simp [transcript, answered, h]

theorem transcript_cons (steps : Bool) {line : Bytes} (h : Request.ofLine line ≠ .quit)
    (rest : List Bytes) : setup.transcript p steps (line :: rest) =
      .prompt ++ setup.said p steps line ++ setup.transcript p (telling steps [line]) rest := by
  have hanswered : answered (line :: rest) = line :: answered rest := by simp [answered, h]
  simp [transcript, hanswered, List.mapIdx_cons, telling, Reply.append_assoc]

/-- A line that does not ask to quit is answered, and the dialogue goes on. -/
theorem converse_step (setup : Setup) (p : Program) (failure : Option Bytes) (h : s.Unlimited) (steps : Bool)
    {line : Bytes} (hline : Request.ofLine line ≠ .quit) :
    ∃ s', s.Takes s' (.prompt ++ setup.said p steps line) ∧
      ∀ rest, setup.converse p failure steps (line :: rest) s =
        setup.converse p failure (telling steps [line]) rest s' := by
  have hprompt : s.Takes s.prompt .prompt := Site.prompt_takes h
  have hs := hprompt.unlimited
  -- one case per request; the flag is changed by `toggleSteps` and kept by all others
  unfold said telling
  cases hrequest : Request.ofLine line with
  | quit => exact absurd hrequest hline
  | help =>
    refine ⟨_, hprompt.trans (Site.print_takes hs _), fun rest => ?_⟩
    simp [converse, hrequest]
  | toggleSteps =>
    refine ⟨_, hprompt.trans (Site.print_takes hs _), fun rest => ?_⟩
    simp [converse, hrequest]
  | listing =>
    obtain ⟨s', hlist, htakes⟩ := list_takes p hs
    refine ⟨s', hprompt.trans htakes, fun rest => ?_⟩
    simp [converse, hrequest, hlist]
  | run =>
    obtain ⟨s', hanswer, htakes⟩ := answer_takes setup p hs steps line
    refine ⟨s', hprompt.trans htakes, fun rest => ?_⟩
    simp [converse, hrequest, hanswer]

/-- A dialogue goes on to its end, and has written its transcript by then. -/
theorem converse_takes (h : s.Unlimited) (steps : Bool) (lines : List Bytes) :
    ∃ s', setup.converse p none steps lines s = (s', none) ∧ s.Takes s' (setup.transcript p steps lines) := by
  induction lines generalizing steps s with
  | nil =>
    have hprompt : s.Takes s.prompt .prompt := Site.prompt_takes h
    rw [transcript_nil]
    exact ⟨_, rfl, hprompt.trans (Site.print_takes hprompt.unlimited _)⟩
  | cons line rest ih =>
    by_cases hline : Request.ofLine line = .quit
    · rw [transcript_quit steps hline]
      exact ⟨s.prompt, by simp [converse, hline], Site.prompt_takes h⟩
    · obtain ⟨s', hstep, hrest⟩ := converse_step setup p none h steps hline
      obtain ⟨s'', hconverse, htakes⟩ := ih hstep.unlimited (telling steps [line])
      rw [transcript_cons steps hline, hrest]
      exact ⟨s'', hconverse, hstep.trans htakes⟩

/-- What follows a line that asks to quit makes no difference, whatever the streams take. -/
theorem converse_quit (failure : Option Bytes) (steps : Bool) (s : Site) (before : List Bytes) {line : Bytes}
    (h : Request.ofLine line = .quit) (after : List Bytes) :
    setup.converse p failure steps (before ++ line :: after) s =
      setup.converse p failure steps (before ++ [line]) s := by
  induction before generalizing steps s with
  | nil => simp [converse, h]
  | cons first before ih =>
    simp only [List.cons_append, converse]
    cases Request.ofLine first with
    | quit => rfl
    | help => exact ih ..
    | toggleSteps => exact ih ..
    | listing =>
      rcases list p s.prompt with ⟨s', _ | e⟩
      · exact ih ..
      · rfl
    | run =>
      rcases setup.answer p steps first s.prompt with ⟨s', _ | e⟩
      · exact ih ..
      · rfl

end Setup

/-! ## Invocations -/

/-- An invocation begins a dialogue, because it asks for one or because there is a terminal and no tape, and
loads its program. It asks neither for accounts of errors at length nor for an output other than the standard
one, and the streams take all. -/
structure Converses (stdin : Input) (site : Site) (l : Loading) : Prop where
  interactive : l.setup.options.interactive = true
  brief : l.options.debug = false
  output : l.options.output = []
  unlimited : site.Unlimited
  prepared : Setup.ofOptions l.options site = .ok (l.setup, l.logged)
  loads : l.setup.load stdin { site with files := l.logged } = .ok (l.program, l.loaded)

namespace Converses

variable {stdin : Input} {site : Site} {l : Loading}

theorem run_eq (h : Converses stdin site l) :
    run l.options stdin site =
      l.setup.converse l.program stdin.failure l.options.steps (site.lines stdin) l.loaded := by
  obtain ⟨hoptions, -, -⟩ := Setup.ofOptions_single h.prepared h.interactive false
  have hsteps : l.setup.options.steps = l.options.steps := by rw [hoptions]
  simp [run, h.prepared, h.loads, h.interactive, hsteps, Site.lines]

theorem run_single (h : Converses stdin site l) (steps : Bool) (stdin' : Input) :
    run (l.options.single steps) stdin' site =
      (l.setup.single steps).batch l.program stdin' l.loaded := by
  obtain ⟨hoptions, hstream, hsingle⟩ := Setup.ofOptions_single h.prepared h.interactive steps
  have hprogram : l.setup.options.program ≠ standardStream := by
    rw [hoptions]
    exact hstream
  have hload := Setup.load_single hprogram steps stdin stdin' { site with files := l.logged }
  have hinteractive : (l.setup.single steps).options.interactive = false := rfl
  simp [run, hsingle, hload, h.loads, hinteractive]

theorem loaded_unlimited (h : Converses stdin site l) : l.loaded.Unlimited := by
  have hsite : Site.Unlimited { site with files := l.logged } := ⟨h.unlimited.stdout, h.unlimited.stderr⟩
  exact Setup.load_unlimited hsite h.loads

theorem single_takes (h : Converses stdin site l) (steps : Bool) {line : Bytes} {stop : List Char}
    (hline : Typed line) (hstop : stop ∈ stops) :
    l.loaded.Takes
      (conclude l.options.debug (run (l.options.single steps) ⟨line ++ Utf8.encode stop, none⟩ site)).2
      (l.setup.reply l.program steps line) := by
  obtain ⟨hoptions, -, -⟩ := Setup.ofOptions_single h.prepared h.interactive steps
  have houtput : (l.setup.single steps).options.output = [] := by
    rw [Setup.single, hoptions]
    exact h.output
  rw [h.run_single, h.brief]
  exact Setup.batch_takes h.loaded_unlimited (l.setup.tapeText_single steps l.loaded hline hstop) houtput

/-- A dialogue agrees with single runs. There is a reply to each line such that a single run with the line
as its tape writes it, and the dialogue writes the replies to its lines one after another, up to the first
line that asks to quit. -/
theorem agrees_single (h : Converses stdin site l) :
    (∀ steps line stop, Typed line → stop ∈ stops →
      l.loaded.Takes
        (conclude l.options.debug (run (l.options.single steps) ⟨line ++ Utf8.encode stop, none⟩ site)).2
        (l.setup.reply l.program steps line)) ∧
      (∀ lines, ∃ left, l.setup.converse l.program none l.options.steps lines l.loaded = (left, none) ∧
        l.loaded.Takes left (l.setup.transcript l.program l.options.steps lines)) ∧
      (∀ failure before line after, Request.ofLine line = .quit →
        l.setup.converse l.program failure l.options.steps (before ++ line :: after) l.loaded =
          l.setup.converse l.program failure l.options.steps (before ++ [line]) l.loaded) ∧
      run l.options stdin site =
        l.setup.converse l.program stdin.failure l.options.steps (site.lines stdin) l.loaded := by
  refine ⟨fun steps line stop => h.single_takes steps, ?_, ?_, h.run_eq⟩
  · exact Setup.converse_takes h.loaded_unlimited l.options.steps
  · exact fun failure before line after hline => Setup.converse_quit failure _ _ before hline after

end Converses

/-- The options of a run on a short tape, of which no text is given. -/
def shortTalk : Options := { program := utf8 "INIT a HALT b R", tapeSize := some 4 }

/-- A tape that is too long, a dead end and a run that halts; the number of steps is told of the last two. -/
def shortLines : List Bytes :=
  [utf8 "abcde", utf8 " :steps", utf8 "c", utf8 "a", utf8 ":q ", utf8 "b"]

/-- A terminal at which these lines are typed. -/
def talkSite : Site where
  files := {}
  typed := some shortLines

theorem exists_converses_shortTalk :
    ∃ l : Loading, l.options = shortTalk ∧ Converses ⟨[], none⟩ talkSite l := by
  have hchecked : shortTalk.checked talkSite.isTerminal = .ok { shortTalk with interactive := true } := rfl
  have hok : ((Setup.ofOptions shortTalk talkSite).bind fun r =>
      r.1.load ⟨[], none⟩ { talkSite with files := r.2 }).isOk = true := by
    decide +kernel
  cases hprepared : Setup.ofOptions shortTalk talkSite with
  | error e =>
    rw [hprepared] at hok
    cases hok
  | ok r =>
    rw [hprepared] at hok
    have hoptions := Except.ok.inj ((Setup.ofOptions_eq_ok_iff.1 hprepared).1.symm.trans hchecked)
    cases hload : r.1.load ⟨[], none⟩ { talkSite with files := r.2 } with
    | error e => simp [Except.bind, hload, Except.isOk, Except.toBool] at hok
    | ok q =>
      exact ⟨⟨shortTalk, r.1, r.2, q.1, q.2⟩, rfl, congrArg Options.interactive hoptions, rfl, rfl,
        ⟨rfl, rfl⟩, hprepared, hload⟩

/-- At a terminal the lines are answered although no dialogue is asked for. -/
theorem Converses.agrees_single_shortTalk :
    answered shortLines = [utf8 "abcde", utf8 " :steps", utf8 "c", utf8 "a"] ∧
      telling false (shortLines.take 2) = true ∧
      ∃ l : Loading, l.options = shortTalk ∧
        (∃ left, run shortTalk ⟨[], none⟩ talkSite = (left, none) ∧
          l.loaded.Takes left (l.setup.transcript l.program false shortLines)) ∧
        l.loaded.Takes
          (conclude false (run (shortTalk.single true) ⟨utf8 "c" ++ Utf8.encode ['\n'], none⟩ talkSite)).2
          (l.setup.reply l.program true (utf8 "c")) := by
  refine ⟨by decide +kernel, by decide +kernel, ?_⟩
  obtain ⟨l, hoptions, h⟩ := exists_converses_shortTalk
  obtain ⟨hsingle, hconverse, -, hrun⟩ := h.agrees_single
  obtain ⟨left, hlines, hwritten⟩ := hconverse shortLines
  have htakes := hsingle true (utf8 "c") ['\n'] (by decide +kernel) (by decide)
  rw [hoptions] at htakes hlines hwritten hrun
  exact ⟨l, hoptions, ⟨left, hrun.trans hlines, hwritten⟩, htakes⟩

end LogicMill.Cli
