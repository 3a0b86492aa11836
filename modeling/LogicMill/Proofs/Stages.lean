import LogicMill.Cli.Execute
import LogicMill.Proofs.Storing

/-! # The stages of an invocation

An invocation that leads neither to the help text nor to a dialogue loads its program, opens its output, and
then runs a machine. It may stop at any of these.

* `Site.Keeps`: what a site keeps while only the error stream and the log are written to.
* `Loads`, `Opens`, `Launches`: an invocation gets as far as that.
* `Loads.unique`, `Opens.unique`, `Launches.unique`: what it arrives at is determined.
* `Launch.ending`: what follows the run.
* `execute_cases`: where an invocation may stop, and what it has written by then.
-/

namespace LogicMill
set_option autoImplicit false

/-- Opening an output empties it and changes nothing else. -/
theorem Target.ofArgument_ok {files opened : Files} {arg : Bytes} {target : Target}
    (h : Target.ofArgument files arg = .ok (target, opened)) :
    (∀ place, target ≠ .file place → opened.node? place = files.node? place) ∧
      ∀ place, target = .file place → opened.node? place = some (.file []) := by
  unfold ofArgument at h
  split at h
  · cases h
    simp
  · split at h
    · next path files' hopen =>
      cases h
      obtain ⟨hothers, hself⟩ := Files.openWrite_ok hopen
      refine ⟨fun place hne => hothers place fun he => hne (by rw [he]), ?_⟩
      intro place he
      cases he
      exact hself rfl
    · cases h

namespace Cli

/-! ## What is kept -/

/-- A site that differs from another one in its error stream and in the files at some places only. -/
structure Site.Keeps (log : List Bytes → Prop) (s s' : Site) : Prop where
  stdout : s'.stdout = s.stdout
  outlet : s'.outlet = s.outlet
  files : ∀ place, ¬ log place → s'.files.node? place = s.files.node? place

namespace Site

variable {log : List Bytes → Prop} {s s' s'' : Site}

theorem Keeps.refl : Keeps log s s := ⟨rfl, rfl, fun _ _ => rfl⟩

theorem Keeps.trans (h : Keeps log s s') (h' : Keeps log s' s'') : Keeps log s s'' :=
  ⟨h'.stdout.trans h.stdout, h'.outlet.trans h.outlet,
    fun place hp => (h'.files place hp).trans (h.files place hp)⟩

theorem keeps_complain (data : Bytes) : Keeps log s (s.complain data) := ⟨rfl, rfl, fun _ _ => rfl⟩

theorem keeps_complainAll (lines : List Log.Record) :
    Keeps log s (lines.foldl (fun s r => s.complain r.line) s) := by
  induction lines generalizing s with
  | nil => exact .refl
  | cons r lines ih => exact (keeps_complain r.line).trans ih

theorem keeps_log (j : Journal) (records : List Log.Record)
    (hlog : ∀ place, j.file? = some place → log place) : Keeps log s (s.log j records) := by
  have h : Keeps log s ((j.taken records).foldl (fun s r => s.complain r.line) s) :=
    keeps_complainAll _
  unfold Site.log
  cases hfile : j.file? with
  | none => exact h
  | some place =>
    refine ⟨h.stdout, h.outlet, fun other hother => ?_⟩
    have hne : other ≠ place := fun he => hother (he ▸ hlog place hfile)
    exact (Files.node?_append_of_ne _ hne).trans (h.files other hother)

theorem keeps_dump (setup : Setup) (m : Machine) (o : Outcome) : Keeps log s (setup.dump m o s).1 := by
  unfold Setup.dump
  split <;> exact ⟨rfl, rfl, fun _ _ => rfl⟩

theorem keeps_countSteps (steps : Bool) (o : Outcome) : Keeps log s (Setup.countSteps steps o s) := by
  unfold Setup.countSteps
  split
  · exact keeps_complain _
  · exact .refl

end Site

theorem Journal.ofSettings_ok {files opened : Files} {settings : Settings} {j : Journal}
    (h : Journal.ofSettings files settings = .ok (j, opened)) (place : List Bytes)
    (hp : j.file? ≠ some place) : opened.node? place = files.node? place := by
  unfold ofSettings at h
  split at h
  · cases h
  · split at h
    · cases h
      rfl
    · split at h
      · cases h
      · next hopen =>
        cases h
        exact (Files.openWrite_ok hopen).1 place fun he => hp (by rw [he])

/-- The exit status that a result stands for. -/
def statusOf : Option Failure → Nat
  | none => 0
  | some e => e.status

theorem conclude_status (atLength : Bool) (r : Site × Option Failure) :
    (conclude atLength r).1 = statusOf r.2 := by
  obtain ⟨s, _ | e⟩ := r <;> rfl

theorem keeps_conclude {log : List Bytes → Prop} (atLength : Bool) (r : Site × Option Failure) :
    r.1.Keeps log (conclude atLength r).2 := by
  obtain ⟨s, _ | e⟩ := r
  · exact .refl
  · cases e with
    | usage _ => exact (Site.keeps_complain _).trans (Site.keeps_complain _)
    | _ => exact Site.keeps_complain _

/-! ## Before the run -/

theorem Options.checked_error {o : Options} {terminal : Bool} {e : Failure}
    (h : o.checked terminal = .error e) : e.status = 1 := by
  simp only [checked] at h
  split_ifs at h <;> cases h <;> rfl

theorem Setup.ofOptions_eq_ok_iff {o : Options} {site : Site} {logged : Files} {setup : Setup} :
    Setup.ofOptions o site = .ok (setup, logged) ↔
      o.checked site.isTerminal = .ok setup.options ∧
        Settings.effective site.files setup.options = .ok setup.settings ∧
        Journal.ofSettings site.files setup.settings = .ok (setup.journal, logged) := by
  constructor
  · intro h
    unfold ofOptions at h
    split at h
    · cases h
    · next options hchecked =>
      split at h
      · cases h
      · next settings hsettings =>
        split at h
        · cases h
        · next journal opened hjournal =>
          cases h
          exact ⟨hchecked, hsettings, hjournal⟩
  · rintro ⟨hchecked, hsettings, hjournal⟩
    simp [ofOptions, hchecked, hsettings, hjournal]

theorem Setup.ofOptions_error {o : Options} {site : Site} {e : Failure}
    (h : Setup.ofOptions o site = .error e) : e.status = 1 := by
  unfold ofOptions at h
  split at h
  · next hchecked =>
    cases h
    exact Options.checked_error hchecked
  · split at h
    · cases h
      rfl
    · split at h <;> cases h
      rfl

theorem Setup.load_ok {setup : Setup} {stdin : Input} {site loaded : Site} {p : Program}
    (h : setup.load stdin site = .ok (p, loaded)) :
    site.Keeps (fun place => setup.journal.file? = some place) loaded := by
  unfold load at h
  split at h
  · cases h
  · split at h
    · cases h
    · cases h
      exact Site.keeps_log _ _ fun _ hfile => hfile

theorem Setup.load_error {setup : Setup} {stdin : Input} {site : Site} {e : Failure}
    (h : setup.load stdin site = .error e) : e.status = 1 := by
  unfold load at h
  split at h
  · cases h
    rfl
  · split at h <;> cases h
    rfl

/-! ## Stages -/

/-- What an invocation has arrived at when its program is loaded. -/
structure Loading where
  options : Options
  setup : Setup
  /-- The files with the log file made. -/
  logged : Files
  program : Program
  loaded : Site

/-- An invocation loads its program: its arguments and settings are in order, and the program is well
formed. -/
structure Loads (args : List Bytes) (stdin : Input) (site : Site) (l : Loading) : Prop where
  parsed : Options.parse Flag.all args = .ok l.options
  operands : l.options.operands = []
  prepared : Setup.ofOptions l.options site = .ok (l.setup, l.logged)
  loads : l.setup.load stdin { site with files := l.logged } = .ok (l.program, l.loaded)

/-- What an invocation has arrived at when its output is open. -/
structure Opening extends Loading where
  text : Bytes
  target : Target
  /-- The files with the output made or emptied. -/
  opened : Files

/-- An invocation opens its output: the program is loaded and the tape text is read. -/
structure Opens (args : List Bytes) (stdin : Input) (site : Site) (l : Opening) : Prop
    extends Loads args stdin site l.toLoading where
  reads : l.setup.tapeText stdin l.loaded = .ok l.text
  output : Target.ofArgument l.loaded.files l.setup.options.output = .ok (l.target, l.opened)

/-- The site with the output open. -/
def Opening.site (l : Opening) : Site := { l.loaded with files := l.opened }

/-- What an invocation has arrived at when it has a machine to run. -/
structure Launch extends Opening where
  machine : Machine

/-- An invocation runs a machine: the output is open, and the tape text fits on the tape. -/
structure Launches (args : List Bytes) (stdin : Input) (site : Site) (l : Launch) : Prop
    extends Opens args stdin site l.toOpening where
  built : l.setup.machine l.program l.text = .ok l.machine

namespace Launch

variable (l : Launch)

def outcome : Outcome := l.machine.run.1

def final : Machine := l.machine.run.2.2

/-- The site with the run logged. -/
def ran : Site :=
  l.site.log l.setup.journal (l.machine.run.2.1.toList.map stepRecord ++ [runRecord l.final l.outcome])

/-- The dump is written, if one is wanted. -/
def DumpWritten : Prop :=
  l.setup.options.dump = true → (writeDump l.final l.outcome ⟨l.ran.stderr, none⟩).failure = none

/-- The site with the dump written, or why it cannot be written. -/
def dumped : Site × Option Trouble := l.setup.dump l.final l.outcome l.ran

/-- The site when the run has been told about. -/
def told : Site := Setup.countSteps l.setup.options.steps l.outcome l.dumped.1

/-- The site with the tape written, or why it cannot be written. -/
def written : Site × Option Trouble := l.told.writeTape l.target l.final.config.tape

/-- The tape is written, with a line feed after it. -/
def TapeWritten : Prop := l.written.2 = none

/-- The output is closed. -/
def Closed : Prop := l.told.close l.target = none

/-- What the run of an invocation comes to. -/
def ending : Site × Option Failure :=
  match l.setup.finish l.target l.final l.outcome l.ran with
  | (site, some e) => (site, some e)
  | (site, none) => (site, (site.close l.target).map .trouble)

end Launch

/-- The place of the log file of an invocation. -/
def LogsTo (args : List Bytes) (site : Site) (place : List Bytes) : Prop :=
  ∃ o setup logged, Options.parse Flag.all args = .ok o ∧
    Setup.ofOptions o site = .ok (setup, logged) ∧ setup.journal.file? = some place

section Stages

variable {args : List Bytes} {stdin : Input} {site : Site}

theorem Loads.unique {l l' : Loading} (h : Loads args stdin site l) (h' : Loads args stdin site l') :
    l = l' := by
  obtain ⟨options, setup, logged, program, loaded⟩ := l
  cases h.parsed.symm.trans h'.parsed
  cases h.prepared.symm.trans h'.prepared
  cases h.loads.symm.trans h'.loads
  rfl

theorem Opens.unique {l l' : Opening} (h : Opens args stdin site l) (h' : Opens args stdin site l') :
    l = l' := by
  obtain ⟨loading, text, target, opened⟩ := l
  obtain ⟨loading', text', target', opened'⟩ := l'
  cases h.toLoads.unique h'.toLoads
  cases h.reads.symm.trans h'.reads
  cases h.output.symm.trans h'.output
  rfl

theorem Launches.unique {l l' : Launch} (h : Launches args stdin site l) (h' : Launches args stdin site l') :
    l = l' := by
  obtain ⟨opening, machine⟩ := l
  obtain ⟨opening', machine'⟩ := l'
  cases h.toOpens.unique h'.toOpens
  cases h.built.symm.trans h'.built
  rfl

theorem keeps_prepared {o : Options} {setup : Setup} {logged : Files}
    (hparsed : Options.parse Flag.all args = .ok o)
    (hprepared : Setup.ofOptions o site = .ok (setup, logged)) :
    site.Keeps (LogsTo args site) { site with files := logged } := by
  obtain ⟨-, -, hjournal⟩ := Setup.ofOptions_eq_ok_iff.1 hprepared
  refine ⟨rfl, rfl, fun place hlog => Journal.ofSettings_ok hjournal place fun hfile => hlog ?_⟩
  exact ⟨o, setup, logged, hparsed, hprepared, hfile⟩

theorem Loads.logsTo {l : Loading} (h : Loads args stdin site l) {place : List Bytes}
    (hfile : l.setup.journal.file? = some place) : LogsTo args site place :=
  ⟨l.options, l.setup, l.logged, h.parsed, h.prepared, hfile⟩

theorem Loads.keeps {l : Loading} (h : Loads args stdin site l) :
    site.Keeps (LogsTo args site) l.loaded := by
  have hload := Setup.load_ok h.loads
  refine (keeps_prepared h.parsed h.prepared).trans ⟨hload.stdout, hload.outlet, fun place hlog => ?_⟩
  exact hload.files place fun hfile => hlog (h.logsTo hfile)

/-- Arguments that lead neither to the help text nor to a dialogue, whether they are understood or not. At a
terminal a dialogue need not be asked for. -/
def Plain (args : List Bytes) (site : Site) : Prop :=
  ∀ o, Options.parse Flag.all args = .ok o → o.help = false ∧
    ∀ o' ∈ (o.checked site.isTerminal).toOption, o'.interactive = false

instance (args : List Bytes) (site : Site) : Decidable (Plain args site) :=
  match h : Options.parse Flag.all args with
  | .error _ => isTrue (by simp [Plain, h])
  | .ok o =>
    decidable_of_iff
      (o.help = false ∧ ∀ o' ∈ (o.checked site.isTerminal).toOption, o'.interactive = false)
      (by simp [Plain, h])

/-- An invocation stops while it loads its program, or is a single run of that program. -/
theorem execute_loading (plain : Plain args site) (stdin : Input) :
    (∃ l, Loads args stdin site l ∧
      execute args stdin site = conclude l.options.debug (l.setup.batch l.program stdin l.loaded)) ∨
      (∀ l, ¬ Loads args stdin site l) ∧ ∃ atLength s e, site.Keeps (LogsTo args site) s ∧ e.status = 1 ∧
        execute args stdin site = conclude atLength (s, some e) := by
  unfold execute
  -- a stage that fails is one that `Loads` asks for, so there is no loading then
  cases hparsed : Options.parse Flag.all args with
  | error e =>
    refine .inr ⟨fun l h => ?_, _, site, _, .refl, rfl, rfl⟩
    cases hparsed.symm.trans h.parsed
  | ok o =>
    obtain ⟨hhelp, hinteractive⟩ := plain o hparsed
    simp only [hhelp]
    cases hoperands : o.operands with
    | cons operand rest =>
      refine .inr ⟨fun l h => ?_, _, site, _, .refl, rfl, rfl⟩
      cases hparsed.symm.trans h.parsed
      cases hoperands.symm.trans h.operands
    | nil =>
      simp only [run]
      cases hprepared : Setup.ofOptions o site with
      | error e =>
        refine .inr ⟨fun l h => ?_, _, site, e, .refl, Setup.ofOptions_error hprepared, rfl⟩
        cases hparsed.symm.trans h.parsed
        cases hprepared.symm.trans h.prepared
      | ok prepared =>
        obtain ⟨setup, logged⟩ := prepared
        cases hloads : setup.load stdin { site with files := logged } with
        | error e =>
          refine .inr ⟨fun l h => ?_, o.debug, _, e, keeps_prepared hparsed hprepared,
            Setup.load_error hloads, ?_⟩
          · cases hparsed.symm.trans h.parsed
            cases hprepared.symm.trans h.prepared
            cases hloads.symm.trans h.loads
          · simp [hloads]
        | ok load =>
          obtain ⟨p, loaded⟩ := load
          refine .inl ⟨⟨o, setup, logged, p, loaded⟩, ⟨hparsed, hoperands, hprepared, hloads⟩, ?_⟩
          have hchecked := (Setup.ofOptions_eq_ok_iff.1 hprepared).1
          simp [hloads, hinteractive setup.options (by rw [hchecked]; rfl)]

/-- A single run stops before its output is open, or before it has a machine, or runs it. -/
theorem Loads.batch_cases {l : Loading} (h : Loads args stdin site l) :
    (∃ l', Launches args stdin site l' ∧ l'.toLoading = l ∧
      l.setup.batch l.program stdin l.loaded = l'.ending) ∨
      (∃ l' t, Opens args stdin site l' ∧ l'.toLoading = l ∧
        l'.setup.machine l'.program l'.text = .error t ∧
        l.setup.batch l.program stdin l.loaded = (l'.site, some (.trouble t))) ∨
      (∀ l', ¬ Opens args stdin site l') ∧
        ∃ t, l.setup.batch l.program stdin l.loaded = (l.loaded, some (.trouble t)) := by
  unfold Setup.batch
  cases hreads : l.setup.tapeText stdin l.loaded with
  | error t =>
    refine .inr (.inr ⟨fun l' h' => ?_, t, rfl⟩)
    cases h.unique h'.toLoads
    cases hreads.symm.trans h'.reads
  | ok text =>
    cases houtput : Target.ofArgument l.loaded.files l.setup.options.output with
    | error t =>
      refine .inr (.inr ⟨fun l' h' => ?_, _, rfl⟩)
      cases h.unique h'.toLoads
      cases houtput.symm.trans h'.output
    | ok output =>
      obtain ⟨target, opened⟩ := output
      have hopens : Opens args stdin site ⟨l, text, target, opened⟩ := ⟨h, hreads, houtput⟩
      cases hbuilt : l.setup.machine l.program text with
      | error t =>
        refine .inr (.inl ⟨_, t, hopens, rfl, hbuilt, ?_⟩)
        simp [Setup.run, hbuilt, Opening.site]
      | ok m =>
        refine .inl ⟨⟨⟨l, text, target, opened⟩, m⟩, ⟨hopens, hbuilt⟩, rfl, ?_⟩
        simp only [Setup.run, hbuilt]
        rfl

/-- An invocation stops before its output is open, or before it has a machine, or runs it. -/
theorem execute_cases (plain : Plain args site) (stdin : Input) :
    (∃ l, Launches args stdin site l ∧ execute args stdin site = conclude l.options.debug l.ending) ∨
      (∃ l t, Opens args stdin site l ∧ l.setup.machine l.program l.text = .error t ∧
        execute args stdin site = conclude l.options.debug (l.site, some (.trouble t))) ∨
      (∀ l, ¬ Opens args stdin site l) ∧ ∃ atLength s e, site.Keeps (LogsTo args site) s ∧ e.status = 1 ∧
        execute args stdin site = conclude atLength (s, some e) := by
  obtain ⟨l, hl, hexecute⟩ | ⟨hnone, hstops⟩ := execute_loading plain stdin
  · rw [hexecute]
    obtain ⟨l, h, rfl, hbatch⟩ | ⟨l, t, h, rfl, hbuilt, hbatch⟩ | ⟨hnone, t, hbatch⟩ := hl.batch_cases
    · exact .inl ⟨l, h, by rw [hbatch]⟩
    · exact .inr (.inl ⟨l, t, h, hbuilt, by rw [hbatch]⟩)
    · exact .inr (.inr ⟨hnone, l.options.debug, l.loaded, .trouble t, hl.keeps, rfl, by rw [hbatch]⟩)
  · exact .inr (.inr ⟨fun l h => hnone _ h.toLoads, hstops⟩)

end Stages

end Cli

end LogicMill
