import LogicMill.Cli.Session
import LogicMill.Proofs.Usage

/-! # Settings that were accepted

Settings come from defaults, a file and options, and are checked before anything is run. The tape and the
machine check the same numbers again; they accept whatever the settings were accepted with. So a run can only
be refused for its input.

* `Settings.valid_iff_taken`: the settings that are valid are those that tape and machine take.
* `Settings.effective_ok`: accepted settings are valid, and where their values come from.
* `Cli.Setup.machine_of_valid`: the machine for valid settings, or why there is none.
* `Cli.Setup.run_of_accepted`: when a run is refused.
-/

namespace LogicMill
set_option autoImplicit false

/-! ## What tape and machine take -/

theorem Tape.exists_new_iff {n : ℤ} : (∃ t, Tape.new n = .ok t) ↔ 0 < n ∧ n ≤ maxTapeSize := by
  unfold new
  split
  · next h => exact ⟨fun _ => h, fun _ => ⟨_, rfl⟩⟩
  · next h =>
    refine ⟨?_, fun hn => absurd hn h⟩
    rintro ⟨t, ht⟩
    cases ht

theorem Tape.seed_cases (t : Tape) (input : List Symbol) :
    (t.size < input.length ∧ t.seed input = .error (.inputTooLong input.length t.size)) ∨
      (input.length ≤ t.size ∧ ∃ seeded, t.seed input = .ok seeded) := by
  unfold seed
  split
  · next h => exact .inr ⟨h, _, rfl⟩
  · next h => exact .inl ⟨Nat.lt_of_not_le h, rfl⟩

namespace Machine

theorem exists_set_stepLimit_iff (m : Machine) {n : ℤ} :
    (∃ m', m.set (.stepLimit n) = .ok m') ↔ 0 < n := by
  constructor
  · rintro ⟨m', h⟩
    simp only [set] at h
    split at h
    · assumption
    · cases h
  · exact fun h => ⟨_, m.set_stepLimit h⟩

/-- A log is never refused. -/
theorem setAll_log (m : Machine) (levels : List Log.Level) : (m.setAll (levels.map .log)).2 = none := by
  induction levels generalizing m with
  | nil => rfl
  | cons level levels ih => exact ih { m with log := some level }

theorem exists_create {p : Program} {tape : Tape} {settings : List Setting}
    (h : (setAll { program := p, config := ⟨StateId.init, tape⟩ } settings).2 = none) :
    ∃ m, create (some p) (some tape) settings = .ok m := by
  simp only [create]
  split
  · exact ⟨_, rfl⟩
  · next e hset =>
    rw [hset] at h
    cases h

theorem create_logged (p : Program) (tape : Tape) {limit : ℤ} (h : 0 < limit) (levels : List Log.Level) :
    ∃ m, create (some p) (some tape) (.stepLimit limit :: levels.map .log) = .ok m := by
  refine exists_create ?_
  rw [setAll_cons_ok (set_stepLimit _ h)]
  exact setAll_log _ levels

end Machine

/-! ## Settings -/

namespace Settings

variable {files : Files} {o : Cli.Options} {s t : Settings}

/-- The check of the settings asks for what a tape and any machine ask for. -/
theorem valid_iff_taken (m : Machine) :
    s.Valid ↔ (∃ m', m.set (.stepLimit s.steps) = .ok m') ∧ ∃ tape, Tape.new s.tape = .ok tape := by
  rw [m.exists_set_stepLimit_iff, Tape.exists_new_iff]
  rfl

/-- What is not given as an option stays as it was. -/
theorem override_ok (h : s.override o = .ok t) :
    t.Valid ∧ t.steps = o.stepLimit.getD s.steps ∧ t.tape = o.tapeSize.getD s.tape ∧
      t.underscoreBlank = o.underscoreBlank.getD s.underscoreBlank := by
  obtain ⟨rfl, hvalid⟩ := valid_of_check_eq_ok h
  exact ⟨hvalid, rfl, rfl, rfl⟩

theorem effective_ok (h : effective files o = .ok t) :
    t.Valid ∧ ∃ base, load files o.config = .ok base ∧ t.steps = o.stepLimit.getD base.steps ∧
      t.tape = o.tapeSize.getD base.tape ∧
      t.underscoreBlank = o.underscoreBlank.getD base.underscoreBlank := by
  unfold effective at h
  split at h
  · cases h
  · next base hload =>
    obtain ⟨hvalid, hvalues⟩ := override_ok h
    exact ⟨hvalid, base, hload, hvalues⟩

end Settings

/-! ## Runs -/

namespace Cli.Setup

variable {setup : Setup}

/-- The account of an input that is longer than the tape. -/
def tooLong (setup : Setup) (text : Bytes) : Trouble :=
  (TapeError.inputTooLong (Symbol.readLine setup.settings.underscoreBlank text).length
    setup.settings.tape.toNat).trouble.within (utf8 "-t/--tape")

theorem machine_of_valid (hvalid : setup.settings.Valid) (p : Program) (text : Bytes) :
    (setup.settings.tape < (Symbol.readLine setup.settings.underscoreBlank text).length ∧
      setup.machine p text = .error (setup.tooLong text)) ∨
    ((Symbol.readLine setup.settings.underscoreBlank text).length ≤ setup.settings.tape ∧
      ∃ m, setup.machine p text = .ok m) := by
  obtain ⟨hsteps, htape⟩ := hvalid
  obtain ⟨blank, hblank⟩ := Tape.exists_new_iff.2 htape
  have hsize : (blank.size : ℤ) = setup.settings.tape := Tape.size_new hblank
  unfold machine
  rcases blank.seed_cases (Symbol.readLine setup.settings.underscoreBlank text) with
    ⟨hlong, hseed⟩ | ⟨hfits, tape, hseed⟩
  · refine .inl ⟨by omega, ?_⟩
    simp only [hblank, hseed]
    rw [tooLong, ← hsize, Int.toNat_natCast]
  · have htrace : (if setup.options.trace then [Setting.log setup.journal.threshold] else []) =
        (if setup.options.trace then [setup.journal.threshold] else []).map .log := by
      split <;> rfl
    obtain ⟨m, hm⟩ := Machine.create_logged p tape hsteps
      (if setup.options.trace then [setup.journal.threshold] else [])
    refine .inr ⟨by omega, m, ?_⟩
    simp only [hblank, hseed, htrace, hm]

theorem run_eq_error_iff {p : Program} {text : Bytes} {site : Site} {t : Trouble} :
    setup.run p text site = .error t ↔ setup.machine p text = .error t := by
  unfold run
  cases setup.machine p text with
  | error e => simp only [Except.error.injEq]
  | ok m => simp

/-- Settings that were accepted cannot fail later. Whatever file and options they come from, and for every
program and tape text: a run is refused exactly if the text has more symbols than the tape has cells, and then
for that reason. A tape of that size can be made, the step limit can be set, and the machine can be made, with
any log. -/
theorem run_of_accepted {files : Files}
    (haccepted : Settings.effective files setup.options = .ok setup.settings)
    (p : Program) (text : Bytes) (site : Site) :
    (∃ base, Settings.load files setup.options.config = .ok base ∧
      setup.settings.steps = setup.options.stepLimit.getD base.steps ∧
      setup.settings.tape = setup.options.tapeSize.getD base.tape ∧
      setup.settings.underscoreBlank = setup.options.underscoreBlank.getD base.underscoreBlank) ∧
    ((∃ t, setup.run p text site = .error t) ↔
      setup.settings.tape < (Symbol.readLine setup.settings.underscoreBlank text).length) ∧
    (∀ t, setup.run p text site = .error t → t = setup.tooLong text ∧ t.cause = utf8 "tape input too long") ∧
    (∃ tape, Tape.new setup.settings.tape = .ok tape) ∧
    (∀ m : Machine, ∃ m', m.set (.stepLimit setup.settings.steps) = .ok m') ∧
    ∀ (tape : Tape) (levels : List Log.Level), ∃ m,
      Machine.create (some p) (some tape) (.stepLimit setup.settings.steps :: levels.map .log) = .ok m := by
  obtain ⟨hvalid, hvalues⟩ := Settings.effective_ok haccepted
  have hmachine := machine_of_valid hvalid p text
  refine ⟨hvalues, ?_, fun t ht => ?_, Tape.exists_new_iff.2 hvalid.2,
    fun m => ((Settings.valid_iff_taken m).1 hvalid).1,
    fun tape levels => Machine.create_logged p tape hvalid.1 levels⟩
  · simp only [run_eq_error_iff]
    rcases hmachine with ⟨hlong, hrefused⟩ | ⟨hfits, m, hm⟩
    · exact ⟨fun _ => hlong, fun _ => ⟨_, hrefused⟩⟩
    · refine ⟨?_, fun hlong => absurd hfits (Int.not_le.2 hlong)⟩
      rintro ⟨t, ht⟩
      cases hm.symm.trans ht
  · rw [run_eq_error_iff] at ht
    rcases hmachine with ⟨-, hrefused⟩ | ⟨-, m, hm⟩
    · cases hrefused.symm.trans ht
      exact ⟨rfl, rfl⟩
    · cases hm.symm.trans ht

/-- A file that sets a tape of three cells, on which an underscore is a blank. -/
def tightFiles : Files where
  entries := [([utf8 "c"], .file (utf8 "[limits]\ntape = 3\n[tape]\nunderscore_blank = true\n"))]

/-- The setup with this file, a step limit and a trace. -/
def tight : Setup where
  options := { config := utf8 "c", stepLimit := some 9, trace := true }
  settings := { steps := 9, tape := 3, underscoreBlank := true, level := utf8 "debug" }
  journal := { threshold := .debug }

theorem run_of_accepted_tight :
    Settings.effective tightFiles tight.options = .ok tight.settings ∧
      (∃ t, tight.run Machine.stalling.program (utf8 "a__b") { files := {} } = .error t) ∧
      ¬ ∃ t, tight.run Machine.stalling.program (utf8 "a_b\n_") { files := {} } = .error t := by
  have haccepted : Settings.effective tightFiles tight.options = .ok tight.settings := by decide +kernel
  obtain ⟨-, hlong, -⟩ :=
    run_of_accepted haccepted Machine.stalling.program (utf8 "a__b") { files := {} }
  obtain ⟨-, hfits, -⟩ :=
    run_of_accepted haccepted Machine.stalling.program (utf8 "a_b\n_") { files := {} }
  exact ⟨haccepted, hlong.2 (by decide +kernel), fun h => absurd (hfits.1 h) (by decide +kernel)⟩

end Cli.Setup

end LogicMill
