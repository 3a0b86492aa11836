import LogicMill.Proofs.Stages

/-! # What an invocation comes to

The exit status and the output of an invocation, told by the run that it makes.

* `Launch.status_ending`: the status that follows a run.
* `Receives`: what an output has received in the end.
* `Stalls`, `Succeeds`: the invocations with a status other than that of an error.
* `execute_tells_run`: exit status and output tell how the run went.
-/

namespace LogicMill.Cli
set_option autoImplicit false

/-! ## After the run -/

theorem Site.close_writeTape (s : Site) (target : Target) (t : Tape) :
    (s.writeTape target t).1.close target = s.close target := by
  cases target <;> rfl

namespace Launch

variable {l : Launch}

theorem dump_eq_none_iff : l.dumped.2 = none ↔ l.DumpWritten := by
  unfold dumped Setup.dump DumpWritten
  by_cases hdump : l.setup.options.dump = true <;> simp [hdump]

theorem ending_of_not_dumpWritten (h : ¬ l.DumpWritten) :
    ∃ t, l.ending = (l.dumped.1, some (.trouble t)) := by
  rw [← dump_eq_none_iff] at h
  obtain ⟨t, ht⟩ := Option.ne_none_iff_exists'.1 h
  refine ⟨t, ?_⟩
  have hdump : l.setup.dump l.final l.outcome l.ran = (l.dumped.1, some t) := Prod.ext rfl ht
  unfold ending Setup.finish
  rw [hdump]

theorem finish_of_dumpWritten (h : l.DumpWritten) :
    l.setup.finish l.target l.final l.outcome l.ran =
      match Failure.ofOutcome? l.outcome with
      | some e => (l.dumped.1, some e)
      | none => (l.written.1, l.written.2.map .trouble) := by
  have hdump : l.setup.dump l.final l.outcome l.ran = (l.dumped.1, none) :=
    Prod.ext rfl (dump_eq_none_iff.2 h)
  unfold Setup.finish
  rw [hdump]
  rfl

theorem ending_of_ofOutcome? {e : Failure} (h : l.DumpWritten) (he : Failure.ofOutcome? l.outcome = some e) :
    l.ending = (l.dumped.1, some e) := by
  rw [ending, finish_of_dumpWritten h, he]

/-- That the output cannot be closed matters only if all else went well. -/
theorem ending_of_halted (h : l.DumpWritten) (hhalted : l.outcome.status = .halted) :
    l.ending = (l.written.1, (l.written.2.or (l.told.close l.target)).map .trouble) := by
  have hclose : l.written.1.close l.target = l.told.close l.target := Site.close_writeTape ..
  have hnone : Failure.ofOutcome? l.outcome = none := by simp [Failure.ofOutcome?, hhalted]
  rw [ending, finish_of_dumpWritten h, hnone, ← hclose]
  obtain ⟨s, _ | t⟩ := l.written <;> rfl

theorem status_ending :
    (statusOf l.ending.2 = 2 ↔ l.outcome.status = .deadEnd ∧ l.DumpWritten) ∧
      (statusOf l.ending.2 = 0 ↔ l.outcome.status = .halted ∧ l.DumpWritten ∧ l.TapeWritten ∧ l.Closed) ∧
      statusOf l.ending.2 ≤ 2 := by
  by_cases hdump : l.DumpWritten
  · cases hstatus : l.outcome.status with
    | halted =>
      -- only here the output matters: the status is 0 if it is written and closed, and else 1
      rw [ending_of_halted hdump hstatus]
      unfold TapeWritten Closed
      cases hwritten : l.written.2 <;> cases hclose : l.told.close l.target <;>
        simp [statusOf, Failure.status, hdump]
    | deadEnd =>
      have he : Failure.ofOutcome? l.outcome = some (.deadEnd l.outcome.stateName l.outcome.symbol) := by
        simp [Failure.ofOutcome?, hstatus]
      simp [ending_of_ofOutcome? hdump he, statusOf, Failure.status, hdump]
    | timedOut =>
      have he : Failure.ofOutcome? l.outcome = some (.timedOut l.outcome.steps) := by
        simp [Failure.ofOutcome?, hstatus]
      simp [ending_of_ofOutcome? hdump he, statusOf, Failure.status]
  · obtain ⟨t, ht⟩ := ending_of_not_dumpWritten hdump
    simp [ht, hdump, statusOf, Failure.status]

end Launch

section Stages

variable {args : List Bytes} {stdin : Input} {site : Site}

theorem Launches.keeps_ran {l : Launch} (h : Launches args stdin site l) :
    l.site.Keeps (LogsTo args site) l.ran :=
  Site.keeps_log _ _ fun _ hfile => h.logsTo hfile

theorem Launches.keeps_told {l : Launch} (h : Launches args stdin site l) :
    l.site.Keeps (LogsTo args site) l.told :=
  (h.keeps_ran.trans (Site.keeps_dump ..)).trans (Site.keeps_countSteps ..)

theorem Launches.keeps_ending {l : Launch} (h : Launches args stdin site l)
    (hstatus : l.outcome.status ≠ .halted) : l.site.Keeps (LogsTo args site) l.ending.1 := by
  have hkeeps : l.site.Keeps (LogsTo args site) l.dumped.1 :=
    h.keeps_ran.trans (Site.keeps_dump ..)
  by_cases hdump : l.DumpWritten
  · have hsome : Failure.ofOutcome? l.outcome ≠ none := by
      cases hs : l.outcome.status <;> simp_all [Failure.ofOutcome?]
    obtain ⟨e, he⟩ := Option.ne_none_iff_exists'.1 hsome
    rw [Launch.ending_of_ofOutcome? hdump he]
    exact hkeeps
  · obtain ⟨t, ht⟩ := Launch.ending_of_not_dumpWritten hdump
    rw [ht]
    exact hkeeps

/-! ## Output -/

/-- What has become of the standard output and of the files that are not logged to, when an output has
received some bytes. A file that is the output was emptied before. -/
structure Receives (log : List Bytes → Prop) (site left : Site) (data : Bytes) (target : Target) : Prop where
  stdout : left.stdout.bytes = site.stdout.bytes ++ if target = .stdout then data else []
  files : ∀ place, ¬ log place →
    left.files.node? place = if target = .file place then some (.file data) else site.files.node? place

theorem Receives.of_keeps {s s' left : Site} {log : List Bytes → Prop} {data : Bytes} {target : Target}
    (h : Receives log s s' data target) (hkeeps : s'.Keeps log left) : Receives log s left data target :=
  ⟨hkeeps.stdout ▸ h.stdout, fun place hlog => (hkeeps.files place hlog).trans (h.files place hlog)⟩

theorem Opens.receives_nothing {l : Opening} (h : Opens args stdin site l) :
    Receives (LogsTo args site) site l.site [] l.target := by
  have hstdout : l.site.stdout = site.stdout := h.keeps.stdout
  refine ⟨by simp [hstdout], fun place hlog => ?_⟩
  obtain ⟨hothers, hself⟩ := Target.ofArgument_ok h.output
  by_cases htarget : l.target = .file place
  · rw [if_pos htarget]
    exact hself place htarget
  · rw [if_neg htarget]
    exact (hothers place htarget).trans (h.keeps.files place hlog)

theorem Site.writeTape_receives {log : List Bytes → Prop} {s s' : Site} {target : Target} {t : Tape}
    (h : Receives log s s' [] target) (hok : (s'.writeTape target t).2 = none) :
    Receives log s (s'.writeTape target t).1 (t.text ++ utf8 "\n") target := by
  have hstdout : s'.stdout.bytes = s.stdout.bytes := by simpa using h.stdout
  cases target with
  | stdout =>
    have hfailure : (t.writeLine ⟨s'.stdout, none⟩).failure = none := by simpa [writeTape] using hok
    have hbytes := Sticky.bytes_putAll hfailure
    simp only [hstdout] at hbytes
    exact ⟨by simpa [writeTape, Tape.writeLine] using hbytes, h.files⟩
  | file place =>
    have hfailure : (t.writeLine (⟨{ room := s'.outlet.room }, none⟩ : Sticky Budget)).failure = none := by
      simpa [writeTape] using hok
    have hbytes := Sticky.bytes_putAll hfailure
    refine ⟨by simpa [writeTape] using hstdout, fun other hlog => ?_⟩
    have hother := h.files other hlog
    by_cases he : other = place
    · subst he
      rw [if_pos rfl] at hother ⊢
      -- the file is empty, so nothing is left behind the line
      refine (Files.node?_overwrite_self hother).trans ?_
      rw [Tape.writeLine, hbytes]
      simp [Budget.bytes]
    · have hne : Target.file place ≠ .file other := fun h => he (by cases h; rfl)
      rw [if_neg hne] at hother ⊢
      exact (Files.node?_overwrite_of_ne _ he).trans hother

/-! ## Exit status -/

/-- An invocation ends in a dead end: its machine does, and a dump, if one is wanted, is written. -/
def Stalls (args : List Bytes) (stdin : Input) (site : Site) : Prop :=
  ∃ l, Launches args stdin site l ∧ l.outcome.status = .deadEnd ∧ l.DumpWritten

/-- An invocation succeeds: its machine halts, and all that is to be written is. -/
def Succeeds (args : List Bytes) (stdin : Input) (site : Site) : Prop :=
  ∃ l, Launches args stdin site l ∧ l.outcome.status = .halted ∧ l.DumpWritten ∧ l.TapeWritten ∧ l.Closed

theorem execute_status (plain : Plain args site) (stdin : Input) :
    ((execute args stdin site).1 = 2 ↔ Stalls args stdin site) ∧
      ((execute args stdin site).1 = 0 ↔ Succeeds args stdin site) ∧ (execute args stdin site).1 ≤ 2 := by
  -- without a run the status is that of an error, and neither a dead end nor a success can be had
  have hfailed : (∀ l, ¬ Launches args stdin site l) → (execute args stdin site).1 = 1 →
      ((execute args stdin site).1 = 2 ↔ Stalls args stdin site) ∧
        ((execute args stdin site).1 = 0 ↔ Succeeds args stdin site) ∧ (execute args stdin site).1 ≤ 2 := by
    intro hnone hone
    have hstalls : ¬ Stalls args stdin site := fun ⟨l, h, _⟩ => hnone l h
    have hsucceeds : ¬ Succeeds args stdin site := fun ⟨l, h, _⟩ => hnone l h
    simp [hone, hstalls, hsucceeds]
  obtain ⟨l, h, hexecute⟩ | ⟨l, t, h, hbuilt, hexecute⟩ | ⟨hnone, b, s, e, -, he, hexecute⟩ :=
    execute_cases plain stdin
  · have hstalls : Stalls args stdin site ↔ l.outcome.status = .deadEnd ∧ l.DumpWritten :=
      ⟨fun ⟨l', h', hl'⟩ => h.unique h' ▸ hl', fun hl => ⟨l, h, hl⟩⟩
    have hsucceeds : Succeeds args stdin site ↔
        l.outcome.status = .halted ∧ l.DumpWritten ∧ l.TapeWritten ∧ l.Closed :=
      ⟨fun ⟨l', h', hl'⟩ => h.unique h' ▸ hl', fun hl => ⟨l, h, hl⟩⟩
    rw [hstalls, hsucceeds, hexecute, conclude_status]
    exact Launch.status_ending
  · refine hfailed (fun l' h' => ?_) (by rw [hexecute, conclude_status]; rfl)
    cases h.unique h'.toOpens
    cases hbuilt.symm.trans h'.built
  · refine hfailed (fun l' h' => hnone _ h'.toOpens) ?_
    rw [hexecute, conclude_status]
    exact he

theorem keeps_execute_of_not_opens (plain : Plain args site) (h : ∀ l, ¬ Opens args stdin site l) :
    site.Keeps (LogsTo args site) (execute args stdin site).2 := by
  obtain ⟨l, hl, -⟩ | ⟨l, t, hl, -⟩ | ⟨-, b, s, e, hkeeps, -, hexecute⟩ := execute_cases plain stdin
  · exact absurd hl.toOpens (h _)
  · exact absurd hl (h l)
  · rw [hexecute]
    exact hkeeps.trans (keeps_conclude b (s, some e))

theorem Opens.keeps_execute {l : Opening} (h : Opens args stdin site l) (plain : Plain args site)
    (hrun : ∀ l, Launches args stdin site l → l.outcome.status ≠ .halted) :
    l.site.Keeps (LogsTo args site) (execute args stdin site).2 := by
  obtain ⟨l', hl', hexecute⟩ | ⟨l', t, hl', -, hexecute⟩ | ⟨hnone, -⟩ := execute_cases plain stdin
  · cases h.unique hl'.toOpens
    rw [hexecute]
    exact (hl'.keeps_ending (hrun l' hl')).trans (keeps_conclude _ _)
  · cases h.unique hl'
    rw [hexecute]
    exact keeps_conclude _ (l.site, _)
  · exact absurd h (hnone l)

theorem Launches.execute_eq {l : Launch} (h : Launches args stdin site l) (plain : Plain args site) :
    execute args stdin site = conclude l.options.debug l.ending := by
  obtain ⟨l', hl', hexecute⟩ | ⟨l', t, hl', hbuilt, -⟩ | ⟨hnone, -⟩ := execute_cases plain stdin
  · rw [h.unique hl', hexecute]
  · cases h.toOpens.unique hl'
    cases hbuilt.symm.trans h.built
  · exact absurd h.toOpens (hnone _)

theorem Launches.receives_tape {l : Launch} (h : Launches args stdin site l) (plain : Plain args site)
    (hzero : (execute args stdin site).1 = 0) :
    Receives (LogsTo args site) site (execute args stdin site).2 (l.final.config.tape.text ++ utf8 "\n")
      l.target := by
  rw [h.execute_eq plain] at hzero ⊢
  rw [conclude_status] at hzero
  obtain ⟨hhalted, hdump, hwritten, -⟩ := Launch.status_ending.2.1.1 hzero
  have htold : Receives (LogsTo args site) site l.told [] l.target :=
    h.receives_nothing.of_keeps h.keeps_told
  have hends := Site.writeTape_receives htold hwritten
  have hending : l.ending.1 = l.written.1 := by rw [Launch.ending_of_halted hdump hhalted]
  exact hends.of_keeps (hending ▸ keeps_conclude _ _)

/-- Exit status and output tell how the run went. The output is told about unless it is the log. -/
theorem execute_tells_run (plain : Plain args site) (stdin : Input) :
    ((execute args stdin site).1 = 2 ↔ Stalls args stdin site) ∧
      ((execute args stdin site).1 = 0 ↔ Succeeds args stdin site) ∧
      ((execute args stdin site).1 = 1 ↔ ¬ Stalls args stdin site ∧ ¬ Succeeds args stdin site) ∧
      ((∀ l, Launches args stdin site l → l.outcome.status ≠ .halted) →
        ((∀ l, ¬ Opens args stdin site l) → site.Keeps (LogsTo args site) (execute args stdin site).2) ∧
        ∀ l, Opens args stdin site l →
          Receives (LogsTo args site) site (execute args stdin site).2 [] l.target) ∧
      ∀ l, Launches args stdin site l → (execute args stdin site).1 = 0 →
        Receives (LogsTo args site) site (execute args stdin site).2
          (l.final.config.tape.text ++ utf8 "\n") l.target := by
  obtain ⟨htwo, hzero, hle⟩ := execute_status plain stdin
  have hone : (execute args stdin site).1 = 1 ↔ ¬ Stalls args stdin site ∧ ¬ Succeeds args stdin site := by
    rw [← htwo, ← hzero]
    omega
  refine ⟨htwo, hzero, hone, fun hrun => ⟨keeps_execute_of_not_opens plain, fun l h => ?_⟩, ?_⟩
  · exact h.receives_nothing.of_keeps (h.keeps_execute plain hrun)
  · exact fun l h hsuccess => h.receives_tape plain hsuccess

end Stages

/-- Arguments of an invocation on a short tape, which is read from the standard input. -/
def shortArgs : List Bytes :=
  [utf8 "-p", utf8 "INIT a HALT b R", utf8 "--tape-size", utf8 "4", utf8 "-o", utf8 "out"]

theorem execute_tells_run_short :
    (∃ l, Launches shortArgs ⟨utf8 "a\n", none⟩ { files := {} } l ∧
      Receives (LogsTo shortArgs { files := {} }) { files := {} }
        (execute shortArgs ⟨utf8 "a\n", none⟩ { files := {} }).2
        (l.final.config.tape.text ++ utf8 "\n") l.target) ∧
      ∃ l, Launches shortArgs ⟨utf8 "c\n", none⟩ { files := {} } l ∧ l.outcome.status = .deadEnd ∧
        Receives (LogsTo shortArgs { files := {} }) { files := {} }
          (execute shortArgs ⟨utf8 "c\n", none⟩ { files := {} }).2 [] l.target := by
  have plain : Plain shortArgs { files := {} } := by decide +kernel
  constructor
  · obtain ⟨-, hsucceeds, -, -, htape⟩ := execute_tells_run plain ⟨utf8 "a\n", none⟩
    have hzero : (execute shortArgs ⟨utf8 "a\n", none⟩ { files := {} }).1 = 0 := by decide +kernel
    obtain ⟨l, h, -⟩ := hsucceeds.1 hzero
    exact ⟨l, h, htape l h hzero⟩
  · obtain ⟨hstalls, -, -, hnothing, -⟩ := execute_tells_run plain ⟨utf8 "c\n", none⟩
    obtain ⟨l, h, hstatus, -⟩ := hstalls.1 (by decide +kernel)
    -- there is no other launch, and this one is a dead end
    have hrun : ∀ l', Launches shortArgs ⟨utf8 "c\n", none⟩ { files := {} } l' →
        l'.outcome.status ≠ .halted := by
      intro l' h'
      simp [← h.unique h', hstatus]
    exact ⟨l, h, hstatus, (hnothing hrun).2 _ h.toOpens⟩

end LogicMill.Cli
