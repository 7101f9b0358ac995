import Clausal.Conversion.Logger

/-!
# The level after a conversion

A conversion whose options are known by name is guarded: the level that was in force before is set
when it ends, with a result or with an error of whatever stage. A level that was set is thereby
restored. A level that was unset is not: the default one is in force for it, and this is what is set.

* `Logger.guarded` is the guard, `Logger.answer` is what it guards.
* `LevelLemmas.run_eq_guarded`: a run is a guarded answer.
* `level_run_eq_iff`: which levels are restored.
* `effective_runAll`: the level in force after any calls.
-/

namespace Clausal

/-! ## Definitions -/

/-- All options of the request have a name that is known. -/
def ConversionRequest.IsAccepted (request : ConversionRequest) : Prop :=
  ∃ o, Options.ofEntries request.options = .ok o

namespace Logger

/-- A computation after which the level is set that was in force before. -/
def guarded {α : Type} (body : StateM Logger α) : StateM Logger α :=
  fun logger => ((body logger).1, ⟨logger.level.effective⟩)

/-- Answers with given options, and leaves the level that they ask for, if it is one. -/
def answer (o : Options) (text : String) : StateM Logger ConversionAnswer :=
  fun logger =>
    match o.level? with
    | none => (⟨.error (.ofLevel o.logLevel), []⟩, logger)
    | some level =>
        let (result, announcements) := convert o text
        (⟨result, Logger.write ⟨level⟩ announcements⟩, ⟨level⟩)

end Logger

namespace LevelLemmas

variable {logger : Logger} {request : ConversionRequest}

/-! ## Levels in force -/

theorem effective_of_ne_unset {level : LogLevel} (set : level ≠ LogLevel.unset) :
    level.effective = level :=
  if_neg set

theorem effective_ne_unset (level : LogLevel) : level.effective ≠ LogLevel.unset := by
  unfold LogLevel.effective
  split
  case isTrue => decide
  case isFalse set => exact set

theorem effective_effective (level : LogLevel) : level.effective.effective = level.effective :=
  effective_of_ne_unset (effective_ne_unset level)

/-- Only an unset level differs from the one in force. -/
theorem effective_eq_self_iff {level : LogLevel} :
    level.effective = level ↔ level ≠ LogLevel.unset :=
  ⟨fun same => same ▸ effective_ne_unset level, effective_of_ne_unset⟩

/-! ## One call -/

/-- With options that are known by name, a run is a guarded answer. -/
theorem run_eq_guarded {o : Options} (given : Options.ofEntries request.options = .ok o) :
    logger.run request = Logger.guarded (Logger.answer o request.text) logger := by
  unfold Logger.run Logger.guarded Logger.answer
  cases level : o.level? <;> simp only [given, level]

theorem run_of_not_accepted (refused : ¬ request.IsAccepted) : (logger.run request).2 = logger := by
  unfold Logger.run
  cases given : Options.ofEntries request.options with
  | error name => rfl
  | ok o => exact absurd ⟨o, given⟩ refused

theorem run_of_accepted (accepted : request.IsAccepted) :
    (logger.run request).2 = ⟨logger.level.effective⟩ := by
  obtain ⟨o, given⟩ := accepted
  rw [run_eq_guarded given]
  rfl

/-- A call leaves the level in force as it was. -/
theorem effective_run (logger : Logger) (request : ConversionRequest) :
    (logger.run request).2.level.effective = logger.level.effective := by
  by_cases accepted : request.IsAccepted
  case pos =>
    rw [run_of_accepted accepted]
    exact effective_effective logger.level
  case neg => rw [run_of_not_accepted accepted]

end LevelLemmas

open LevelLemmas in
/-- A call leaves the level in force as it was. It leaves the level that is set as it was unless that
is unset and the options are accepted; then the default level is set, even if the call fails. -/
theorem level_run_eq_iff (logger : Logger) (request : ConversionRequest) :
    (logger.run request).2.level.effective = logger.level.effective ∧
      ((logger.run request).2.level = logger.level ↔
        logger.level ≠ LogLevel.unset ∨ ¬ request.IsAccepted) := by
  refine ⟨effective_run logger request, ?_⟩
  by_cases accepted : request.IsAccepted
  case pos =>
    rw [run_of_accepted accepted, effective_eq_self_iff]
    exact (or_iff_left (not_not_intro accepted)).symm
  case neg =>
    rw [run_of_not_accepted accepted]
    exact iff_of_true rfl (.inr accepted)

/-- After a call without options, an unset level is the default one. -/
theorem level_run_unset :
    ((⟨LogLevel.unset⟩ : Logger).run ⟨"P", []⟩).2.level = LogLevel.warning ∧
      LogLevel.warning ≠ LogLevel.unset := by
  have accepted : ConversionRequest.IsAccepted ⟨"P", []⟩ := ⟨{}, rfl⟩
  rw [LevelLemmas.run_of_accepted accepted]
  decide

/-- Any calls leave the level in force as it was. -/
theorem effective_runAll (logger : Logger) (requests : List ConversionRequest) :
    (logger.runAll requests).2.level.effective = logger.level.effective := by
  induction requests generalizing logger with
  | nil => rfl
  | cons request others ih =>
      have rest := ih (logger.run request).2
      rwa [LevelLemmas.effective_run] at rest

end Clausal
