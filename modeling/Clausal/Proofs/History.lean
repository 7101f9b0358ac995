import Clausal.Proofs.Assembly
import Clausal.Proofs.Levels
import Clausal.Proofs.Rendering
import Clausal.Proofs.Totality

/-!
# Conversions do not depend on earlier ones

A logger has the level of a first call again after each call, however the call ended. What a call
answers and what it writes depend on the request alone, so that in a sequence of calls each is answered
as if it were the first. The messages of a call tell how far its conversion came.

* `Options.line`, `stageLines`, `Conversion.line` are the messages about the options, the stages and
  what was found.
* `Tells` says which messages there are of a conversion, by how it ends.
* `ConversionRequest.Logs` says which messages belong to the answer to a request.
* `HistoryLemmas.tells_convert`: the messages of a conversion.
* `HistoryLemmas.runAll_eq`: a sequence of calls on a logger whose level is set.
* `runAll_answers_each`: a sequence of calls on a new logger, with the messages of each.
-/

namespace Clausal

/-! ## Definitions -/

/-- The message that shows the options. -/
def Options.line (o : Options) : String :=
  "Options(" ++ ", ".intercalate ["log_level=" ++ o.logLevel.describe,
    "variable_base=" ++ o.variableBase.describe, "constant_prefix=" ++ o.constantStem.describe,
    "function_prefix=" ++ o.functionStem.describe] ++ ")"

/-- The messages that tell the stages, in their order. -/
def stageLines : List String :=
  ["NormalForms.normal_forms: parsing",
    "NormalForms.normal_forms: eliminating ↔ and →",
    "NormalForms.normal_forms: NNF",
    "NormalForms.normal_forms: standardizing variables",
    "NormalForms.normal_forms: prenex form",
    "NormalForms.normal_forms: CNF and DNF",
    "NormalForms.normal_forms: Skolemization",
    "NormalForms.normal_forms: clauses"]

/-- The message that tells what was found. -/
def Conversion.line (c : Conversion) : String :=
  "NormalForms.normal_forms: " ++ toString c.clauses.length ++ " clauses, horn=" ++
    if c.isHorn then "True" else "False"

/-- The messages of a conversion that ends with a result: the options and then the stages in their
order, up to the stage that fails. The text may not be a formula, and the base for the names of bound
variables may be one that the quantifiers cannot be renamed with; no other stage fails. A conversion
that does not fail tells what it found and how long it `took`, in thousandths of a second. -/
inductive Tells (o : Options) (text : String) (took : Int) :
    Except ConversionError Conversion → List String → Prop
  | unread {e : ReadError} : Formula.parse text = .error e →
      Tells o text took (.error (.unreadable e)) (o.line :: stageLines.take 1)
  | unnamed {f n : Formula} {e : ConstructionError} : Formula.parse text = .ok f →
      f.expandIff.expandImp.negationNormal = .ok n →
      Value.renameFormula o.variableBase n = .error e →
      Tells o text took (.error (.step (.construction e))) (o.line :: stageLines.take 4)
  | converted {c : Conversion} : c.Records o text →
      Tells o text took (.ok c)
        (o.line :: stageLines ++ [c.line, "finished after " ++ Elapsed.inSeconds took ++ " s"])

/-- The messages that belong to the answer to a request: none if the options are rejected or if the
level that they ask for is above that of the messages, and otherwise all of the conversion. -/
inductive ConversionRequest.Logs (request : ConversionRequest) (took : Int) :
    Except ConversionError Conversion → List String → Prop
  | unknownOption {name : String} : Options.ofEntries request.options = .error name →
      Logs request took (.error (.unknownOption name)) []
  | notLevel {o : Options} : Options.ofEntries request.options = .ok o → o.level? = none →
      Logs request took (.error (.ofLevel o.logLevel)) []
  | silent {o : Options} {level : LogLevel} {result : Except ConversionError Conversion}
      {messages : List String} : Options.ofEntries request.options = .ok o →
      o.level? = some level → LogLevel.info < level.effective →
      Tells o request.text took result messages → Logs request took result []
  | written {o : Options} {level : LogLevel} {result : Except ConversionError Conversion}
      {messages : List String} : Options.ofEntries request.options = .ok o →
      o.level? = some level → level.effective ≤ LogLevel.info →
      Tells o request.text took result messages → Logs request took result messages

/-! ## Announced computations -/

namespace AnnouncedLemmas

variable {α β ε : Type} {told : List Announcement}

theorem run_announce_bind {a : Announcement} {next : Unit → Announced β} :
    (Announced.announce a >>= next).run.run told = (next ()).run.run (told ++ [a]) :=
  rfl

theorem run_lift_ok {cause : ε → ConversionError} {a : α} {next : α → Announced β} :
    (Announced.lift cause (.ok a) >>= next).run.run told = (next a).run.run told :=
  rfl

/-- After the error of a step nothing more is announced. -/
theorem run_lift_error {cause : ε → ConversionError} {error : ε} {next : α → Announced β} :
    (Announced.lift cause (.error error) >>= next).run.run told = (.error (cause error), told) :=
  rfl

end AnnouncedLemmas

namespace HistoryLemmas

open AnnouncedLemmas

variable {o : Options} {text : String} {f n : Formula} {c : Conversion} {ts : List Token}
  {took : Int}

/-! ## One conversion -/

/-- A text that is no formula ends the conversion in its first stage. -/
theorem convert_of_unread {e : ReadError} (failed : Formula.parse text = .error e) :
    convert o text = (.error (.unreadable e), [.options o, .reading]) := by
  unfold convert convertAnnounced
  rw [Formula.parse] at failed
  simp only [run_announce_bind]
  cases scan : tokenize (unifySpellings text) with
  | error e' =>
      rw [scan] at failed
      cases Except.error.inj failed
      rfl
  | ok ts =>
      rw [scan] at failed
      have unparsed : Formula.ofTokens ts = .error e := failed
      rw [run_lift_ok, unparsed, run_lift_error]
      rfl

/-- A base that the quantifiers cannot be renamed with ends the conversion in the stage that renames
them. -/
theorem convert_of_unnamed {e : ConstructionError} (read : Formula.parse text = .ok f)
    (pushed : f.expandIff.expandImp.negationNormal = .ok n)
    (failed : Value.renameFormula o.variableBase n = .error e) :
    convert o text = (.error (.step (.construction e)),
      [.options o, .reading, .connectives, .negations, .apart]) := by
  obtain ⟨ts, scanned, parsed⟩ := RuleLemmas.parse_eq_ok.mp read
  unfold convert convertAnnounced
  simp only [run_announce_bind, scanned, run_lift_ok, parsed, pushed, failed, run_lift_error]
  rfl

/-- A conversion that is not refused announces all stages, what it found, and that it is finished. -/
theorem told_of_convert (converted : (convert o text).1 = .ok c) :
    (convert o text).2 =
      [.options o, .reading, .connectives, .negations, .apart, .prenex, .matrices, .skolem, .clauses,
        .result c.clauses.length c.isHorn, .finished] := by
  have records := ConversionLemmas.records_of_convert converted
  have scanned : tokenize (unifySpellings text) = .ok c.tokens := by
    rw [← records.text, ← records.unified]
    exact records.tokens
  have pushed := RecordLemmas.negationNormal_eq records
  unfold convert convertAnnounced
  simp only [run_announce_bind, scanned, run_lift_ok, records.formula, pushed, records.apart,
    records.prenex, records.nestedCnf, records.nestedDnf, records.cnf, records.dnf, records.skolem,
    records.clauses, records.isHorn]
  rfl

/-! ## Messages of one conversion -/

theorem describe_eq_line (o : Options) : o.describe = o.line := by
  rw [Options.describe, Options.line, Text.record]
  simp

theorem text_options : (Announcement.options o).text took = o.line :=
  describe_eq_line o

theorem text_result : (Announcement.result c.clauses.length c.isHorn).text took = c.line := by
  change _ = "NormalForms.normal_forms: " ++ toString c.clauses.length ++ " clauses, horn=" ++
    Text.truth c.isHorn
  rw [Announcement.text]
  simp [String.append_assoc]

theorem text_finished :
    Announcement.finished.text took = "finished after " ++ Elapsed.inSeconds took ++ " s" := by
  rw [Announcement.text]
  simp [String.append_assoc]

/-- Every conversion tells its stages up to the one that fails. -/
theorem tells_convert (o : Options) (text : String) (took : Int) :
    Tells o text took (convert o text).1 ((convert o text).2.map (Announcement.text took)) := by
  cases parse : Formula.parse text with
  | error e =>
      rw [convert_of_unread parse, List.map_cons, text_options]
      exact .unread parse
  | ok f =>
      obtain ⟨n, pushed⟩ := NormalFormLemmas.exists_negationNormal f
      cases rename : Value.renameFormula o.variableBase n with
      | error e =>
          rw [convert_of_unnamed parse pushed rename, List.map_cons, text_options]
          exact .unnamed parse pushed rename
      | ok r =>
          obtain ⟨ts, scanned, parsed⟩ := RuleLemmas.parse_eq_ok.mp parse
          obtain ⟨c, converted⟩ :=
            TotalityLemmas.exists_convert_of_renamed scanned parsed pushed rename
          rw [told_of_convert converted, converted]
          simp only [List.map_cons, List.map_nil, text_options, text_result, text_finished]
          exact .converted (ConversionLemmas.records_of_convert converted)

/-! ## One call -/

section
variable {logger : Logger} {request : ConversionRequest}

/-- A call leaves a level that is set as it was, however the call ends. -/
theorem logger_run (set : logger.level ≠ LogLevel.unset) : (logger.run request).2 = logger := by
  by_cases accepted : request.IsAccepted
  case pos => rw [LevelLemmas.run_of_accepted accepted, LevelLemmas.effective_of_ne_unset set]
  case neg => exact LevelLemmas.run_of_not_accepted accepted

/-- The messages of a call are those that belong to its answer. -/
theorem logs_run (logger : Logger) (request : ConversionRequest) (took : Int) :
    request.Logs took (logger.run request).1.result
      ((logger.run request).1.written.map (Announcement.text took)) := by
  unfold Logger.run
  cases given : Options.ofEntries request.options with
  | error name => exact .unknownOption given
  | ok o =>
      cases set : o.level? with
      | none =>
          simp only [set]
          exact .notLevel given set
      | some level =>
          simp only [set, Logger.write, LogLevel.admits, decide_eq_true_eq]
          have tells := tells_convert o request.text took
          split
          case isTrue admitted => exact .written given set admitted tells
          case isFalse above => exact .silent given set (Int.not_le.mp above) tells

/-- What stands in the log of an answer are its messages. -/
theorem records_eq (answer : ConversionAnswer) (took : Int) :
    answer.records took = (answer.written.map (Announcement.text took)).map
      fun message => ⟨"normalforms.pipeline", LogLevel.info, message⟩ := by
  rw [List.map_map]
  rfl

/-- The messages of a call whose level admits them are those of its conversion. -/
theorem messages_run {level : LogLevel}
    (given : Options.ofEntries request.options = .ok o) (found : o.level? = some level)
    (admitted : level.effective ≤ LogLevel.info) :
    ((logger.run request).1.records took).map (·.message) =
      (convert o request.text).2.map (Announcement.text took) := by
  have admits : LogLevel.admits level LogLevel.info = true := decide_eq_true admitted
  have written : (logger.run request).1.written = (convert o request.text).2 := by
    unfold Logger.run
    simp only [given, found]
    exact if_pos admits
  rw [ConversionAnswer.records, written, List.map_map]
  rfl

end

/-! ## Several calls -/

/-- Each call leaves the logger as it was, so that all of them find it so. -/
theorem runAll_eq {logger : Logger} (set : logger.level ≠ LogLevel.unset)
    (requests : List ConversionRequest) :
    logger.runAll requests = (requests.map fun request => (logger.run request).1, logger) := by
  induction requests with
  | nil => rfl
  | cons request others ih =>
      rw [Logger.runAll, List.map_cons]
      simp only [logger_run set, ih]

end HistoryLemmas

/-! ## Calls on a new logger -/

/-- In any sequence of calls on a new logger, each call is answered and logged as if it were the first,
and the logger stays as it is. The messages of a call show its options and tell its stages, up to the
one in which it fails, if its options are accepted and ask for a level that admits them. -/
theorem runAll_answers_each (requests : List ConversionRequest) :
    ({} : Logger).runAll requests =
        (requests.map fun request => (({} : Logger).run request).1, {}) ∧
      ∀ (request : ConversionRequest) (took : Int), ∃ messages,
        request.Logs took (({} : Logger).run request).1.result messages ∧
        (({} : Logger).run request).1.records took =
          messages.map fun message => ⟨"normalforms.pipeline", LogLevel.info, message⟩ :=
  ⟨HistoryLemmas.runAll_eq (by decide) requests, fun request took =>
    ⟨_, HistoryLemmas.logs_run {} request took, HistoryLemmas.records_eq _ took⟩⟩

open HistoryLemmas in
/-- The messages of calls that fail by their options, their text and their base, of one that does not
fail, and of one whose level does not admit them. Each takes a little more than a second. -/
theorem runAll_answers_each_mixed :
    let requests : List ConversionRequest :=
      [⟨"P", [("level", .integer 20)]⟩, ⟨"P", [("log_level", .text "LOUD")]⟩,
        ⟨"¬", [("log_level", .text "INFO")]⟩,
        ⟨"∃y P(y)", [("log_level", .integer 20), ("variable_base", .text "")]⟩,
        ⟨"P → Q", [("log_level", .integer 10)]⟩, ⟨"P → Q", []⟩]
    ((({} : Logger).runAll requests).1.map fun answer => (answer.records 1234).map (·.message)) =
      [[], [],
        ["Options(log_level='INFO', variable_base='x', constant_prefix='c', function_prefix='f')",
          "NormalForms.normal_forms: parsing"],
        ["Options(log_level=20, variable_base='', constant_prefix='c', function_prefix='f')",
          "NormalForms.normal_forms: parsing",
          "NormalForms.normal_forms: eliminating ↔ and →",
          "NormalForms.normal_forms: NNF",
          "NormalForms.normal_forms: standardizing variables"],
        ["Options(log_level=10, variable_base='x', constant_prefix='c', function_prefix='f')",
          "NormalForms.normal_forms: parsing",
          "NormalForms.normal_forms: eliminating ↔ and →",
          "NormalForms.normal_forms: NNF",
          "NormalForms.normal_forms: standardizing variables",
          "NormalForms.normal_forms: prenex form",
          "NormalForms.normal_forms: CNF and DNF",
          "NormalForms.normal_forms: Skolemization",
          "NormalForms.normal_forms: clauses",
          "NormalForms.normal_forms: 1 clauses, horn=True",
          "finished after 1.234 s"],
        []] := by
  intro requests
  rw [(runAll_answers_each requests).1]
  let f : Formula := .quant .ex "y" (.atom ⟨"P", [.var "y"]⟩)
  let n : Formula := .disj (.neg (.atom ⟨"P", []⟩)) (.atom ⟨"Q", []⟩)
  have unread : Formula.parse "¬" = .error (.syntactic .incomplete) := by
    have scanned : tokenize (unifySpellings "¬") = .ok [⟨.neg, "¬", 0⟩] := by decide +kernel
    rw [Formula.parse, scanned]
    change Formula.ofTokens _ = _
    cbv
  have closed : Formula.parse "∃y P(y)" = .ok f :=
    RenderingLemmas.parse_of_render ⟨by simp [f, Formula.IsReadable, Atom.IsReadable,
      Term.IsReadable, isName, isNameStart], by cbv⟩ (by cbv)
  have unnamed : Value.renameFormula (.text "") f = .error (.badName .variable (.text "")) := by
    rw [Value.renameFormula, if_neg (by simp [f, Formula.quantifiers]), Value.checkHashable_text]
    rfl
  have arrow : Formula.parse "P → Q" = .ok (.imp (.atom ⟨"P", []⟩) (.atom ⟨"Q", []⟩)) :=
    RenderingLemmas.parse_of_render ⟨by simp [Formula.IsReadable, Atom.IsReadable, isName,
      isNameStart, startsUpper], by cbv⟩ (by cbv)
  have formed : n.matrixForm .conj true = .ok n :=
    AssemblyLemmas.matrixForm_of_isFlatMatrix
      (by simp [n, Formula.IsFlatMatrix, Formula.IsPart, Formula.IsLiteral, Junctor.dual])
  have read : ClauseSet.ofFormula (n.substEach []) =
      .ok [[⟨true, ⟨"P", []⟩⟩, ⟨false, ⟨"Q", []⟩⟩]] := by
    change ClauseSet.ofFormula n = _
    cbv
  obtain ⟨c, answered, -, -, clauses⟩ := @TotalityLemmas.exists_run_of_steps
    { logLevel := .integer 10 } _ n "x" {} ⟨"P → Q", [("log_level", .integer 10)]⟩ n ⟨[], n⟩ [] _
    rfl rfl rfl (by decide) arrow (by cbv) (by cbv) formed rfl read
  have converted : (convert { logLevel := .integer 10 } "P → Q").1 = .ok c := answered
  have horn : c.isHorn = true := by
    rw [(ConversionLemmas.records_of_convert converted).isHorn, clauses]
    rfl
  have rejected : (({} : Logger).run ⟨"P", [("level", .integer 20)]⟩).1.records 1234 = [] := rfl
  have unknown : (({} : Logger).run ⟨"P", [("log_level", .text "LOUD")]⟩).1.records 1234 = [] := rfl
  have silent : (({} : Logger).run ⟨"P → Q", []⟩).1.records 1234 = [] := rfl
  simp only [requests, List.map_cons, List.map_nil]
  rw [rejected, unknown, silent,
    messages_run (o := { logLevel := .text "INFO" }) rfl rfl (by decide), convert_of_unread unread,
    messages_run (o := { logLevel := .integer 20, variableBase := .text "" }) rfl rfl (by decide),
    convert_of_unnamed closed (by cbv) unnamed,
    messages_run (o := { logLevel := .integer 10 }) rfl rfl (by decide), told_of_convert converted,
    clauses, horn]
  simp (disch := decide +kernel) only [List.map_cons, List.map_nil, text_options, Options.line,
    Value.describe, Text.quoted_of_plain]
  decide +kernel

end Clausal
