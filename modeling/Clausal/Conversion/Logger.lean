import Clausal.Conversion.Announced

/-!
# Logged conversions

Conversions share a logger with a level. A conversion sets the level that its options ask for, writes
its announcements if this level admits them, and sets the level back that was in force before,
however it ends.

* `Logger.run` is one conversion by a request; `Logger.runAll` is a sequence of them.
-/

namespace Clausal

/-- The state that conversions share: the level set on the logger. -/
structure Logger where
  level : LogLevel := LogLevel.warning
  deriving Repr, DecidableEq

/-- What is asked for: a text, with options by name. -/
structure ConversionRequest where
  text : String
  options : List (String × Value) := []
  deriving Repr

/-- The answer to a request, and the announcements that were written. -/
structure ConversionAnswer where
  result : Except ConversionError Conversion
  written : List Announcement

/-- An announcement in the log is a message of level `INFO`. -/
def Announcement.record (took : Int) (a : Announcement) : LogRecord :=
  ⟨"normalforms.pipeline", LogLevel.info, a.text took⟩

/-- What stands in the log of an answer that took a number of thousandths of a second. -/
def ConversionAnswer.records (answer : ConversionAnswer) (took : Int) : List LogRecord :=
  answer.written.map (Announcement.record took)

namespace Logger

/-- The announcements that a logger writes. -/
def write (logger : Logger) (announcements : List Announcement) : List Announcement :=
  if logger.level.admits LogLevel.info then announcements else []

/-- Answers a request, and leaves the level that was in force before. -/
def run (logger : Logger) (request : ConversionRequest) : ConversionAnswer × Logger :=
  match Options.ofEntries request.options with
  | .error name => (⟨.error (.unknownOption name), []⟩, logger)
  | .ok o =>
      let restored : Logger := ⟨logger.level.effective⟩
      match o.level? with
      | none => (⟨.error (.ofLevel o.logLevel), []⟩, restored)
      | some level =>
          let (result, announcements) := convert o request.text
          (⟨result, Logger.write ⟨level⟩ announcements⟩, restored)

/-- Answers requests one after the other. -/
def runAll (logger : Logger) : List ConversionRequest → List ConversionAnswer × Logger
  | [] => ([], logger)
  | request :: others =>
      let (answer, next) := logger.run request
      let (answers, last) := next.runAll others
      (answer :: answers, last)

end Logger

end Clausal
