/-!
# Log levels

A level is a number; the usual ones have names, two of them have a second name. Level 0 is no level
of its own: what counts then is the default level.
-/

namespace Clausal

/-- How important a message is. -/
abbrev LogLevel := Int

namespace LogLevel

/-- The level of a logger for which none was chosen. -/
def unset : LogLevel := 0

/-- The level of messages that tell how things go on. -/
def info : LogLevel := 20

/-- The default level. -/
def warning : LogLevel := 30

/-- The levels that can be given by name. -/
def names : List (String × LogLevel) :=
  [("NOTSET", unset), ("DEBUG", 10), ("INFO", info), ("WARN", warning), ("WARNING", warning),
    ("ERROR", 40), ("CRITICAL", 50), ("FATAL", 50)]

/-- The level of a name. -/
def ofName? (name : String) : Option LogLevel :=
  (names.find? (·.1 == name)).map (·.2)

/-- The name of a level, as it stands in log lines. -/
def name (level : LogLevel) : String :=
  if level = 10 then "DEBUG"
  else if level = 20 then "INFO"
  else if level = 30 then "WARNING"
  else if level = 40 then "ERROR"
  else if level = 50 then "CRITICAL"
  else if level = 0 then "NOTSET"
  else "Level " ++ toString level

/-- The level that counts: that of an unset level is the default one. -/
def effective (level : LogLevel) : LogLevel :=
  if level = unset then warning else level

/-- Whether messages of level `message` are written at `level`. -/
def admits (level message : LogLevel) : Bool :=
  effective level ≤ message

end LogLevel

end Clausal
