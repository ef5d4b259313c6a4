import CellCollapse.Assoc
import CellCollapse.Engine.Basic
import CellCollapse.Text.Lines

set_option autoImplicit false

/-!
# Journals

Records of what happens go to the sinks of a journal: a console and, if one was set up, a file. A
record passes if its level is positive and reaches that of the journal and that of the sink, and if
its logger belongs to the journal. Lines of a file carry the time in front; it is no part of a
journal.
-/
namespace CellCollapse

/-- A record with its level, the name it is logged under, and the function it comes from. -/
structure Record where
  level : Int
  logger : String
  origin : String
  message : String

inductive Sink where
  | file (path : String) (level : Int)
  | console (level : Int)

structure Journal where
  level : Int
  sinks : List Sink
  /-- The lines written to the console so far. -/
  console : List String
  /-- The lines of every file that was set up. -/
  files : Assoc String (List String)
  /-- The loggers that were asked for. -/
  loggers : List String

namespace Journal

/-- The name that every logger of the package starts with. -/
def rootName : String := "wavecollapse"

def defaultLevel : Int := 10

def defaultConsoleLevel : Int := 30

def fileMaxBytes : Nat := 10485760

def fileBackupCount : Nat := 5

def fileFormat : String :=
  "%(asctime)s.%(msecs)03d | %(levelname)-8s | %(name)-35s | %(funcName)-25s | %(message)s"

def fileDateFormat : String := "%Y-%m-%d %H:%M:%S"

def consoleFormat : String := "%(levelname)-8s | %(name)-25s | %(message)s"

/-- The level that counts where none is set. -/
def ambientLevel : Int := 30

def blank : Journal := ⟨0, [], [], .empty, []⟩

/-- Names are kept below the root name. -/
def loggerName (name : String) : String :=
  if name == rootName || (rootName ++ ".").toList.isPrefixOf name.toList then name
  else rootName ++ "." ++ name

/-- The names above a logger, the nearest first, as they are looked for: each ends before a dot, and
the dot next before that one is passed over if nothing stands between them. The name comes
reversed, and so do the results. -/
def above : Nat → List Char → List (List Char)
  | 0, _ => []
  | fuel + 1, cs =>
    match cs.dropWhile (· != '.') with
    | [] => []
    | _ :: rest => rest :: above fuel (rest.drop 1)

/-- Whether a logger belongs to the journal: the nearest known name above it is the root name, or
belongs to the journal. -/
def belongs (known : List String) : Nat → String → Bool
  | 0, _ => false
  | fuel + 1, name =>
    name == rootName ||
      match ((above name.length name.toList.reverse).map fun cs => String.ofList cs.reverse).find?
          (fun n => n == rootName || known.contains n) with
      | some n => belongs known fuel n
      | none => false

/-- Notes that a logger was asked for. -/
def know (j : Journal) (name : String) : Journal := { j with loggers := name :: j.loggers }

def levelName (level : Int) : String :=
  if level = 50 then "CRITICAL"
  else if level = 40 then "ERROR"
  else if level = 30 then "WARNING"
  else if level = 20 then "INFO"
  else if level = 10 then "DEBUG"
  else if level = 0 then "NOTSET"
  else "Level " ++ toString level

/-- Fills up with blanks on the right; a longer text stays whole. -/
def pad (width : Nat) (s : String) : String :=
  s ++ String.ofList (List.replicate (width - s.length) ' ')

def consoleLine (r : Record) : String :=
  pad 8 (levelName r.level) ++ " | " ++ pad 25 r.logger ++ " | " ++ r.message

/-- A line of a file after its time. -/
def fileLine (r : Record) : String :=
  pad 8 (levelName r.level) ++ " | " ++ pad 35 r.logger ++ " | " ++ pad 25 r.origin ++ " | "
    ++ r.message

/-- What a line of a file reads behind its time, which ends at the first bar. A line without a bar
reads as empty. -/
def untimed (line : String) : String :=
  match line.splitOn " | " with
  | _ :: parts => String.intercalate " | " parts
  | [] => ""

/-- A path without empty parts and dots; two dots take a part back. -/
def plainPath (path : String) : String :=
  let parts := (path.splitOn "/").foldl (fun (done : List String) part =>
    if part == "" || part == "." then done
    else if part == ".." then done.tail
    else part :: done) []
  String.intercalate "/" parts.reverse

/-- Replaces the sinks. What was written before stays, and a file exists from then on. -/
def configure (j : Journal) (level consoleLevel : Int) (file : Option String) : Journal :=
  let files :=
    match file with
    | some path => j.files.insertNew (plainPath path) []
    | none => j.files
  let sinks :=
    match file with
    | some path => [Sink.file (plainPath path) level, .console consoleLevel]
    | none => [.console consoleLevel]
  { j with level := min level consoleLevel, sinks := sinks, files := files }

/-- The level that records have to reach. -/
def threshold (j : Journal) : Int := if j.level = 0 then ambientLevel else j.level

def writeTo (r : Record) (j : Journal) : Sink → Journal
  | .console level =>
    if level ≤ r.level then { j with console := j.console ++ Text.printedLines (consoleLine r) }
    else j
  | .file path level =>
    if level ≤ r.level then
      let lines := (Text.printedLines (" | " ++ fileLine r)).map untimed
      { j with files := j.files.modify path (· ++ lines) }
    else j

def log (j : Journal) (r : Record) : Journal :=
  if 0 < r.level ∧ j.threshold ≤ r.level ∧ belongs j.loggers (r.logger.length + 1) r.logger then
    j.sinks.foldl (writeTo r) j
  else j

end Journal

namespace Event

variable {κ : Type} [AsValue κ]

def message : Event κ → String
  | .started unresolved directions =>
    "Starting collapse | " ++ toString unresolved ++ " unresolved cells | "
      ++ toString directions ++ " neighbor directions"
  | .observed c => "Observed cell " ++ written c
  | .finished observations propagations =>
    "Collapse finished | " ++ toString observations ++ " observations | "
      ++ toString propagations ++ " propagation steps"

def origin : Event κ → String
  | .observed _ => "_observe_cell_at"
  | _ => "run"

/-- The record of an event of a run. -/
def record (e : Event κ) : Record :=
  ⟨10, Journal.rootName ++ ".model.wfc", e.origin, e.message⟩

end Event

namespace Record

/-- The record of a new table rule. -/
def ruleCreated (values offsets : Nat) : Record :=
  ⟨10, Journal.rootName ++ ".model.set_rule", "__init__",
    "Created set rule | " ++ toString values ++ " values | " ++ toString offsets ++ " offsets"⟩

/-- The record of a sample that was learned from. -/
def sampleLearned (height width tiles : Nat) : Record :=
  ⟨10, Journal.rootName ++ ".model.pattern_data", "__init__",
    "Learned adjacency from sample " ++ written [height, width] ++ " | " ++ toString tiles
      ++ " tiles"⟩

end Record

end CellCollapse
