import CachedRoutes.Failure

/-!
# Sessions

A command writes lines to standard output and standard error and to the log, and may end in a
failure. A session collects the lines; how much of the log is shown depends on the verbosity.
-/

namespace CachedRoutes.Command

/-- How important a line of the log is. -/
inductive Level where
  | debug
  | info
  | warn
  deriving DecidableEq, Repr

/-- The level at the start of a line of the log. -/
def Level.label : Level → String
  | debug => "DEBUG"
  | info => " INFO"
  | warn => " WARN"

/-- The verbosity from which on lines of the level are shown. -/
def Level.verbosity : Level → Nat
  | warn => 0
  | info => 1
  | debug => 2

/-- A line that a command writes. -/
inductive Line where
  /-- To standard output. -/
  | out (text : String)
  /-- To standard error. -/
  | err (text : String)
  /-- To the log. -/
  | log (level : Level) (text : String)
  deriving DecidableEq, Repr

/-- The lines of standard output. -/
def stdout (lines : List Line) : String :=
  String.join (lines.filterMap fun line =>
    match line with
    | .out text => some (text ++ "\n")
    | _ => none)

/-- The controls that the log keeps from a terminal: bell, backspace, form feed, escape, delete, and
those above ASCII. -/
def isHarmful (c : Char) : Bool :=
  ['\x07', '\x08', '\x0c', '\x1b', '\x7f'].contains c || (0x80 ≤ c.toNat && c.toNat ≤ 0x9f)

/-- A character as the log shows it: a harmful one by its number. -/
def logChar (c : Char) : List Char :=
  if isHarmful c then
    let digits := Nat.toDigits 16 c.toNat
    if c.toNat < 0x80 then
      "\\x".toList ++ List.replicate (2 - digits.length) '0' ++ digits
    else "\\u\x7b".toList ++ digits ++ ['\x7d']
  else [c]

/-- A text as the log shows it, without harmful characters. -/
def logText (text : String) : String :=
  String.ofList (text.toList.flatMap logChar)

/-- The lines of standard error, the log among them. -/
def stderr (verbosity : Nat) (lines : List Line) : String :=
  String.join (lines.filterMap fun line =>
    match line with
    | .err text => some (text ++ "\n")
    | .log level text =>
      if level.verbosity ≤ verbosity then some (level.label ++ " " ++ logText text ++ "\n")
      else none
    | .out _ => none)

/-- A computation that writes lines and may fail. -/
abbrev Session (m : Type → Type) := ExceptT Failure (StateT (List Line) m)

namespace Session

variable {m : Type → Type} [Monad m]

/-- Writes lines. -/
def write (lines : List Line) : Session m Unit :=
  modify (· ++ lines)

/-- Writes a line to standard output. -/
def say (text : String) : Session m Unit :=
  write [.out text]

/-- Writes a line to the log. -/
def log (level : Level) (text : String) : Session m Unit :=
  write [.log level text]

end Session

/-! ## Line forms -/

/-- A line about something that went well. -/
def okLine (text detail : String) : Line :=
  .out s!"  [OK] {text} ({detail})"

/-- A line about something to look at. -/
def warnLine (text hint : String) : Line :=
  .out s!"  [WARN] {text} - {hint}"

/-- A line for information. -/
def infoLine (text : String) : Line :=
  .out s!"  [INFO] {text}"

/-- A line about something that went wrong. -/
def failLine (text detail : String) : Line :=
  .out s!"  [FAIL] {text}: {detail}"

/-- A remark. -/
def remarkLine (text : String) : Line :=
  .out s!"  {text}"

end CachedRoutes.Command
