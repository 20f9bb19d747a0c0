/-!
# Config — the settings of a shell, and where its files are
-/
namespace LineShell

def programName : String := "rish"

def version : String := "0.1.0"

structure Config where
  /-- Shown when no statement is in progress. -/
  prompt : String := "> "
  /-- Shown while a statement is still open. -/
  continuation : String := "* "
  /-- The line that ends the session, white space around it apart. -/
  exitCommand : String := "quit"
  /-- Written when the exit command ends the session. -/
  farewell : String := "closing..."
  /-- Whether a line editor keeps its history in a file. -/
  history : Bool := true
  deriving DecidableEq, Repr, Inhabited

/-- **A file name set after a directory.** One slash stands between the two, and none where there is no directory. -/
def inDirectory (directory name : String) : String :=
  if directory.isEmpty || directory.endsWith "/" then directory ++ name else directory ++ "/" ++ name

/-- **The file evaluated at the start**, in the home directory. -/
def rcPath (home : String) : String := inDirectory home ".rishrc"

/-- **The file of a line editor's history**, in the home directory. -/
def historyPath (home : String) : String := inDirectory home ".rish_history"

end LineShell
