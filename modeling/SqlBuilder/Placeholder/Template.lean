import SqlBuilder.SortedMap
import SqlBuilder.Value.Basic

/-!
# Templates with named placeholders

SQL text may hold placeholders written `:name`.  A scanner with four modes walks over the characters
once and cuts the text into pieces: characters that are copied, and placeholders.  Text between
quotes is copied, and so is a pair of colons, which is a cast.

The scanner is a machine over characters, so the pieces of a text put together from two are those of
the first up to where it stops, followed by those of the second from the mode reached there
(`scan_append`).
-/

namespace SqlBuilder

/-- The values bound to placeholders, by name. -/
abbrev Bindings := SortedMap String Value

namespace Placeholder

/-- Whether `c` may stand in a placeholder's name: an ASCII letter, a digit or an underscore. -/
def isKeyChar (c : Char) : Bool :=
  ('a' ≤ c && c ≤ 'z') || ('A' ≤ c && c ≤ 'Z') || ('0' ≤ c && c ≤ '9') || c = '_'

/-- The placeholder for a column: every character that no name may hold becomes an underscore. -/
def keyOf (column : String) : String :=
  .ofList (column.toList.map fun c => if isKeyChar c then c else '_')

/-- What a template is cut into. -/
inductive Piece where
  | copied (c : Char)
  | slot (name : String)
  deriving DecidableEq, Repr

/-- Where the scanner stands. -/
inductive Mode where
  /-- Outside quotes, casts and names. -/
  | code
  /-- Behind an opening quote that has not been closed. -/
  | quoted (quote : Char)
  /-- Behind a colon that may begin a cast or a placeholder. -/
  | colon
  /-- Inside a placeholder's name, of which these letters have been met. -/
  | name (letters : List Char)
  deriving DecidableEq, Repr

/-- What the scanner does with a character met in `code` mode. -/
def enter (c : Char) : List Piece × Mode :=
  if c = '\'' ∨ c = '"' then ([.copied c], .quoted c)
  else if c = ':' then ([], .colon)
  else ([.copied c], .code)

/-- One step of the scanner: the pieces that a character completes, and the mode behind it. -/
def step : Mode → Char → List Piece × Mode
  | .code, c => enter c
  | .quoted q, c => ([.copied c], if c = q then .code else .quoted q)
  | .colon, c =>
    if c = ':' then ([.copied ':', .copied ':'], .code)
    else if isKeyChar c then ([], .name [c])
    else (.copied ':' :: (enter c).1, (enter c).2)
  | .name letters, c =>
    if isKeyChar c then ([], .name (letters ++ [c]))
    else (.slot (.ofList letters) :: (enter c).1, (enter c).2)

/-- The pieces that the end of the text completes. -/
def finish : Mode → List Piece
  | .code => []
  | .quoted _ => []
  | .colon => [.copied ':']
  | .name letters => [.slot (.ofList letters)]

/-- The pieces completed by scanning `cs` from a mode. -/
def run : Mode → List Char → List Piece
  | _, [] => []
  | m, c :: cs => (step m c).1 ++ run (step m c).2 cs

/-- The mode reached by scanning `cs`. -/
def after : Mode → List Char → Mode
  | m, [] => m
  | m, c :: cs => after (step m c).2 cs

/-- The pieces of a text that is scanned from a mode to its end. -/
def scan (m : Mode) (cs : List Char) : List Piece :=
  run m cs ++ finish (after m cs)

/-- The pieces of a template. -/
def pieces (template : String) : List Piece :=
  scan .code template.toList

theorem run_append (m : Mode) (a b : List Char) :
    run m (a ++ b) = run m a ++ run (after m a) b := by
  induction a generalizing m with
  | nil => rfl
  | cons c a ih => simp [run, after, ih]

theorem after_append (m : Mode) (a b : List Char) :
    after m (a ++ b) = after (after m a) b := by
  induction a generalizing m with
  | nil => rfl
  | cons c a ih => simp [after, ih]

/-- The pieces of a concatenation. -/
theorem scan_append (m : Mode) (a b : List Char) :
    scan m (a ++ b) = run m a ++ scan (after m a) b := by
  simp [scan, run_append, after_append]

end Placeholder

end SqlBuilder
