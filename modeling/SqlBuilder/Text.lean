/-!
# Operations on texts

Blanks are the characters with Unicode's `White_Space` property.  They are trimmed off a text, and a
text is split at them into words.  A pattern is replaced wherever it occurs, as the characters that
it is.
-/

namespace SqlBuilder.Text

/-! ## Blanks -/

/-- The ranges of code points with the `White_Space` property, both ends included. -/
def blankRanges : List (Nat × Nat) :=
  [(0x09, 0x0D), (0x20, 0x20), (0x85, 0x85), (0xA0, 0xA0), (0x1680, 0x1680), (0x2000, 0x200A),
    (0x2028, 0x2029), (0x202F, 0x202F), (0x205F, 0x205F), (0x3000, 0x3000)]

/-- Whether `c` is a blank. -/
def isBlank (c : Char) : Bool :=
  blankRanges.any fun r => r.1 ≤ c.toNat && c.toNat ≤ r.2

/-- Drops the blanks at the end. -/
def dropBlankEnd (cs : List Char) : List Char :=
  (cs.reverse.dropWhile isBlank).reverse

/-- The text without blanks at its start. -/
def trimStart (s : String) : String :=
  .ofList (s.toList.dropWhile isBlank)

/-- The text without blanks at its end. -/
def trimEnd (s : String) : String :=
  .ofList (dropBlankEnd s.toList)

/-- The text without blanks at either end. -/
def trim (s : String) : String :=
  .ofList (dropBlankEnd (s.toList.dropWhile isBlank))

/-- The maximal runs of characters that are no blanks, in order. -/
def splitBlanks : List Char → List (List Char)
  | [] => []
  | c :: cs =>
    if isBlank c then splitBlanks cs
    else
      match cs with
      | [] => [[c]]
      | d :: _ =>
        if isBlank d then [c] :: splitBlanks cs
        else
          match splitBlanks cs with
          | [] => [[c]]
          | w :: ws => (c :: w) :: ws

/-- The words of a text: its maximal runs without blanks. -/
def words (s : String) : List String :=
  (splitBlanks s.toList).map .ofList

/-! ## Patterns -/

/-- Replaces every occurrence of a pattern, from the left and without overlaps.  While an occurrence
is passed over, `skip` of its characters are still to be dropped. -/
def replaceFrom (pattern by_ : List Char) : Nat → List Char → List Char
  | _, [] => []
  | skip + 1, _ :: cs => replaceFrom pattern by_ skip cs
  | 0, c :: cs =>
    if !pattern.isEmpty && pattern.isPrefixOf (c :: cs) then
      by_ ++ replaceFrom pattern by_ (pattern.length - 1) cs
    else c :: replaceFrom pattern by_ 0 cs

/-- The text with every occurrence of `pattern` replaced. -/
def replaceAll (s pattern by_ : String) : String :=
  .ofList (replaceFrom pattern.toList by_.toList 0 s.toList)

/-- Whether `pattern` occurs in a text. -/
def occursIn (pattern : List Char) : List Char → Bool
  | [] => pattern.isEmpty
  | c :: cs => pattern.isPrefixOf (c :: cs) || occursIn pattern cs

end SqlBuilder.Text
