import SqlBuilder.Json.Parser

/-!
# Members that matter

A reader that wants some members of an object looks at the others only to find where they end: their
form has to be that of JSON, but they may be nested to any depth, their numbers need not fit, and
their escapes need not spell characters.
-/

namespace SqlBuilder.Json

/-! ## Skipping -/

/-- Skips the characters of a string and its closing quote. -/
def skipString? : List Char → Option (List Char)
  | [] => none
  | '"' :: rest => some rest
  | '\\' :: 'u' :: a :: b :: c :: d :: rest =>
    if (fourDigits? a b c d).isSome then skipString? rest else none
  | '\\' :: c :: rest => if (shortEscape? c).isSome then skipString? rest else none
  | c :: rest => if c.toNat < 0x20 || c = '\\' then none else skipString? rest

/-- Skips a number whose sign has been taken. -/
def skipNumber? (cs : List Char) : Option (List Char) :=
  (takeNumber? cs).map Prod.snd

mutual

/-- Skips a value. -/
def skipValue? (fuel : Nat) (cs : List Char) : Option (List Char) :=
  match fuel with
  | 0 => none
  | fuel + 1 =>
    match skipBlanks cs with
    | 'n' :: 'u' :: 'l' :: 'l' :: rest => some rest
    | 't' :: 'r' :: 'u' :: 'e' :: rest => some rest
    | 'f' :: 'a' :: 'l' :: 's' :: 'e' :: rest => some rest
    | '"' :: rest => skipString? rest
    | '[' :: rest =>
      match skipBlanks rest with
      | ']' :: rest => some rest
      | rest => skipItems? fuel rest
    | '\x7b' :: rest =>
      match skipBlanks rest with
      | '\x7d' :: rest => some rest
      | rest => skipMembers? fuel rest
    | '-' :: rest => skipNumber? rest
    | rest => skipNumber? rest

/-- Skips the items of an array and its bracket. -/
def skipItems? (fuel : Nat) (cs : List Char) : Option (List Char) :=
  match fuel with
  | 0 => none
  | fuel + 1 => do
    match skipBlanks (← skipValue? fuel cs) with
    | ',' :: rest => skipItems? fuel rest
    | ']' :: rest => some rest
    | _ => none

/-- Skips the members of an object and its brace. -/
def skipMembers? (fuel : Nat) (cs : List Char) : Option (List Char) :=
  match fuel with
  | 0 => none
  | fuel + 1 =>
    match skipBlanks cs with
    | '"' :: rest => do
      match skipBlanks (← skipString? rest) with
      | ':' :: rest =>
        match skipBlanks (← skipValue? fuel rest) with
        | ',' :: rest => skipMembers? fuel rest
        | '\x7d' :: rest => some rest
        | _ => none
      | _ => none
    | _ => none

end

/-! ## Wanted members -/

/-- Reads the value of a member, if it is wanted, and skips it otherwise. -/
def readIf? (wanted : Bool) (fuel : Nat) (cs : List Char) : Option (Option Json × List Char) :=
  if wanted then (readValue? fuel (maxDepth - 1) cs).map fun (j, rest) => (some j, rest)
  else (skipValue? fuel cs).map (none, ·)

/-- Reads the members of an object up to its brace and keeps the wanted ones, repeated keys
included. -/
def readWanted? (wanted : String → Bool) (fuel : Nat) (cs : List Char) :
    Option (List (String × Json) × List Char) :=
  match fuel with
  | 0 => none
  | fuel + 1 =>
    match skipBlanks cs with
    | '"' :: rest => do
      let (key, rest) ← readString? rest
      let key := String.ofList key
      match skipBlanks rest with
      | ':' :: rest =>
        let (j, rest) ← readIf? (wanted key) fuel rest
        let member := (j.map (key, ·)).toList
        match skipBlanks rest with
        | ',' :: rest =>
          (readWanted? wanted fuel rest).map fun (ms, rest) => (member ++ ms, rest)
        | '\x7d' :: rest => some (member, rest)
        | _ => none
      | _ => none
    | _ => none

/-- The wanted members of the object that a text spells, repeated keys included. -/
def membersOfText? (wanted : String → Bool) (s : String) : Option (List (String × Json)) :=
  match skipBlanks s.toList with
  | '\x7b' :: rest =>
    match skipBlanks rest with
    | '\x7d' :: rest => complete? (some ([], rest))
    | rest => complete? (readWanted? wanted (fuelFor s.toList) rest)
  | _ => none

end SqlBuilder.Json
