/-!
# Configuration documents

A configuration is a TOML document. Its values are strings and tables; an empty array may stand for
an empty table. Numbers, dates, booleans, filled arrays and arrays of tables have no place in a
configuration, so reading one of them fails like any other fault.

A table may be written under a header, with dotted keys or inline, and the reader keeps track of the
way: a header may complete a table that a longer header only mentioned, dotted keys may only extend
tables that have no header of their own, and an inline table is closed.
-/

namespace ObjectSystem.Config

/-! ### Documents -/

/-- How a table came about. -/
inductive TableForm where
  /-- Mentioned on the way to a header. -/
  | mentioned
  /-- Written with dotted keys. -/
  | dotted
  /-- Written under a header of its own. -/
  | headed
  /-- Written between braces. -/
  | inline
  deriving Repr, DecidableEq

/-- A value of a document. -/
inductive Node where
  | text (content : String)
  | emptyArray
  | table (form : TableForm) (entries : List (String × Node))
  deriving Repr

/-- The entries of a table, in order. -/
abbrev Entries := List (String × Node)

/-- Replaces the value of a key. -/
def replaceEntry (key : String) (node : Node) (entries : Entries) : Entries :=
  entries.map fun (k, old) => if k = key then (k, node) else (k, old)

/-- Adds a value under a dotted key. A key is never given twice, and only tables without a header
are extended. -/
def putValue (node : Node) : List String → Entries → Option Entries
  | [], _ => none
  | [key], entries =>
    match entries.lookup key with
    | some _ => none
    | none => some (entries ++ [(key, node)])
  | key :: path, entries =>
    match entries.lookup key with
    | none => (putValue node path []).map fun inner => entries ++ [(key, .table .dotted inner)]
    | some (.table .dotted inner) =>
      (putValue node path inner).map fun inner => replaceEntry key (.table .dotted inner) entries
    | some (.table .mentioned inner) =>
      (putValue node path inner).map fun inner => replaceEntry key (.table .mentioned inner) entries
    | some _ => none

/-- Opens the table of a header. A table has one header, and neither values nor inline tables nor
tables written with dotted keys can be given one. -/
def openTable : List String → Entries → Option Entries
  | [], _ => none
  | [key], entries =>
    match entries.lookup key with
    | none => some (entries ++ [(key, .table .headed [])])
    | some (.table .mentioned inner) => some (replaceEntry key (.table .headed inner) entries)
    | some _ => none
  | key :: path, entries =>
    match entries.lookup key with
    | none => (openTable path []).map fun inner => entries ++ [(key, .table .mentioned inner)]
    | some (.table .inline _) => none
    | some (.table form inner) =>
      (openTable path inner).map fun inner => replaceEntry key (.table form inner) entries
    | some _ => none

/-- Changes the entries of the table that a header opened. -/
def updateTable (change : Entries → Option Entries) : List String → Entries → Option Entries
  | [], entries => change entries
  | key :: path, entries =>
    match entries.lookup key with
    | some (.table form inner) =>
      (updateTable change path inner).map fun inner => replaceEntry key (.table form inner) entries
    | _ => none

/-! ### Reading -/

/-- Blanks and tabs are skipped between the parts of a line. -/
def skipBlanks (cs : List Char) : List Char :=
  cs.dropWhile fun c => c = ' ' ∨ c = '\t'

/-- Control characters other than the tab stand nowhere in a document. -/
def isControl (c : Char) : Bool :=
  (c.toNat < 0x20 && c != '\t') || c.toNat == 0x7F

/-- Skips a comment, if one starts here. -/
def skipComment (cs : List Char) : List Char :=
  match cs with
  | '#' :: rest => rest.dropWhile fun c => !isControl c
  | cs => cs

/-- Skips the end of a line. -/
def skipNewline? : List Char → Option (List Char)
  | '\n' :: rest => some rest
  | '\r' :: '\n' :: rest => some rest
  | _ => none

/-- Skips blanks, comments and line ends, as they may stand in an array. -/
def skipLines : Nat → List Char → List Char
  | 0, cs => cs
  | fuel + 1, cs =>
    let cs := skipComment (skipBlanks cs)
    match skipNewline? cs with
    | some rest => skipLines fuel rest
    | none => cs

/-- The value of hexadecimal digits. -/
def hexValue? (cs : List Char) : Option Nat :=
  cs.foldl (fun n? c => n?.bind fun n =>
    if c.isDigit then some (16 * n + (c.toNat - '0'.toNat))
    else if 'a' ≤ c ∧ c ≤ 'f' then some (16 * n + (c.toNat - 'a'.toNat + 10))
    else if 'A' ≤ c ∧ c ≤ 'F' then some (16 * n + (c.toNat - 'A'.toNat + 10))
    else none) (some 0)

/-- A character written by its code point in a fixed number of hexadecimal digits. -/
def readCodePoint (count : Nat) (cs : List Char) : Option (Char × List Char) :=
  if cs.length < count then none
  else (hexValue? (cs.take count)).bind fun n =>
    if n.isValidChar then some (Char.ofNat n, cs.drop count) else none

/-- A character written behind a backslash. -/
def readEscape : List Char → Option (Char × List Char)
  | 'b' :: rest => some ('\x08', rest)
  | 't' :: rest => some ('\t', rest)
  | 'n' :: rest => some ('\n', rest)
  | 'f' :: rest => some ('\x0c', rest)
  | 'r' :: rest => some ('\r', rest)
  | '"' :: rest => some ('"', rest)
  | '\\' :: rest => some ('\\', rest)
  | 'u' :: rest => readCodePoint 4 rest
  | 'U' :: rest => readCodePoint 8 rest
  | _ => none

/-- The rest of a string between quotation marks. -/
def readBasic : Nat → List Char → Option (List Char × List Char)
  | 0, _ => none
  | _ + 1, [] => none
  | _ + 1, '"' :: rest => some ([], rest)
  | fuel + 1, '\\' :: rest => do
    let (c, rest) ← readEscape rest
    let (cs, rest) ← readBasic fuel rest
    return (c :: cs, rest)
  | fuel + 1, c :: rest =>
    if isControl c then none
    else do
      let (cs, rest) ← readBasic fuel rest
      return (c :: cs, rest)

/-- The rest of a string between apostrophes, in which nothing is escaped. -/
def readLiteral : List Char → Option (List Char × List Char)
  | [] => none
  | '\'' :: rest => some ([], rest)
  | c :: rest =>
    if isControl c then none
    else do
      let (cs, rest) ← readLiteral rest
      return (c :: cs, rest)

/-- What three or more quotes in a row say inside a string of several lines: the string ends with
the last three of up to five. -/
def closingQuotes (quote : Char) (cs : List Char) : Option (List Char × List Char) :=
  let run := (cs.takeWhile (· = quote)).length
  if run < 3 ∨ run > 5 then none
  else some (List.replicate (run - 3) quote, cs.drop run)

/-- Skips the blanks, tabs and line ends that a backslash at the end of a line takes out of a
string. -/
def skipGap : List Char → List Char
  | ' ' :: rest => skipGap rest
  | '\t' :: rest => skipGap rest
  | '\n' :: rest => skipGap rest
  | '\r' :: '\n' :: rest => skipGap rest
  | cs => cs

/-- The rest of a string between triple quotation marks. -/
def readBasicLines : Nat → List Char → Option (List Char × List Char)
  | 0, _ => none
  | _ + 1, [] => none
  | _ + 1, '"' :: '"' :: '"' :: rest => closingQuotes '"' ('"' :: '"' :: '"' :: rest)
  | fuel + 1, '\\' :: rest =>
    match skipNewline? (skipBlanks rest) with
    | some next => readBasicLines fuel (skipGap next)
    | none => do
      let (c, rest) ← readEscape rest
      let (cs, rest) ← readBasicLines fuel rest
      return (c :: cs, rest)
  | fuel + 1, '\r' :: '\n' :: rest => do
    let (cs, rest) ← readBasicLines fuel rest
    return ('\n' :: cs, rest)
  | fuel + 1, c :: rest =>
    if isControl c ∧ c ≠ '\n' then none
    else do
      let (cs, rest) ← readBasicLines fuel rest
      return (c :: cs, rest)

/-- The rest of a string between triple apostrophes. -/
def readLiteralLines : Nat → List Char → Option (List Char × List Char)
  | 0, _ => none
  | _ + 1, [] => none
  | _ + 1, '\'' :: '\'' :: '\'' :: rest => closingQuotes '\'' ('\'' :: '\'' :: '\'' :: rest)
  | fuel + 1, '\r' :: '\n' :: rest => do
    let (cs, rest) ← readLiteralLines fuel rest
    return ('\n' :: cs, rest)
  | fuel + 1, c :: rest =>
    if isControl c ∧ c ≠ '\n' then none
    else do
      let (cs, rest) ← readLiteralLines fuel rest
      return (c :: cs, rest)

/-- A line end directly behind opening triple quotes does not belong to the string. -/
def dropFirstNewline (cs : List Char) : List Char :=
  (skipNewline? cs).getD cs

/-- A string in any of its four forms. -/
def readString (fuel : Nat) : List Char → Option (String × List Char)
  | '"' :: '"' :: '"' :: rest =>
    (readBasicLines fuel (dropFirstNewline rest)).map fun (cs, rest) => (String.ofList cs, rest)
  | '\'' :: '\'' :: '\'' :: rest =>
    (readLiteralLines fuel (dropFirstNewline rest)).map fun (cs, rest) => (String.ofList cs, rest)
  | '"' :: rest => (readBasic fuel rest).map fun (cs, rest) => (String.ofList cs, rest)
  | '\'' :: rest => (readLiteral rest).map fun (cs, rest) => (String.ofList cs, rest)
  | _ => none

/-- The characters of keys that need no quotes. -/
def isBareKey (c : Char) : Bool :=
  c.isAlphanum || c == '_' || c == '-'

/-- One part of a key: bare, or a string on one line. -/
def readKeyPart (fuel : Nat) (cs : List Char) : Option (String × List Char) :=
  match cs with
  | '"' :: rest => (readBasic fuel rest).map fun (cs, rest) => (String.ofList cs, rest)
  | '\'' :: rest => (readLiteral rest).map fun (cs, rest) => (String.ofList cs, rest)
  | cs =>
    let bare := cs.takeWhile isBareKey
    if bare = [] then none else some (String.ofList bare, cs.drop bare.length)

/-- A key: parts joined by dots, with blanks around them. -/
def readKey : Nat → List Char → Option (List String × List Char)
  | 0, _ => none
  | fuel + 1, cs => do
    let (part, rest) ← readKeyPart fuel (skipBlanks cs)
    match skipBlanks rest with
    | '.' :: rest => do
      let (path, rest) ← readKey fuel rest
      return (part :: path, rest)
    | rest => return ([part], rest)

mutual

/-- A value: a string, an empty array or an inline table. -/
def readNode : Nat → List Char → Option (Node × List Char)
  | 0, _ => none
  | fuel + 1, cs =>
    match skipBlanks cs with
    | '[' :: rest =>
      match skipLines fuel rest with
      | ']' :: rest => some (.emptyArray, rest)
      | _ => none
    | '{' :: rest =>
      match skipBlanks rest with
      | '}' :: rest => some (.table .inline [], rest)
      | rest => (readInline fuel [] rest).map fun (entries, rest) => (.table .inline entries, rest)
    | cs => (readString fuel cs).map fun (text, rest) => (.text text, rest)

/-- The entries of an inline table up to its closing brace; a comma is always followed by another
entry. -/
def readInline : Nat → Entries → List Char → Option (Entries × List Char)
  | 0, _, _ => none
  | fuel + 1, entries, cs => do
    let (path, rest) ← readKey fuel cs
    match rest with
    | '=' :: rest => do
      let (node, rest) ← readNode fuel rest
      let entries ← putValue node path entries
      match skipBlanks rest with
      | '}' :: rest => return (entries, rest)
      | ',' :: rest => readInline fuel entries rest
      | _ => none
    | _ => none

end

/-- Reads what one line says into a document; `table` is the path of the open table. -/
def readLine (fuel : Nat) (table : List String) (entries : Entries) (cs : List Char) :
    Option ((List String × Entries) × List Char) :=
  match skipBlanks cs with
  | [] => some ((table, entries), [])
  | '#' :: rest => some ((table, entries), '#' :: rest)
  | '\n' :: rest => some ((table, entries), '\n' :: rest)
  | '\r' :: rest => some ((table, entries), '\r' :: rest)
  | '[' :: rest => do
    let (path, rest) ← readKey fuel rest
    match rest with
    | ']' :: rest => do
      let entries ← openTable path entries
      return ((path, entries), rest)
    | _ => none
  | cs => do
    let (path, rest) ← readKey fuel cs
    match rest with
    | '=' :: rest => do
      let (node, rest) ← readNode fuel rest
      let entries ← updateTable (putValue node path) table entries
      return ((table, entries), rest)
    | _ => none

/-- Reads the lines of a document, one after the other. -/
def readLines : Nat → List String → Entries → List Char → Option Entries
  | 0, _, _, _ => none
  | fuel + 1, table, entries, cs => do
    let ((table, entries), rest) ← readLine fuel table entries cs
    match skipComment (skipBlanks rest) with
    | [] => return entries
    | rest => do
      let rest ← skipNewline? rest
      readLines fuel table entries rest

/-- Reads a document; a byte order mark in front of it is skipped. -/
def readDocument? (text : String) : Option Entries :=
  let cs := text.toList
  let cs := if cs.head? = some (Char.ofNat 0xFEFF) then cs.drop 1 else cs
  readLines (cs.length + 2) [] [] cs

end ObjectSystem.Config
