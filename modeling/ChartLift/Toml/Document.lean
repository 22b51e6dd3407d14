import ChartLift.Toml.Term

/-!
# Documents of TOML

Entries and headers, line by line. A header says which table the entries behind it belong to.
-/

namespace ChartLift.Toml

/-- What has been read of a document: its tables, and the header in force. -/
structure Reading where
  entries : Items
  header : List String

namespace Reading

/-- Changes the table that a header names, inside the table of all parts but the last. -/
def changeLast (r : Reading) (path : List String) (change : String → Items → Option Items) :
    Option Reading :=
  match path.getLast? with
  | none => none
  | some last =>
    (changeAt .implied false (fun _ entries => change last entries) path.dropLast .header
      r.entries).map fun entries => ⟨entries, path⟩

/-- Opens a table. One that only the headers of tables inside it have implied may still get its own.
-/
def openTable (r : Reading) (path : List String) : Option Reading :=
  r.changeLast path fun last entries =>
    match entries.lookup last with
    | none => some (entries.put last (.table .header []))
    | some (.table .implied inner) => some (entries.put last (.table .header inner))
    | some _ => none

/-- Opens one more table of an array of tables. -/
def openItem (r : Reading) (path : List String) : Option Reading :=
  r.changeLast path fun last entries =>
    match entries.lookup last with
    | none => some (entries.put last (.tables [[]]))
    | some (.tables all) => some (entries.put last (.tables (all ++ [[]])))
    | some _ => none

/-- Adds an entry to the table of the header in force. -/
def add (r : Reading) (name : List String) (term : Term) : Option Reading :=
  (changeAt .implied false (fun _ entries => addEntry name term entries) r.header .header
    r.entries).map fun entries => { r with entries := entries }

/-- What follows the end of a line, where nothing but a comment may come before it. -/
def afterLine? (text : List Char) : Option (List Char) :=
  (afterComment? (skipBlanks text)).bind fun rest =>
    if rest.isEmpty then some [] else afterLineEnd? rest

/-- Reads one line. -/
def line (r : Reading) (text : List Char) : Option (Reading × List Char) :=
  match text with
  | '#' :: _ => (afterLine? text).map fun rest => (r, rest)
  | '[' :: '[' :: rest =>
    match key rest with
    | some (path, ']' :: ']' :: rest) =>
      match r.openItem path, afterLine? rest with
      | some r, some rest => some (r, rest)
      | _, _ => none
    | _ => none
  | '[' :: rest =>
    match key rest with
    | some (path, ']' :: rest) =>
      match r.openTable path, afterLine? rest with
      | some r, some rest => some (r, rest)
      | _, _ => none
    | _ => none
  | text =>
    match afterLineEnd? text with
    | some rest => some (r, rest)
    | none =>
      match key text with
      | some (name, '=' :: rest) =>
        match value maximalDepth (skipBlanks rest) with
        | none => none
        | some (term, rest) =>
          match r.add name term, afterLine? rest with
          | some r, some rest => some (r, rest)
          | _, _ => none
      | _ => none

/-- Reads at most `fuel` lines. -/
def lines : Nat → Reading → List Char → Option Reading
  | 0, _, _ => none
  | fuel + 1, r, text =>
    match skipBlanks text with
    | [] => some r
    | text =>
      match r.line text with
      | none => none
      | some (r, rest) => lines fuel r rest

end Reading

/-- The entries of a document. A byte order mark may come before them. -/
def document? (text : List Char) : Option (List (String × Term)) :=
  let text := match text with
    | '\ufeff' :: rest => rest
    | _ => text
  (Reading.lines (text.length + 1) ⟨[], []⟩ text).map fun r => terms r.entries

end ChartLift.Toml
