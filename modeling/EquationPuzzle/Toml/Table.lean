import EquationPuzzle.Datum

/-!
# TOML tables

How the lines of a TOML document make up one table.  A table may be opened by a header, be implied
by the header of a table inside it, or arise from a key with dots.  A key is given once; a table is
opened once; and a table that arose from a key with dots takes further keys with dots only from the
table around it.
-/

namespace EquationPuzzle.Toml

inductive Origin where
  | header
  | implied
  | dotted
  deriving DecidableEq, Repr

inductive Node where
  | value (datum : Datum)
  | table (origin : Origin) (entries : List (String × Node))
  /-- The tables of a list, the last one first. -/
  | tables (elements : List (List (String × Node)))

abbrev Entries := List (String × Node)

namespace Entries

def find? (entries : Entries) (key : String) : Option Node :=
  entries.lookup key

/-- The entries with one key set anew. -/
def put (entries : Entries) (key : String) (node : Node) : Entries :=
  if (entries.lookup key).isSome then
    entries.map fun (other, known) => if other = key then (other, node) else (other, known)
  else entries ++ [(key, node)]

/-- Gives a value to a key, the parts of which are separated by dots. -/
def assign? (datum : Datum) : List String → Entries → Option Entries
  | [], _ => none
  | [key], entries =>
    if (entries.find? key).isSome then none else some (entries.put key (.value datum))
  | key :: path, entries =>
    match entries.find? key with
    | none => do return entries.put key (.table .dotted (← assign? datum path []))
    | some (.table .dotted inner) => do
      return entries.put key (.table .dotted (← assign? datum path inner))
    | some _ => none

/-- Changes the table at a path of headers; tables on the way are implied if they are missing, and
of a list of tables the last one is meant. -/
def within? (change : Entries → Option Entries) : List String → Entries → Option Entries
  | [], entries => change entries
  | key :: path, entries =>
    match entries.find? key with
    | none => do return entries.put key (.table .implied (← within? change path []))
    | some (.table origin inner) => do
      return entries.put key (.table origin (← within? change path inner))
    | some (.tables (last :: earlier)) => do
      return entries.put key (.tables ((← within? change path last) :: earlier))
    | some _ => none

/-- Opens a table that a header names. -/
def openTable? (key : String) (entries : Entries) : Option Entries :=
  match entries.find? key with
  | none => some (entries.put key (.table .header []))
  | some (.table .implied inner) => some (entries.put key (.table .header inner))
  | some _ => none

/-- Opens the next table of a list that a header names. -/
def openElement? (key : String) (entries : Entries) : Option Entries :=
  match entries.find? key with
  | none => some (entries.put key (.tables [[]]))
  | some (.tables elements) => some (entries.put key (.tables ([] :: elements)))
  | some _ => none

end Entries

mutual

def Node.datum : Node → Datum
  | .value datum => datum
  | .table _ entries => .map (Node.dataOfEntries entries)
  | .tables elements => .list (Node.dataOfElements elements).reverse

def Node.dataOfEntries : List (String × Node) → List (Datum × Datum)
  | [] => []
  | (key, node) :: rest => (.text key, node.datum) :: Node.dataOfEntries rest

def Node.dataOfElements : List (List (String × Node)) → List Datum
  | [] => []
  | entries :: rest => .map (Node.dataOfEntries entries) :: Node.dataOfElements rest

end

/-- A line of a document. -/
inductive Statement where
  | assign (path : List String) (datum : Datum)
  | header (path : List String)
  | elementHeader (path : List String)

/-- The document so far, and the path of the table that is open. -/
structure Document where
  entries : Entries
  path : List String

namespace Document

def empty : Document := ⟨[], []⟩

def add? (document : Document) : Statement → Option Document
  | .assign path datum => do
    let entries ← Entries.within? (Entries.assign? datum path) document.path document.entries
    return { document with entries }
  | .header path => openAt Entries.openTable? path
  | .elementHeader path => openAt Entries.openElement? path
where
  openAt (opening : String → Entries → Option Entries) (path : List String) : Option Document :=
    match path.getLast? with
    | none => none
    | some key => do
      return ⟨← Entries.within? (opening key) path.dropLast document.entries, path⟩

def ofStatements? (statements : List Statement) : Option Document :=
  statements.foldlM add? empty

/-- A record at the top of the document, with the given key for its version. -/
def tagged? (versionKey : String) (document : Document) : Option Datum.Tagged :=
  match document.entries.find? versionKey with
  | some (.value (.text version)) =>
    let others := document.entries.filter fun (key, _) => key ≠ versionKey
    some ⟨version, .map (Node.dataOfEntries others)⟩
  | _ => none

end Document

end EquationPuzzle.Toml
