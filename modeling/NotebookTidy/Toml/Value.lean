import NotebookTidy.Text.Search

/-!
# Configuration values

The values of a configuration document, and how its tables grow line by line.  A table remembers
how it came about, because that decides what may still be added to it:

* a `[header]` opens a table once, and may later open a table that was only *implied* as the
  parent of another header;
* a dotted key `a.b = 1` adds to tables that dotted keys made, and to no others;
* an inline table is complete where it stands.
-/

namespace NotebookTidy

/-- How a table came about. -/
inductive TableOrigin where
  /-- It has a header of its own. -/
  | header
  /-- It is the parent of a table with a header. -/
  | implied
  /-- Dotted keys made it. -/
  | dotted
  /-- It is written between braces. -/
  | inline
deriving Repr, DecidableEq

/-- A value of a configuration document. -/
inductive Toml where
  | string (value : Text)
  | integer (value : Int)
  /-- A number with a point or an exponent, as it is written. -/
  | float (text : Text)
  | boolean (value : Bool)
  /-- A date, a time, or both, as it is written. -/
  | moment (text : Text)
  | array (items : List Toml)
  /-- The tables under one header in double brackets. -/
  | tables (items : List (List (Text × Toml)))
  | table (origin : TableOrigin) (members : List (Text × Toml))
deriving Repr

namespace Toml

/-- The members of a table, in the order of their first mention. -/
abbrev Table := List (Text × Toml)

namespace Table

/-- The value of a key. -/
def get? (key : Text) : Table → Option Toml
  | [] => none
  | (k, v) :: rest => if k = key then some v else get? key rest

/-- The table with the value of a key changed, or given if there is none, unless the change is
refused. -/
def alter? (key : Text) (change : Option Toml → Option Toml) : Table → Option Table
  | [] => (change none).map fun value => [(key, value)]
  | (k, v) :: rest =>
    if k = key then (change (some v)).map fun value => (k, value) :: rest
    else (alter? key change rest).map ((k, v) :: ·)

/-- A list with its last element changed, unless the change is refused or there is none. -/
def alterLast? {α : Type} (change : α → Option α) : List α → Option (List α)
  | [] => none
  | [last] => (change last).map ([·])
  | first :: next :: rest => (alterLast? change (next :: rest)).map (first :: ·)

/-- A change of the table at the path of a header.  Parents that are missing are implied, and an
array of tables stands for its last table. -/
def alterAt? (change : Table → Option Table) : List Text → Table → Option Table
  | [], current => change current
  | key :: path, current =>
    current.alter? key fun
      | none => (alterAt? change path []).map (.table .implied)
      | some (.table .inline _) => none
      | some (.table origin inner) => (alterAt? change path inner).map (.table origin)
      | some (.tables items) => (alterLast? (alterAt? change path) items).map .tables
      | some _ => none

/-- A table is opened by a header in single brackets. -/
def openTable? (parents : List Text) (key : Text) (root : Table) : Option Table :=
  alterAt? (fun current => current.alter? key fun
    | none => some (.table .header [])
    | some (.table .implied inner) => some (.table .header inner)
    | some _ => none) parents root

/-- One more table is opened by a header in double brackets. -/
def openNext? (parents : List Text) (key : Text) (root : Table) : Option Table :=
  alterAt? (fun current => current.alter? key fun
    | none => some (.tables [[]])
    | some (.tables items) => some (.tables (items ++ [[]]))
    | some _ => none) parents root

/-- A key gets its first value. -/
def give? (key : Text) (value : Toml) (current : Table) : Option Table :=
  current.alter? key fun
    | none => some value
    | some _ => none

/-- A key at the end of a dotted path gets its first value.  The path goes through tables that
have no header; the last of them must be one that dotted keys made. -/
def assign? (key : Text) (value : Toml) : List Text → Table → Option Table
  | [], current => current.give? key value
  | [last], current =>
    current.alter? last fun
      | none => (give? key value []).map (.table .dotted)
      | some (.table .dotted inner) => (give? key value inner).map (.table .dotted)
      | some _ => none
  | first :: next :: path, current =>
    current.alter? first fun
      | none => (assign? key value (next :: path) []).map (.table .dotted)
      | some (.table .dotted inner) => (assign? key value (next :: path) inner).map (.table .dotted)
      | some (.table .implied inner) =>
        (assign? key value (next :: path) inner).map (.table .implied)
      | some (.tables items) => (alterLast? (assign? key value (next :: path)) items).map .tables
      | some _ => none

/-- A dotted key of at least one part gets its first value. -/
def assignPath? (path : List Text) (value : Toml) (current : Table) : Option Table :=
  match path.getLast? with
  | none => none
  | some key => assign? key value path.dropLast current

end Table
end Toml
end NotebookTidy
