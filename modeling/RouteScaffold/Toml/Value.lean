/-! TOML documents as values.

Of numbers and moments only that they are well formed is kept: no setting is one.
A table remembers how it came to be, because that decides whether a later line
may add to it. -/
namespace RouteScaffold.Toml

/-- How a table came to be. -/
inductive Origin where
  /-- Between braces; it is complete. -/
  | inline
  /-- By a header of its own. -/
  | header
  /-- On the way of a longer header. -/
  | implied
  /-- On the way of a dotted key. -/
  | dotted
  deriving DecidableEq, Repr

inductive Value where
  | text (s : String)
  | boolean (b : Bool)
  | number
  | moment
  | array (items : List Value)
  | table (origin : Origin) (entries : List (String × Value))
  /-- The tables of a repeated `[[header]]`, the last one first. -/
  | tables (last : List (String × Value)) (earlier : List (List (String × Value)))
  deriving Repr

abbrev Table := List (String × Value)

namespace Table

/-- Puts a value in the place of the one under a key. -/
def replace (key : String) (value : Value) : Table → Table
  | [] => []
  | (k, v) :: rest => if k == key then (k, value) :: rest else (k, v) :: replace key value rest

/-- Changes the table at a path of keys, making the tables on the way that are missing. Dotted
keys may not enter a table that has a header; nothing may enter an inline table. -/
def update (dotted : Bool) (act : Origin → Table → Option Table) (path : List String)
    (origin : Origin) (entries : Table) : Option Table :=
  match path with
  | [] => act origin entries
  | key :: path =>
    match entries.lookup key with
    | none => do
      let fresh := if dotted then Origin.dotted else .implied
      return entries ++ [(key, .table fresh (← update dotted act path fresh []))]
    | some (.table inner items) =>
      if inner == .inline || (dotted && inner == .header) then none
      else do
        return replace key (.table inner (← update dotted act path inner items)) entries
    | some (.tables last earlier) => do
      return replace key (.tables (← update dotted act path .header last) earlier) entries
    | some _ => none

/-- Adds a new key. -/
def insertNew (key : String) (value : Value) (entries : Table) : Option Table :=
  if (entries.lookup key).isSome then none else some (entries ++ [(key, value)])

/-- Gives a value to a key, dotted or not, in a table of the given origin. -/
def assign (path : List String) (key : String) (value : Value) (origin : Origin)
    (entries : Table) : Option Table :=
  update true
    (fun inner entries =>
      if (inner == .dotted) == path.isEmpty then none else insertNew key value entries)
    path origin entries

/-- Starts the table of a header: a new one, or one that was only implied so far. -/
def openTable (key : String) (entries : Table) : Option Table :=
  match entries.lookup key with
  | none => some (entries ++ [(key, .table .header [])])
  | some (.table .implied items) => some (replace key (.table .header items) entries)
  | some _ => none

/-- Starts one more table of a repeated header. -/
def openItem (key : String) (entries : Table) : Option Table :=
  match entries.lookup key with
  | none => some (entries ++ [(key, .tables [] [])])
  | some (.tables last earlier) => some (replace key (.tables [] (last :: earlier)) entries)
  | some _ => none

end Table
end RouteScaffold.Toml
