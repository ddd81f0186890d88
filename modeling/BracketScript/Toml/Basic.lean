/-!
# TOML values and tables

A document is built from its lines in order.  While it is built, a table
remembers how it came about, because that decides what may still be added to
it: a table that was only mentioned on the way to another one can be given a
header of its own later, and a table made by a dotted key can only be extended
by dotted keys.
-/

namespace BracketScript
namespace Toml

/-- A finished value.  Times are told apart from other values, but not from
each other. -/
inductive Value where
  | string (s : String)
  | integer (n : Int)
  | float (x : Float)
  | boolean (b : Bool)
  | datetime
  | array (items : List Value)
  | table (entries : List (String × Value))

mutual

/-- An entry of a table that is being built. -/
inductive Item where
  | value (v : Value)
  | table (t : Table)
  /-- Tables that share one name, in order. -/
  | tables (ts : List Table)

/-- A table that is being built, with its entries in order. -/
structure Table where
  /-- Whether the table was only mentioned on the way to another one. -/
  implicit : Bool
  /-- Whether a dotted key made the table. -/
  dotted : Bool
  entries : List (String × Item)

end

namespace Table

/-- A table with a header of its own. -/
def explicit : Table :=
  ⟨false, false, []⟩

/-- The entry of the given name. -/
def find? (t : Table) (key : String) : Option Item :=
  t.entries.lookup key

/-- Adds an entry at the end. -/
def append (t : Table) (key : String) (item : Item) : Table :=
  { t with entries := t.entries ++ [(key, item)] }

/-- Exchanges an entry where it stands. -/
def replace (t : Table) (key : String) (item : Item) : Table :=
  { t with entries := t.entries.map fun (k, old) => if k = key then (k, item) else (k, old) }

/-- Takes an entry out. -/
def erase (t : Table) (key : String) : Table :=
  { t with entries := t.entries.filter fun (k, _) => k ≠ key }

/-- Changes the last of several tables. -/
def changeLast (f : Table → Option Table) (ts : List Table) : Option (List Table) :=
  match ts.reverse with
  | [] => none
  | last :: rest => (f last).map fun last => (last :: rest).reverse

/-- Adds a value under a key path.  A name may be used once, and tables on the
way must have been made for this. -/
def insert (v : Value) : List String → Table → Option Table
  | [], _ => none
  | [key], t =>
    match t.find? key with
    | some _ => none
    | none => some (t.append key (.value v))
  | key :: rest, t =>
    let further := 1 < rest.length
    match t.find? key with
    | none => (insert v rest ⟨true, true, []⟩).map fun sub => t.append key (.table sub)
    | some (.value _) => none
    | some (.table sub) =>
      if sub.implicit && (sub.dotted || further) then
        (insert v rest sub).map fun sub => t.replace key (.table sub)
      else none
    | some (.tables ts) =>
      if further then
        (changeLast (insert v rest) ts).map fun ts => t.replace key (.tables ts)
      else none

/-- Opens the table of a header.  A table mentioned before moves to the end of
the table that holds it. -/
def openTable : List String → Table → Option Table
  | [], _ => none
  | [key], t =>
    match t.find? key with
    | none => some (t.append key (.table explicit))
    | some (.table sub) =>
      if sub.implicit && !sub.dotted then
        some ((t.erase key).append key (.table { sub with implicit := false }))
      else none
    | some _ => none
  | key :: rest, t =>
    match t.find? key with
    | none => (openTable rest ⟨true, false, []⟩).map fun sub => t.append key (.table sub)
    | some (.value _) => none
    | some (.table sub) => (openTable rest sub).map fun sub => t.replace key (.table sub)
    | some (.tables ts) =>
      (changeLast (openTable rest) ts).map fun ts => t.replace key (.tables ts)

/-- Opens one more table under the name of a doubled header. -/
def openNext : List String → Table → Option Table
  | [], _ => none
  | [key], t =>
    match t.find? key with
    | none => some (t.append key (.tables [explicit]))
    | some (.tables ts) => some (t.replace key (.tables (ts ++ [explicit])))
    | some _ => none
  | key :: rest, t =>
    match t.find? key with
    | none => (openNext rest ⟨true, false, []⟩).map fun sub => t.append key (.table sub)
    | some (.value _) => none
    | some (.table sub) => (openNext rest sub).map fun sub => t.replace key (.table sub)
    | some (.tables ts) =>
      (changeLast (openNext rest) ts).map fun ts => t.replace key (.tables ts)

/-- Changes the table that a header opened. -/
def within (f : Table → Option Table) : List String → Table → Option Table
  | [], t => f t
  | key :: rest, t =>
    match t.find? key with
    | some (.table sub) => (within f rest sub).map fun sub => t.replace key (.table sub)
    | some (.tables ts) =>
      (changeLast (within f rest) ts).map fun ts => t.replace key (.tables ts)
    | _ => none

end Table

mutual

/-- The value of an entry. -/
def Item.toValue : Item → Value
  | .value v => v
  | .table t => t.toValue
  | .tables ts => .array (tableValues ts)

/-- The value of a table. -/
def Table.toValue : Table → Value
  | ⟨_, _, entries⟩ => .table (entryValues entries)

/-- The values of tables. -/
def tableValues : List Table → List Value
  | [] => []
  | t :: ts => t.toValue :: tableValues ts

/-- The values of entries with their names. -/
def entryValues : List (String × Item) → List (String × Value)
  | [] => []
  | (key, item) :: rest => (key, item.toValue) :: entryValues rest

end

/-- A line of a document that says something. -/
inductive Line where
  | pair (path : List String) (value : Value)
  | header (path : List String)
  | doubleHeader (path : List String)

/-- A document after some of its lines: what has been built, and the path of
the last header. -/
structure Draft where
  root : Table
  header : List String

/-- The effect of a line. -/
def Draft.add (draft : Draft) : Line → Option Draft
  | .pair path value =>
    (Table.within (Table.insert value path) draft.header draft.root).map fun root =>
      { draft with root := root }
  | .header path => (Table.openTable path draft.root).map fun root => ⟨root, path⟩
  | .doubleHeader path => (Table.openNext path draft.root).map fun root => ⟨root, path⟩

/-- The table that lines describe. -/
def Table.ofLines (lines : List Line) : Option Table :=
  (lines.foldlM Draft.add (⟨Table.explicit, []⟩ : Draft)).map Draft.root

end Toml
end BracketScript
