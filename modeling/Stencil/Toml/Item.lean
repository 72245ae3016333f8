import Stencil.Dict

/-!
# TOML items

The values and tables of a TOML document, and the rules by which keys and headers extend tables.
-/

namespace Stencil.Toml

/-- How a table came to be: by a header, on the way to a header, by a dotted key, or in braces. -/
inductive TableKind where
  | headed
  | implied
  | dotted
  | closed
  deriving DecidableEq, Inhabited

/-- A value or table. Real numbers and dates are valid but not told apart. -/
inductive Item where
  | text (s : String)
  | integer (i : Int64)
  | bool (b : Bool)
  | other
  | array (items : List Item)
  | table (kind : TableKind) (entries : List (String × Item))
  /-- The tables of headers in double brackets. -/
  | tables (items : List (List (String × Item)))
  deriving Inhabited

abbrev Entries := Dict Item

/-- Changes the table that a path leads to, making those that are missing of the given kind. The
last of several tables is the one that is open. The change is told the kind of the table. -/
def change (made : TableKind) (mayEnter : TableKind → Bool)
    (f : TableKind → Entries → Option Entries) : List String → TableKind → Entries → Option Entries
  | [], kind, entries => f kind entries
  | key :: path, _, entries =>
    match entries.get? key with
    | none => (change made mayEnter f path made []).map fun es => entries ++ [(key, .table made es)]
    | some (.table kind es) =>
      if mayEnter kind then
        (change made mayEnter f path kind es).map fun es => Dict.set key (.table kind es) entries
      else none
    | some (.tables items) =>
      match items.reverse with
      | [] => none
      | last :: before =>
        (change made mayEnter f path .headed last).map fun es =>
          Dict.set key (.tables (es :: before).reverse) entries
    | some _ => none

/-- Sets a key, given with the dotted keys before it. No key is set twice, and dotted keys extend
only tables made by dotted keys. -/
def setKey (path : List String) (key : String) (item : Item) (entries : Entries) :
    Option Entries :=
  change .dotted (fun kind => kind != .headed && kind != .closed)
    (fun kind es =>
      if !path.isEmpty && kind != .dotted then none
      else if (es.get? key).isSome then none
      else some (es ++ [(key, item)]))
    path .headed entries

/-- Opens the table of a header, which may have been implied but not made before. -/
def openTable (path : List String) (key : String) (entries : Entries) : Option Entries :=
  change .implied (· != .closed)
    (fun _ es =>
      match es.get? key with
      | none => some (es ++ [(key, .table .headed [])])
      | some (.table .implied old) => some (Dict.set key (.table .headed old) es)
      | some _ => none)
    path .headed entries

def openNext (path : List String) (key : String) (entries : Entries) : Option Entries :=
  change .implied (· != .closed)
    (fun _ es =>
      match es.get? key with
      | none => some (es ++ [(key, .tables [[]])])
      | some (.tables items) => some (Dict.set key (.tables (items ++ [[]])) es)
      | some _ => none)
    path .headed entries

def setIn (header : List String) (path : List String) (key : String) (item : Item)
    (entries : Entries) : Option Entries :=
  change .implied (· != .closed) (fun _ es => setKey path key item es) header .headed entries

end Stencil.Toml
