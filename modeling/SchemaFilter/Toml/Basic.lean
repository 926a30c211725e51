/-!
# TOML documents

The content of a TOML document, and the rules by which its statements fill tables: a key may be set
once, a header may open a table once, and dotted keys may add to tables that dotted keys made but
not to tables that a header opened.

Main definitions:

* `Item`: what a key can stand for; strings are kept, other scalars are only known to be there;
* `Table.set?`: one `key = value` statement in a table;
* `Table.openAt?`, `Table.appendAt?`: the sections `[path]` and `[[path]]` of a document.
-/

namespace SchemaFilter.Toml

/-- How a table came to be. -/
inductive Origin where
  /-- As the parent of a table whose header was read. -/
  | implied
  /-- By a dotted key. -/
  | dotted
  /-- By its own header. -/
  | header
  /-- Between braces; nothing can be added to it. -/
  | inline
  deriving DecidableEq, Repr

/-- Whether dotted keys may pass through a table, and so whether no header has opened it. -/
def Origin.isImplied : Origin → Bool
  | implied | dotted => true
  | header | inline => false

/-- What a key stands for. -/
inductive Item where
  | string (value : String)
  /-- A number, a truth value, a date or a time. -/
  | scalar
  | array (elements : List Item)
  | table (origin : Origin) (entries : List (String × Item))
  /-- Tables that stand under headers in double brackets. -/
  | tables (elements : List (List (String × Item)))
  deriving Inhabited

/-- Keys with their items, in order. -/
abbrev Table := List (String × Item)

namespace Table

/-- The table with an item under a key, in the place of what was there or at the end. -/
def put (key : String) (item : Item) : Table → Table
  | [] => [(key, item)]
  | (k, i) :: entries => if k = key then (k, item) :: entries else (k, i) :: put key item entries

/-- Sets a key that is not yet set. -/
def add? (key : String) (item : Item) (t : Table) : Option Table :=
  if (t.lookup key).isSome then none else some (t.put key item)

/-- Changes the table that a path of headers leads to. Tables that are missing on the way are
    implied; an array of tables leads to its last one. -/
def atHeader? (change : Table → Option Table) : (path : List String) → Table → Option Table
  | [], t => change t
  | key :: path, t =>
    match t.lookup key with
    | none => (atHeader? change path []).map fun inner => t.put key (.table .implied inner)
    | some (.table origin inner) =>
      if origin = .inline then none
      else (atHeader? change path inner).map fun inner => t.put key (.table origin inner)
    | some (.tables elements) =>
      match elements.getLast? with
      | none => none
      | some last =>
        (atHeader? change path last).map fun last =>
          t.put key (.tables (elements.dropLast ++ [last]))
    | some _ => none

/-- Sets a key in the table that the dotted part before it leads to. That table has to be one that
    dotted keys made, and the tables on the way must not have been opened by a header. -/
def set? : (path : List String) → (key : String) → Item → Table → Option Table
  | [], key, item, t => t.add? key item
  | step :: path, key, item, t =>
    match t.lookup step with
    | none => (set? path key item []).map fun inner => t.put step (.table .dotted inner)
    | some (.table origin inner) =>
      if !origin.isImplied || (path.isEmpty && origin ≠ .dotted) then none
      else (set? path key item inner).map fun inner => t.put step (.table origin inner)
    | some (.tables elements) =>
      match elements.getLast? with
      | none => none
      | some last =>
        if path.isEmpty then none
        else
          (set? path key item last).map fun last =>
            t.put step (.tables (elements.dropLast ++ [last]))
    | some _ => none

end Table

/-- A statement: the key, split at its dots, and the item. -/
abbrev Statement := List String × Item

/-- Carries out statements in a table, one after the other. -/
def Table.setAll? (statements : List Statement) (t : Table) : Option Table :=
  statements.foldlM (fun t (path, item) =>
    match path.getLast? with
    | some key => t.set? path.dropLast key item
    | none => none) t

/-- A section of a document: its header and its statements. -/
inductive Section where
  | table (path : List String) (statements : List Statement)
  | element (path : List String) (statements : List Statement)

namespace Table

/-- Opens the table `key` and carries out the statements in it; it may be there already, if only
    headers of tables inside it were read. -/
def openAt? (key : String) (statements : List Statement) (t : Table) : Option Table :=
  match t.lookup key with
  | none => (setAll? statements []).map fun inner => t.put key (.table .header inner)
  | some (.table .implied inner) =>
    (setAll? statements inner).map fun inner => t.put key (.table .header inner)
  | some _ => none

/-- Appends a table to the array of tables `key` and carries out the statements in it. -/
def appendAt? (key : String) (statements : List Statement) (t : Table) : Option Table :=
  match t.lookup key with
  | none => (setAll? statements []).map fun inner => t.put key (.tables [inner])
  | some (.tables elements) =>
    (setAll? statements []).map fun inner => t.put key (.tables (elements ++ [inner]))
  | some _ => none

/-- Carries out a section. -/
def section? (t : Table) : Section → Option Table
  | .table path statements =>
    match path.getLast? with
    | some key => t.atHeader? (openAt? key statements) path.dropLast
    | none => none
  | .element path statements =>
    match path.getLast? with
    | some key => t.atHeader? (appendAt? key statements) path.dropLast
    | none => none

/-- The content of a document: statements before the first header, and sections. -/
def ofSections? (statements : List Statement) (sections : List Section) : Option Table := do
  sections.foldlM section? (← setAll? statements [])

end Table

/-- The item of statements between braces. -/
def Item.inline? (statements : List Statement) : Option Item :=
  (Table.setAll? statements []).map (.table .inline)

end SchemaFilter.Toml
