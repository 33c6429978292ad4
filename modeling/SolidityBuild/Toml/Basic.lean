/-! # TOML values and tables under construction

    A document is a list of assignments and headers. Applying them one after the other to an
    open table decides which of them clash: a key is assigned once, a table is headed once,
    and dotted keys extend only what dotted keys or deeper headers began.
-/

namespace SolidityBuild

namespace Toml

/-- A finished value. Floats and dates are kept as they are spelled. -/
inductive Value where
  | string (s : String)
  | integer (n : Int)
  | float (spelling : String)
  | boolean (b : Bool)
  | datetime (spelling : String)
  | array (items : List Value)
  | table (entries : List (String × Value))
deriving Inhabited

/-- A finished table. -/
abbrev Table := List (String × Value)

/-- The value of a key. -/
def Table.get? (t : Table) (key : String) : Option Value :=
  (t.find? fun (k, _) => k = key).map Prod.snd

/-- How an open table came to be. -/
inductive Origin where
  /-- it has a header of its own -/
  | headed
  /-- a deeper header implies it -/
  | implied
  /-- a dotted key implies it -/
  | dotted
deriving DecidableEq, Inhabited

/-- What a key holds while a table is built. -/
inductive Node where
  /-- an assigned value, which nothing extends -/
  | value (v : Value)
  | table (origin : Origin) (entries : List (String × Node))
  /-- an array of headed tables, the last one first -/
  | tables (last : List (String × Node)) (before : List (List (String × Node)))
deriving Inhabited

/-- An open table. -/
abbrev Entries := List (String × Node)

namespace Entries

/-- What a key holds. -/
def get? (t : Entries) (key : String) : Option Node :=
  (t.find? fun (k, _) => k = key).map Prod.snd

/-- The table with a key's content replaced, or added at the end. -/
def set (key : String) (node : Node) : Entries → Entries
  | [] => [(key, node)]
  | (k, n) :: rest => if k = key then (key, node) :: rest else (k, n) :: set key node rest

/-- Assigns a value to a dotted key. The table that holds the last key of a longer one must
    be a dotted one. -/
def assign (t : Entries) (first : String) : List String → Value → Option Entries
  | [], v => if (t.get? first).isSome then none else some (t.set first (.value v))
  | second :: rest, v =>
    let final := rest.isEmpty
    match t.get? first with
    | none => do
      let inner ← assign [] second rest v
      pure (t.set first (.table .dotted inner))
    | some (.table .headed _) => none
    | some (.table .implied entries) =>
      if final then none else do
        let inner ← assign entries second rest v
        pure (t.set first (.table .implied inner))
    | some (.table .dotted entries) => do
      let inner ← assign entries second rest v
      pure (t.set first (.table .dotted inner))
    | some (.tables last before) =>
      if final then none else do
        let inner ← assign last second rest v
        pure (t.set first (.tables inner before))
    | some (.value _) => none

/-- Changes the table that a header's keys lead to, where missing tables are implied and an
    array of tables stands for its last one. -/
def descend (change : Entries → Option Entries) (t : Entries) :
    List String → Option Entries
  | [] => change t
  | key :: rest =>
    match t.get? key with
    | none => do
      let inner ← descend change [] rest
      pure (t.set key (.table .implied inner))
    | some (.table origin entries) => do
      let inner ← descend change entries rest
      pure (t.set key (.table origin inner))
    | some (.tables last before) => do
      let inner ← descend change last rest
      pure (t.set key (.tables inner before))
    | some (.value _) => none

/-- Heads a table under its last key. -/
def head (key : String) (t : Entries) : Option Entries :=
  match t.get? key with
  | none => some (t.set key (.table .headed []))
  | some (.table .implied entries) => some (t.set key (.table .headed entries))
  | some _ => none

/-- Heads one more table of an array under its last key. -/
def headElement (key : String) (t : Entries) : Option Entries :=
  match t.get? key with
  | none => some (t.set key (.tables [] []))
  | some (.tables last before) => some (t.set key (.tables [] (last :: before)))
  | some _ => none

end Entries

mutual

/-- The finished value of a node. -/
def Node.finish : Node → Value
  | .value v => v
  | .table _ entries => .table (finishEntries entries)
  | .tables last before =>
    .array ((finishTables before).reverse ++ [.table (finishEntries last)])

/-- The finished entries of a table. -/
def finishEntries : List (String × Node) → List (String × Value)
  | [] => []
  | (key, node) :: rest => (key, node.finish) :: finishEntries rest

/-- The finished tables of an array. -/
def finishTables : List (List (String × Node)) → List Value
  | [] => []
  | entries :: rest => .table (finishEntries entries) :: finishTables rest

end

/-- The table that a list of assignments builds. -/
def tableOfPairs? (pairs : List (List String × Value)) : Option Table :=
  (pairs.foldlM (fun (t : Entries) (path, v) =>
    match path with
    | [] => none
    | first :: rest => t.assign first rest v) []).map finishEntries

/-- A line of a document that says something. -/
inductive Statement where
  | assign (path : List String) (v : Value)
  | header (path : List String)
  | element (path : List String)
deriving Inhabited

/-- A document so far: its root table and the path of the table under the last header. -/
structure Draft where
  root : Entries := []
  current : List String := []

namespace Draft

/-- One more statement. -/
def apply (d : Draft) : Statement → Option Draft
  | .assign path v =>
    match path with
    | [] => none
    | first :: rest => do
      let root ← Entries.descend (fun t => t.assign first rest v) d.root d.current
      pure { d with root }
  | .header path => do
    let key ← path.getLast?
    let root ← Entries.descend (Entries.head key) d.root path.dropLast
    pure { root, current := path }
  | .element path => do
    let key ← path.getLast?
    let root ← Entries.descend (Entries.headElement key) d.root path.dropLast
    pure { root, current := path }

end Draft

/-- The table that a document's statements build, if none of them clash. -/
def tableOf? (statements : List Statement) : Option Table :=
  (statements.foldlM Draft.apply {}).map fun d => finishEntries d.root

end Toml

end SolidityBuild
