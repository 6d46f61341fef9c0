import MuLang.Number.Double

/-!
# Values of a TOML document

A document is a table of named values in the order in which they were written. Tables remember how
they came to be, because that decides whether a later line may still add to them: a table is
described by one header at most, and a table begun with dotted keys only by further dotted keys.
-/
namespace MuLang.Toml

/-- How a table came to be. -/
inductive Origin where
  /-- It has a header of its own, or is the document. -/
  | header
  /-- A header of a table inside it implies it. -/
  | implied
  /-- A dotted key implies it. -/
  | dotted
  /-- It was written between braces. -/
  | braces
  deriving DecidableEq, Inhabited

/-- What a key can stand for. -/
inductive Value where
  | text (content : String)
  | integer (n : Int)
  | decimal (number : Double)
  | bool (value : Bool)
  /-- A date, a time of day, or both. -/
  | moment
  | array (items : List Value)
  | table (origin : Origin) (entries : List (String × Value))
  /-- Tables written under one repeated header; at least one. -/
  | tables (earlier : List (List (String × Value))) (last : List (String × Value))
  deriving Inhabited

/-- Named values in the order in which they were written. -/
abbrev Entries := List (String × Value)

/-- A key: the tables it goes through, and its name in the innermost of them. -/
structure Key where
  path : List String
  name : String
  deriving DecidableEq, Inhabited

namespace Entries

def contains (entries : Entries) (name : String) : Bool := (entries.lookup name).isSome

/-- The entries with another value under a name that they hold. -/
def replace (entries : Entries) (name : String) (value : Value) : Entries :=
  entries.map fun entry => if entry.1 = name then (name, value) else entry

def erase (entries : Entries) (name : String) : Entries :=
  entries.filter fun entry => entry.1 ≠ name

/-- Entries with one more at the end, unless the name is taken. -/
def add? (entries : Entries) (name : String) (value : Value) : Option Entries :=
  if entries.contains name then none else some (entries ++ [(name, value)])

end Entries

/-- Whether a path that creates tables of the origin `via` may go through a table. -/
def Origin.admits (via origin : Origin) : Bool :=
  match origin with
  | .header => via != .dotted
  | .implied | .dotted => true
  | .braces => false

/-- What `act` does to the table at the end of a path. Missing tables on the way are created with
the origin `via`; of tables under a repeated header the last is meant. -/
def alter {α : Type} (via : Origin) (act : Origin → Entries → Option (α × Entries)) :
    List String → Origin → Entries → Option (α × Entries)
  | [], origin, entries => act origin entries
  | name :: path, _, entries =>
    match entries.lookup name with
    | none => do
      let (result, inner) ← alter via act path via []
      return (result, entries ++ [(name, .table via inner)])
    | some (.table origin inner) =>
      if via.admits origin then do
        let (result, inner) ← alter via act path origin inner
        return (result, entries.replace name (.table origin inner))
      else none
    | some (.tables earlier last) => do
      let (result, last) ← alter via act path .header last
      return (result, entries.replace name (.tables earlier last))
    | some _ => none

/-- A table of the given origin with one more entry. Dotted keys extend only what dotted keys
created. -/
def Entries.insert? (entries : Entries) (origin : Origin) (key : Key) (value : Value) :
    Option Entries := do
  let ((), entries) ← alter .dotted
    (fun reached inner =>
      if key.path.isEmpty || reached == .dotted then
        return ((), ← inner.add? key.name value)
      else none)
    key.path origin entries
  return entries

/-- The entries of an inline table. -/
def Entries.ofPairs? (pairs : List (Key × Value)) : Option Entries :=
  pairs.foldlM (fun entries pair => entries.insert? .braces pair.1 pair.2) []

/-! ## Documents -/

/-- The header of a table. -/
inductive Header where
  | once (key : Key)
  /-- May be repeated, each time for a table of its own. -/
  | repeated (key : Key)
  deriving DecidableEq, Inhabited

/-- A line of a document that is not blank. -/
inductive Line where
  | entry (key : Key) (value : Value)
  | header (header : Header)
  deriving Inhabited

/-- A document that is being read: the tables before the last header, and the entries after it. -/
structure Draft where
  root : Entries := []
  header : Option Header := none
  current : Entries := []

/-- The entries of the document with those after the last header put in their place. -/
def Draft.close (draft : Draft) : Option Entries :=
  match draft.header with
  | none => some draft.current
  | some (.once key) => do
    let ((), root) ← alter .implied
      (fun _ inner => return ((), ← inner.add? key.name (.table .header draft.current)))
      key.path .header draft.root
    return root
  | some (.repeated key) => do
    let ((), root) ← alter .implied
      (fun _ inner =>
        match inner.lookup key.name with
        | none => some ((), inner ++ [(key.name, .tables [] draft.current)])
        | some (.tables earlier last) =>
          some ((), inner.replace key.name (.tables (earlier ++ [last]) draft.current))
        | some _ => none)
      key.path .header draft.root
    return root

/-- A draft with a new header. It takes over the table of its name that earlier headers implied. -/
def Draft.begin (draft : Draft) (header : Header) : Option Draft := do
  let closed ← draft.close
  match header with
  | .once key =>
    let (current, root) ← alter .implied
      (fun _ inner =>
        match inner.lookup key.name with
        | none => some ([], inner)
        | some (.table .implied entries) => some (entries, inner.erase key.name)
        | some _ => none)
      key.path .header closed
    return ⟨root, some header, current⟩
  | .repeated key =>
    let ((), root) ← alter .implied
      (fun _ inner =>
        match inner.lookup key.name with
        | none | some (.tables ..) => some ((), inner)
        | some _ => none)
      key.path .header closed
    return ⟨root, some header, []⟩

/-- A draft with one more line. -/
def Draft.add (draft : Draft) : Line → Option Draft
  | .entry key value => do
    return { draft with current := ← draft.current.insert? .header key value }
  | .header header => draft.begin header

/-- The entries of a document, or `none` where a line redefines something. -/
def Entries.ofLines? (lines : List Line) : Option Entries := do
  (← lines.foldlM Draft.add {}).close

end MuLang.Toml
