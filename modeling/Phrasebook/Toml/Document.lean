import Phrasebook.Toml.Scalar

/-!
TOML documents. `Toml.read` reads a document statement by statement into a table; `Document` keeps
which tables have been declared and which values may no longer change.
-/

namespace Phrasebook.Toml

open Settings (Value Table)

/-! ### Keys -/

def isBare (c : Char) : Bool := c.isAlphanum || c = '-' || c = '_'

def keyPart (text : Text) : Except Fault (Text × Text) :=
  match text with
  | '\'' :: rest => verbatim ['\''] false rest
  | '"' :: rest => basicString false rest
  | text =>
    match text.takeWhile isBare with
    | [] => fail .keyStart text
    | name => .ok (name, text.drop name.length)

def keyParts : Nat → Text → Except Fault (Key × Text)
  | 0, text => fail .keyStart text
  | fuel + 1, text => do
    let (name, rest) ← keyPart text
    match skipSpace rest with
    | '.' :: rest => do
      let (names, rest) ← keyParts fuel (skipSpace rest)
      .ok (name :: names, rest)
    | rest => .ok ([name], rest)

def key (text : Text) : Except Fault (Key × Text) := keyParts (text.length + 1) text

/-! ### Tables -/

/-- Changes the table that a key leads to from a table; tables that are missing on the way are made.
With `lists`, the last table of a list of tables stands for the list. -/
def alterTable (lists : Bool) (change : Table → Except Complaint Table) :
    Key → Table → Except Complaint Table
  | [], table => change table
  | name :: rest, table =>
    match Members.get? table name with
    | none => do .ok (Members.put table name (.table (← alterTable lists change rest [])))
    | some (.table inner) => do
      .ok (Members.put table name (.table (← alterTable lists change rest inner)))
    | some (.array items) =>
      match lists, items.getLast? with
      | true, some (.table inner) => do
        let inner ← alterTable lists change rest inner
        .ok (Members.put table name (.array (items.dropLast ++ [.table inner])))
      | _, _ => .error .overwritten
    | some _ => .error .overwritten

def insertNew (complaint : Complaint) (name : Text) (value : Value) (table : Table) :
    Except Complaint Table :=
  if Members.contains table name then .error complaint else .ok (table ++ [(name, value)])

def appendTable (name : Text) (table : Table) : Except Complaint Table :=
  match Members.get? table name with
  | none => .ok (table ++ [(name, .array [.table []])])
  | some (.array items) => .ok (Members.put table name (.array (items ++ [.table []])))
  | some _ => .error .overwritten

def hasParts : Value → Bool
  | .array _ => true
  | .table _ => true
  | _ => false

def showAt {β : Type} (text : Text) : Except Complaint β → Except Fault β
  | .ok value => .ok value
  | .error complaint => fail complaint text

/-! ### Values -/

def Key.stem (key : Key) : Text := key.getLast?.getD []

mutual

def value : Nat → Text → Except Fault (Value × Text)
  | 0, text => fail .badValue text
  | fuel + 1, text =>
    match text with
    | '"' :: '"' :: '"' :: rest => do
      let (read, rest) ← multilineString '"' rest
      .ok (.string read, rest)
    | '"' :: rest => do
      let (read, rest) ← basicString false rest
      .ok (.string read, rest)
    | '\'' :: '\'' :: '\'' :: rest => do
      let (read, rest) ← multilineString '\'' rest
      .ok (.string read, rest)
    | '\'' :: rest => do
      let (read, rest) ← verbatim ['\''] false rest
      .ok (.string read, rest)
    | '[' :: rest => do
      let (read, rest) ← items fuel (← skipFiller false rest)
      .ok (.array read, rest)
    | '{' :: rest =>
      match skipSpace rest with
      | '}' :: rest => .ok (.table [], rest)
      | rest => do
        let (read, rest) ← pairs fuel [] [] rest
        .ok (.table read, rest)
    | text => plain text

def items : Nat → Text → Except Fault (List Value × Text)
  | 0, text => fail .badValue text
  | fuel + 1, text =>
    match text with
    | ']' :: rest => .ok ([], rest)
    | text => do
      let (item, rest) ← value fuel text
      match ← skipFiller false rest with
      | ']' :: rest => .ok ([item], rest)
      | ',' :: rest => do
        let (more, rest) ← items fuel (← skipFiller false rest)
        .ok (item :: more, rest)
      | rest => fail .unclosedArray rest

/-- The pairs of an inline table up to its closing brace, put into the table read so far. Values
with parts may not change any more; `frozen` has their keys. -/
def pairs : Nat → List Key → Table → Text → Except Fault (Table × Text)
  | 0, _, _, text => fail .badValue text
  | fuel + 1, frozen, table, text => do
    let (name, item, rest) ← pair fuel text
    if frozen.any fun known => known.isPrefixOf name then fail (.immutable name) rest
    else
      let table ← showAt rest (alterTable false (insertNew (.duplicate name.stem) name.stem item)
        name.dropLast table)
      match skipSpace rest with
      | '}' :: rest => .ok (table, rest)
      | ',' :: rest =>
        pairs fuel (if hasParts item then name :: frozen else frozen) table (skipSpace rest)
      | rest => fail .unclosedTable rest

def pair : Nat → Text → Except Fault (Key × Value × Text)
  | 0, text => fail .badValue text
  | fuel + 1, text => do
    let (name, rest) ← key text
    match rest with
    | '=' :: rest => do
      let (item, rest) ← value fuel (skipSpace rest)
      .ok (name, item, rest)
    | rest => fail .missingEquals rest

end

/-! ### Documents -/

structure Document where
  table : Table
  /-- The key of the table that pairs go into. -/
  header : Key
  /-- The keys of tables that may not be declared again. -/
  declared : List Key
  /-- The keys of tables that may not be declared once another table is. -/
  pending : List Key
  /-- The keys of values that may not change, nor their parts. -/
  frozen : List Key

namespace Document

def empty : Document := ⟨[], [], [], [], []⟩

def isFrozen (document : Document) (key : Key) : Bool :=
  key ≠ [] && document.frozen.any fun known => known.isPrefixOf key

def isDeclared (document : Document) (key : Key) : Bool := document.declared.contains key

/-- Tables named by the keys of pairs may not be declared from here on. -/
def settle (document : Document) : Document :=
  { document with declared := document.pending ++ document.declared, pending := [] }

def declareTable (document : Document) (text : Text) : Except Fault (Document × Text) := do
  let document := document.settle
  let (name, rest) ← key (skipSpace text)
  if document.isDeclared name || document.isFrozen name then fail (.declaredTwice name) rest
  else
    let table ← showAt rest (alterTable true .ok name document.table)
    match rest with
    | ']' :: rest =>
      .ok ({ document with table, header := name, declared := name :: document.declared }, rest)
    | rest => fail .tableEnd rest

/-- Declares a further table of a list of tables. What was said about the one before no longer
counts. -/
def declareList (document : Document) (text : Text) : Except Fault (Document × Text) := do
  let document := document.settle
  let (name, rest) ← key (skipSpace text)
  if document.isFrozen name then fail (.immutable name) rest
  else
    let others (keys : List Key) : List Key := keys.filter fun known => !name.isPrefixOf known
    let table ← showAt rest (alterTable true (appendTable name.stem) name.dropLast document.table)
    match rest with
    | ']' :: ']' :: rest =>
      .ok ({ document with
        table
        header := name
        declared := name :: others document.declared
        frozen := others document.frozen }, rest)
    | rest => fail .arrayEnd rest

def addPair (document : Document) (text : Text) : Except Fault (Document × Text) := do
  let (name, item, rest) ← pair (2 * text.length + 4) text
  let whole := document.header ++ name
  let holders := (List.range (name.length - 1)).map fun i => document.header ++ name.take (i + 1)
  match holders.find? document.isDeclared with
  | some holder => fail (.redefined holder) rest
  | none =>
    let parent := whole.dropLast
    if document.isFrozen parent then fail (.immutable parent) rest
    else
      let table ← showAt rest (alterTable true (insertNew .overwritten name.stem item) parent
        document.table)
      .ok ({ document with
        table
        pending := holders ++ document.pending
        frozen := if hasParts item then whole :: document.frozen else document.frozen }, rest)

def statement (document : Document) (text : Text) : Except Fault (Document × Text) :=
  match text with
  | [] => .ok (document, [])
  | '[' :: '[' :: rest => document.declareList rest
  | '[' :: rest => document.declareTable rest
  | c :: rest =>
    if isBare c || c = '"' || c = '\'' then document.addPair (c :: rest)
    else if c = '\n' || c = '#' then .ok (document, c :: rest)
    else fail .statement (c :: rest)

def statements : Nat → Document → Text → Except Fault Document
  | 0, document, _ => .ok document
  | fuel + 1, document, text => do
    let (document, rest) ← document.statement (skipSpace text)
    match ← skipComment (skipSpace rest) with
    | [] => .ok document
    | '\n' :: rest => statements fuel document rest
    | rest => fail .lineEnd rest

end Document

def unifyBreaks (text : Text) : Text := text.replace ['\r', '\n'] ['\n']

def read (text : Text) : Except Fault Table :=
  let text := unifyBreaks text
  (Document.statements (text.length + 1) .empty text).map (·.table)

def Fault.message (text : Text) : Fault → String
  | .malformed complaint left => s!"{complaint.message} (at {place (unifyBreaks text) left})"
  | .longInteger digits => Text.longIntegerMessage digits

end Phrasebook.Toml
