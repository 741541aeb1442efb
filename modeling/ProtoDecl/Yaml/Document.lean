import ProtoDecl.Yaml.Scalar

/-!
# YAML documents

Reads a text that holds at most one document: collections in block form, which columns delimit, or
in brackets, with scalars of every sort but block scalars.  Anchors, tags, directives and
explicit keys are not read.

`read?` gives no result for a malformed text, and the empty value for a text that holds nothing.
-/

namespace ProtoDecl.Yaml

/-- How far behind the beginning of a key its colon may stand. -/
def keyLimit : Nat :=
  1024

/-- The place behind the colon of a key that begins at `start` and ends at `stop`.  The colon stands
in the line in which the key begins. -/
def colon? (inBrackets : Bool) (start stop : Cursor) : Option Cursor :=
  let c := stop.skip inBrackets
  if c.at? ':' && (inBrackets || endsWord (c.rest.drop 1)) && c.line = start.line
      && c.column ≤ start.column + keyLimit then
    some (c.drop 1).stale
  else none

/-- The items of a sequence in brackets: an entry with a colon is a mapping by itself. -/
def itemsOf (entries : List (Node × Option Node)) : List Node :=
  entries.map fun
    | (item, none) => item
    | (key, some value) => .mapping [(key, value)]

/-- The entries of a mapping in brackets: one without a colon is a key with no value. -/
def pairsOf (entries : List (Node × Option Node)) : List (Node × Node) :=
  entries.map fun (key, value) => (key, value.getD .empty)

/-! Every reader below takes a bound for the calls that may follow it.  A caller either hands a
shorter text down or calls a reader that does. -/

mutual

/-- A scalar or a collection in brackets. -/
def readInline (inBrackets : Bool) (margin : Nat) : Nat → Cursor → Option (Node × Cursor)
  | 0, _ => none
  | calls + 1, c =>
    match c.rest.head? with
    | some '[' => do
      let (entries, next) ← readBrackets margin ']' calls (c.drop 1)
      return (.sequence (itemsOf entries), next.stale)
    | some '\x7b' => do
      let (entries, next) ← readBrackets margin '\x7d' calls (c.drop 1)
      return (.mapping (pairsOf entries), next.stale)
    | some '\'' => quoted '\'' c
    | some '"' => quoted '"' c
    | _ => if beginsPlain inBrackets c.rest then plain inBrackets margin c else none

/-- The entries of a collection in brackets up to the closing one. -/
def readBrackets (margin : Nat) (close : Char) :
    Nat → Cursor → Option (List (Node × Option Node) × Cursor)
  | 0, _ => none
  | calls + 1, c => do
    let start := c.skip true
    if start.at? close then return ([], start.drop 1)
    let (key, stop) ← readInline true margin calls start
    let (value, behind) ←
      match colon? true start stop with
      | none => pure (none, stop)
      | some next =>
        let next := next.skip true
        if next.at? ',' || next.at? close then pure (some Node.empty, next)
        else (readInline true margin calls next).map fun (value, last) => (some value, last)
    let next := behind.skip true
    if next.at? close then return ([(key, value)], next.drop 1)
    if !next.at? ',' then none
    let (more, last) ← readBrackets margin close calls (next.drop 1)
    return ((key, value) :: more, last)

end

mutual

/-- A value outside brackets.  A block collection begins only at a fresh place. -/
def readBlock (margin : Nat) : Nat → Cursor → Option (Node × Cursor)
  | 0, _ => none
  | calls + 1, c =>
    if c.atItem then
      if c.fresh then
        (readItems c.column calls c).map fun (items, next) => (.sequence items, next)
      else none
    else do
      let (node, next) ← readInline false margin calls c
      if (colon? false c next).isNone then return (node, next)
      if !c.fresh then none
      let (entries, last) ← readEntries c.column calls c
      return (.mapping entries, last)

/-- The items of a block sequence in the given column. -/
def readItems (column : Nat) : Nat → Cursor → Option (List Node × Cursor)
  | 0, _ => none
  | calls + 1, c => do
    let start := { c.drop 1 with fresh := true }.skip false
    let (item, stop) ←
      if start.atEnd || start.column ≤ column then pure (Node.empty, start)
      else readBlock (column + 1) calls start
    let next := stop.skip false
    if next.atEnd then return ([item], next)
    if !next.fresh || column < next.column then none
    if next.column < column || !next.atItem then return ([item], next)
    let (more, last) ← readItems column calls next
    return (item :: more, last)

/-- The entries of a block mapping in the given column. -/
def readEntries (column : Nat) : Nat → Cursor → Option (List (Node × Node) × Cursor)
  | 0, _ => none
  | calls + 1, c => do
    let (key, keyEnd) ← readInline false (column + 1) calls c
    let start := (← colon? false c keyEnd).skip false
    let (value, stop) ←
      if start.atEnd then pure (Node.empty, start)
      else if start.fresh && start.column = column && start.atItem then
        (readItems column calls start).map fun (items, last) => (.sequence items, last)
      else if start.fresh && start.column ≤ column then pure (Node.empty, start)
      else readBlock (column + 1) calls start
    let next := stop.skip false
    if next.atEnd then return ([(key, value)], next)
    if !next.fresh || column < next.column then none
    if next.column < column then return ([(key, value)], next)
    let (more, last) ← readEntries column calls next
    return ((key, value) :: more, last)

end

/-- Whether only ends of documents follow. -/
def onlyEnds : Nat → Cursor → Bool
  | 0, c => c.rest.isEmpty
  | rounds + 1, c =>
    let c := c.skip false
    if c.atMark ['.', '.', '.'] then onlyEnds rounds (c.drop 3) else c.rest.isEmpty

/-- The value that a text holds. -/
def read? (text : String) : Option Node := do
  let chars := uniform (if text.startsWith "\ufeff" then text.toList.drop 1 else text.toList)
  if !chars.all isAllowed then none
  let first := Cursor.skip false ⟨chars, 0, 0, true⟩
  if first.rest.isEmpty then return .empty
  if first.atMark ['.', '.', '.'] then none
  let start :=
    if first.atMark ['-', '-', '-'] then (first.drop 3).stale.skip false else first
  let (node, last) ←
    if start.atEnd then pure (Node.empty, start)
    else readBlock 0 (3 * chars.length + 3) start
  if onlyEnds chars.length last then return node else none

end ProtoDecl.Yaml
