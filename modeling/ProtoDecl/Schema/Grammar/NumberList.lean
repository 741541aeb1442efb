import ProtoDecl.Schema.Grammar.Option

/-!
# Reading reserved and extension lists

Both are lists of numbers and ranges, divided by commas and ended by a semicolon.  Reserved lists
also hold names; extension lists may carry options.  All extension lists of one message are gathered
into one node.
-/

namespace ProtoDecl.Schema.Parser

/-- A number, or the range that begins with it. -/
inductive NumberOrRange where
  | number (literal : NumberLit)
  | range (range : NumberRange)

/-- A number, or a range if the word `to` follows. -/
def numberOrRange : Parser NumberOrRange := do
  let first := numberOf (← take)
  match ← accept (.keyword .upTo) with
  | none => return .number first
  | some _ =>
    match ← kind with
    | .number =>
      let last := RangeEnd.number (numberOf (← take))
      return .range ⟨first, last, ← spanFrom first.span⟩
    | .keyword .max =>
      let last := RangeEnd.max (wordOf (← take))
      return .range ⟨first, last, ← spanFrom first.span⟩
    | _ =>
      report .rangeEnd
      return .number first

/-- What distinguishes one sort of list from another. -/
structure ListForm (σ : Type) where
  /-- What the list is called. -/
  list : String
  /-- What its items are called. -/
  subject : String
  /-- The kinds of token that begin an item. -/
  starts : List Kind
  /-- Reads an item. -/
  item : σ → Parser σ
  /-- Reads the options behind an item, where the list may have them. -/
  options? : Option (σ → Parser σ)

/-- The next item of a list, or what stands between two items or at the end.  The flag says whether
an item is wanted. -/
def listEntry {σ : Type} (form : ListForm σ) : Bool × σ → Parser (Round (Bool × σ))
  | (wanted, state) => do
    let here ← kind
    if here = .symbol .semicolon then
      if wanted then
        report (.item form.subject form.starts form.list true)
      skip
      return .done (wanted, state)
    else if here = .symbol .closeBrace ∨ here = .endOfFile then
      report (.token (.symbol .semicolon) ("after " ++ form.list))
      return .done (wanted, state)
    else if wanted then
      if here ∈ form.starts then
        return .again (false, ← form.item state)
      else
        report (.item form.subject form.starts form.list false)
        skip
        return .again (wanted, state)
    else if here = .symbol .comma then
      skip
      return .again (true, state)
    else
      match here, form.options? with
      | .symbol .openBracket, some options => return .again (wanted, ← options state)
      | _, _ =>
        report (.separator form.list)
        skip
        return .again (wanted, state)

/-- The rest of a list, up to its semicolon. -/
def listItems {σ : Type} (form : ListForm σ) : Bool × σ → Parser (Bool × σ) :=
  loop (listEntry form)

/-! ## Reserved lists -/

/-- An item of a reserved list. -/
def reservedItem (items : List ReservedItem) : Parser (List ReservedItem) := do
  if (← kind) = .text then
    return items ++ [.name (textOf (← take))]
  else
    match ← numberOrRange with
    | .number n => return items ++ [.number n]
    | .range r => return items ++ [.range r]

/-- The form of reserved lists. -/
def reservedForm : ListForm (List ReservedItem) where
  list := "reserved list"
  subject := "field number or name"
  starts := [.number, .text]
  item := reservedItem
  options? := none

/-- A reserved list, with the cursor on its keyword. -/
def reserved : Parser Reserved := do
  let start := (← take).span
  let (_, items) ← listItems reservedForm (true, [])
  return ⟨items, ← spanFrom start⟩

/-! ## Extension lists -/

/-- An item of an extension list. -/
def extensionItem (lists : List ExtensionRange × List OptionDecl) :
    Parser (List ExtensionRange × List OptionDecl) := do
  match ← numberOrRange with
  | .number n => return (lists.1 ++ [.number n], lists.2)
  | .range r => return (lists.1 ++ [.range r], lists.2)

/-- The options behind an item of an extension list. -/
def extensionOptions (lists : List ExtensionRange × List OptionDecl) :
    Parser (List ExtensionRange × List OptionDecl) := do
  return (lists.1, lists.2 ++ (← optionList))

/-- The form of extension lists. -/
def extensionForm : ListForm (List ExtensionRange × List OptionDecl) where
  list := "extension ranges"
  subject := "field number"
  starts := [.number]
  item := extensionItem
  options? := some extensionOptions

/-- An extension list, with the cursor on its keyword. -/
def extensionList : Parser Extensions := do
  let start := (← take).span
  let (_, ranges, options) ← listItems extensionForm (true, [], [])
  return ⟨ranges, options, ← spanFrom start⟩

/-- Adds an extension list to those read before. -/
def mergeExtensions (before : Option Extensions) (list : Extensions) : Extensions :=
  match before with
  | none => list
  | some e => ⟨e.ranges ++ list.ranges, e.options ++ list.options, e.span.through list.span⟩

end ProtoDecl.Schema.Parser
