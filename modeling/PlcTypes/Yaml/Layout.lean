import PlcTypes.Yaml.PlainScalar
import PlcTypes.Yaml.Property
import PlcTypes.Yaml.QuotedScalar

/-!
# From a text to tokens

Indentation is turned into tokens while the text is cut. A key of one line is recognised only
by the colon behind it, so the place where one may have started is remembered, one place for
each level of flow layout, and the tokens that open the mapping and the key are put in there
later. Such a place is given up at the end of its line or 1024 characters further on; in block
layout a place at the current indentation can hold nothing but a key, and giving it up is an
error.
-/

namespace PlcTypes.Yaml

/-- A place where a key of one line may have started. -/
structure KeyPlace where
  required : Bool
  tokens : Nat
  index : Nat
  line : Nat
  column : Nat

/-- The state of cutting: the tokens so far with the newest first and their number, the column
of the innermost block and those around it, the key places of the levels of flow layout, and
whether a key of one line may start here. -/
structure Layout where
  cursor : Cursor
  tokens : List Token
  count : Nat
  indent : Int
  indents : List Int
  place : Option KeyPlace
  places : List (Option KeyPlace)
  keyAllowed : Bool

namespace Layout

/-- The state at the start of a text. -/
def start (text : List Char) : Layout := ⟨.start text, [], 0, -1, [], none, [], true⟩

/-- Whether the state is inside of flow layout. -/
def inFlow (layout : Layout) : Bool := !layout.places.isEmpty

/-- Add a token. -/
def push (layout : Layout) (token : Token) : Layout :=
  { layout with tokens := token :: layout.tokens, count := layout.count + 1 }

/-- Add a token behind the first `number` ones. -/
def insert (layout : Layout) (number : Nat) (token : Token) : Layout :=
  { layout with
    tokens := layout.tokens.insertIdx (layout.count - number) token, count := layout.count + 1 }

/-- Add a token of several characters on the line. -/
def pushSkip (layout : Layout) (token : Token) (size : Nat) : Layout :=
  { layout.push token with cursor := layout.cursor.skipMany size }

/-- Give up a key place. -/
def giveUp? : Option KeyPlace → Option (Option KeyPlace)
  | none => some none
  | some place => if place.required then none else some none

/-- Give up the key place of the current level. -/
def dropPlace? (layout : Layout) : Option Layout :=
  (giveUp? layout.place).map fun place => { layout with place }

/-- Keep a key place while it is on the line and near enough. -/
def keepPlace? (cursor : Cursor) : Option KeyPlace → Option (Option KeyPlace)
  | none => some none
  | some place =>
    if place.line < cursor.line || place.index + 1024 < cursor.index then giveUp? (some place)
    else some (some place)

/-- Give up the key places that have become too old. -/
def dropOldPlaces? (layout : Layout) : Option Layout := do
  let place ← keepPlace? layout.cursor layout.place
  let places ← layout.places.mapM (keepPlace? layout.cursor)
  some { layout with place, places }

/-- Remember that a key may start here, if it may. -/
def savePlace? (layout : Layout) : Option Layout :=
  if layout.keyAllowed then
    let cursor := layout.cursor
    let required := !layout.inFlow && layout.indent == (cursor.column : Int)
    layout.dropPlace?.map fun layout =>
      { layout with place := some ⟨required, layout.count, cursor.index, cursor.line, cursor.column⟩ }
  else some layout

/-- Open a block at a column if it is further in than the current one. -/
def openBlock (layout : Layout) (column : Nat) (number : Nat) (token : Token) : Layout :=
  if !layout.inFlow && layout.indent < (column : Int) then
    { layout.insert number token with
      indent := column, indents := layout.indent :: layout.indents }
  else layout

/-- Close blocks, innermost first, that are further in than a column. -/
def closeBlocksTo (column : Int) : List Int → Layout → Layout
  | [], layout => layout
  | outer :: indents, layout =>
    if column < layout.indent then
      closeBlocksTo column indents { layout.push .blockEnd with indent := outer, indents }
    else layout

/-- Close the blocks that are further in than a column. -/
def closeBlocks (layout : Layout) (column : Int) : Layout :=
  if layout.inFlow then layout else closeBlocksTo column layout.indents layout

/-- Pass white space, comments and line breaks up to the next token. In block layout a tab
cannot stand where a key may start, and a new line lets a key start. -/
def skipGapWithin : Nat → Layout → Layout
  | 0, layout => layout
  | fuel + 1, layout =>
    let cursor := layout.cursor
    let cursor := if cursor.column = 0 && cursor.startsWith '\ufeff' then cursor.skip else cursor
    let tabs := layout.inFlow || !layout.keyAllowed
    let cursor := cursor.skipWhile fun c => c == ' ' || (tabs && c == '\t')
    let cursor := if cursor.startsWith '#' then cursor.skipWhile (fun c => !isBreak c) else cursor
    match cursor.rest with
    | [] => { layout with cursor }
    | c :: _ =>
      if isBreak c then
        skipGapWithin fuel
          { layout with cursor := cursor.takeBreak.2, keyAllowed := layout.keyAllowed || !layout.inFlow }
      else { layout with cursor }

/-- Pass white space, comments and line breaks up to the next token. -/
def skipGap (layout : Layout) : Layout := skipGapWithin (layout.cursor.rest.length + 1) layout

/-- Add a token that stands between documents. -/
def between? (layout : Layout) (token : Token) (cursor : Cursor) : Option Layout :=
  (layout.closeBlocks (-1)).dropPlace?.map fun layout =>
    { layout.push token with cursor, keyAllowed := false }

/-- Open a collection in flow layout. -/
def openFlow? (layout : Layout) (token : Token) : Option Layout :=
  layout.savePlace?.map fun layout =>
    { layout.pushSkip token 1 with
      place := none, places := layout.place :: layout.places, keyAllowed := true }

/-- Close a collection in flow layout. -/
def closeFlow? (layout : Layout) (token : Token) : Option Layout :=
  layout.dropPlace?.map fun layout =>
    let closed := { layout.pushSkip token 1 with keyAllowed := false }
    match layout.places with
    | [] => closed
    | place :: places => { closed with place, places }

/-- Add the separator of flow layout. -/
def separate? (layout : Layout) : Option Layout :=
  layout.dropPlace?.map fun layout => { layout.pushSkip .separator 1 with keyAllowed := true }

/-- Add an indicator that opens a block if none is open at its column. -/
def openIndicator? (layout : Layout) (block token : Token) (keyAllowed : Bool) : Option Layout :=
  if !layout.inFlow && !layout.keyAllowed then none
  else
    (layout.openBlock layout.cursor.column layout.count block).dropPlace?.map fun layout =>
      { layout.pushSkip token 1 with keyAllowed }

/-- Add the indicator of a value. If a key of one line may have started, it did. -/
def value? (layout : Layout) : Option Layout :=
  match layout.place with
  | some place =>
    let layout := layout.insert place.tokens .key
    let layout := layout.openBlock place.column place.tokens .blockMapping
    some { layout.pushSkip .value 1 with place := none, keyAllowed := false }
  | none =>
    if !layout.inFlow && !layout.keyAllowed then none
    else
      let layout := layout.openBlock layout.cursor.column layout.count .blockMapping
      some { layout.pushSkip .value 1 with keyAllowed := !layout.inFlow }

/-- Add an anchor or an alias. -/
def name? (layout : Layout) (token : String → Token) : Option Layout := do
  let layout ← layout.savePlace?
  let (name, cursor) ← Property.takeName? layout.cursor.skip
  some { layout.push (token name) with cursor, keyAllowed := false }

/-- Add a tag. -/
def tag? (layout : Layout) : Option Layout := do
  let layout ← layout.savePlace?
  let (token, cursor) ← Property.takeTag? layout.inFlow layout.cursor
  some { layout.push token with cursor, keyAllowed := false }

/-- Add a block scalar. -/
def blockScalar? (layout : Layout) (literal : Bool) : Option Layout := do
  let layout ← layout.dropPlace?
  let (text, cursor) ← BlockScalar.take? literal layout.indent layout.cursor.skip
  some { layout.push (.scalar (String.ofList text) false) with cursor, keyAllowed := true }

/-- Add a quoted scalar. -/
def quotedScalar? (layout : Layout) (single : Bool) : Option Layout := do
  let layout ← layout.savePlace?
  let (text, cursor) ← QuotedScalar.take? single layout.cursor.skip
  some { layout.push (.scalar (String.ofList text) false) with cursor, keyAllowed := false }

/-- Add a plain scalar. -/
def plainScalar? (layout : Layout) : Option Layout := do
  let layout ← layout.savePlace?
  let column := (layout.indent + 1).toNat
  let (text, broken, cursor) ← PlainScalar.take? layout.inFlow column layout.cursor
  some { layout.push (.scalar (String.ofList text) true) with cursor, keyAllowed := broken }

/-- The characters a plain scalar cannot start with. -/
def indicators : List Char := "-?:,[]\x7b\x7d#&*!|>'\"%@`".toList

/-- Add the next token. The text is not over and does not go on with a space. -/
def next? (layout : Layout) : Option Layout :=
  let cursor := layout.cursor
  let inFlow := layout.inFlow
  if cursor.column = 0 && cursor.startsWith '%' then
    (Property.takeDirective? cursor.skip).bind fun (token, cursor) => layout.between? token cursor
  else if cursor.atMarker '-' then layout.between? .documentStart (cursor.skipMany 3)
  else if cursor.atMarker '.' then layout.between? .documentEnd (cursor.skipMany 3)
  else
    match cursor.rest with
    | [] => none
    | c :: rest =>
      let gap := atGap rest
      if c = '[' then layout.openFlow? .flowSequence
      else if c = '\x7b' then layout.openFlow? .flowMapping
      else if c = ']' then layout.closeFlow? .flowSequenceEnd
      else if c = '\x7d' then layout.closeFlow? .flowMappingEnd
      else if c = ',' then layout.separate?
      else if c = '-' && gap then layout.openIndicator? .blockSequence .item true
      else if c = '?' && gap then layout.openIndicator? .blockMapping .key (!inFlow)
      else if c = ':' && (inFlow || gap) then layout.value?
      else if c = '*' then layout.name? .reference
      else if c = '&' then layout.name? .anchor
      else if c = '!' then layout.tag?
      else if c = '|' && !inFlow then layout.blockScalar? true
      else if c = '>' && !inFlow then layout.blockScalar? false
      else if c = '\'' then layout.quotedScalar? true
      else if c = '"' then layout.quotedScalar? false
      else if c ∉ indicators && !isBlank c then layout.plainScalar?
      else if (c = '-' && !rest.head?.any isBlank) || c = '?' || c = ':' then layout.plainScalar?
      else none

/-- Cut the text to its end. -/
def runWithin : Nat → Layout → Option Layout
  | 0, _ => none
  | fuel + 1, layout => do
    let layout ← layout.skipGap.dropOldPlaces?
    let layout := layout.closeBlocks layout.cursor.column
    if layout.cursor.rest = [] then (layout.closeBlocks (-1)).dropPlace?
    else runWithin fuel (← layout.next?)

end Layout

/-- The tokens of a text, if it can be cut into tokens. -/
def Token.ofChars? (text : List Char) : Option (List Token) :=
  if text.all isReadable then
    (Layout.runWithin (text.length + 1) (.start text)).map fun layout => layout.tokens.reverse
  else none

end PlcTypes.Yaml
