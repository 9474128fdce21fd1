import PlcTypes.Yaml.Layout
import PlcTypes.Yaml.Tree

/-!
# From tokens to a document tree

A text holds at most one document. An alias stands for the tree that its anchor marks. Anchors
are numbered by how many names there are so far, so a name that is marked again takes a new
number, and the latest tree of a number counts. A part of the layout that is left empty is null.
Beside the tree itself go two sizes of the tree with all aliases written out: its depth and the
number of aliases in it, so that a small text cannot stand for an unbounded tree.
-/

namespace PlcTypes.Yaml

/-- A tree, how deep its collections are nested, and how many aliases it goes through. -/
structure Node where
  tree : Tree
  depth : Nat
  aliases : Nat

namespace Node

/-- A scalar. -/
def leaf (tree : Tree) : Node := ⟨tree, 0, 0⟩

/-- A part of the layout that is left empty. -/
def empty : Node := leaf (.scalar "" .null)

/-- The depth of a collection of nodes. -/
def depthOver (nodes : List Node) : Nat := nodes.foldl (fun n node => max n node.depth) 0 + 1

/-- The aliases in a collection of nodes. -/
def aliasesIn (nodes : List Node) : Nat := nodes.foldl (fun n node => n + node.aliases) 0

/-- A sequence of nodes. -/
def sequence (items : List Node) : Node :=
  ⟨.sequence (items.map tree), depthOver items, aliasesIn items⟩

/-- A mapping of nodes. -/
def mapping (entries : List (Node × Node)) : Node :=
  let nodes := entries.flatMap fun (key, value) => [key, value]
  ⟨.mapping (entries.map fun (key, value) => (key.tree, value.tree)), depthOver nodes, aliasesIn nodes⟩

/-- A node with a tag of its own. The format's own types of collections are known anyway. -/
def withTag (tag : Option String) (node : Node) : Node :=
  match tag.map String.toList with
  | some ['!'] => { node with tree := .tagged "!" node.tree }
  | some ('!' :: name) => { node with tree := .tagged (String.ofList name) node.tree }
  | _ => node

/-- A scalar with one of the format's own tags. Null keeps its tag if it stands between quotes,
and then is not the same as nothing. -/
def coreScalar (tag : String) (isPlain : Bool) (text : String) : Node :=
  match Scalar.ofTagged tag isPlain text.toList with
  | .null => if isPlain then leaf (.scalar text .null) else leaf (.tagged tag (.scalar text .null))
  | value => leaf (.scalar text value)

/-- A scalar with its tag. The tag of an exclamation mark alone says nothing. -/
def scalar (tag : Option String) (isPlain : Bool) (text : String) : Node :=
  let untagged := Tree.scalar text (if isPlain then .ofPlain text.toList else .string)
  match tag with
  | none => leaf untagged
  | some tag =>
    if tag = "!" then leaf untagged
    else if tag.toList.head? = some '!' then (leaf untagged).withTag (some tag)
    else coreScalar tag isPlain text

/-- A part of the layout that is left empty behind its tag. -/
def emptyWithTag (tag : Option String) : Node :=
  if tag = some "!" then empty.withTag tag else scalar tag true ""

/-- What an alias stands for inside of the tree that its anchor marks: nothing that can be
read. -/
def endless : Node := leaf (.sequence [.scalar "" .unreadable])

end Node

/-- The state of reading: the tokens to come, what the tag handles stand for, the numbers of the
anchors so far, and what the numbers mark with the newest first. A tree that is not complete is
missing. -/
structure Reader where
  tokens : List Token
  handles : List (String × String)
  numbers : List (String × Nat)
  marked : List (Nat × Option Node)

namespace Reader

/-- Pass one token. -/
def skip (reader : Reader) : Reader := { reader with tokens := reader.tokens.tail }

/-- The handles that every document knows. -/
def standardHandles : List (String × String) := [("!", "!"), ("!!", Scalar.coreTag)]

/-- The full tag of a handle and a suffix. -/
def fullTag? (reader : Reader) (handle suffix : String) : Option String :=
  if handle = "" then some suffix else (reader.handles.lookup handle).map (· ++ suffix)

/-- The anchor and the tag in front of a node. -/
structure Properties where
  anchor : Option String
  tag : Option String

/-- Read an anchor and a tag in either order, if they are there. -/
def takeProperties? (reader : Reader) : Option (Properties × Reader) :=
  match reader.tokens with
  | .anchor name :: .tag handle suffix :: tokens =>
    (reader.fullTag? handle suffix).map fun tag => (⟨some name, some tag⟩, { reader with tokens })
  | .tag handle suffix :: .anchor name :: tokens =>
    (reader.fullTag? handle suffix).map fun tag => (⟨some name, some tag⟩, { reader with tokens })
  | .anchor name :: tokens => some (⟨some name, none⟩, { reader with tokens })
  | .tag handle suffix :: tokens =>
    (reader.fullTag? handle suffix).map fun tag => (⟨none, some tag⟩, { reader with tokens })
  | _ => some (⟨none, none⟩, reader)

/-- Number an anchor whose tree is still to be read. -/
def number (reader : Reader) : Option String → Option Nat × Reader
  | none => (none, reader)
  | some name =>
    let number := reader.numbers.length
    (some number,
      { reader with
        numbers := (name, number) :: reader.numbers.filter (fun entry => entry.1 != name)
        marked := (number, none) :: reader.marked })

/-- Note the tree of a numbered anchor. -/
def mark (reader : Reader) (number : Option Nat) (node : Node) : Reader :=
  match number with
  | some number => { reader with marked := (number, some node) :: reader.marked }
  | none => reader

/-- The node an alias stands for. -/
def resolve? (reader : Reader) (name : String) : Option Node :=
  (reader.numbers.lookup name).map fun number =>
    let node := ((reader.marked.lookup number).bind id).getD .endless
    { node with aliases := node.aliases + 1 }

/-- Whether the next token ends the part of a block that could stand here. -/
def atBlockBoundary (reader : Reader) : Bool :=
  match reader.tokens with
  | .key :: _ | .value :: _ | .blockEnd :: _ => true
  | _ => false

/-- Whether the next token is the indicator of an item. -/
def atItem (reader : Reader) : Bool :=
  match reader.tokens with
  | .item :: _ => true
  | _ => false

/-- Whether the next token is the given one. -/
def isAt (reader : Reader) (token : Token) : Bool := reader.tokens.head? == some token

mutual

/-- Read a node. Block layout may not be allowed in it, and a sequence at the column of its key
only is where it is the value of that key. -/
def takeNode? (fuel : Nat) (inBlock indentless : Bool) (reader : Reader) : Option (Node × Reader) :=
  match fuel with
  | 0 => none
  | fuel + 1 =>
    match reader.tokens with
    | .reference name :: _ => (reader.resolve? name).map fun node => (node, reader.skip)
    | _ => do
      let (properties, reader) ← reader.takeProperties?
      let (number, opened) := reader.number properties.anchor
      let (node, reader) ←
        match reader.tokens with
        | .scalar text isPlain :: _ => some (Node.scalar properties.tag isPlain text, opened.skip)
        | .flowSequence :: _ => do
          let (items, reader) ← takeFlowItems? fuel true opened.skip
          some ((Node.sequence items).withTag properties.tag, reader)
        | .flowMapping :: _ => do
          let (entries, reader) ← takeFlowEntries? fuel true opened.skip
          some ((Node.mapping entries).withTag properties.tag, reader)
        | .blockSequence :: _ =>
          if inBlock then do
            let (items, reader) ← takeItems? fuel false opened.skip
            some ((Node.sequence items).withTag properties.tag, reader)
          else none
        | .blockMapping :: _ =>
          if inBlock then do
            let (entries, reader) ← takeEntries? fuel opened.skip
            some ((Node.mapping entries).withTag properties.tag, reader)
          else none
        | .item :: _ =>
          if indentless then do
            let (items, reader) ← takeItems? fuel true opened
            some ((Node.sequence items).withTag properties.tag, reader)
          else if properties.anchor.isSome || properties.tag.isSome then
            some (Node.emptyWithTag properties.tag, opened)
          else none
        | _ =>
          if properties.anchor.isSome || properties.tag.isSome then
            some (Node.emptyWithTag properties.tag, opened)
          else none
      some (node, reader.mark number node)

/-- Read the items of a sequence in block layout. One at the column of its key has no token at
its end. -/
def takeItems? (fuel : Nat) (indentless : Bool) (reader : Reader) :
    Option (List Node × Reader) :=
  match fuel with
  | 0 => none
  | fuel + 1 =>
    match reader.tokens with
    | .item :: _ => do
      let reader := reader.skip
      let isEmpty :=
        reader.atItem || if indentless then reader.atBlockBoundary else reader.isAt .blockEnd
      let (node, reader) ←
        if isEmpty then some (Node.empty, reader) else takeNode? fuel true false reader
      let (nodes, reader) ← takeItems? fuel indentless reader
      some (node :: nodes, reader)
    | .blockEnd :: _ => if indentless then some ([], reader) else some ([], reader.skip)
    | _ => if indentless then some ([], reader) else none

/-- Read the entries of a mapping in block layout. -/
def takeEntries? (fuel : Nat) (reader : Reader) : Option (List (Node × Node) × Reader) :=
  match fuel with
  | 0 => none
  | fuel + 1 =>
    match reader.tokens with
    | .key :: _ => do
      let reader := reader.skip
      let (key, reader) ←
        if reader.atBlockBoundary then some (Node.empty, reader) else takeNode? fuel true true reader
      let (value, reader) ← takeValue? fuel reader
      let (entries, reader) ← takeEntries? fuel reader
      some ((key, value) :: entries, reader)
    | .value :: _ => none
    | .blockEnd :: _ => some ([], reader.skip)
    | _ => none

/-- Read the value of an entry in block layout, if there is one. -/
def takeValue? (fuel : Nat) (reader : Reader) : Option (Node × Reader) :=
  match fuel with
  | 0 => none
  | fuel + 1 =>
    if reader.isAt .value then
      let reader := reader.skip
      if reader.atBlockBoundary then some (Node.empty, reader) else takeNode? fuel true true reader
    else some (Node.empty, reader)

/-- Read the items of a sequence in flow layout. An item may be a mapping of one entry. -/
def takeFlowItems? (fuel : Nat) (isFirst : Bool) (reader : Reader) : Option (List Node × Reader) :=
  match fuel with
  | 0 => none
  | fuel + 1 =>
    if reader.isAt .flowSequenceEnd then some ([], reader.skip)
    else if !isFirst && !reader.isAt .separator then none
    else
      let reader := if isFirst then reader else reader.skip
      if reader.isAt .flowSequenceEnd then some ([], reader.skip)
      else do
        let (node, reader) ←
          if reader.isAt .key then takePair? fuel reader.skip else takeNode? fuel false false reader
        let (nodes, reader) ← takeFlowItems? fuel false reader
        some (node :: nodes, reader)

/-- Read a mapping of one entry in a sequence in flow layout. Where the key is left out, what
stands in its place is passed over. -/
def takePair? (fuel : Nat) (reader : Reader) : Option (Node × Reader) :=
  match fuel with
  | 0 => none
  | fuel + 1 => do
    let noKey := reader.isAt .value || reader.isAt .separator || reader.isAt .flowSequenceEnd
    let (key, reader) ←
      if noKey then some (Node.empty, reader.skip) else takeNode? fuel false false reader
    let (value, reader) ←
      if reader.isAt .value then
        let reader := reader.skip
        if reader.isAt .separator || reader.isAt .flowSequenceEnd then some (Node.empty, reader)
        else takeNode? fuel false false reader
      else some (Node.empty, reader)
    some (Node.mapping [(key, value)], reader)

/-- Read the entries of a mapping in flow layout. A key may stand without a value. -/
def takeFlowEntries? (fuel : Nat) (isFirst : Bool) (reader : Reader) :
    Option (List (Node × Node) × Reader) :=
  match fuel with
  | 0 => none
  | fuel + 1 =>
    if reader.isAt .flowMappingEnd then some ([], reader.skip)
    else if !isFirst && !reader.isAt .separator then none
    else
      let reader := if isFirst then reader else reader.skip
      if reader.isAt .flowMappingEnd then some ([], reader.skip)
      else do
        let ends := fun reader : Reader => reader.isAt .separator || reader.isAt .flowMappingEnd
        let (key, value, reader) ←
          if reader.isAt .key then do
            let reader := reader.skip
            let (key, reader) ←
              if reader.isAt .value || ends reader then some (Node.empty, reader)
              else takeNode? fuel false false reader
            let (value, reader) ←
              if reader.isAt .value then
                let reader := reader.skip
                if ends reader then some (Node.empty, reader) else takeNode? fuel false false reader
              else some (Node.empty, reader)
            some (key, value, reader)
          else do
            let (key, reader) ← takeNode? fuel false false reader
            some (key, Node.empty, reader)
        let (entries, reader) ← takeFlowEntries? fuel false reader
        some ((key, value) :: entries, reader)

end

/-- Read the directives in front of a document. The version comes at most once and must be one
that is known; a handle is given a meaning at most once. -/
def takeDirectives? (versioned : Bool) (handles : List (String × String)) :
    List Token → Option (List (String × String) × List Token)
  | .version major minor :: tokens =>
    if versioned || major != 1 || (minor != 1 && minor != 2) then none
    else takeDirectives? true handles tokens
  | .tagPrefix handle start :: tokens =>
    if (handles.lookup handle).isSome then none
    else takeDirectives? versioned ((handle, start) :: handles) tokens
  | tokens => some (handles, tokens)

/-- Whether nothing but ends of documents is left. -/
def isOver (reader : Reader) : Bool := reader.tokens.all (· == .documentEnd)

/-- Read the only document, if its content is left out, it is null. -/
def takeDocument? (tokens : List Token) : Option Node := do
  let (handles, rest) ← takeDirectives? false [] tokens
  let start := fun tokens => Reader.mk tokens (handles ++ standardHandles) [] []
  let fuel := 4 * tokens.length + 4
  match rest with
  | .documentStart :: content =>
    match content with
    | [] => some Node.empty
    | .version .. :: _ | .tagPrefix .. :: _ | .documentStart :: _ => none
    | .documentEnd :: _ => if (start content).isOver then some Node.empty else none
    | _ => do
      let (node, reader) ← takeNode? fuel true false (start content)
      if reader.isOver then some node else none
  | [] => if tokens = [] then some Node.empty else none
  | _ =>
    if rest.length < tokens.length then none
    else do
      let (node, reader) ← takeNode? fuel true false (start rest)
      if reader.isOver then some node else none

end Reader

namespace Tree

/-- The document of a text with its sizes. -/
def readNode? (text : String) : Option Node :=
  (Token.ofChars? text.toList).bind Reader.takeDocument?

/-- The tree of a text. -/
def read? (text : String) : Option Tree := (readNode? text).map Node.tree

/-- The tree of a text, if it is sound and its sizes are bounded. -/
def readSound? (text : String) : Option Tree :=
  match readNode? text with
  | some node =>
    if node.depth ≤ 128 && node.aliases ≤ 100 * text.length && node.tree.isSound then some node.tree
    else none
  | none => none

end Tree

end PlcTypes.Yaml
