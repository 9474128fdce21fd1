/-!
# Tokens of YAML

A document is cut into indicators, properties and scalars. Block layout has tokens of its own
where the indentation opens and closes a sequence or a mapping.
-/

namespace PlcTypes.Yaml

/-- A token. A plain scalar is told apart from one with quotes or in a block. -/
inductive Token where
  | version (major minor : Nat)
  | tagPrefix (handle start : String)
  | documentStart
  | documentEnd
  | blockSequence
  | blockMapping
  | blockEnd
  | flowSequence
  | flowSequenceEnd
  | flowMapping
  | flowMappingEnd
  | item
  | separator
  | key
  | value
  | reference (name : String)
  | anchor (name : String)
  | tag (handle suffix : String)
  | scalar (text : String) (isPlain : Bool)
  deriving DecidableEq, Repr

end PlcTypes.Yaml
