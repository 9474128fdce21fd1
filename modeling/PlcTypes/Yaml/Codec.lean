import PlcTypes.Yaml.Printer
import PlcTypes.Yaml.Reader

/-!
# Printing and reading document trees

What is made of documents depends on their trees alone. So the way a tree is printed and read is a
parameter: a printer and two readers, one for documents whose form is known, which may pass over
what it does not need, and one for documents of any form, which refuses a tree that is not sound.
The conditions under which a result holds of a codec are stated by name, and the standard codec is
the YAML of this library.
-/

namespace PlcTypes.Yaml

/-- A way to print trees and to read texts. -/
structure Codec where
  print : Tree → String
  read? : String → Option Tree
  readSound? : String → Option Tree

namespace Codec

/-- The printer and the readers of YAML. -/
def standard : Codec := ⟨Tree.print, Tree.read?, Tree.readSound?⟩

/-- The print of the tree is a document that reads back as the tree. -/
def ReadsBack (codec : Codec) (tree : Tree) : Prop := codec.read? (codec.print tree) = some tree

/-- The print of the tree reads back as the tree where a document may have any form. -/
def ReadsBackSound (codec : Codec) (tree : Tree) : Prop :=
  codec.readSound? (codec.print tree) = some tree

/-- Both readers see the same tree in a document of any form, and it is sound. -/
def ReadsAlike (codec : Codec) : Prop :=
  ∀ text tree, codec.readSound? text = some tree →
    codec.read? text = some tree ∧ tree.isSound = true

end Codec

end PlcTypes.Yaml
