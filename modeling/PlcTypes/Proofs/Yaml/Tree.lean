import Mathlib.Logic.Basic
import PlcTypes.Yaml.Codec

/-!
# Equality of document trees

Trees can be compared, so that for a given tree it can be found out whether its print gives it
back.
-/

namespace PlcTypes.Yaml

namespace Tree

mutual

/-- Equality of trees is decidable. -/
def decEqTree : (tree tree' : Tree) → Decidable (tree = tree')
  | scalar text value, scalar text' value' =>
    decidable_of_iff (text = text' ∧ value = value') (by simp)
  | sequence items, sequence items' =>
    have := decEqItems items items'
    decidable_of_iff (items = items') (by simp)
  | mapping entries, mapping entries' =>
    have := decEqEntries entries entries'
    decidable_of_iff (entries = entries') (by simp)
  | tagged tag content, tagged tag' content' =>
    have := decEqTree content content'
    decidable_of_iff (tag = tag' ∧ content = content') (by simp)
  | scalar .., sequence .. | scalar .., mapping .. | scalar .., tagged ..
  | sequence .., scalar .. | sequence .., mapping .. | sequence .., tagged ..
  | mapping .., scalar .. | mapping .., sequence .. | mapping .., tagged ..
  | tagged .., scalar .. | tagged .., sequence .. | tagged .., mapping .. => isFalse nofun

/-- Equality of lists of trees is decidable. -/
def decEqItems : (items items' : List Tree) → Decidable (items = items')
  | [], [] => isTrue rfl
  | item :: items, item' :: items' =>
    have := decEqTree item item'
    have := decEqItems items items'
    decidable_of_iff (item = item' ∧ items = items') (by simp)
  | [], _ :: _ | _ :: _, [] => isFalse nofun

/-- Equality of lists of entries is decidable. -/
def decEqEntries : (entries entries' : List (Tree × Tree)) → Decidable (entries = entries')
  | [], [] => isTrue rfl
  | (key, value) :: entries, (key', value') :: entries' =>
    have := decEqTree key key'
    have := decEqTree value value'
    have := decEqEntries entries entries'
    decidable_of_iff ((key = key' ∧ value = value') ∧ entries = entries') (by simp)
  | [], _ :: _ | _ :: _, [] => isFalse nofun

end

instance : DecidableEq Tree := decEqTree

end Tree

namespace Codec

variable (codec : Codec) (tree : Tree)

instance : Decidable (codec.ReadsBack tree) :=
  inferInstanceAs (Decidable (codec.read? (codec.print tree) = some tree))

instance : Decidable (codec.ReadsBackSound tree) :=
  inferInstanceAs (Decidable (codec.readSound? (codec.print tree) = some tree))

end Codec

end PlcTypes.Yaml
