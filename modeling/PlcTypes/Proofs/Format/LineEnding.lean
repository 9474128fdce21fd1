import PlcTypes.Format.Siemens
import PlcTypes.Proofs.Format.Beckhoff
import PlcTypes.Proofs.StructuredText.LineEnding
import PlcTypes.Proofs.TypeSpelling

/-!
# Imports and line endings

A carriage return is white space as the line feed behind it is, and no name, type or bare value goes on
over it. So the head of the declaration is found at the same place whatever the line ends, the same
members are declared, and the description has the same words. Only the block comment of a Siemens source
keeps its line ends, until its text is folded.
-/

namespace PlcTypes

open Text StructuredText

/-- The text with its lines ended by a carriage return and a line feed. -/
def withCarriageReturns (text : String) : String := String.ofList (withReturns text.toList)

/-- The definition with its description on one line. -/
def Definition.folded (d : Definition) : Definition := { d with description := oneLine d.description }

/-- The description of a definition without members is put on one line. -/
theorem Definition.folded_bare (name description : String) :
    (Definition.bare name description).folded = .bare name (oneLine description) := rfl

/-- Members are pushed whatever the description is. -/
theorem Definition.folded_pushAll (d : Definition) (members : List Member) :
    (d.pushAll members).folded = d.folded.pushAll members := by
  induction members generalizing d with
  | nil => rfl
  | cons member others ih => exact ih (d.push member)

namespace Beckhoff

/-- The head of a type declaration is read whatever the line ends. -/
theorem head?_withReturns (previous : Option Char) (text : List Char) :
    head? previous (withReturns text) =
      (head? previous text).map fun (name, rest) => (name, withReturns rest) := by
  have hspace : isSpace '\r' = isSpace '\n' := by decide
  rw [head?, head?, keywordAfter?_withReturns (by decide) (by decide)]
  cases keywordAfter? previous "TYPE".toList text with
  | none => rfl
  | some behind =>
    simp only [Option.map_some, bind, Option.bind_some, startsWithSpace_withReturns]
    split
    · rw [dropWhile_withReturns hspace, takeIdentifier?_withReturns]
      cases takeIdentifier? (behind.dropWhile isSpace) with
      | none => rfl
      | some parts =>
        simp only [Option.map_some, Option.bind_some, dropWhile_withReturns hspace]
        rw [after?_withReturns (by decide) (by decide)]
        cases after? [':'] (parts.2.dropWhile isSpace) <;> rfl
    · rfl

/-- No head of a type declaration starts at a line end. -/
theorem head?_lineEnd {c : Char} (hc : c ∈ ['\r', '\n']) (previous : Option Char) (text : List Char) :
    head? previous (c :: text) = none := by
  rw [head?, keywordAfter?_lineEnd (by decide) (by decide) (by decide) hc]
  rfl

/-- The description of a type is the same whatever the line ends. -/
theorem findDescription_withReturns (before body : List Char) :
    findDescription (withReturns before) (withReturns body) = findDescription before body := by
  have hline : (afterEnd? (withReturns body)).bind firstLine? = (afterEnd? body).bind firstLine? := by
    rw [afterEnd?_withReturns]
    cases afterEnd? body with
    | none => rfl
    | some rest => exact firstLine?_withReturns rest
  have hblock : (firstBlock? (withReturns before)).map foldLine = (firstBlock? before).map foldLine := by
    rw [firstBlock?_withReturns]
    cases firstBlock? before with
    | none => rfl
    | some comment => exact congrArg some (foldLine_withReturns comment)
  rw [findDescription, findDescription, hline, hblock]

/-- A data unit type is read the same whatever its line ends. -/
theorem parse_withReturns {text : String} (h : '\r' ∉ text.toList) :
    parse (withCarriageReturns text) = parse text := by
  have hfind := find?_withReturns (f := id) head?_withReturns (fun c hc => head?_lineEnd hc) none text.toList
  rw [parse, parse, Dialect.parse, Dialect.parse, withCarriageReturns, String.toList_ofList, hfind]
  cases hhit : find? head? none text.toList with
  | none => rfl
  | some hit =>
    obtain ⟨tail, htext, hhead⟩ := find?_spec hhit
    obtain ⟨-, -, head, -, rfl⟩ := head?_spec hhead
    have hrest : '\r' ∉ hit.rest := fun hmem => h (by simp [htext, hmem])
    simp only [Option.map_some, id_eq, dialect.readMembers_withReturns hrest, findDescription_withReturns]

end Beckhoff

namespace Siemens

/-- The head of a type source is read whatever the line ends, those in its name included. -/
theorem head?_withReturns (previous : Option Char) (text : List Char) :
    head? previous (withReturns text) =
      (head? previous text).map fun (name, rest) => (withReturns name, withReturns rest) := by
  rw [head?, head?, keywordAfter?_withReturns (by decide) (by decide)]
  cases keywordAfter? previous "TYPE".toList text with
  | none => rfl
  | some behind =>
    simp only [Option.map_some, bind, Option.bind_some, startsWithSpace_withReturns]
    split
    · rw [dropWhile_withReturns (by decide), after?_withReturns (by decide) (by decide)]
      cases after? ['"'] (behind.dropWhile isSpace) with
      | none => rfl
      | some quoted =>
        rw [Option.map_some, Option.bind_some, Option.bind_some,
          cut?_withReturns (by decide) (by decide) (by decide)]
        cases cut? ['"'] quoted with
        | none => rfl
        | some parts =>
          simp only [Option.map_some, Option.bind_some, withReturns_eq_nil_iff]
          split <;> rfl
    · rfl

/-- No head of a type source starts at a line end. -/
theorem head?_lineEnd {c : Char} (hc : c ∈ ['\r', '\n']) (previous : Option Char) (text : List Char) :
    head? previous (c :: text) = none := by
  rw [head?, keywordAfter?_lineEnd (by decide) (by decide) (by decide) hc]
  rfl

/-- What follows the head of a type source is the end of the text. -/
theorem suffix_of_head? {previous : Option Char} {text name rest : List Char}
    (h : head? previous text = some (name, rest)) : rest <:+ text := by
  simp only [head?, bind] at h
  obtain ⟨behind, hkeyword, h⟩ := Option.bind_eq_some_iff.mp h
  split at h
  · obtain ⟨quoted, hquote, h⟩ := Option.bind_eq_some_iff.mp h
    obtain ⟨⟨found, tail⟩, hcut, h⟩ := Option.bind_eq_some_iff.mp h
    dsimp only at h
    split at h
    · simp at h
    · obtain ⟨rfl, rfl⟩ : found = name ∧ tail = rest := by simpa using h
      have hquoted : tail <:+ quoted := ⟨found ++ ['"'], by rw [eq_of_cut? hcut, List.append_assoc]⟩
      have hbehind : behind <:+ text := ⟨_, (keywordAfter?_eq_some_iff.mp hkeyword).2.symm⟩
      exact hquoted.trans <| (after?_suffix hquote).trans <|
        (List.dropWhile_suffix isSpace).trans hbehind
  · simp at h

/-- The description of a type source is folded onto the same line whatever the line ends. -/
theorem description_withReturns (body : List Char) :
    foldLine (((afterEnd? (withReturns body)).bind firstBlock?).getD []) =
      foldLine (((afterEnd? body).bind firstBlock?).getD []) := by
  rw [afterEnd?_withReturns]
  cases afterEnd? body with
  | none => rfl
  | some rest =>
    rw [Option.map_some, Option.bind_some, Option.bind_some, firstBlock?_withReturns]
    cases firstBlock? rest with
    | none => rfl
    | some comment => exact foldLine_withReturns comment

/-- A type source with its name on one line is read as the same declaration whatever its line ends, and
its description is folded onto the same line. -/
theorem parse_withReturns {text : String} (h : '\r' ∉ text.toList)
    (hname : ∀ hit ∈ find? head? none text.toList, '\n' ∉ hit.found) :
    (parse (withCarriageReturns text)).map Definition.folded = (parse text).map Definition.folded := by
  have hfind := find?_withReturns head?_withReturns (fun c hc => head?_lineEnd hc) none text.toList
  rw [parse, parse, Dialect.parse, Dialect.parse, withCarriageReturns, String.toList_ofList, hfind]
  cases hhit : find? head? none text.toList with
  | none => rfl
  | some hit =>
    obtain ⟨tail, htext, hhead⟩ := find?_spec hhit
    have hrest : '\r' ∉ hit.rest := fun hmem =>
      h (htext ▸ List.mem_append_right _ ((suffix_of_head? hhead).subset hmem))
    simp only [Option.map_some, dialect.readMembers_withReturns hrest,
      withReturns_of_notMem (hname hit hhit)]
    cases dialect.readMembers hit.rest with
    | error e => rfl
    | ok members =>
      simp only [Except.map, Definition.folded_pushAll, Definition.folded_bare, oneLine,
        String.toList_ofList, description_withReturns]

end Siemens

/-- Line ends do not matter: a data unit type is read as the same definition, and a type source with its
name on one line as the same definition up to the line ends in its description. -/
theorem definition_of_carriageReturns {text : String} (h : '\r' ∉ text.toList) :
    Beckhoff.parse (withCarriageReturns text) = Beckhoff.parse text ∧
      ((∀ hit ∈ find? Siemens.head? none text.toList, '\n' ∉ hit.found) →
        (Siemens.parse (withCarriageReturns text)).map Definition.folded =
          (Siemens.parse text).map Definition.folded) :=
  ⟨Beckhoff.parse_withReturns h, Siemens.parse_withReturns h⟩

/-- A data unit type with a comment behind its member. -/
def valveUnit : String :=
  "TYPE Valve :\nSTRUCT\n\topen : BOOL := FALSE; // in use\nEND_STRUCT\nEND_TYPE\n// one two\n"

/-- A type source with a description on two lines. -/
def valveSource : String :=
  "TYPE \"Valve\"\nSTRUCT\n  open : Bool := false; // in use\nEND_STRUCT;\nEND_TYPE\n(* one\ntwo *)\n"

/-- Both descriptions of the valve are the same with carriage returns, the one on two lines when it is
folded. -/
theorem valve_of_carriageReturns :
    Beckhoff.parse (withCarriageReturns valveUnit) = Beckhoff.parse valveUnit ∧
    (Beckhoff.parse valveUnit).map Definition.description = .ok "one two" ∧
    (Siemens.parse (withCarriageReturns valveSource)).map Definition.folded =
      (Siemens.parse valveSource).map Definition.folded ∧
    (Siemens.parse valveSource).map Definition.description = .ok "one\ntwo" ∧
    (Siemens.parse (withCarriageReturns valveSource)).map Definition.description = .ok "one\r\ntwo" :=
  ⟨(definition_of_carriageReturns (show '\r' ∉ valveUnit.toList by decide)).1, by decide +kernel,
    (definition_of_carriageReturns (show '\r' ∉ valveSource.toList by decide)).2 (by decide),
    by decide +kernel, by decide +kernel⟩

end PlcTypes
