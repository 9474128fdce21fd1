import PlcTypes.Proofs.Format.Beckhoff
import PlcTypes.Proofs.Format.Siemens
import PlcTypes.Proofs.StructuredText.Redeclaration

/-!
# Exporting what was imported

A definition that was read from structured text has a name that can be written again, and all its
members can be declared again, unless an initial value is a text that only quotes would hold
together. Quotes are read for a member of any type and written for members of the text type alone.
So the export may have a line for a member of another type that no longer declares it.
-/

namespace PlcTypes

open Text StructuredText

/-- A definition that was read from a type source is read back from the type source that is written
for it if its texts can stand there. -/
theorem Siemens.parse_generate_of_parse {text : String} {d : Definition} (h : parse text = .ok d)
    (htexts : d.HasDeclarableTexts) :
    ∃ description, parse (generate d) = .ok ⟨d.name, description, d.members.map folded⟩ := by
  obtain ⟨hit, members, description, hfind, hread, rfl⟩ := Dialect.exists_of_parse h
  obtain ⟨tail, -, hhead⟩ := find?_spec hfind
  obtain ⟨hne, hquote⟩ := name_of_head? hhead
  obtain ⟨hname, hdistinct, hmembers⟩ := conforms.canDeclare_of_pushAll hread htexts
  refine parse_generate_of_canDeclare ?_ ?_ hdistinct hmembers
  · rwa [hname, String.toList_ofList]
  · rwa [hname, String.toList_ofList]

/-- A definition that was read from a data unit type is read back from the data unit type that is
written for it if its texts can stand there. -/
theorem Beckhoff.parse_generate_of_parse {text : String} {d : Definition} (h : parse text = .ok d)
    (htexts : d.HasDeclarableTexts) :
    ∃ description, parse (generate d) = .ok ⟨d.name, description, d.members.map folded⟩ := by
  obtain ⟨hit, members, description, hfind, hread, rfl⟩ := Dialect.exists_of_parse h
  obtain ⟨tail, -, hhead⟩ := find?_spec hfind
  obtain ⟨-, hidentifier, -⟩ := head?_spec hhead
  obtain ⟨hname, hdistinct, hmembers⟩ := conforms.canDeclare_of_pushAll hread htexts
  refine parse_generate_of_canDeclare ?_ hdistinct hmembers
  rwa [hname, String.toList_ofList]

/-- What was imported as structured text is exported with all its members, with their types and initial
values and with their descriptions on one line, if its texts can stand in a declaration. -/
theorem reexport_keeps_members {d : Definition} (htexts : d.HasDeclarableTexts) (text : String) :
    (Siemens.parse text = .ok d → ∃ description,
      Siemens.parse (Siemens.generate d) = .ok ⟨d.name, description, d.members.map folded⟩) ∧
    (Beckhoff.parse text = .ok d → ∃ description,
      Beckhoff.parse (Beckhoff.generate d) = .ok ⟨d.name, description, d.members.map folded⟩) :=
  ⟨fun h => Siemens.parse_generate_of_parse h htexts,
    fun h => Beckhoff.parse_generate_of_parse h htexts⟩

/-- A type declaration with a quoted text for a member of a type that is only a name here. -/
def noteSource (name text : String) : String :=
  "TYPE " ++ name ++ " :\nSTRUCT\n\ttitle : WSTRING := '" ++ text ++
    "'; // shown\n\tnext : UDINT;\nEND_STRUCT\nEND_TYPE\n"

/-- The definition of the note. -/
def note (text : String) : Definition where
  name := "ST_Note"
  description := ""
  members := [⟨"title", .named "WSTRING", some (.text text), "shown"⟩, ⟨"next", .named "UDINT", none, ""⟩]

/-- A note with a plain text is exported with both its members. -/
theorem reexport_note :
    (Siemens.parse (noteSource "\"ST_Note\"" "on hold") = .ok (note "on hold") ∧
      ∃ description, Siemens.parse (Siemens.generate (note "on hold")) =
        .ok ⟨"ST_Note", description, (note "on hold").members⟩) ∧
    (Beckhoff.parse (noteSource "ST_Note" "on hold") = .ok (note "on hold") ∧
      ∃ description, Beckhoff.parse (Beckhoff.generate (note "on hold")) =
        .ok ⟨"ST_Note", description, (note "on hold").members⟩) := by
  have hsiemens : Siemens.parse (noteSource "\"ST_Note\"" "on hold") = .ok (note "on hold") := by
    decide +kernel
  have hbeckhoff : Beckhoff.parse (noteSource "ST_Note" "on hold") = .ok (note "on hold") := by
    decide +kernel
  have htexts : (note "on hold").HasDeclarableTexts := by
    intro member hmem value hvalue
    simp only [note, List.mem_cons, List.not_mem_nil, or_false] at hmem
    rcases hmem with rfl | rfl
    · obtain rfl : "on hold" = value := by simpa using hvalue
      decide
    · simp at hvalue
  exact ⟨⟨hsiemens, (reexport_keeps_members htexts _).1 hsiemens⟩,
    ⟨hbeckhoff, (reexport_keeps_members htexts _).2 hbeckhoff⟩⟩

/-- A note with a semicolon in its text is exported with a line that declares nothing, so the member
is lost. -/
theorem reexport_drops_member :
    Beckhoff.parse (noteSource "ST_Note" "wait; then go") = .ok (note "wait; then go") ∧
      Beckhoff.parse (Beckhoff.generate (note "wait; then go")) =
        .ok ⟨"ST_Note", "", [⟨"next", .named "UDINT", none, ""⟩]⟩ := by
  decide +kernel

end PlcTypes
