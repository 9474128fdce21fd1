import PlcTypes.Proofs.Definition

/-!
# Members pushed one after the other

Every importer and the codec push the members they read in their order, whatever names come twice. A
name keeps the place at which it came first and ends up with the member that came last. Both follow
from what a single push does to the names and to the member of a name.
-/

namespace PlcTypes

/-- A name has the member that was put in last under it, whatever names the others have. -/
theorem find?_putMember (member : Member) (members : List Member) (name : String) :
    (putMember member members).find? (fun other => other.name == name) =
      if member.name = name then some member else members.find? fun other => other.name == name := by
  induction members with
  | nil =>
    rw [putMember]
    by_cases hname : member.name = name
    · rw [if_pos hname, List.find?_cons_of_pos (by simpa using hname)]
    · rw [if_neg hname, List.find?_cons_of_neg (by simpa using hname)]
  | cons first others ih =>
    rw [putMember]
    by_cases htaken : first.name = member.name
    · rw [if_pos htaken]
      by_cases hname : member.name = name
      · rw [if_pos hname, List.find?_cons_of_pos (by simpa using hname)]
      · rw [if_neg hname, List.find?_cons_of_neg (by simpa using hname),
          List.find?_cons_of_neg (by simpa [htaken] using hname)]
    · rw [if_neg htaken]
      by_cases hfirst : first.name = name
      · have hother : member.name ≠ name := fun heq => htaken (hfirst.trans heq.symm)
        rw [if_neg hother, List.find?_cons_of_pos (by simpa using hfirst),
          List.find?_cons_of_pos (by simpa using hfirst)]
      · rw [List.find?_cons_of_neg (by simpa using hfirst),
          List.find?_cons_of_neg (by simpa using hfirst), ih]

section Names

variable {names others : List String} {name : String}

/-- A list without repetitions has none to erase. -/
theorem eraseDups_of_nodup (h : names.Nodup) : names.eraseDups = names := by
  induction names with
  | nil => rfl
  | cons first rest ih =>
    obtain ⟨hfirst, hrest⟩ := List.nodup_cons.mp h
    have hkept : rest.filter (fun other => !other == first) = rest := by
      rw [List.filter_eq_self]
      intro other hmem
      simpa using ne_of_mem_of_not_mem hmem hfirst
    rw [List.eraseDups_cons, hkept, ih hrest]

/-- A name that comes again does not count. -/
theorem eraseDups_append_cons_of_mem (h : name ∈ names) :
    (names ++ name :: others).eraseDups = (names ++ others).eraseDups := by
  have hcontains : names.contains name = true := List.contains_iff_mem.mpr h
  rw [List.eraseDups_append, List.eraseDups_append, List.cons_removeAll, hcontains]
  rfl

end Names

namespace Definition

/-- Pushing a member gives it to its name and leaves the members of all other names. -/
theorem member?_push (d : Definition) (member : Member) (name : String) :
    (d.push member).member? name = if member.name = name then some member else d.member? name :=
  find?_putMember member d.members name

/-- Of the members that are pushed, the last one of a name decides. -/
theorem member?_pushAll (d : Definition) (members : List Member) (name : String) :
    (d.pushAll members).member? name =
      (members.findRev? fun member => member.name == name).or (d.member? name) := by
  induction members generalizing d with
  | nil => rfl
  | cons member others ih =>
    change ((d.push member).pushAll others).member? name = _
    rw [ih, member?_push, List.findRev?]
    cases others.findRev? fun member => member.name == name with
    | some later => rfl
    | none =>
      by_cases hname : member.name = name
      · simp [hname]
      · simp [hname]

/-- Names stand in the order in which they came first. -/
theorem names_pushAll {d : Definition} (h : d.HasDistinctNames) (members : List Member) :
    (d.pushAll members).members.map Member.name =
      (d.members.map Member.name ++ members.map Member.name).eraseDups := by
  induction members generalizing d with
  | nil =>
    rw [List.map_nil, List.append_nil, eraseDups_of_nodup h]
    rfl
  | cons member others ih =>
    change ((d.push member).pushAll others).members.map Member.name = _
    rw [ih (h.push member), push, names_putMember, List.map_cons]
    by_cases htaken : member.name ∈ d.members.map Member.name
    · rw [if_pos htaken, eraseDups_append_cons_of_mem htaken]
    · rw [if_neg htaken, List.append_assoc, List.singleton_append]

/-- Members that are pushed one after the other leave the name and the description of a definition. Its
names are the old and the new ones in the order in which they came first, each of them once. The member
of a name is the last one pushed under it, and if there is none the one the definition had, if any. -/
theorem first_place_last_member {d : Definition} (h : d.HasDistinctNames) (members : List Member) :
    (d.pushAll members).name = d.name ∧ (d.pushAll members).description = d.description ∧
      (d.pushAll members).HasDistinctNames ∧
      (d.pushAll members).members.map Member.name =
        (d.members.map Member.name ++ members.map Member.name).eraseDups ∧
      ∀ name, (d.pushAll members).member? name =
        (members.findRev? fun member => member.name == name).or (d.member? name) := by
  obtain ⟨hname, hdescription, hdistinct, -⟩ := pushAll_spec h members
  exact ⟨hname, hdescription, hdistinct, names_pushAll h members, d.member?_pushAll members⟩

/-- A member that holds a number. -/
def gauge (name : String) (value : Int64) : Member :=
  .of name (.scalar .int) (some (.int value)) ""

/-- A panel with two gauges. -/
def panel : Definition := ⟨"Panel", "front", [gauge "speed" 1, gauge "load" 2]⟩

/-- The old gauges keep their places, and the gauges pushed last hold the numbers. -/
theorem panel_first_place_last_member :
    let pushed := [gauge "heat" 3, gauge "speed" 4, gauge "heat" 5]
    panel.HasDistinctNames ∧ (panel.pushAll pushed).name = "Panel" ∧
      (panel.pushAll pushed).description = "front" ∧
      (panel.pushAll pushed).members.map Member.name = ["speed", "load", "heat"] ∧
      (panel.pushAll pushed).member? "speed" = some (gauge "speed" 4) ∧
      (panel.pushAll pushed).member? "load" = some (gauge "load" 2) ∧
      (panel.pushAll pushed).member? "heat" = some (gauge "heat" 5) ∧
      (panel.pushAll pushed).member? "level" = none := by
  have hpanel : panel.HasDistinctNames := by decide
  obtain ⟨hname, hdescription, -, hnames, hmember⟩ :=
    first_place_last_member hpanel [gauge "heat" 3, gauge "speed" 4, gauge "heat" 5]
  refine ⟨hpanel, hname, hdescription, ?_, ?_, ?_, ?_, ?_⟩
  · rw [hnames]
    decide
  all_goals
    rw [hmember]
    decide

end Definition

end PlcTypes
