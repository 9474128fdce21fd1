import PlcTypes.Proofs.Number.Integer
import PlcTypes.Proofs.Text.Search
import PlcTypes.StateMachine.Code

/-!
# State machine code reads back

With the path of the instance known, every line of a program says by its own words what it is: a
label, the guard of a branch, an assignment or the clearing of a command. The lines are then put
together by the grammar of the program, in which a label is followed by one IF statement, and that
goes on with ELSIF. What the code of a machine reads back as is the table of its transitions,
whatever the instance is called, as long as its name stays on a line.
-/

namespace PlcTypes.StateMachine

open Text Number

/-- What a branch sets. -/
inductive Assignment where
  | state (code : Nat)
  | stateName (name : String)
  | subState (value : Nat)
  deriving DecidableEq, Repr

/-- How a branch starts: as the first one of its statement or as a further one. -/
inductive Keyword where
  | ifWord
  | elsifWord
  deriving DecidableEq, Repr

/-- What a line of a program says. Blank lines and comments are notes. -/
inductive Line where
  | note
  | caseStart
  | label (code : Nat)
  | branch (keyword : Keyword) (guard : Guard)
  | assign (assignment : Assignment)
  | branchesEnd
  | casesEnd
  | clear (command : Command)
  | unknown
  deriving DecidableEq, Repr

/-- A branch of an IF statement. -/
structure Branch where
  guard : Guard
  body : List Assignment
  deriving DecidableEq, Repr

/-- A case with the branches of its IF statement. -/
structure Case where
  label : Nat
  branches : List Branch
  deriving DecidableEq, Repr

/-- A program: a case distinction by the state number, and the commands cleared behind it. -/
structure Program where
  cases : List Case
  clears : List Command
  deriving DecidableEq, Repr

/-- What a branch for a transition does. -/
def Branch.of (transition : Transition) : Branch :=
  ⟨transition.guard, [.state transition.target.code, .stateName transition.target.name, .subState 0]⟩

/-- The case of a state. -/
def Case.of (state : State) : Case := ⟨state.code, (transitionsFrom state).map Branch.of⟩

/-- The lines of a branch. -/
def Branch.lines (keyword : Keyword) (branch : Branch) : List Line :=
  .branch keyword branch.guard :: branch.body.map .assign

/-- The lines of the branches of a case. -/
def branchLinesRead : List Branch → List Line
  | [] => []
  | first :: others => first.lines .ifWord ++ others.flatMap (Branch.lines .elsifWord)

/-- The lines of a case. -/
def Case.lines (c : Case) : List Line :=
  .label c.label :: (branchLinesRead c.branches ++ [.branchesEnd])

section Lines

/-- A text without the spaces in front. -/
def dropSpaces (text : List Char) : List Char := text.dropWhile (· == ' ')

/-- Whether a text is blank or a comment. -/
def isNote (text : List Char) : Bool :=
  let text := dropSpaces text
  text.isEmpty || "//".toList.isPrefixOf text ||
    "(*".toList.isPrefixOf text && "*)".toList.isSuffixOf text

/-- What follows the path of the instance and a dot. -/
def memberOf? (path text : List Char) : Option (List Char) :=
  after? (dropSpaces path ++ ['.']) (dropSpaces text)

/-- A run of characters that is followed by a mark, and that by a note. -/
def runBefore? (p : Char → Bool) (mark text : List Char) : Option (List Char) :=
  (after? mark (text.dropWhile p)).bind fun rest =>
    if isNote rest then some (text.takeWhile p) else none

/-- A number in front of a mark. -/
def numberBefore? (mark text : List Char) : Option Nat :=
  (runBefore? Char.isDigit mark text).bind (readDigits 10)

/-- The command of a name. -/
def Command.ofName? (name : List Char) : Option Command :=
  Command.all.find? fun command => command.name.toList == name

/-- A command in front of a mark. -/
def commandBefore? (mark text : List Char) : Option Command :=
  (runBefore? Char.isAlpha mark text).bind Command.ofName?

/-- A statement about a part of the instance. -/
def statement? (text : List Char) : Option Line :=
  ((after? "Status.State := ".toList text).bind fun rest =>
    (numberBefore? [';'] rest).map fun code => .assign (.state code)) <|>
  ((after? "Status.StateName := '".toList text).bind fun rest =>
    (runBefore? (· != '\'') ['\'', ';'] rest).map fun name =>
      .assign (.stateName (String.ofList name))) <|>
  ((after? "Status.SubState := ".toList text).bind fun rest =>
    (numberBefore? [';'] rest).map fun value => .assign (.subState value)) <|>
  ((after? "Command.".toList text).bind fun rest =>
    (commandBefore? " := FALSE;".toList rest).map .clear)

/-- A guard about a part of the instance. -/
def guard? (text : List Char) : Option Guard :=
  ((after? "Command.".toList text).bind fun rest =>
    (commandBefore? " THEN".toList rest).map .command) <|>
  ((after? "Status.SubState = ".toList text).bind fun rest =>
    (numberBefore? " THEN".toList rest).bind fun value =>
      if value = completeCode then some .complete else none)

/-- Whether a character is one of a keyword. -/
def isKeywordChar (c : Char) : Bool := c.isUpper || c == '_'

/-- A line that does not start with the instance. -/
def structure? (path text : List Char) : Option Line :=
  let rest := text.dropWhile isKeywordChar
  match String.ofList (text.takeWhile isKeywordChar) with
  | "CASE" => (memberOf? path rest).bind fun rest =>
      if rest = "Status.State OF".toList then some .caseStart else none
  | "IF" => ((memberOf? path rest).bind guard?).map (.branch .ifWord)
  | "ELSIF" => ((memberOf? path rest).bind guard?).map (.branch .elsifWord)
  | "END_IF" => if rest = [';'] then some .branchesEnd else none
  | "END_CASE" => if rest = [';'] then some .casesEnd else none
  | _ => (numberBefore? [':'] text).map .label <|> if isNote text then some .note else none

/-- What a line of a program says about the instance with a path. -/
def Line.of (path text : List Char) : Line :=
  (match memberOf? path text with
    | some rest => statement? rest
    | none => structure? path (dropSpaces text)).getD .unknown

/-- Spaces are dropped up to a character that is none. -/
theorem dropSpaces_append_cons (text rest : List Char) {c : Char} (hc : c ≠ ' ') :
    dropSpaces (text ++ c :: rest) = dropSpaces text ++ c :: rest := by
  induction text with
  | nil => simp [dropSpaces, hc]
  | cons d text ih =>
    by_cases hd : d = ' '
    · simpa [dropSpaces, hd] using ih
    · simp [dropSpaces, hd]

/-- Spaces in front are dropped. -/
theorem dropSpaces_append {spaces : List Char} (text : List Char) (h : ∀ c ∈ spaces, c = ' ') :
    dropSpaces (spaces ++ text) = dropSpaces text :=
  List.dropWhile_append_of_pos fun c hc => beq_iff_eq.mpr (h c hc)

/-- Spaces are no dots. -/
theorem count_dropSpaces (text : List Char) : (dropSpaces text).count '.' = text.count '.' := by
  induction text with
  | nil => rfl
  | cons c text ih =>
    by_cases hc : c = ' '
    · simpa [dropSpaces, hc] using ih
    · simp [dropSpaces, hc]

/-- What follows the path of the instance, with spaces in front of it. -/
theorem memberOf?_append (spaces path rest : List Char) (h : ∀ c ∈ spaces, c = ' ') :
    memberOf? path (spaces ++ (path ++ '.' :: rest)) = some rest := by
  rw [memberOf?, dropSpaces_append _ h, dropSpaces_append_cons _ _ (by decide),
    after?_eq_some_iff, List.append_assoc, List.singleton_append]

/-- A text without a dot says nothing about a part of the instance. -/
theorem memberOf?_of_notMem (path : List Char) {text : List Char} (h : '.' ∉ text) :
    memberOf? path text = none := by
  rw [memberOf?, after?_eq_none_iff]
  intro hstarts
  have hdot : '.' ∈ dropSpaces text := hstarts.subset (by simp)
  exact h ((List.dropWhile_suffix _).subset hdot)

/-- A text does not start with the path of the instance if the path stands behind a word. The
start of the text has no more dots than the path, so it cannot be the path and a dot. -/
theorem memberOf?_eq_none {path text start rest : List Char} (htext : dropSpaces text = start ++ rest)
    (hlength : path.length < start.length) (hdots : start.count '.' ≤ path.count '.') :
    memberOf? path text = none := by
  rw [memberOf?, htext, after?_eq_none_iff]
  intro hstarts
  have hshort : (dropSpaces path ++ ['.']).length ≤ start.length := by
    have := length_dropWhile_le (· == ' ') path
    rw [List.length_append, List.length_singleton, dropSpaces]
    omega
  have hstart := List.prefix_of_prefix_length_le hstarts (List.prefix_append _ _) hshort
  have hcount := hstart.sublist.count_le '.'
  rw [List.count_append, List.count_singleton_self, count_dropSpaces] at hcount
  omega

/-- A text does not start with the path of the instance if that stands behind a keyword. -/
theorem memberOf?_behind_word {path text word rest : List Char}
    (htext : dropSpaces text = word ++ ' ' :: (path ++ '.' :: rest)) (hword : '.' ∉ word) :
    memberOf? path text = none := by
  refine memberOf?_eq_none (htext.trans (List.append_assoc word (' ' :: path) _).symm) ?_ ?_
  · rw [List.length_append, List.length_cons]
    omega
  · rw [List.count_append, List.count_eq_zero_of_not_mem hword, List.count_cons_of_ne (by decide),
      Nat.zero_add]

/-- A line that starts with the path of the instance is read behind it. -/
theorem of_statement {path text : String} {line : Line} (spaces rest : List Char)
    (htext : text.toList = spaces ++ (path.toList ++ '.' :: rest)) (hspaces : ∀ c ∈ spaces, c = ' ')
    (hread : statement? rest = some line) : Line.of path.toList text.toList = line := by
  rw [Line.of, htext, memberOf?_append _ _ _ hspaces]
  exact congrArg (Option.getD · Line.unknown) hread

/-- A line that does not start with the path of the instance is read by its words. -/
theorem of_structure {path text : List Char} {line : Line} (hmember : memberOf? path text = none)
    (hread : structure? path (dropSpaces text) = some line) : Line.of path text = line := by
  rw [Line.of, hmember]
  exact congrArg (Option.getD · Line.unknown) hread

/-- The word of a keyword. -/
def Keyword.text : Keyword → String
  | ifWord => "IF"
  | elsifWord => "ELSIF"

/-- A guard is the path of the instance, a dot and what the guard reads back from. -/
theorem exists_guardText (path : String) (guard : Guard) :
    ∃ rest, (guardText path guard ++ " THEN").toList = path.toList ++ '.' :: rest ∧
      guard? rest = some guard := by
  cases guard with
  | command command =>
    refine ⟨("Command." ++ command.name ++ " THEN").toList, by simp [guardText], ?_⟩
    cases command <;> rfl
  | complete =>
    exact ⟨("Status.SubState = " ++ toString completeCode ++ " THEN").toList, by simp [guardText], rfl⟩

/-- A line that starts with the keyword of a branch is read as the guard behind it. -/
theorem structure?_keyword (path rest : List Char) (keyword : Keyword) :
    structure? path (keyword.text.toList ++ ' ' :: rest) =
      ((memberOf? path (' ' :: rest)).bind guard?).map (.branch keyword) := by
  cases keyword <;> rfl

/-- The start of a branch is read back. -/
theorem of_branch (path : String) (keyword : Keyword) (guard : Guard) :
    Line.of path.toList ("    " ++ keyword.text ++ " " ++ guardText path guard ++ " THEN").toList =
      .branch keyword guard := by
  obtain ⟨rest, hguard, hread⟩ := exists_guardText path guard
  have htext : dropSpaces ("    " ++ keyword.text ++ " " ++ guardText path guard ++ " THEN").toList =
      keyword.text.toList ++ ' ' :: (path.toList ++ '.' :: rest) := by
    rw [String.append_assoc, String.toList_append, hguard]
    cases keyword <;> simp [Keyword.text, dropSpaces]
  have hmember : memberOf? path.toList (' ' :: (path.toList ++ '.' :: rest)) = some rest :=
    memberOf?_append [' '] _ _ (by simp)
  apply of_structure
  · exact memberOf?_behind_word htext (by cases keyword <;> decide)
  · rw [htext, structure?_keyword, hmember, Option.bind_some, hread, Option.map_some]

/-- The lines of a branch are read back. -/
theorem map_branchLines (path : String) (keyword : Keyword) (transition : Transition) :
    (branchLines path keyword.text transition).map (fun line => Line.of path.toList line.toList) =
      (Branch.of transition).lines keyword := by
  have hstate : statement? ("Status.State := " ++ toString transition.target.code ++ "; (* " ++
      transition.target.name ++ " *)").toList = some (.assign (.state transition.target.code)) := by
    cases transition.target <;> rfl
  have hname : statement? ("Status.StateName := '" ++ transition.target.name ++ "';").toList =
      some (.assign (.stateName transition.target.name)) := by
    cases transition.target <;> rfl
  have hsub : statement? "Status.SubState := 0;".toList = some (.assign (.subState 0)) := rfl
  simp only [branchLines, List.map_cons, List.map_nil]
  rw [of_branch, of_statement "      ".toList _ (by simp) (by decide) hstate,
    of_statement "      ".toList _ (by simp) (by decide) hname,
    of_statement "      ".toList _ (by simp) (by decide) hsub]
  rfl

/-- The lines of the branches of a state are read back. -/
theorem map_branchesLines (path : String) (transitions : List Transition) :
    (branchesLines path transitions).map (fun line => Line.of path.toList line.toList) =
      branchLinesRead (transitions.map Branch.of) := by
  cases transitions with
  | nil => rfl
  | cons first others =>
    have hfirst : (branchLines path "IF" first).map _ = _ := map_branchLines path .ifWord first
    have hothers (transition : Transition) : (branchLines path "ELSIF" transition).map _ = _ :=
      map_branchLines path .elsifWord transition
    rw [branchesLines, List.map_append, hfirst, List.map_flatMap]
    simp only [hothers, branchLinesRead, List.map_cons, List.flatMap_map]

/-- A label is read back. -/
theorem of_label (path : String) (state : State) :
    Line.of path.toList ("  " ++ toString state.code ++ ": (* " ++ state.name ++ " *)").toList =
      .label state.code := by
  cases state <;> exact of_structure (memberOf?_of_notMem _ (by decide)) rfl

/-- A cleared command is read back. -/
theorem of_clearLine (path : String) (command : Command) :
    Line.of path.toList (clearLine path command).toList = .clear command := by
  have hread : statement? ("Command." ++ command.name ++ " := FALSE;").toList =
      some (.clear command) := by
    cases command <;> rfl
  exact of_statement [] _ (by simp [clearLine]) (by simp) hread

/-- The start of the cases is read back. -/
theorem of_caseStart (path : String) :
    Line.of path.toList ("CASE " ++ path ++ ".Status.State OF").toList = .caseStart := by
  have htext : dropSpaces ("CASE " ++ path ++ ".Status.State OF").toList =
      "CASE".toList ++ ' ' :: (path.toList ++ '.' :: "Status.State OF".toList) := by
    simp [dropSpaces]
  have hmember : memberOf? path.toList (' ' :: (path.toList ++ '.' :: "Status.State OF".toList)) =
      some "Status.State OF".toList :=
    memberOf?_append [' '] _ _ (by simp)
  have hread (rest : List Char) : structure? path.toList ("CASE".toList ++ ' ' :: rest) =
      (memberOf? path.toList (' ' :: rest)).bind fun rest =>
        if rest = "Status.State OF".toList then some .caseStart else none := rfl
  apply of_structure
  · exact memberOf?_behind_word htext (by decide)
  · rw [htext, hread, hmember, Option.bind_some, if_pos rfl]

/-- A text that starts with a slash or a bracket and is a comment is a note. -/
theorem structure?_comment (path rest : List Char) :
    structure? path ('/' :: '/' :: rest) = some .note ∧
      structure? path ('(' :: '*' :: (rest ++ "*)".toList)) = some .note := by
  have hread (text : List Char) : structure? path ('(' :: text) =
      if isNote ('(' :: text) then some .note else none := rfl
  have hnote : isNote ('(' :: '*' :: (rest ++ "*)".toList)) = true :=
    List.isSuffixOf_iff_suffix.mpr (List.suffix_append ('(' :: '*' :: rest) _)
  exact ⟨rfl, by rw [hread, if_pos hnote]⟩

/-- The title is a comment, whatever the instance is called. -/
theorem of_titleLine (style : CodeStyle) (instanceName : String) :
    Line.of (style.path instanceName).toList (style.titleLine instanceName).toList = .note := by
  have hpath : (style.path instanceName).toList.length ≤ instanceName.toList.length + 2 ∧
      instanceName.toList.count '.' ≤ (style.path instanceName).toList.count '.' := by
    unfold CodeStyle.path
    split <;> simp
  obtain ⟨opening, closing, htext, hopening, hread⟩ : ∃ opening closing,
      dropSpaces (style.titleLine instanceName).toList =
        opening ++ " PackML State Machine for ".toList ++ instanceName.toList ++ closing ∧
      '.' ∉ opening ∧ structure? (style.path instanceName).toList
        (opening ++ " PackML State Machine for ".toList ++ instanceName.toList ++ closing) =
          some .note := by
    unfold CodeStyle.titleLine
    cases style.title with
    | block =>
      refine ⟨['(', '*'], [' ', '*', ')'], by simp [dropSpaces], by decide, ?_⟩
      have hcomment := (structure?_comment (style.path instanceName).toList
        (" PackML State Machine for ".toList ++ instanceName.toList ++ [' '])).2
      simpa using hcomment
    | line =>
      exact ⟨['/', '/'], [], by simp [dropSpaces], by decide, (structure?_comment _ _).1⟩
  have hlong : 2 < " PackML State Machine for ".toList.length := by decide
  have hplain : " PackML State Machine for ".toList.count '.' = 0 := by decide
  apply of_structure
  · apply memberOf?_eq_none htext
    · rw [List.length_append, List.length_append]
      omega
    · rw [List.count_append, List.count_append, List.count_eq_zero_of_not_mem hopening, hplain]
      omega
  · rw [htext, hread]

end Lines

section Grammar

/-- Where a line stands in a program. -/
inductive Position where
  | start
  | cases
  | branches
  | body
  | clears

/-- What the lines from one on say: the rest of the branch it stands in, of the statement, of the
cases and of the program. -/
structure Remainder where
  body : List Assignment
  branches : List Branch
  cases : List Case
  clears : List Command

/-- Put an assignment in front. -/
def Remainder.assign (assignment : Assignment) (rest : Remainder) : Remainder :=
  { rest with body := assignment :: rest.body }

/-- Put a guard in front of the branch. -/
def Remainder.branch (guard : Guard) (rest : Remainder) : Remainder :=
  { rest with body := [], branches := ⟨guard, rest.body⟩ :: rest.branches }

/-- Put a label in front of the branches. -/
def Remainder.label (code : Nat) (rest : Remainder) : Remainder :=
  { rest with branches := [], cases := ⟨code, rest.branches⟩ :: rest.cases }

/-- Put a cleared command in front. -/
def Remainder.clear (command : Command) (rest : Remainder) : Remainder :=
  { rest with clears := command :: rest.clears }

/-- Put the lines from one on together. -/
def remainder? : Position → List Line → Option Remainder
  | .start, .caseStart :: rest => remainder? .cases rest
  | .cases, .label code :: rest => (remainder? .branches rest).map (.label code)
  | .branches, .branch .ifWord guard :: rest => (remainder? .body rest).map (.branch guard)
  | .body, .branch .elsifWord guard :: rest => (remainder? .body rest).map (.branch guard)
  | .body, .assign assignment :: rest => (remainder? .body rest).map (.assign assignment)
  | .body, .branchesEnd :: rest => remainder? .cases rest
  | .cases, .casesEnd :: rest => remainder? .clears rest
  | .clears, .clear command :: rest => (remainder? .clears rest).map (.clear command)
  | .clears, [] => some ⟨[], [], [], []⟩
  | _, _ => none

/-- Read a program about the instance with a path. -/
def Program.ofText? (path text : String) : Option Program :=
  let found := (lines text.toList).map (Line.of path.toList)
  (remainder? .start (found.filter (· != .note))).map fun rest => ⟨rest.cases, rest.clears⟩

variable {lines : List Line} {branches : List Branch} {cases : List Case} {clears : List Command}

/-- Assignments are put in front of what follows them. -/
theorem remainder?_assign (body : List Assignment) {rest : Remainder}
    (h : remainder? .body lines = some rest) :
    remainder? .body (body.map .assign ++ lines) = some { rest with body := body ++ rest.body } := by
  induction body with
  | nil => exact h
  | cons assignment body ih =>
    rw [List.map_cons, List.cons_append, remainder?, ih]
    rfl

/-- A first branch is put together from its lines. -/
theorem remainder?_ifBranch (branch : Branch)
    (h : remainder? .body lines = some ⟨[], branches, cases, clears⟩) :
    remainder? .branches (branch.lines .ifWord ++ lines) =
      some ⟨[], branch :: branches, cases, clears⟩ := by
  rw [Branch.lines, List.cons_append, remainder?, remainder?_assign branch.body h, List.append_nil]
  rfl

/-- Further branches are put together from their lines. -/
theorem remainder?_elsifBranches (others : List Branch)
    (h : remainder? .cases lines = some ⟨[], [], cases, clears⟩) :
    remainder? .body (others.flatMap (Branch.lines .elsifWord) ++ .branchesEnd :: lines) =
      some ⟨[], others, cases, clears⟩ := by
  induction others with
  | nil => exact h
  | cons branch others ih =>
    rw [List.flatMap_cons, List.append_assoc, Branch.lines, List.cons_append, remainder?,
      remainder?_assign branch.body ih, List.append_nil]
    rfl

/-- Cases that have branches are put together from their lines. -/
theorem remainder?_cases (found : List Case) (hbranches : ∀ c ∈ found, c.branches ≠ [])
    (h : remainder? .clears lines = some ⟨[], [], [], clears⟩) :
    remainder? .cases (found.flatMap Case.lines ++ .casesEnd :: lines) =
      some ⟨[], [], found, clears⟩ := by
  induction found with
  | nil => exact h
  | cons c found ih =>
    obtain ⟨first, others, hfound⟩ := List.exists_cons_of_ne_nil (hbranches c List.mem_cons_self)
    have hothers := ih fun d hd => hbranches d (List.mem_cons_of_mem _ hd)
    rw [List.flatMap_cons, Case.lines, hfound, branchLinesRead]
    simp only [List.cons_append, List.append_assoc, List.nil_append]
    rw [remainder?, remainder?_ifBranch first (remainder?_elsifBranches others hothers), ← hfound]
    rfl

/-- Cleared commands are put together from their lines. -/
theorem remainder?_clears (found : List Command) :
    remainder? .clears (found.map .clear) = some ⟨[], [], [], found⟩ := by
  induction found with
  | nil => rfl
  | cons command found ih =>
    rw [List.map_cons, remainder?, ih]
    rfl

end Grammar

section Code

/-- A line of a branch is no note. -/
theorem note_notMem_lines (branches : List Branch) : .note ∉ branchLinesRead branches := by
  have hbranch (keyword : Keyword) (branch : Branch) : .note ∉ branch.lines keyword := by
    simp [Branch.lines]
  cases branches with
  | nil => simp [branchLinesRead]
  | cons first others => simp [branchLinesRead, hbranch]

/-- The lines of a state are read back, and the line between the states is blank. -/
theorem filter_caseLines (path : String) (state : State) :
    ((caseLines path state).map (fun line => Line.of path.toList line.toList)).filter (· != .note) =
      (Case.of state).lines := by
  have hend : Line.of path.toList "    END_IF;".toList = .branchesEnd :=
    of_structure (memberOf?_of_notMem _ (by decide)) rfl
  have hblank : Line.of path.toList "".toList = .note :=
    of_structure (memberOf?_of_notMem _ (by decide)) rfl
  have hbranches : (branchLinesRead ((transitionsFrom state).map Branch.of)).filter (· != .note) =
      branchLinesRead ((transitionsFrom state).map Branch.of) :=
    List.filter_eq_self.mpr fun line hline => bne_iff_ne.mpr fun hnote =>
      note_notMem_lines _ (hnote ▸ hline)
  rw [caseLines, List.map_cons, of_label, List.map_append, map_branchesLines, List.map_cons, hend,
    List.map_singleton, hblank, List.filter_cons_of_pos (by simp), List.filter_append, hbranches]
  rfl

/-- A text is cut into the lines that it was put together from. -/
theorem lines_join {texts : List String} (h : ∀ text ∈ texts, '\n' ∉ text.toList) :
    lines (String.join (texts.map fun text => text ++ "\n")).toList =
      texts.map String.toList ++ [[]] := by
  induction texts with
  | nil => rfl
  | cons text texts ih =>
    have hfeed : "\n".toList = ['\n'] := rfl
    rw [List.map_cons, String.join_cons, String.toList_append, String.toList_append, hfeed,
      List.append_assoc, List.singleton_append, lines_append_lineFeed,
      lines_of_notMem (h text List.mem_cons_self), ih fun other hother => h other (by simp [hother])]
    rfl

/-- A line of a state has no line feed. -/
theorem lineFeed_notMem_caseLines {path : String} (h : '\n' ∉ path.toList) (state : State) :
    ∀ line ∈ caseLines path state, '\n' ∉ line.toList := by
  have hname (state : State) : '\n' ∉ state.name.toList := by cases state <;> decide
  have hcode (state : State) : '\n' ∉ Nat.toDigits 10 state.code := notMem_toDigits (by decide) _
  have hguard (guard : Guard) : '\n' ∉ (guardText path guard).toList := by
    cases guard with
    | command command => cases command <;> simp [guardText, Command.name, h]
    | complete => simp [guardText, h, notMem_toDigits]
  have hbranch (keyword : Keyword) (transition : Transition) :
      ∀ line ∈ branchLines path keyword.text transition, '\n' ∉ line.toList := by
    cases keyword <;> simp [branchLines, Keyword.text, h, hname, hcode, hguard]
  have hbranches (transitions : List Transition) :
      ∀ line ∈ branchesLines path transitions, '\n' ∉ line.toList := by
    cases transitions with
    | nil => simp [branchesLines]
    | cons first others =>
      rw [branchesLines, List.forall_mem_append, List.forall_mem_flatMap]
      exact ⟨hbranch .ifWord first, fun transition _ => hbranch .elsifWord transition⟩
  rw [caseLines, List.forall_mem_cons, List.forall_mem_append]
  exact ⟨by simp [hcode, hname], hbranches _, by decide⟩

/-- The code has no line feeds but those at the ends of its lines. -/
theorem lineFeed_notMem_codeLines (style : CodeStyle) {instanceName : String}
    (h : '\n' ∉ instanceName.toList) : ∀ line ∈ codeLines style instanceName, '\n' ∉ line.toList := by
  have hpath : '\n' ∉ (style.path instanceName).toList := by
    unfold CodeStyle.path
    split <;> simp [h]
  have htitle : '\n' ∉ (style.titleLine instanceName).toList := by
    unfold CodeStyle.titleLine
    cases style.title <;> simp [h]
  have hclear (command : Command) : '\n' ∉ (clearLine (style.path instanceName) command).toList := by
    cases command <;> simp [clearLine, Command.name, hpath]
  simp only [codeLines, List.forall_mem_append, List.forall_mem_cons, List.forall_mem_flatMap,
    List.forall_mem_map]
  exact ⟨⟨⟨⟨htitle, by decide, by simp [hpath], by simp⟩,
    fun state _ => lineFeed_notMem_caseLines hpath state⟩, by decide⟩,
    fun command _ => hclear command⟩

/-- The code of a state machine reads back as one case for each state. In it the transitions that
leave the state are the branches, in order, and each of them sets the state number, its name and
the sub-state. -/
theorem ofText?_code (style : CodeStyle) {instanceName : String} (h : '\n' ∉ instanceName.toList) :
    Program.ofText? (style.path instanceName) (code style instanceName) =
      some ⟨State.all.map Case.of, Command.all⟩ := by
  let path := (style.path instanceName).toList
  have hblank : Line.of path [] = .note := of_structure (memberOf?_of_notMem _ (by simp)) rfl
  have hend : Line.of path "END_CASE;".toList = .casesEnd :=
    of_structure (memberOf?_of_notMem _ (by decide)) rfl
  have hclears : Line.of path "(* Clear all commands after processing *)".toList = .note :=
    of_structure (memberOf?_of_notMem _ (by decide)) rfl
  have hread : ((lines (code style instanceName).toList).map (Line.of path)).filter (· != .note) =
      .caseStart :: ((State.all.map Case.of).flatMap Case.lines ++
        .casesEnd :: Command.all.map .clear) := by
    rw [code, lines_join (lineFeed_notMem_codeLines style h), codeLines]
    simp only [path, List.map_append, List.map_map, Function.comp_def, List.map_cons, List.map_nil,
      List.map_flatMap, List.flatMap_map, List.filter_append, List.filter_flatMap, filter_caseLines,
      of_titleLine, of_caseStart, of_clearLine, String.toList_empty, hblank, hend, hclears]
    rfl
  have hbranches : ∀ c ∈ State.all.map Case.of, c.branches ≠ [] := by decide
  rw [Program.ofText?, hread, remainder?, remainder?_cases _ hbranches (remainder?_clears _)]
  rfl

end Code

end PlcTypes.StateMachine
