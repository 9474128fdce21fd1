import Mathlib.Order.Defs.Unbundled
import PlcTypes.Proofs.Files.Store

/-!
# What the operations do to a file store

A file system may refuse an operation for reasons that its files do not show, such as missing rights
or a full disk. Whatever it refuses, looking changes nothing, making a directory changes no file, and
writing changes the one file written to, or none if the writing fails.
-/

namespace PlcTypes

section Programs

variable {σ ε α β : Type} {R : σ → σ → Prop}

/-- A program leads from every state to one that is related to it. -/
def Leads (R : σ → σ → Prop) (program : StateM σ α) : Prop := ∀ s, R s (program.run s).2

/-- A value leads nowhere else. -/
theorem leads_pure [Std.Refl R] (a : α) : Leads R (pure a : StateM σ α) := fun s => Std.Refl.refl s

/-- Two programs one after the other lead on. -/
theorem Leads.bind [IsTrans σ R] {program : StateM σ α} {next : α → StateM σ β}
    (h : Leads R program) (hnext : ∀ a, Leads R (next a)) : Leads R (program >>= next) := fun s =>
  IsTrans.trans _ _ _ (h s) (hnext _ _)

/-- A program that cannot fail leads to the same among those that may. -/
theorem Leads.lift {program : StateM σ α} (h : Leads R program) :
    Leads R (ExceptT.lift program : ExceptT ε (StateM σ) α).run := h

/-- A step that may fail leads on, whether others follow or not. -/
theorem Leads.bind_run [Std.Refl R] [IsTrans σ R] {program : ExceptT ε (StateM σ) α}
    {next : α → ExceptT ε (StateM σ) β} (h : Leads R program.run)
    (hnext : ∀ a, Leads R (next a).run) : Leads R (program >>= next).run := by
  rw [ExceptT.run_bind]
  refine h.bind fun result => ?_
  cases result with
  | ok a => exact hnext a
  | error e => exact leads_pure _

/-- A program with two steps succeeds if both steps do. -/
theorem run_bind_eq_ok_iff {program : ExceptT ε (StateM σ) α} {next : α → ExceptT ε (StateM σ) β}
    {s s' : σ} {b : β} : (program >>= next).run.run s = (.ok b, s') ↔
      ∃ a t, program.run.run s = (.ok a, t) ∧ (next a).run.run t = (.ok b, s') := by
  rw [ExceptT.run_bind, StateT.run_bind]
  generalize program.run.run s = outcome
  obtain ⟨result, t⟩ := outcome
  constructor
  · intro h
    cases result with
    | ok a => exact ⟨a, t, rfl, h⟩
    | error e => cases h
  · rintro ⟨a, t', hfirst, h⟩
    obtain ⟨rfl, rfl⟩ := Prod.mk.inj hfirst
    exact h

/-- A program is followed by the next one. -/
theorem run_bind_of_run {program : StateM σ α} {next : α → StateM σ β} {s t : σ} {a : α}
    (h : program.run s = (a, t)) : (program >>= next).run s = (next a).run t := by
  rw [StateT.run_bind, h]
  rfl

/-- A program that cannot fail is followed by the next one. -/
theorem run_lift_bind {program : StateM σ α} {next : α → ExceptT ε (StateM σ) β} {s t : σ} {a : α}
    (h : program.run s = (a, t)) :
    (ExceptT.lift program >>= next).run.run s = (next a).run.run t := by
  have hlift : (ExceptT.lift program : ExceptT ε (StateM σ) α).run.run s = (.ok a, t) := by
    change (fun outcome => (Except.ok outcome.1, outcome.2)) (program.run s) = _
    rw [h]
  rw [ExceptT.run_bind, StateT.run_bind, hlift]
  rfl

end Programs

namespace FileStore

/-- The operations of a file system. -/
inductive Operation where
  | read
  | isDirectory
  | write
  | makeDirectory

/-- What a file system refuses for reasons that are not in its files, and with which fault. -/
abbrev Refusal := FileStore → Operation → String → Option FileFault

/-- The text of a file, unless it is refused. -/
def readUnder (refusal : Refusal) (store : FileStore) (path : String) : Except FileFault String :=
  match refusal store .read path with
  | some fault => .error fault
  | none => store.read path

/-- Whether a path leads to a directory, as far as that is not refused. -/
def isDirectoryUnder (refusal : Refusal) (store : FileStore) (path : String) : Bool :=
  (refusal store .isDirectory path).isNone && store.isDirectory path

/-- A text that is read without a refusal is that of the file. -/
theorem read_of_readUnder {refusal : Refusal} {store : FileStore} {path text : String}
    (h : store.readUnder refusal path = .ok text) : store.read path = .ok text := by
  unfold readUnder at h
  split at h
  · cases h
  · exact h

/-- What is seen as a directory is one. -/
theorem isDirectory_of_isDirectoryUnder {refusal : Refusal} {store : FileStore} {path : String}
    (h : store.isDirectoryUnder refusal path = true) : store.isDirectory path = true :=
  (Bool.and_eq_true_iff.mp h).2

/-- A change that may be refused. -/
def changeUnder (refusal : Refusal) (operation : Operation) (path : String)
    (change : StateM FileStore (Except FileFault Unit)) :
    StateM FileStore (Except FileFault Unit) := fun store =>
  match refusal store operation path with
  | some fault => (.error fault, store)
  | none => change store

/-- The operations on a store, any of which may be refused. -/
def accessUnder (refusal : Refusal) : FileAccess (StateM FileStore) where
  read path := fun store => (store.readUnder refusal path, store)
  isDirectory path := fun store => (store.isDirectoryUnder refusal path, store)
  write path text := changeUnder refusal .write path (access.write path text)
  makeDirectory path := changeUnder refusal .makeDirectory path (access.makeDirectory path)

/-- If nothing is refused, these are the operations on the store alone. -/
theorem accessUnder_none : accessUnder (fun _ _ _ => none) = access := by
  rfl

/-- Every file is as it was, and no file has come or gone. -/
def SameFiles (before after : FileStore) : Prop :=
  ∀ place, after.content? place = before.content? place

instance : Std.Refl SameFiles where
  refl _ _ := rfl

instance : IsTrans FileStore SameFiles where
  trans _ _ _ h h' place := (h' place).trans (h place)

variable {refusal : Refusal} {before after : FileStore} {path : String}

/-- An entry is put where it may go, or nothing changes. -/
theorem changeUnder_putAt_spec {operation : Operation}
    {place : FileStore → Except FileFault (List String)} {entry : Entry}
    {result : Except FileFault Unit}
    (h : (changeUnder refusal operation path (putAt place entry)).run before = (result, after)) :
    (∃ fault, result = .error fault ∧ after = before) ∨
      result = .ok () ∧ ∃ found, place before = .ok found ∧ after = before.put found entry := by
  change changeUnder refusal operation path (putAt place entry) before = _ at h
  unfold changeUnder putAt at h
  split at h
  · rename_i fault _
    obtain ⟨rfl, rfl⟩ := Prod.mk.inj h
    exact .inl ⟨fault, rfl, rfl⟩
  · split at h
    · rename_i found hfound
      obtain ⟨rfl, rfl⟩ := Prod.mk.inj h
      exact .inr ⟨rfl, found, hfound, rfl⟩
    · rename_i fault _
      obtain ⟨rfl, rfl⟩ := Prod.mk.inj h
      exact .inl ⟨fault, rfl, rfl⟩

/-- A text is written to the place that the path leads to, or nothing is. -/
theorem write_spec {text : String} {result : Except FileFault Unit}
    (h : ((accessUnder refusal).write path text).run before = (result, after)) :
    (∃ fault, result = .error fault ∧ after = before) ∨
      result = .ok () ∧ ∃ place, before.writable path = .ok place ∧
        after = before.put place (.file (.text text)) :=
  changeUnder_putAt_spec h

/-- Making a directory leaves the files as they are. -/
theorem leads_makeDirectory (refusal : Refusal) (path : String) :
    Leads SameFiles ((accessUnder refusal).makeDirectory path) := by
  intro store place
  generalize hrun : ((accessUnder refusal).makeDirectory path).run store = outcome
  obtain ⟨-, -, hsame⟩ | ⟨-, found, hfound, hput⟩ := changeUnder_putAt_spec hrun
  · rw [hsame]
  · rw [hput]
    obtain ⟨hplace, hnone⟩ := entry?_of_makeable hfound
    by_cases hother : place = found
    · -- where the directory is now there was no file before
      rw [hother, content?, content?, entry?_put_self _ hplace, hnone]
    · exact content?_put_of_ne _ hother

/-- A fault that is looked at again leaves the files as they are. -/
theorem leads_unlessDirectory (refusal : Refusal) (path : String) (fault : FileFault) :
    Leads SameFiles ((accessUnder refusal).unlessDirectory path fault) := fun _ _ => rfl

/-- Making a directory and those that it is in leaves the files as they are. -/
theorem leads_makeDirectories (refusal : Refusal) (paths : List String) :
    Leads SameFiles ((accessUnder refusal).makeDirectories paths) := by
  induction paths with
  | nil => exact leads_pure _
  | cons path above ih =>
    rw [FileAccess.makeDirectories]
    split
    · exact leads_pure _
    refine (leads_makeDirectory refusal path).bind fun result => ?_
    split
    · exact leads_pure _
    · -- what it is in is missing, and is made before a second attempt
      refine ih.bind fun result => ?_
      split
      · exact leads_pure _
      · refine (leads_makeDirectory refusal path).bind fun result => ?_
        split
        · exact leads_pure _
        · exact leads_unlessDirectory refusal path _
    · exact leads_unlessDirectory refusal path _

end FileStore

end PlcTypes
