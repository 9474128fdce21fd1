import PlcTypes.Proofs.CommandLine.Effects

/-!
# Settings over several runs

Every run of `config` loads the settings, puts in the values that it is given and saves the result.
So each setting is the last value that was given for it, or what it was before the first run.
-/

namespace PlcTypes

/-- The settings in a file of a store. They are the defaults if the file cannot be read as
settings. -/
def FileStore.settings (store : FileStore) (path : String) : Settings :=
  ((store.read path).toOption.bind fun text => (Json.ofText? text).bind Settings.ofJson?).getD
    .standard

namespace CommandLine

open FileStore

variable {path : String} {before middle after store : FileStore}

/-- The values that a run of `config` is given. -/
structure Change where
  source : Option Vendor
  target : Option Vendor
  extension : Option String

namespace Change

/-- No values. -/
def empty : Change := ⟨none, none, none⟩

/-- The command that is given the values. -/
def command (change : Change) : Command := .config change.source change.target change.extension

/-- The settings with the values put in. -/
def apply (change : Change) (settings : Settings) : Settings :=
  updated settings change.source change.target change.extension

end Change

/-- A run of `config` that is given some values succeeds. -/
def Configures (path : String) (change : Change) (before after : FileStore) : Prop :=
  ∃ arguments report, Command.ofArguments? arguments = some change.command ∧
    (run FileStore.access (some path) arguments).run before = (report, after) ∧
    report.exitCode = 0

/-- Runs of `config` succeed one after the other. -/
inductive ConfigurationPath (path : String) : List Change → FileStore → FileStore → Prop where
  | nil (store : FileStore) : ConfigurationPath path [] store store
  | cons {change : Change} {changes : List Change} {before middle after : FileStore}
    (step : Configures path change before middle)
    (others : ConfigurationPath path changes middle after) :
    ConfigurationPath path (change :: changes) before after

/-- Settings in which each value is the last one that was given for it. -/
def configured (changes : List Change) (settings : Settings) : Settings where
  version := settings.version
  source := (changes.filterMap Change.source).getLast? <|> settings.source
  target := (changes.filterMap Change.target).getLast? <|> settings.target
  extension := (changes.filterMap Change.extension).getLastD settings.extension

/-- Later values are put in after the first ones. -/
theorem configured_cons (change : Change) (changes : List Change) (settings : Settings) :
    configured (change :: changes) settings = configured changes (change.apply settings) := by
  have hvendor (given : Change → Option Vendor) (standing : Option Vendor) :
      (((change :: changes).filterMap given).getLast? <|> standing) =
        ((changes.filterMap given).getLast? <|> (given change <|> standing)) := by
    cases hgiven : given change with
    | none => simp [hgiven]
    | some vendor =>
      cases h : (changes.filterMap given).getLast? <;> simp [hgiven, h, List.getLast?_cons]
  have hextension : ((change :: changes).filterMap Change.extension).getLastD settings.extension =
      (changes.filterMap Change.extension).getLastD
        (change.extension.getD settings.extension) := by
    cases hgiven : change.extension with
    | none => simp [hgiven]
    | some extension => simp [hgiven, List.getLastD_eq_getLast?, List.getLast?_cons]
  rw [configured, configured, hvendor, hvendor, hextension]
  rfl

/-- A text that can be read is decoded. -/
theorem settings_of_read {text : String} (h : store.read path = .ok text) :
    store.settings path = Settings.ofText text := by
  rw [settings, h]
  rfl

/-- The settings that are loaded are those in the file. -/
theorem settingsUnder_none : store.settingsUnder (fun _ _ _ => none) (some path) =
    store.settings path := by
  have hread : store.readUnder (fun _ _ _ => none) path = store.read path := rfl
  rw [FileStore.settingsUnder, hread, settings]
  cases store.read path <;> rfl

/-- A change without values is the one that changes no settings. -/
theorem eq_empty_iff {change : Change} :
    change.command.changesSettings = false ↔ change = .empty := by
  obtain ⟨source, target, extension⟩ := change
  cases source <;> cases target <;> cases extension <;>
    simp [Change.command, Command.changesSettings, Change.empty]

/-- A run puts the values in, and leaves the store as it is if there are none. -/
theorem Configures.settings_eq {change : Change} (h : Configures path change before after) :
    after.settings path = change.apply (before.settings path) ∧
      (change = .empty → after = before) := by
  obtain ⟨arguments, report, hcommand, hrun, hexit⟩ := h
  rw [← accessUnder_none] at hrun
  obtain ⟨product, hproduces, hdelivered⟩ := exists_product_of_run hcommand hrun hexit
  rw [settingsUnder_none] at hproduces
  cases hproduces with
  | printed text _ hunchanged =>
    obtain ⟨-, rfl⟩ := hdelivered
    rw [eq_empty_iff.mp hunchanged]
    exact ⟨rfl, fun _ => rfl⟩
  | written text houtput | filed houtput _ _ _ => simp [Change.command, Command.output?] at houtput
  | saved hconfig hchanges =>
    obtain ⟨-, _, hpath, middle, -, place, hplace, rfl⟩ := hdelivered
    obtain rfl := Option.some.inj hpath
    obtain ⟨rfl, rfl, rfl⟩ := Command.config.inj hconfig
    constructor
    · rw [settings_of_read (read_write _ hplace), Settings.ofText_text]
      rfl
    · intro hempty
      rw [eq_empty_iff.mpr hempty] at hchanges
      cases hchanges

/-- A series of runs puts all its values in, and leaves the store as it is if there are none. -/
theorem ConfigurationPath.settings_eq {changes : List Change}
    (h : ConfigurationPath path changes before after) :
    after.settings path = configured changes (before.settings path) ∧
      ((∀ change ∈ changes, change = .empty) → after = before) := by
  induction h with
  | nil store => exact ⟨rfl, fun _ => rfl⟩
  | cons step others ih =>
    obtain ⟨hsettings, hempty⟩ := step.settings_eq
    constructor
    · rw [ih.1, hsettings, configured_cons]
    · intro hchanges
      rw [ih.2 fun change hchange => hchanges change (List.mem_cons_of_mem _ hchange),
        hempty (hchanges _ List.mem_cons_self)]

/-- After any series of runs the settings that are loaded are those from before the first run, with
each value that was given put in, the last one if there are several. The version is kept. A series
without any value leaves all files as they are. -/
theorem load_after_configuration {changes : List Change}
    (h : ConfigurationPath path changes before after) :
    (Settings.load FileStore.access path).run after =
        (configured changes (before.settings path), after) ∧
      ((∀ change ∈ changes, change = .empty) → after = before) := by
  obtain ⟨hsettings, hempty⟩ := h.settings_eq
  refine ⟨?_, hempty⟩
  rw [← accessUnder_none, Settings.run_load, settingsUnder_none, hsettings]

/-- The root with a settings file of its own version, in which two values are left out. -/
def versionStore : FileStore where
  here := []
  entries := [(["settings.json"],
    .file (.text "\x7b\"version\": 7, \"default_target\": \"codesys\"\x7d"))]

/-- The store after a run with the given arguments. -/
def ran (arguments : List String) (store : FileStore) : FileStore :=
  ((run FileStore.access (some "settings.json") arguments).run store).2

/-- A run that succeeds leads to the store after it. -/
theorem configures_ran {change : Change} {arguments : List String}
    (hcommand : Command.ofArguments? arguments = some change.command)
    (hexit : ((run FileStore.access (some "settings.json") arguments).run store).1.exitCode = 0) :
    Configures "settings.json" change store (ran arguments store) :=
  ⟨arguments, _, hcommand, rfl, hexit⟩

/-- The first source is replaced, and the extension is not a plain one. -/
theorem load_after_three_runs :
    let after := ran ["config", "--extension", "\"\n\\", "--source", "beckhoff"]
      (ran ["config"] (ran ["config", "--source", "siemens"] versionStore))
    (Settings.load FileStore.access "settings.json").run after =
      (⟨7, some .beckhoff, some .codesys, "\"\n\\"⟩, after) := by
  have hfirst : Configures "settings.json" ⟨some .siemens, none, none⟩ versionStore _ :=
    configures_ran
      (show Command.ofArguments? ["config", "--source", "siemens"] = _ by decide +kernel)
      (by decide +kernel)
  have hsecond : Configures "settings.json" .empty
      (ran ["config", "--source", "siemens"] versionStore) _ :=
    configures_ran (show Command.ofArguments? ["config"] = _ by decide +kernel) (by decide +kernel)
  have hthird : Configures "settings.json" ⟨some .beckhoff, none, some "\"\n\\"⟩
      (ran ["config"] (ran ["config", "--source", "siemens"] versionStore)) _ :=
    configures_ran (show Command.ofArguments? ["config", "--extension", "\"\n\\", "--source",
      "beckhoff"] = _ by decide +kernel) (by decide +kernel)
  have hinitial : versionStore.settings "settings.json" = ⟨7, none, some .codesys, "yaml"⟩ := by
    decide +kernel
  have hload := (load_after_configuration (.cons hfirst (.cons hsecond (.cons hthird (.nil _))))).1
  rw [hinitial] at hload
  exact hload

end CommandLine

end PlcTypes
