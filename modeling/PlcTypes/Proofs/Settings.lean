import PlcTypes.Proofs.Files.Access
import PlcTypes.Proofs.Json.Reader
import PlcTypes.Settings

/-!
# Settings in a file store

Settings are given back by their own text, with any text as the extension. They are saved by a single
write, after the directories for it are made. If the saving fails, the file is as it was.
-/

namespace PlcTypes

open FileStore

/-- The settings that are loaded from a store. -/
def FileStore.settingsUnder (refusal : Refusal) (store : FileStore) : Option String → Settings
  | some path =>
    match store.readUnder refusal path with
    | .ok text => .ofText text
    | .error _ => .standard
  | none => .standard

/-- What is logged when the settings are loaded from a store. -/
def FileStore.settingsLog (refusal : Refusal) (store : FileStore) : Option String → List LogRecord
  | some path =>
    match store.readUnder refusal path with
    | .ok text => Settings.textLog path text
    | .error _ => []
  | none => []

namespace Settings

section Text

/-- A vendor is given back by its own key. -/
theorem readVendor?_vendorJson (vendor : Option Vendor) :
    readVendor? (vendorJson vendor) = some vendor := by
  cases vendor with
  | none => rfl
  | some vendor => cases vendor <;> decide

/-- A version is given back by its own digits. -/
theorem readVersion?_number (version : UInt32) :
    readVersion? (.number (toString version.toNat)) = some version := by
  rw [readVersion?, Nat.toString_eq_ofList_toDigits, String.toList_ofList,
    Number.readDigits_toDigits, Option.filter_some, if_pos (decide_eq_true version.toNat_lt),
    Option.map_some, UInt32.ofNat_toNat]

/-- Settings can be printed. -/
theorem isPrintable_toJson (settings : Settings) : settings.toJson.IsPrintable := by
  have hvendor (vendor : Option Vendor) : (vendorJson vendor).IsPrintable := by
    cases vendor with
    | none => exact .null
    | some vendor => exact .string vendor.key
  refine .object fun entry hentry => ?_
  simp only [List.mem_cons, List.not_mem_nil, or_false] at hentry
  rcases hentry with rfl | rfl | rfl | rfl
  · exact .number _
  · exact hvendor _
  · exact hvendor _
  · exact .string _

/-- Settings are given back by their own values. -/
theorem ofJson?_toJson (settings : Settings) : ofJson? settings.toJson = some settings := by
  have hvalues : ofJson? settings.toJson =
      ofValues? (some (.number (toString settings.version.toNat)))
        (some (vendorJson settings.source)) (some (vendorJson settings.target))
        (some (.string settings.extension)) := rfl
  simp only [hvalues, ofValues?, readOr, readVersion?_number, readVendor?_vendorJson, Json.text?]
  rfl

/-- Settings are given back by their own text. -/
theorem ofText_text (settings : Settings) : ofText settings.text = settings := by
  rw [ofText, ofText?, text, Json.ofText?_pretty settings.isPrintable_toJson, Option.bind_some,
    ofJson?_toJson, Option.getD_some]

end Text

variable {refusal : Refusal} {before after : FileStore} {settings : Settings} {path : String}

/-- Settings are loaded as the store has them, and what is logged is about their file. -/
theorem run_loadLogged (path : String) : (loadLogged (accessUnder refusal) path).run before =
    (⟨before.settingsLog refusal (some path), before.settingsUnder refusal (some path)⟩, before) := by
  change (match before.readUnder refusal path with
    | .ok text => (pure ⟨textLog path text, ofText text⟩ : StateM FileStore (Logged Settings))
    | .error _ => pure (.quiet standard)).run before = _
  rw [settingsLog, settingsUnder]
  cases before.readUnder refusal path <;> rfl

/-- Without a settings file the defaults are loaded and nothing is logged. -/
theorem run_loadFrom (file : Option String) : (loadFrom (accessUnder refusal) file).run before =
    (⟨before.settingsLog refusal file, before.settingsUnder refusal file⟩, before) := by
  cases file with
  | some path => exact run_loadLogged path
  | none => rfl

/-- Settings are loaded as the store has them. -/
theorem run_load (path : String) : (load (accessUnder refusal) path).run before =
    (before.settingsUnder refusal (some path), before) := by
  rw [load, run_bind_of_run (run_loadLogged path)]
  rfl

/-- Saving makes directories and then writes the file, unless it fails before that. -/
theorem save_spec {result : Except SaveError Unit}
    (h : (settings.save (accessUnder refusal) path).run before = (result, after)) :
    ∃ middle, SameFiles before middle ∧
      ((∃ error, result = .error error ∧ after = middle) ∨
        result = .ok () ∧ ∃ place, middle.writable path = .ok place ∧
          after = middle.put place (.file (.text settings.text))) := by
  unfold save at h
  rw [StateT.run_bind] at h
  generalize hmake : ((accessUnder refusal).makeDirectories (Path.ancestors path)).run before =
    outcome at h
  obtain ⟨made, middle⟩ := outcome
  have hmiddle : SameFiles before middle := by
    have hleads := leads_makeDirectories refusal (Path.ancestors path) before
    rwa [hmake] at hleads
  refine ⟨middle, hmiddle, ?_⟩
  cases made with
  | error fault =>
    cases h
    exact .inl ⟨_, rfl, rfl⟩
  | ok made =>
    generalize hwrite : ((accessUnder refusal).write path settings.text).run middle = outcome
    obtain ⟨written, final⟩ := outcome
    have hfinal : (written.mapError SaveError.file, final) = (result, after) := by
      rw [← h]
      change _ = (fun outcome => (outcome.1.mapError SaveError.file, outcome.2))
        (((accessUnder refusal).write path settings.text).run middle)
      rw [hwrite]
    obtain ⟨hresult, rfl⟩ := Prod.mk.inj hfinal
    rw [← hresult]
    rcases write_spec hwrite with ⟨fault, rfl, rfl⟩ | ⟨rfl, place, hplace, hput⟩
    · exact .inl ⟨_, rfl, rfl⟩
    · exact .inr ⟨rfl, place, hplace, hput⟩

end Settings

end PlcTypes
