import Diorama.Proofs.Command.AllOrNothing
import Diorama.Proofs.Export.Finiteness
import Diorama.Proofs.Settings.Reading

/-!
# Where settings come from

One file decides on the settings, or none (`Decides`). What comes of it is an inductive relation
(`Comes`): one constructor for the settings that it holds, and one for each way in which it fails.
`settings_decided` says that a command gets what comes of the file that decides. So a file that
fails is never passed over, and no other file is asked.
-/

namespace Diorama

/-- The check asks for five finite numbers, of which the edge of a cube is positive. -/
theorem Settings.validate_eq_ok_iff_get {s : Settings} :
    s.validate = .ok () ↔ (∀ key x, s.get key = .number x → x.isFinite = true) ∧
      Binary.less 0 s.cubeSize = true := by
  have hNumbers : (∀ key x, s.get key = .number x → x.isFinite = true) ↔
      ∀ entry ∈ s.numbers, entry.2.isFinite = true := by
    simp [Key.forall_iff, get, numbers]
  rw [hNumbers, s.isFinite_numbers_iff, validate_eq_ok_iff]
  constructor
  · intro h
    exact ⟨⟨h.column, h.row, h.depth, h.cubeSize⟩, h.extent⟩
  · rintro ⟨⟨hColumn, hRow, hDepth, hSize⟩, hExtent⟩
    exact ⟨hColumn, hRow, hDepth, hSize, hExtent⟩

theorem Settings.validate_standard : standard.validate = .ok () := by decide +kernel

namespace Command

open Settings (Follow Misfit written?)

/-- The given file decides, else that of the project, else that of the user, else none. -/
inductive Decides (files : Files) (userSettings : String) : Option String → Option String → Prop
  | given {path : String} : Decides files userSettings (some path) (some path)
  | project : files.present localSettings = true →
      Decides files userSettings none (some localSettings)
  | user : files.present localSettings = false → files.present userSettings = true →
      Decides files userSettings none (some userSettings)
  | standard : files.present localSettings = false → files.present userSettings = false →
      Decides files userSettings none none

theorem decides_iff {files : Files} {userSettings : String} {given decider : Option String} :
    Decides files userSettings given decider ↔
      settingsPath? files userSettings given = decider := by
  constructor
  · rintro (_ | hProject | ⟨hProject, hUser⟩ | ⟨hProject, hUser⟩)
    · rfl
    · simp [settingsPath?, hProject]
    · simp [settingsPath?, hProject, hUser]
    · simp [settingsPath?, hProject, hUser]
  · rintro rfl
    cases given with
    | some path => exact .given
    | none =>
      cases hProject : files.present localSettings with
      | true => simpa [settingsPath?, hProject] using .project hProject
      | false =>
        cases hUser : files.present userSettings with
        | true => simpa [settingsPath?, hProject, hUser] using .user hProject hUser
        | false => simpa [settingsPath?, hProject, hUser] using .standard hProject hUser

theorem existsUnique_decides (files : Files) (userSettings : String) (given : Option String) :
    ∃! decider, Decides files userSettings given decider := by
  refine ⟨_, decides_iff.mpr rfl, fun other hOther => ?_⟩
  exact (decides_iff.mp hOther).symm

/-- What comes of the file that decides: the settings that it writes, or the first thing that is
wrong with it. If no file decides, the settings are the standard ones. -/
inductive Comes (files : Files) : Option String → Except Failure Settings → Prop
  | standard : Comes files none (.ok .standard)
  | missing {path : String} : files.present path = false →
      Comes files (some path) (.error (.settings (.missing path)))
  | unreadable {path : String} {fault : FileFault} : files.present path = true →
      files.read path = .error fault → Comes files (some path) (.error (.file fault))
  | noText {path : String} {contents : ByteArray} : files.present path = true →
      files.read path = .ok contents → (∀ document : String, document.toUTF8 ≠ contents) →
      Comes files (some path) (.error (.file .invalidData))
  | notToml {path document : String} : files.present path = true →
      files.read path = .ok document.toUTF8 → Toml.read? document = none →
      Comes files (some path) (.error (.settings .malformed))
  | misfit {path document : String} {entries : Toml.Entries} : files.present path = true →
      files.read path = .ok document.toUTF8 → Toml.read? document = some entries →
      Misfit entries → Comes files (some path) (.error (.settings .malformed))
  | unusable {path document : String} {entries : Toml.Entries} {s : Settings}
      {fault : Settings.Fault} : files.present path = true →
      files.read path = .ok document.toUTF8 → Toml.read? document = some entries →
      ¬ Misfit entries → Follow (written? entries) .standard s → s.validate = .error fault →
      Comes files (some path) (.error (.settings (.unusable fault)))
  | settings {path document : String} {entries : Toml.Entries} {s : Settings} :
      files.present path = true → files.read path = .ok document.toUTF8 →
      Toml.read? document = some entries → ¬ Misfit entries →
      Follow (written? entries) .standard s → s.validate = .ok () →
      Comes files (some path) (.ok s)

/-! ### The stages of reading -/

theorem fromUTF8?_eq_some_iff {contents : ByteArray} {text : String} :
    String.fromUTF8? contents = some text ↔ text.toUTF8 = contents := by
  unfold String.fromUTF8?
  split
  · rw [Option.some.injEq]
    constructor
    · rintro rfl
      rfl
    · rintro rfl
      rfl
  · next hInvalid =>
    refine iff_of_false (by simp) ?_
    rintro rfl
    exact hInvalid text.isValidUTF8

theorem readText_of_text {files : Files} {path text : String}
    (h : files.read path = .ok text.toUTF8) : readText files path = .ok text := by
  rw [readText, h, ok_bind, fromUTF8?_eq_some_iff.mpr rfl]
  rfl

theorem settingsFile_of_absent {files : Files} {path : String} (h : files.present path = false) :
    settingsFile files path = .error (.settings (.missing path)) := by
  rw [settingsFile, h]
  rfl

/-- What happens to the text of a settings file. -/
theorem settingsFile_of_present {files : Files} {path : String} (h : files.present path = true) :
    settingsFile files path = (do
      let document ← (readText files path).mapError .file
      match Settings.ofToml? document with
      | none => throw (.settings .malformed)
      | some settings =>
        match settings.validate with
        | .error fault => throw (.settings (.unusable fault))
        | .ok () => return settings) := by
  rw [settingsFile, h]
  rfl

theorem settingsFile_of_fault {files : Files} {path : String} {fault : FileFault}
    (hPresent : files.present path = true) (hRead : files.read path = .error fault) :
    settingsFile files path = .error (.file fault) := by
  have hText : readText files path = .error fault := by
    rw [readText, hRead]
    rfl
  rw [settingsFile_of_present hPresent, hText]
  rfl

theorem settingsFile_of_noText {files : Files} {path : String} {contents : ByteArray}
    (hPresent : files.present path = true) (hRead : files.read path = .ok contents)
    (hNoText : ∀ document : String, document.toUTF8 ≠ contents) :
    settingsFile files path = .error (.file .invalidData) := by
  have hNone : String.fromUTF8? contents = none := by
    refine Option.eq_none_iff_forall_ne_some.mpr fun document hDocument => ?_
    exact hNoText document (fromUTF8?_eq_some_iff.mp hDocument)
  have hText : readText files path = .error .invalidData := by
    rw [readText, hRead, ok_bind, hNone]
    rfl
  rw [settingsFile_of_present hPresent, hText]
  rfl

theorem settingsFile_of_text {files : Files} {path document : String}
    (hPresent : files.present path = true) (hText : files.read path = .ok document.toUTF8) :
    settingsFile files path =
      match Settings.ofToml? document with
      | none => .error (.settings .malformed)
      | some settings =>
        match settings.validate with
        | .error fault => .error (.settings (.unusable fault))
        | .ok () => .ok settings := by
  rw [settingsFile_of_present hPresent, readText_of_text hText]
  rfl

/-- A file that can be read is judged by its text. -/
theorem comes_of_text {files : Files} {path document : String}
    (hPresent : files.present path = true) (hText : files.read path = .ok document.toUTF8) :
    Comes files (some path) (settingsFile files path) := by
  rw [settingsFile_of_text hPresent hText]
  cases hToml : Toml.read? document with
  | none =>
    rw [Settings.ofToml?, hToml, Option.bind_none]
    exact .notToml hPresent hText hToml
  | some entries =>
    have hEntries := Toml.hasDistinctKeys_of_read? hToml
    rw [Settings.ofToml?, hToml, Option.bind_some]
    cases hRead : Settings.ofEntries entries with
    | none =>
      exact .misfit hPresent hText hToml ((Settings.ofEntries_eq_none_iff hEntries).mp hRead)
    | some s =>
      obtain ⟨hFits, hFollow⟩ := (Settings.ofEntries_eq_some_iff hEntries).mp hRead
      dsimp only
      cases hValid : s.validate with
      | error fault => exact .unusable hPresent hText hToml hFits hFollow hValid
      | ok => exact .settings hPresent hText hToml hFits hFollow hValid

theorem comes_settingsFile (files : Files) (path : String) :
    Comes files (some path) (settingsFile files path) := by
  cases hPresent : files.present path with
  | false =>
    rw [settingsFile_of_absent hPresent]
    exact .missing hPresent
  | true =>
    cases hRead : files.read path with
    | error fault =>
      rw [settingsFile_of_fault hPresent hRead]
      exact .unreadable hPresent hRead
    | ok contents =>
      by_cases hText : ∃ document : String, document.toUTF8 = contents
      · obtain ⟨document, rfl⟩ := hText
        exact comes_of_text hPresent hRead
      · rw [settingsFile_of_noText hPresent hRead (not_exists.mp hText)]
        exact .noText hPresent hRead (not_exists.mp hText)

theorem ofToml?_of_follow {document : String} {entries : Toml.Entries} {s : Settings}
    (hToml : Toml.read? document = some entries) (hFits : ¬ Misfit entries)
    (hFollow : Follow (written? entries) .standard s) : Settings.ofToml? document = some s := by
  rw [Settings.ofToml?, hToml, Option.bind_some]
  exact (Settings.ofEntries_eq_some_iff (Toml.hasDistinctKeys_of_read? hToml)).mpr ⟨hFits, hFollow⟩

/-- Only one thing can come of a file. -/
theorem Comes.settingsFile_eq {files : Files} {path : String} {outcome : Except Failure Settings}
    (h : Comes files (some path) outcome) : settingsFile files path = outcome := by
  cases h with
  | missing hAbsent => exact settingsFile_of_absent hAbsent
  | unreadable hPresent hRead => exact settingsFile_of_fault hPresent hRead
  | noText hPresent hRead hText => exact settingsFile_of_noText hPresent hRead hText
  | notToml hPresent hText hToml =>
    rw [settingsFile_of_text hPresent hText, Settings.ofToml?, hToml, Option.bind_none]
  | misfit hPresent hText hToml hMisfit =>
    have hNone :=
      (Settings.ofEntries_eq_none_iff (Toml.hasDistinctKeys_of_read? hToml)).mpr hMisfit
    rw [settingsFile_of_text hPresent hText, Settings.ofToml?, hToml, Option.bind_some, hNone]
  | unusable hPresent hText hToml hFits hFollow hFault =>
    rw [settingsFile_of_text hPresent hText, ofToml?_of_follow hToml hFits hFollow]
    dsimp only
    rw [hFault]
  | settings hPresent hText hToml hFits hFollow hValid =>
    rw [settingsFile_of_text hPresent hText, ofToml?_of_follow hToml hFits hFollow]
    dsimp only
    rw [hValid]

theorem settings_eq_iff {files : Files} {userSettings : String} {given decider : Option String}
    (hDecides : Decides files userSettings given decider) {outcome : Except Failure Settings} :
    settings files userSettings given = outcome ↔ Comes files decider outcome := by
  rw [settings, decides_iff.mp hDecides]
  cases decider with
  | none =>
    constructor
    · rintro rfl
      exact .standard
    · rintro ⟨⟩
      rfl
  | some path =>
    constructor
    · rintro rfl
      exact comes_settingsFile files path
    · exact Comes.settingsFile_eq

/-! ### What settings depend on -/

/-- The places at which a file could stand that would decide before this one. -/
def placesBefore (userSettings : String) (given decider : Option String) : List String :=
  match given with
  | some _ => []
  | none => [localSettings, userSettings].takeWhile (some · ≠ decider)

theorem Decides.congr {files files' : Files} {userSettings : String}
    {given decider : Option String} (h : Decides files userSettings given decider)
    (hBefore : ∀ path ∈ placesBefore userSettings given decider,
      files'.present path = files.present path)
    (hDecider : ∀ path ∈ decider, files'.present path = files.present path) :
    Decides files' userSettings given decider := by
  cases h with
  | given => exact .given
  | project hProject =>
    exact .project ((hDecider _ rfl).trans hProject)
  | user hProject hUser =>
    have hApart : localSettings ≠ userSettings := by
      rintro rfl
      rw [hUser] at hProject
      cases hProject
    refine .user ((hBefore _ ?_).trans hProject) ((hDecider _ rfl).trans hUser)
    simp [placesBefore, hApart]
  | standard hProject hUser =>
    exact .standard ((hBefore _ (by simp [placesBefore])).trans hProject)
      ((hBefore _ (by simp [placesBefore])).trans hUser)

/-! ### What a command gets -/

theorem Comes.validate {files : Files} {decider : Option String}
    {outcome : Except Failure Settings} (h : Comes files decider outcome) {s : Settings}
    (hOutcome : outcome = .ok s) : s.validate = .ok () := by
  cases h with
  | standard =>
    rw [← Except.ok.inj hOutcome]
    exact Settings.validate_standard
  | settings _ _ _ _ _ hValid =>
    rw [← Except.ok.inj hOutcome]
    exact hValid
  | _ => cases hOutcome

theorem Comes.follow {files : Files} {path : String} {outcome : Except Failure Settings}
    (h : Comes files (some path) outcome) {s : Settings} (hOutcome : outcome = .ok s) :
    ∃ document entries, files.read path = .ok (String.toUTF8 document) ∧
      Toml.read? document = some entries ∧ Follow (written? entries) .standard s := by
  cases h with
  | settings _ hText hToml _ hFollow _ =>
    rw [← Except.ok.inj hOutcome]
    exact ⟨_, _, hText, hToml, hFollow⟩
  | _ => cases hOutcome

theorem Comes.given_of_missing {files : Files} {userSettings path : String}
    {given decider : Option String} (hDecides : Decides files userSettings given decider)
    (h : Comes files decider (.error (.settings (.missing path)))) :
    given = some path ∧ files.present path = false := by
  cases h with
  | missing hAbsent =>
    refine ⟨?_, hAbsent⟩
    cases hDecides with
    | given => rfl
    | project hProject =>
      rw [hAbsent] at hProject
      cases hProject
    | user _ hUser =>
      rw [hAbsent] at hUser
      cases hUser

/-- **One file decides on the settings.** Exactly one of the given file, the file of the project,
the file of the user and the standard settings decides, and a command gets what comes of it: if the
file fails, its failure, and never the settings of another file. Only a given file can be missing.
All settings that a command gets are usable; each is the one that the file writes, or the standard
one. They depend on nothing but this file and on whether there are files at the places before it. -/
theorem settings_decided (files : Files) (userSettings : String) (given : Option String) :
    (∃! decider, Decides files userSettings given decider) ∧
    (∀ decider outcome, Decides files userSettings given decider →
      (settings files userSettings given = outcome ↔ Comes files decider outcome)) ∧
    (∀ path, settings files userSettings given = .error (.settings (.missing path)) →
      given = some path ∧ files.present path = false) ∧
    (∀ s, settings files userSettings given = .ok s →
      (s.validate = .ok () ∧ (∀ key x, s.get key = .number x → x.isFinite = true) ∧
        Binary.less 0 s.cubeSize = true) ∧
      ∀ path, Decides files userSettings given (some path) →
        ∃ document entries, files.read path = .ok (String.toUTF8 document) ∧
          Toml.read? document = some entries ∧ Follow (written? entries) .standard s) ∧
    ∀ files' decider, Decides files userSettings given decider →
      (∀ path ∈ placesBefore userSettings given decider, files'.present path = files.present path) →
      (∀ path ∈ decider,
        files'.present path = files.present path ∧ files'.read path = files.read path) →
      settings files' userSettings given = settings files userSettings given := by
  obtain ⟨decider, hDecides, -⟩ := existsUnique_decides files userSettings given
  refine ⟨existsUnique_decides files userSettings given,
    fun decider outcome hDecides => settings_eq_iff hDecides, fun path h => ?_, fun s h => ?_,
    fun files' decider hDecides hBefore hDecider => ?_⟩
  · exact Comes.given_of_missing hDecides ((settings_eq_iff hDecides).mp h)
  · have hValid := ((settings_eq_iff hDecides).mp h).validate rfl
    refine ⟨⟨hValid, Settings.validate_eq_ok_iff_get.mp hValid⟩, fun path hDecides => ?_⟩
    exact ((settings_eq_iff hDecides).mp h).follow rfl
  · have hDecides' := hDecides.congr hBefore fun path hPath => (hDecider path hPath).1
    refine settings_congr ?_ fun path hPath => hDecider path ?_
    · rw [decides_iff.mp hDecides', decides_iff.mp hDecides]
    · rwa [← decides_iff.mp hDecides]

/-- A project with settings of its own, and settings of the user. -/
def storeWithSettings (userSettings : String) : Store where
  entries := [(["stratum"], .directory),
    (["stratum", "config.toml"],
      .file "[layout]\ncolumn_spacing = 8.0\n\n[parser]\nstrict = true\n".toUTF8),
    (["user.toml"], .file userSettings.toUTF8)]
  links := []
  workingDirectory := []
  refusals := .empty

/-- The project writes two settings. The user's spacing of rows is not asked for, and so it does not
matter either if the user's file is no settings file at all. -/
theorem settings_decided_partial :
    settings (filesOf (storeWithSettings "[layout]\nrow_spacing = 5.0\n")) "user.toml" none =
        .ok ⟨{ Spacing.standard with column := 8 }, standardCubeSize, true⟩ ∧
      settings (filesOf (storeWithSettings "[style]\n")) "user.toml" none =
        .ok ⟨{ Spacing.standard with column := 8 }, standardCubeSize, true⟩ := by
  have hOk : settings (filesOf (storeWithSettings "[layout]\nrow_spacing = 5.0\n")) "user.toml"
      none = .ok ⟨{ Spacing.standard with column := 8 }, standardCubeSize, true⟩ :=
    toOption_eq_some_iff.mp (by decide +kernel)
  refine ⟨hOk, ?_⟩
  obtain ⟨-, -, -, -, hSame⟩ := settings_decided
    (filesOf (storeWithSettings "[layout]\nrow_spacing = 5.0\n")) "user.toml" none
  rw [hSame (filesOf (storeWithSettings "[style]\n")) _ (.project (by decide +kernel)) ?_ ?_, hOk]
  · simp [placesBefore]
  · rintro path ⟨⟩
    exact ⟨by decide +kernel, rfl⟩

end Command

end Diorama
