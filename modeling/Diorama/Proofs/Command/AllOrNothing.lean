import Diorama.Command.Run
import Diorama.Proofs.Files.Replacing

/-!
# A command replaces one file or changes nothing

`run_all_or_nothing` is the main statement. A command that fails leaves the store as it was; one that
succeeds puts the text of its stages at the place of its output, and all else stays. The text is a
function of the arguments, the input and the settings file: files that agree on these agree on the
plan, whatever else there is.
-/

namespace Diorama.Command

/-! ### What a command line asks for -/

/-- The format that a request writes. -/
def Request.format : Request → OutputFormat
  | .convert r => r.format
  | .reencode .. => .gltf

/-- The options that stand behind the name of the command on a command line. -/
def GivenTo (words : List String) (given : List (String × String)) : Prop :=
  ∃ s name rest input, scan programGrammar .start words = .ok (s, some (name, rest)) ∧
    commandWords (if name = "convert" then convertGrammar else reencodeGrammar) rest =
      .ok (given, input)

theorem command_ok {name : String} {words : List String}
    {given : List (String × String)} {request : Request}
    (h : command name words = .ok (given, request)) :
    (∃ input, commandWords (if name = "convert" then convertGrammar else reencodeGrammar) words =
      .ok (given, input)) ∧
      request.outputPath = (given.lookup "output").getD request.format.defaultFileName := by
  unfold command at h
  split at h
  · next hName =>
    obtain ⟨⟨options, input⟩, hWords, h⟩ := bind_eq_ok_iff.mp h
    cases h
    exact ⟨⟨input, by rw [if_pos hName, hWords]⟩, rfl⟩
  · next hName =>
    obtain ⟨⟨options, input⟩, hWords, h⟩ := bind_eq_ok_iff.mp h
    cases h
    exact ⟨⟨input, by rw [if_neg hName, hWords]⟩, rfl⟩

/-- The output of an accepted command line is the given one, else the one of the format. -/
theorem outputPath_of_arguments {words : List String} {a : Arguments}
    (h : arguments words = .ok a) :
    ∃ given, GivenTo words given ∧
      a.request.outputPath = (given.lookup "output").getD a.request.format.defaultFileName := by
  obtain ⟨⟨s, rest⟩, hScan, h⟩ := bind_eq_ok_iff.mp h
  dsimp only at h
  split at h
  · exact absurd h throw_ne_ok
  · next name words' _ =>
    obtain ⟨⟨given, request⟩, hCommand, h⟩ := bind_eq_ok_iff.mp h
    obtain ⟨settled, _, h⟩ := bind_eq_ok_iff.mp h
    cases h
    obtain ⟨⟨input, hWords⟩, hPath⟩ := command_ok hCommand
    exact ⟨given, ⟨s, name, words', input, hScan, hWords⟩, hPath⟩
  · obtain ⟨settled, _, h⟩ := bind_eq_ok_iff.mp h
    split at h <;> exact absurd h throw_ne_ok

/-! ### What a request produces -/

/-- The text that a request makes of a document, stage by stage. -/
inductive Request.Produces (settings : Settings) (document : String) : Request → String → Prop
  | convert {r : ConvertRequest} {source text : String} {graph : Graph} :
      (r.source.resolve r.input).extract document = .ok source →
      Graph.ofSource (r.strict || settings.strict) source = .ok graph →
      (r.format.exporter settings r.timestamp).exportLayout
        (Layout.ofGraph settings.spacing graph) = .ok text →
      Produces settings document (.convert r) text
  | reencode {input output text : String} {mesh : Mesh} :
      Obj.read document = .ok mesh → Exporter.gltf.exportMesh mesh = .ok text →
      Produces settings document (.reencode input output) text

theorem readInput_ok_iff {files : Files} {path text : String} :
    readInput files path = .ok text ↔ readText files path = .ok text := by
  unfold readInput
  cases readText files path with
  | ok read => simp
  | error fault => cases fault <;> simp

/-- Exporters do not ask how strictly a diagram is read. -/
theorem exporter_strict (settings : Settings) (strict : Bool) (format : OutputFormat)
    (generatedAt : Option Nat) :
    format.exporter { settings with strict } generatedAt = format.exporter settings generatedAt := by
  cases format <;> rfl

theorem text_ok_iff {settings : Settings} {document text : String} {request : Request} :
    request.text settings document = .ok text ↔ request.Produces settings document text := by
  constructor
  · intro h
    cases request with
    | convert r =>
      obtain ⟨source, hSource, h⟩ := bind_eq_ok_iff.mp h
      obtain ⟨graph, hGraph, h⟩ := bind_eq_ok_iff.mp h
      have hText := mapError_eq_ok_iff.mp h
      rw [exporter_strict] at hText
      exact .convert (mapError_eq_ok_iff.mp hSource) (mapError_eq_ok_iff.mp hGraph) hText
    | reencode input output =>
      obtain ⟨mesh, hMesh, h⟩ := bind_eq_ok_iff.mp h
      exact .reencode (mapError_eq_ok_iff.mp hMesh) (mapError_eq_ok_iff.mp h)
  · rintro (⟨hSource, hGraph, hText⟩ | ⟨hMesh, hText⟩)
    · refine bind_eq_ok_iff.mpr ⟨_, mapError_eq_ok_iff.mpr hSource, ?_⟩
      refine bind_eq_ok_iff.mpr ⟨_, mapError_eq_ok_iff.mpr hGraph, mapError_eq_ok_iff.mpr ?_⟩
      rw [exporter_strict]
      exact hText
    · exact bind_eq_ok_iff.mpr ⟨_, mapError_eq_ok_iff.mpr hMesh, mapError_eq_ok_iff.mpr hText⟩

theorem plan_ok_iff {files : Files} {userSettings : String} {a : Arguments} {path text : String} :
    plan files userSettings a = .ok ⟨path, text⟩ ↔
      path = a.request.outputPath ∧ ∃ settings document,
        Command.settings files userSettings a.config = .ok settings ∧
        readText files a.request.input = .ok document ∧
        a.request.Produces settings document text := by
  simp only [plan, bind_eq_ok_iff, readInput_ok_iff, text_ok_iff, pure_eq_ok_iff, Output.mk.injEq]
  constructor
  · rintro ⟨settings, hSettings, document, hDocument, _, hText, rfl, rfl⟩
    exact ⟨rfl, settings, document, hSettings, hDocument, hText⟩
  · rintro ⟨rfl, settings, document, hSettings, hDocument, hText⟩
    exact ⟨settings, hSettings, document, hDocument, text, hText, rfl, rfl⟩

/-! ### What a plan depends on -/

theorem readText_congr {files files' : Files} {path : String}
    (h : files'.read path = files.read path) : readText files' path = readText files path := by
  rw [readText, readText, h]

theorem settingsFile_congr {files files' : Files} {path : String}
    (hPresent : files'.present path = files.present path)
    (hRead : files'.read path = files.read path) :
    settingsFile files' path = settingsFile files path := by
  rw [settingsFile, settingsFile, hPresent, readText_congr hRead]

theorem settings_congr {files files' : Files} {userSettings : String} {given : Option String}
    (hPath : settingsPath? files' userSettings given = settingsPath? files userSettings given)
    (hFile : ∀ path ∈ settingsPath? files userSettings given,
      files'.present path = files.present path ∧ files'.read path = files.read path) :
    settings files' userSettings given = settings files userSettings given := by
  rw [settings, settings, hPath]
  cases hDecides : settingsPath? files userSettings given with
  | none => rfl
  | some path =>
    obtain ⟨hPresent, hRead⟩ := hFile path hDecides
    exact settingsFile_congr hPresent hRead

theorem readInput_congr {files files' : Files} {path : String}
    (h : files'.read path = files.read path) : readInput files' path = readInput files path := by
  rw [readInput, readInput, readText_congr h]

/-- The plan depends on two files only: the one that decides on the settings, and the input. -/
theorem plan_congr {files files' : Files} {userSettings : String} {a : Arguments}
    (hPath : settingsPath? files' userSettings a.config = settingsPath? files userSettings a.config)
    (hFile : ∀ path ∈ settingsPath? files userSettings a.config,
      files'.present path = files.present path ∧ files'.read path = files.read path)
    (hInput : files'.read a.request.input = files.read a.request.input) :
    plan files' userSettings a = plan files userSettings a := by
  rw [plan, plan, settings_congr hPath hFile, readInput_congr hInput]

/-! ### Running -/

theorem eq_of_run_error {userSettings : String} {a : Arguments} {s after : Store}
    {failure : Failure} (h : run userSettings a s = (.error failure, after)) : after = s := by
  unfold run at h
  split at h
  · cases h
    rfl
  · split at h
    · next hWrite =>
      cases h
      exact Store.eq_of_write_error hWrite
    · cases h

theorem run_ok_iff_write {userSettings : String} {a : Arguments} {s after : Store} :
    run userSettings a s = (.ok (), after) ↔ ∃ path text,
      plan (filesOf s) userSettings a = .ok ⟨path, text⟩ ∧
        s.write path text.toUTF8 = (.ok (), after) := by
  rw [run]
  constructor
  · intro h
    split at h
    · cases h
    · next o hPlan =>
      split at h
      · cases h
      · next hWrite =>
        cases h
        exact ⟨o.path, o.text, hPlan, hWrite⟩
  · rintro ⟨path, text, hPlan, hWrite⟩
    rw [hPlan]
    dsimp only
    rw [hWrite]

/-- A command succeeds if its stages do and its output has a place; then the text is put there. -/
theorem run_ok_iff {userSettings : String} {a : Arguments} {s after : Store} :
    run userSettings a s = (.ok (), after) ↔ ∃ settings document text place,
      Command.settings (filesOf s) userSettings a.config = .ok settings ∧
      readText (filesOf s) a.request.input = .ok document ∧
      a.request.Produces settings document text ∧
      s.placeFor a.request.outputPath text.toUTF8 = .ok place ∧
      after = s.put place (.file text.toUTF8) := by
  simp only [run_ok_iff_write, plan_ok_iff, Store.write_ok_iff]
  constructor
  · rintro ⟨_, text, ⟨rfl, settings, document, hSettings, hDocument, hText⟩, place, hPlace, hAfter⟩
    exact ⟨settings, document, text, place, hSettings, hDocument, hText, hPlace, hAfter⟩
  · rintro ⟨settings, document, text, place, hSettings, hDocument, hText, hPlace, hAfter⟩
    exact ⟨_, text, ⟨rfl, settings, document, hSettings, hDocument, hText⟩, place, hPlace, hAfter⟩

/-- **All or nothing.** An accepted command succeeds exactly if all its stages do and nothing stands in
the way of its output. If it fails, every file is as it was and no file is new. If it succeeds, the
place of the output path holds the text of its stages and nothing else has changed: the path leads
there, and what could be read elsewhere, such as the input, still reads the same. The text is decided
by the arguments, the input and the settings file alone. -/
theorem run_all_or_nothing {words : List String} {a : Arguments} (hWords : arguments words = .ok a)
    (userSettings : String) (s : Store) :
    ((run userSettings a s).1 = .ok () ↔ ∃ settings document text place,
      Command.settings (filesOf s) userSettings a.config = .ok settings ∧
      readText (filesOf s) a.request.input = .ok document ∧
      a.request.Produces settings document text ∧
      s.placeFor a.request.outputPath text.toUTF8 = .ok place) ∧
    (∀ failure after, run userSettings a s = (.error failure, after) → after = s) ∧
    (∀ after, run userSettings a s = (.ok (), after) →
      ∃ given settings document text place,
        GivenTo words given ∧
        a.request.outputPath = (given.lookup "output").getD a.request.format.defaultFileName ∧
        Command.settings (filesOf s) userSettings a.config = .ok settings ∧
        readText (filesOf s) a.request.input = .ok document ∧
        a.request.Produces settings document text ∧
        s.Replaces a.request.outputPath place text.toUTF8 after) ∧
    ∀ files : Files,
      settingsPath? files userSettings a.config = settingsPath? (filesOf s) userSettings a.config →
      (∀ path ∈ settingsPath? (filesOf s) userSettings a.config,
        files.present path = s.present path ∧ files.read path = s.read path) →
      files.read a.request.input = s.read a.request.input →
      plan files userSettings a = plan (filesOf s) userSettings a := by
  refine ⟨?_, fun failure after h => eq_of_run_error h, ?_, fun files => plan_congr⟩
  · constructor
    · intro h
      have hRun : run userSettings a s = (.ok (), (run userSettings a s).2) := Prod.ext h rfl
      obtain ⟨settings, document, text, place, hSettings, hDocument, hText, hPlace, -⟩ :=
        run_ok_iff.mp hRun
      exact ⟨settings, document, text, place, hSettings, hDocument, hText, hPlace⟩
    · rintro ⟨settings, document, text, place, hSettings, hDocument, hText, hPlace⟩
      rw [run_ok_iff.mpr ⟨settings, document, text, place, hSettings, hDocument, hText, hPlace, rfl⟩]
  · intro after h
    obtain ⟨given, hGiven, hOutput⟩ := outputPath_of_arguments hWords
    obtain ⟨settings, document, text, place, hSettings, hDocument, hText, hFor, rfl⟩ :=
      run_ok_iff.mp h
    obtain ⟨_, -, -, hPlaceOf⟩ := Store.placeFor_ok_iff.mp hFor
    exact ⟨given, settings, document, text, place, hGiven, hOutput, hSettings, hDocument, hText,
      Store.replaces_put hPlaceOf text.toUTF8⟩

/-- A store with a diagram behind a link, a settings file, and an older file at the place of the
output. -/
def storeWithDiagram : Store where
  entries := [(["home"], .directory), (["home", "me"], .directory), (["srv"], .directory),
    (["srv", "diagrams"], .directory), (["srv", "diagrams", "in.mmd"], .file "A[x]".toUTF8),
    (["srv", "out.obj"], .file "old".toUTF8), (["etc"], .directory),
    (["etc", "stratum.toml"], .file "[parser]\nstrict = true\n".toUTF8)]
  links := [(["home", "data"], "/srv/diagrams")]
  workingDirectory := ["home", "me"]
  refusals := .empty

/-- A small diagram replaces the older file and is still there. -/
theorem run_replaces_output :
    arguments ["-c", "/etc/stratum.toml", "convert", "../data/in.mmd", "-o", "/srv/out.obj"] =
        .ok ⟨some "/etc/stratum.toml", "info",
          .convert ⟨"../data/in.mmd", some "/srv/out.obj", .obj, .auto, false, none⟩⟩ ∧
      ∃ after text, run "" ⟨some "/etc/stratum.toml", "info",
          .convert ⟨"../data/in.mmd", some "/srv/out.obj", .obj, .auto, false, none⟩⟩
          storeWithDiagram = (.ok (), after) ∧
        after.standing? ["srv", "out.obj"] = some (.entry (.file (String.toUTF8 text))) ∧
        after.resolve "/srv/out.obj" = .ok ["srv", "out.obj"] ∧
        after.read "../data/in.mmd" = .ok "A[x]".toUTF8 := by
  have hWords : arguments ["-c", "/etc/stratum.toml", "convert", "../data/in.mmd", "-o",
      "/srv/out.obj"] = .ok ⟨some "/etc/stratum.toml", "info",
        .convert ⟨"../data/in.mmd", some "/srv/out.obj", .obj, .auto, false, none⟩⟩ := rfl
  refine ⟨hWords, ?_⟩
  obtain ⟨-, -, hEffect, -⟩ := run_all_or_nothing hWords "" storeWithDiagram
  have hOk : (run "" ⟨some "/etc/stratum.toml", "info",
      .convert ⟨"../data/in.mmd", some "/srv/out.obj", .obj, .auto, false, none⟩⟩
      storeWithDiagram).1.isOk = true := by decide +kernel
  obtain ⟨after, hRun⟩ : ∃ after, run "" ⟨some "/etc/stratum.toml", "info",
      .convert ⟨"../data/in.mmd", some "/srv/out.obj", .obj, .auto, false, none⟩⟩
      storeWithDiagram = (.ok (), after) := by
    generalize run "" _ storeWithDiagram = outcome at hOk
    obtain ⟨_ | _, after⟩ := outcome
    · cases hOk
    · exact ⟨after, rfl⟩
  obtain ⟨_, _, _, text, place, _, _, _, _, _, hReplaces⟩ := hEffect after hRun
  have hOut : storeWithDiagram.placeOf "/srv/out.obj" = .ok ["srv", "out.obj"] := rfl
  have hPlace : place = ["srv", "out.obj"] := by
    have := hOut.symm.trans hReplaces.placeOf
    cases this
    rfl
  subst hPlace
  have hIn : storeWithDiagram.resolve "../data/in.mmd" = .ok ["srv", "diagrams", "in.mmd"] := by
    decide +kernel
  have hDocument : storeWithDiagram.read "../data/in.mmd" = .ok "A[x]".toUTF8 := by
    rw [Store.read, hIn]
    rfl
  obtain ⟨-, hLeads, hKept⟩ := hReplaces.plain rfl
  refine ⟨after, text, hRun, hReplaces.standing, hLeads, hKept "../data/in.mmd" _ hDocument ?_⟩
  rw [hIn]
  simp

end Diorama.Command
