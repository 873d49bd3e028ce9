import TrailingYear.Command.Script
import TrailingYear.Proofs.Settings

/-! # Output, whole or not at all

Whatever can fail comes before the first line of output and before the file that is written. So a
run that fails has only logged, and one that succeeds has printed its whole text. -/

namespace TrailingYear

namespace Script

variable {α β : Type}

def prints (texts : List String) : Script Unit := ⟨texts.map .print, .ok ()⟩

theorem print_eq (text : String) : print text = prints [text] := rfl

theorem prints_bind (texts others : List String) :
    (prints texts >>= fun _ => prints others) = prints (texts ++ others) := by
  rw [bind_of_ok _ rfl, prints, prints, prints, List.map_append]

theorem forM_print (write : α → String) (l : List α) :
    (l.forM fun a => print (write a)) = prints (l.map write) := by
  induction l with
  | nil => rfl
  | cons a l ih =>
    show (print (write a) >>= fun _ => l.forM fun a => print (write a)) = _
    rw [ih, print_eq, prints_bind]
    rfl

/-- The script does what the command as a whole does: it ends with the same files and has printed
the same text, or it fails for the same reasons with nothing but its log. -/
structure Performs (files : Files) (x : Script Unit) (y : Logged CommandError (String × Files)) :
    Prop where
  events : x.events = y.events
  ended : ∀ text left, y.result = .ok (text, left) →
    x.result = .ok () ∧ x.output = text ∧ x.filesAfter files = left
  failed : ∀ cause, y.result = .error cause → x.result = .error cause ∧ ∀ e ∈ x.effects, e.IsLog

namespace Performs

variable {files : Files}

/-- What is loaded first is only logged. -/
theorem bind {z : Logged CommandError α} {f : α → Script Unit}
    {g : α → Logged CommandError (String × Files)} (h : ∀ a, Performs files (f a) (g a)) :
    Performs files (.ofLogged z >>= f) (z >>= g) := by
  cases hz : z.result with
  | error e =>
    rw [bind_of_error f hz, Logged.bind_of_error g hz]
    -- Nothing comes after what could not be loaded.
    refine ⟨events_ofLogged z, ?_, ?_⟩
    · rintro _ _ ⟨⟩
    · rintro _ ⟨⟩
      exact ⟨rfl, fun _ => isLog_ofLogged⟩
  | ok a =>
    have hscript : (ofLogged z).result = .ok a := hz
    obtain ⟨hevents, hended, hfailed⟩ := h a
    rw [Logged.bind_of_ok g hz]
    refine ⟨?_, ?_, ?_⟩
    · rw [events_bind f hscript, events_ofLogged, hevents]
    · intro text left hend
      obtain ⟨hresult, houtput, hfiles⟩ := hended text left hend
      refine ⟨?_, ?_, ?_⟩
      · rw [bind_of_ok f hscript, hresult]
      · rw [output_bind f hscript, output_of_logs fun _ => isLog_ofLogged, houtput,
          String.empty_append]
      · rw [filesAfter_bind f hscript, filesAfter_of_logs fun _ => isLog_ofLogged, hfiles]
    · intro cause hcause
      obtain ⟨hresult, hlogs⟩ := hfailed cause hcause
      rw [bind_of_ok f hscript]
      refine ⟨hresult, fun e he => ?_⟩
      rcases List.mem_append.mp he with he | he
      · exact isLog_ofLogged he
      · exact hlogs e he

theorem prints {texts : List String} {text : String} (h : String.join texts = text) :
    Performs files (.prints texts) (pure (text, files)) := by
  have hevents : (Script.prints texts).events = [] := by
    rw [Script.prints, Script.events, List.filterMap_map]
    exact List.filterMap_eq_nil_iff.mpr fun _ _ => rfl
  have houtput : (Script.prints texts).output = String.join texts := by
    rw [Script.prints, Script.output, List.map_map]
    exact congrArg String.join (List.map_id texts)
  have hfiles : (Script.prints texts).filesAfter files = files := by
    rw [Script.prints, Script.filesAfter]
    clear hevents houtput h
    induction texts with
    | nil => rfl
    | cons text texts ih => exact ih
  refine ⟨hevents, ?_, ?_⟩
  · rintro _ _ ⟨⟩
    exact ⟨rfl, houtput.trans h, hfiles⟩
  · rintro _ ⟨⟩

end Performs

end Script

namespace Environment

open Script (Performs)

variable {env : Environment} {s : Settings}

theorem join_singleton (text : String) : String.join [text] = text := String.empty_append

theorem listPayments_eq (code : String) (conversions : List Conversion) :
    listPayments code conversions =
      .prints (conversions.map (Summary.listLine code) ++ ["\n"]) := by
  rw [listPayments, Script.forM_print, Script.print_eq, Script.prints_bind]

/-- The lines of a listing, one after the other, make its whole text. -/
theorem performs_printTotal {files : Files} (summary : Summary) (listed json : Bool) :
    Performs files (printTotal summary listed json)
      (pure (if json then (summary.toJson listed).toText ++ "\n"
        else summary.toText listed, files)) := by
  cases json with
  | true => exact .prints (join_singleton _)
  | false =>
    cases listed with
    | false =>
      show Performs files (.prints [summary.totalLine]) _
      exact .prints rfl
    | true =>
      have hlines : printTotal summary true false = .prints (summary.conversions.map
          (Summary.listLine summary.currency.code) ++ ["\n"] ++ [summary.totalLine]) := by
        show (listPayments _ _ >>= fun _ => Script.print _) = _
        rw [listPayments_eq, Script.print_eq, Script.prints_bind]
      rw [hlines]
      apply Performs.prints
      rw [String.join_append, String.join_append, join_singleton, join_singleton]
      rfl

/-- A command that prints once prints its whole text. -/
theorem performs_print (y : Logged CommandError String) :
    Performs env.files (.ofLogged y >>= Script.print) (do return (← y, env.files)) :=
  .bind fun text => .prints (join_singleton text)

theorem performs_total (sources : Sources) (listed json : Bool) :
    Performs env.files (env.totalScript s sources listed json)
      (env.execute s (.total sources listed json)) := by
  rw [execute, total, Logged.bind_assoc]
  refine .bind ?_
  rintro ⟨currency, table⟩
  dsimp only
  rw [Logged.bind_assoc]
  refine .bind fun payments => ?_
  rw [Logged.bind_assoc]
  refine .bind ?_
  rintro ⟨conversions, total⟩
  exact performs_printTotal ⟨currency, conversions, total⟩ listed json

theorem performs_currency (currencies : Option String) :
    Performs env.files (env.currencyScript s currencies)
      (env.execute s (.currency currencies)) := by
  rw [execute, currency, Logged.bind_assoc]
  refine .bind fun known => ?_
  dsimp only
  rw [Script.print_eq, Script.print_eq, Script.prints_bind]
  apply Performs.prints
  have hbreak : ")\nRate column: " = ")\n" ++ "Rate column: " := by decide
  rw [hbreak, List.singleton_append, String.join_cons, join_singleton]
  simp only [String.append_assoc]

/-- The default settings have a document, which is read as the default settings. -/
theorem exists_document_default :
    ∃ saved, Settings.default.document? = some saved ∧ Settings.ofText? saved = some .default :=
  have hempty : Settings.ofText? "" = some .default := by decide
  Settings.exists_document hempty

/-- The default settings are written before a line is printed, and neither fails. -/
theorem performs_init : Performs env.files env.initScript (env.execute s .initConfig) := by
  obtain ⟨saved, hdocument, _⟩ := exists_document_default
  rw [execute, initScript]
  refine .bind fun path => ?_
  by_cases htaken : env.files.isTaken path
  · rw [if_pos htaken, if_pos htaken]
    exact .prints (join_singleton _)
  · rw [if_neg htaken, if_neg htaken, saveScript, hdocument, save_of_document hdocument]
    refine ⟨rfl, ?_, ?_⟩
    · rintro _ _ ⟨⟩
      refine ⟨rfl, ?_, rfl⟩
      exact join_singleton _
    · rintro _ ⟨⟩

/-- Each command is done step by step as it is as a whole. -/
theorem performs_command (c : Command) :
    Performs env.files (env.commandScript s c) (env.execute s c) := by
  cases c with
  | income sources display => exact performs_print _
  | count dates column display => exact performs_print _
  | total sources listed json => exact performs_total sources listed json
  | currency currencies => exact performs_currency currencies
  | initConfig => exact performs_init

def whole (env : Environment) (i : Invocation) : Logged CommandError (String × Files) :=
  Logged.ofExcept (env.settings i.config) >>= fun s => env.execute s i.command

theorem performs_whole (i : Invocation) : Performs env.files (env.script i) (env.whole i) :=
  .bind fun _ => performs_command i.command

/-- The steps of a run leave what the run as a whole gives. -/
theorem invoke_eq_outcome (i : Invocation) :
    env.invoke i = (env.script i).outcome env.files i.verbose := by
  obtain ⟨hevents, hended, hfailed⟩ := env.performs_whole i
  rw [invoke, Script.outcome, hevents, whole]
  cases hwhole : (env.whole i).result with
  | error cause =>
    obtain ⟨hresult, hlogs⟩ := hfailed cause hwhole
    rw [whole] at hwhole
    rw [hwhole, hresult, Script.output_of_logs hlogs, Script.filesAfter_of_logs hlogs]
  | ok r =>
    obtain ⟨text, left⟩ := r
    obtain ⟨hresult, houtput, hfiles⟩ := hended text left hwhole
    rw [whole] at hwhole
    rw [hwhole, hresult, houtput, hfiles]

structure Fails (env : Environment) (i : Invocation) : Prop where
  exitCode : (env.invoke i).exitCode = 1
  output : (env.invoke i).output = ""
  files : (env.invoke i).files = env.files
  effects : ∀ e ∈ (env.script i).effects, e.IsLog

structure Ends (env : Environment) (i : Invocation) (text : String) (left : Files) : Prop where
  exitCode : (env.invoke i).exitCode = 0
  output : (env.invoke i).output = text
  files : (env.invoke i).files = left

section

variable {i : Invocation}

theorem fails_of_whole {cause : CommandError} (h : (env.whole i).result = .error cause) :
    env.Fails i := by
  obtain ⟨_, hlogs⟩ := (env.performs_whole i).failed cause h
  rw [whole] at h
  constructor
  case effects => exact hlogs
  all_goals
    rw [invoke, h]

theorem ends_of_whole {text : String} {left : Files} (h : (env.whole i).result = .ok (text, left)) :
    env.Ends i text left := by
  rw [whole] at h
  constructor <;> rw [invoke, h]

theorem whole_of_settings (hs : env.settings i.config = .ok s) :
    (env.whole i).result = (env.execute s i.command).result := by
  rw [whole, hs, Logged.result_bind]
  rfl

theorem settings_of_whole {text : String} {left : Files}
    (h : (env.whole i).result = .ok (text, left)) :
    ∃ s, env.settings i.config = .ok s ∧ (env.execute s i.command).result = .ok (text, left) := by
  rw [whole, Logged.result_bind, Logged.result_ofExcept] at h
  cases hs : env.settings i.config with
  | error cause =>
    rw [hs] at h
    cases h
  | ok s =>
    rw [hs] at h
    exact ⟨s, rfl, h⟩

end

theorem files_of_print {y : Logged CommandError String} {text : String} {left : Files}
    (h : (do return (← y, env.files) : Logged CommandError (String × Files)).result =
      .ok (text, left)) :
    left = env.files := by
  rw [Logged.result_bind] at h
  cases hy : y.result with
  | error cause =>
    rw [hy] at h
    cases h
  | ok output =>
    rw [hy] at h
    cases h
    rfl

/-- A command that only prints leaves the files as they are. -/
theorem files_of_execute {c : Command} (hc : c ≠ .initConfig) {text : String} {left : Files}
    (h : (env.execute s c).result = .ok (text, left)) : left = env.files := by
  cases c with
  | income sources display => exact files_of_print h
  | count dates column display => exact files_of_print h
  | total sources listed json => exact files_of_print h
  | currency currencies => exact files_of_print h
  | initConfig => exact absurd rfl hc

theorem namesFile_settingsPath {path : String} (h : env.settingsPath = .ok path) :
    Files.namesFile path := by
  have htext : ∃ outer, path.toList = outer ++ '/' :: "config.toml".toList := by
    rw [settingsPath] at h
    cases hhome : env.home with
    | none =>
      rw [hhome] at h
      cases h
    | some home =>
      rw [hhome] at h
      cases h
      rw [Files.join]
      split
      · exact ⟨home.toList ++ ".crm".toList, by simp⟩
      · exact ⟨home.toList ++ "/.crm".toList, by simp⟩
  obtain ⟨outer, houter⟩ := htext
  exact Files.namesFile_of_append houter (by decide) (by decide)

structure LeavesDefault (env : Environment) (left : Files) : Prop where
  written : ∃ path bytes, env.settingsPath = .ok path ∧ left = env.files.write path bytes ∧
    ((env.files.locate path).isSome → left.read? path = some bytes) ∧
    ∀ (env' : Environment) config path', env'.configPath config = .ok path' →
      env'.files.read? path' = some bytes → env'.settings config = .ok .default
  loaded : { env with files := left }.settings none = .ok .default

theorem settings_of_absent {config : Option String} {path : String}
    (hpath : env.configPath config = .ok path) (h : env.files.isTaken path = false) :
    env.settings config = .ok .default := by
  rw [settings_of_path hpath, settingsAt, Files.read?_of_not_isTaken h]
  dsimp only
  rw [h]
  rfl

theorem save_default {path : String} (hpath : env.settingsPath = .ok path) :
    ∃ left, env.save .default path = .ok left ∧ env.LeavesDefault left := by
  obtain ⟨saved, hdocument, hreload⟩ := exists_document_default
  have hname := namesFile_settingsPath hpath
  let left := env.files.write path (Utf8.encode saved.toList)
  have hkept : { env with files := left }.configPath none = .ok path := hpath
  refine ⟨left, save_of_document hdocument, ⟨path, _, hpath, rfl, ?_, ?_⟩, ?_⟩
  · intro hplace
    exact Files.read?_write hplace hname
  · intro env' config path' hpath' hread
    exact settings_of_read hpath' hread hreload
  -- Where the path leads nowhere nothing is read, and that means the default settings too.
  · cases hread : left.read? path with
    | none => exact settings_of_absent hkept (Files.not_isTaken_write hname hread)
    | some bytes =>
      cases Files.eq_of_read?_write hname hread
      exact settings_of_read hkept hread hreload

section

variable {i : Invocation}

theorem fails_or_ends (i : Invocation) :
    env.Fails i ∨ ∃ s text left, env.settings i.config = .ok s ∧
      (env.execute s i.command).result = .ok (text, left) ∧ env.Ends i text left := by
  cases hwhole : (env.whole i).result with
  | error cause => exact .inl (fails_of_whole hwhole)
  | ok r =>
    obtain ⟨text, left⟩ := r
    obtain ⟨s, hs, hexecute⟩ := settings_of_whole hwhole
    exact .inr ⟨s, text, left, hs, hexecute, ends_of_whole hwhole⟩

theorem fails_of_exitCode (h : (env.invoke i).exitCode ≠ 0) : env.Fails i := by
  rcases env.fails_or_ends i with hfails | ⟨_, _, _, _, _, hends⟩
  · exact hfails
  · exact absurd hends.exitCode h

theorem execute_of_exitCode (h : (env.invoke i).exitCode = 0) : ∃ s, env.settings i.config = .ok s ∧
    (env.execute s i.command).result = .ok ((env.invoke i).output, (env.invoke i).files) := by
  rcases env.fails_or_ends i with hfails | ⟨s, text, left, hs, hexecute, hends⟩
  · rw [hfails.exitCode] at h
    cases h
  · rw [hends.output, hends.files]
    exact ⟨s, hs, hexecute⟩

/-- No command but the one that writes the settings changes a file. -/
theorem files_of_invoke (hc : i.command ≠ .initConfig) : (env.invoke i).files = env.files := by
  rcases env.fails_or_ends i with hfails | ⟨s, text, left, _, hexecute, hends⟩
  · exact hfails.files
  · rw [hends.files, files_of_execute hc hexecute]

/-- Without a directory of the user there is no path for the settings. -/
theorem fails_of_homeUnset (hc : i.command = .initConfig) {cause : CommandError}
    (hpath : env.settingsPath = .error cause) : env.Fails i := by
  rcases env.fails_or_ends i with hfails | ⟨s, text, left, _, hexecute, _⟩
  · exact hfails
  · rw [hc, execute, hpath] at hexecute
    cases hexecute

/-- What the command that writes the settings does at their path. -/
theorem result_initConfig {path : String} (hpath : env.settingsPath = .ok path) :
    (env.execute s .initConfig).result =
      if env.files.isTaken path then .ok ("Config already exists: " ++ path ++ "\n", env.files)
      else (env.save .default path).map fun left => ("Wrote " ++ path ++ "\n", left) := by
  rw [execute, hpath, Logged.result_bind]
  show Logged.result (if _ then _ else _) = _
  split
  · rfl
  · rw [Logged.result_bind]
    rfl

/-- Settings that are there stay as they are, whether they can be loaded or not. -/
theorem files_of_taken (hc : i.command = .initConfig) {path : String}
    (hpath : env.settingsPath = .ok path) (htaken : env.files.isTaken path) :
    (env.invoke i).files = env.files := by
  rcases env.fails_or_ends i with hfails | ⟨s, text, left, _, hexecute, hends⟩
  · exact hfails.files
  · rw [hc, result_initConfig hpath, if_pos htaken] at hexecute
    cases hexecute
    exact hends.files

/-- Settings that are not there are written, unless those of another file are asked for and
cannot be loaded. -/
theorem leavesDefault_or_fails (hc : i.command = .initConfig) {path : String}
    (hpath : env.settingsPath = .ok path) (htaken : env.files.isTaken path = false) :
    ((env.invoke i).exitCode = 0 ∧ env.LeavesDefault (env.invoke i).files) ∨
      (env.Fails i ∧ ∃ path cause, i.config = some path ∧
        env.settings (some path) = .error cause) := by
  cases hs : env.settings i.config with
  | error cause =>
    have hwhole : (env.whole i).result = .error cause := by
      rw [whole, hs, Logged.result_bind]
      rfl
    refine .inr ⟨fails_of_whole hwhole, ?_⟩
    cases hconfig : i.config with
    | some path =>
      rw [hconfig] at hs
      exact ⟨path, cause, rfl, hs⟩
    | none =>
      have hdefault : env.settings none = .ok .default := settings_of_absent hpath htaken
      rw [hconfig, hdefault] at hs
      cases hs
  | ok s =>
    obtain ⟨left, hsave, hleft⟩ := save_default hpath
    have hexecute : (env.execute s i.command).result = .ok ("Wrote " ++ path ++ "\n", left) := by
      rw [hc, result_initConfig hpath, htaken, hsave]
      rfl
    have hends := ends_of_whole ((whole_of_settings hs).trans hexecute)
    exact .inl ⟨hends.exitCode, hends.files ▸ hleft⟩

end

theorem run_of_read {args : List String} {i : Invocation} (h : Arguments.read args = .ok i) :
    env.run args = env.invoke i := by
  rw [run, h]

/-- A run that fails prints nothing and changes no file, since its steps only log; one that
succeeds prints the whole text of its command. Only the command that writes the settings changes a
file: it leaves those that are there as they are, and else writes the default settings, which are
loaded as such. It does not get there only if the settings of another file are asked for and
cannot be loaded, or if no directory of the user is set. -/
theorem output_is_whole (env : Environment) (args : List String) :
    ((env.run args).exitCode ≠ 0 → (env.run args).output = "" ∧ (env.run args).files = env.files) ∧
    ((∀ i, Arguments.read args = .ok i → i.command ≠ .initConfig) →
      (env.run args).files = env.files) ∧
    ∀ i, Arguments.read args = .ok i →
      env.run args = (env.script i).outcome env.files i.verbose ∧
      ((env.run args).exitCode ≠ 0 → ∀ e ∈ (env.script i).effects, e.IsLog) ∧
      ((env.run args).exitCode = 0 → ∃ s, env.settings i.config = .ok s ∧
        (env.execute s i.command).result = .ok ((env.run args).output, (env.run args).files)) ∧
      (i.command = .initConfig → ∀ path, env.settingsPath = .ok path → env.files.isTaken path →
        (env.run args).files = env.files) ∧
      (i.command = .initConfig → ∀ path, env.settingsPath = .ok path →
        env.files.isTaken path = false →
        ((env.run args).exitCode = 0 ∧ env.LeavesDefault (env.run args).files) ∨
        ((env.run args).exitCode ≠ 0 ∧
          ∃ path cause, i.config = some path ∧ env.settings (some path) = .error cause)) ∧
      (i.command = .initConfig → env.home = none → (env.run args).exitCode ≠ 0) := by
  cases hread : Arguments.read args with
  | error stop =>
    have hrun : env.run args = env.stop stop := by rw [run, hread]
    rw [hrun]
    refine ⟨?_, ?_, ?_⟩
    · cases stop with
      | help => exact fun h => absurd rfl h
      | version => exact fun h => absurd rfl h
      | misuse => exact fun _ => ⟨rfl, rfl⟩
    · cases stop <;> exact fun _ => rfl
    · rintro _ ⟨⟩
  | ok i =>
    rw [run_of_read hread]
    refine ⟨?_, ?_, ?_⟩
    · intro hcode
      have hfails := fails_of_exitCode hcode
      exact ⟨hfails.output, hfails.files⟩
    · intro hcommand
      exact files_of_invoke (hcommand i rfl)
    · rintro _ ⟨⟩
      have hcode : env.Fails i → (env.invoke i).exitCode ≠ 0 := by
        intro hfails
        rw [hfails.exitCode]
        exact Nat.one_ne_zero
      refine ⟨invoke_eq_outcome i, ?_, execute_of_exitCode, ?_, ?_, ?_⟩
      · intro hcode
        exact (fails_of_exitCode hcode).effects
      · intro hc path hpath
        exact files_of_taken hc hpath
      · intro hc path hpath htaken
        rcases leavesDefault_or_fails hc hpath htaken with hnew | ⟨hfails, hcause⟩
        · exact .inl hnew
        · exact .inr ⟨hcode hfails, hcause⟩
      · intro hc hhome
        have hpath : env.settingsPath = .error .homeUnset := by rw [settingsPath, hhome]
        exact hcode (fails_of_homeUnset hc hpath)

def withBrokenSettings : Environment :=
  { withoutFiles with
    files := withoutFiles.files.write ".crm/config.toml" (Utf8.encode "[report".toList) }

theorem output_is_whole_unsettled :
    (withoutFiles.run ["total", "--list"]).output = "" ∧
    (withoutFiles.run ["total", "--list"]).files = withoutFiles.files ∧
    withoutFiles.LeavesDefault (withoutFiles.run ["init-config"]).files ∧
    (withBrokenSettings.run ["--config", "crm.toml", "init-config"]).files =
      withBrokenSettings.files := by
  have hlist :
      Arguments.read ["total", "--list"] =
        .ok ⟨none, false, .total ⟨none, none, none⟩ true false⟩ := by
    decide +kernel
  have hinit : Arguments.read ["init-config"] = .ok ⟨none, false, .initConfig⟩ := by decide +kernel
  have hother : Arguments.read ["--config", "crm.toml", "init-config"] =
      .ok ⟨some "crm.toml", false, .initConfig⟩ := by decide +kernel
  obtain ⟨hsilent, hfiles, _⟩ := output_is_whole withoutFiles ["total", "--list"]
  obtain ⟨_, _, hnew⟩ := output_is_whole withoutFiles ["init-config"]
  obtain ⟨_, _, hold⟩ := output_is_whole withBrokenSettings ["--config", "crm.toml", "init-config"]
  refine ⟨(hsilent (by decide +kernel)).1, hfiles ?_, ?_, ?_⟩
  · intro i hi
    rw [hlist] at hi
    cases hi
    exact nofun
  · obtain ⟨_, _, _, _, hwritten, _⟩ := hnew _ hinit
    rcases hwritten rfl _ rfl (by decide +kernel) with ⟨_, hleft⟩ | ⟨_, path, cause, hpath, _⟩
    · exact hleft
    · cases hpath
  · obtain ⟨_, _, _, hkept, _⟩ := hold _ hother
    exact hkept rfl _ rfl (by decide +kernel)

end Environment
end TrailingYear
