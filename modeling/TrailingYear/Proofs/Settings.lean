import TrailingYear.Command.Run
import TrailingYear.Proofs.Command.Files
import TrailingYear.Proofs.Text
import TrailingYear.Proofs.Toml.Document
import TrailingYear.Proofs.Toml.Range

/-! # Saving and loading settings

Settings are saved in three tables, where a code that is absent has no line. Their text is read
back as the same settings, and so the file they are saved in is loaded as the same settings. -/

namespace TrailingYear
namespace Settings

open Toml (Lines IsBare IsValue Statement)

def optionalPair (key : String) : Option String → List Statement
  | none => []
  | some text => [.pair [] key (.string text)]

def statements (s : Settings) : List Statement :=
  .table [] "currency" :: (optionalPair "marketing_currency_code" s.marketingCode ++
    (optionalPair "state_currency_code" s.stateCode ++
      [.table [] "report", .pair [] "time_zone" (.string s.timeZone),
        .pair [] "bar_width" (.integer s.barWidth), .table [] "data",
        .pair [] "payments" (.string s.paymentsPath), .pair [] "rates" (.string s.ratesPath),
        .pair [] "currencies" (.string s.currenciesPath)]))

theorem lines_pair (key : String) {value : String} {v : Toml} {cs : List Char} {ss : List Statement}
    (hkey : IsBare key.toList) (hvalue : IsValue value.toList v) (h : Lines cs ss) :
    Lines ((line key value).toList ++ cs) (.pair [] key v :: ss) := by
  have hline : (line key value).toList ++ cs =
      key.toList ++ ' ' :: '=' :: ' ' :: (value.toList ++ '\n' :: cs) := by
    simp [line]
  have hpair := Lines.pair hkey hvalue h
  rwa [String.ofList_toList, ← hline] at hpair

theorem lines_optional (key : String) (code : Option String) {cs : List Char} {ss : List Statement}
    (hkey : IsBare key.toList) (h : Lines cs ss) :
    Lines ((optionalLine key code).toList ++ cs) (optionalPair key code ++ ss) := by
  cases code with
  | none => exact h
  | some text => exact lines_pair key hkey (Toml.isValue_quote text) h

theorem lines_table (header key : String) {cs : List Char} {ss : List Statement}
    (hkey : IsBare key.toList) (hheader : header.toList = '[' :: (key.toList ++ [']', '\n']))
    (h : Lines cs ss) :
    Lines (header.toList ++ cs) (.table [] key :: ss) := by
  have htable := Lines.table hkey h
  rw [hheader, List.cons_append, List.append_assoc]
  rwa [String.ofList_toList] at htable

/-- A header after a blank line. -/
theorem lines_section (header key : String) {cs : List Char} {ss : List Statement}
    (hkey : IsBare key.toList)
    (hheader : header.toList = '\n' :: '[' :: (key.toList ++ [']', '\n'])) (h : Lines cs ss) :
    Lines (header.toList ++ cs) (.table [] key :: ss) := by
  have htable := Lines.blank (Lines.table hkey h)
  rw [hheader, List.cons_append, List.cons_append, List.append_assoc]
  rwa [String.ofList_toList] at htable

theorem isBare_iff (key : List Char) : !key.isEmpty && key.all Toml.isBareKeyChar ↔ IsBare key := by
  rw [Bool.and_eq_true, List.all_eq_true, Bool.not_eq_true', List.isEmpty_eq_false_iff]
  exact ⟨fun h => ⟨h.1, h.2⟩, fun h => ⟨h.1, h.2⟩⟩

instance (key : List Char) : Decidable (IsBare key) := decidable_of_iff _ (isBare_iff key)

theorem lines_toText {s : Settings} (hs : (s.barWidth : Int) < Toml.integerLimit) :
    Lines s.toText.toList s.statements := by
  have hdata := lines_section "\n[data]\n" "data" (by decide) (by decide)
    (lines_pair "payments" (by decide) (Toml.isValue_quote s.paymentsPath)
      (lines_pair "rates" (by decide) (Toml.isValue_quote s.ratesPath)
        (lines_pair "currencies" (by decide) (Toml.isValue_quote s.currenciesPath) .nil)))
  have hreport := lines_section "\n[report]\n" "report" (by decide) (by decide)
    (lines_pair "time_zone" (by decide) (Toml.isValue_quote s.timeZone)
      (lines_pair "bar_width" (by decide) (Toml.isValue_natural hs) hdata))
  have hcurrency := lines_table "[currency]\n" "currency" (by decide) (by decide)
    (lines_optional "marketing_currency_code" s.marketingCode (by decide)
      (lines_optional "state_currency_code" s.stateCode (by decide) hreport))
  rw [List.append_nil] at hcurrency
  unfold toText statements
  simpa only [String.toList_append, List.append_assoc] using hcurrency

def optionalEntry (key : String) : Option String → Toml.Entries
  | none => []
  | some text => [(key, .string text)]

def entries (s : Settings) : Toml.Entries :=
  [("currency", .table .header (optionalEntry "marketing_currency_code" s.marketingCode ++
      optionalEntry "state_currency_code" s.stateCode)),
    ("report",
      .table .header [("time_zone", .string s.timeZone), ("bar_width", .integer s.barWidth)]),
    ("data", .table .header [("payments", .string s.paymentsPath), ("rates", .string s.ratesPath),
      ("currencies", .string s.currenciesPath)])]

theorem build_statements (s : Settings) : Toml.build s.statements = some s.entries := by
  unfold statements entries
  cases s.marketingCode <;> cases s.stateCode <;>
    simp [optionalPair, optionalEntry, Toml.build, Toml.Tree.add, Toml.within, Toml.openTable,
      Toml.put, Toml.alter]

theorem optionalText_map (code : Option String) : optionalText (code.map .string) = some code := by
  cases code <;> rfl

theorem find?_optionalEntries (s : Settings) :
    currencyKeys.map (Toml.find? · (optionalEntry "marketing_currency_code" s.marketingCode ++
      optionalEntry "state_currency_code" s.stateCode)) =
        [s.marketingCode.map .string, s.stateCode.map .string] := by
  cases s.marketingCode <;> cases s.stateCode <;> rfl

theorem ofEntries?_entries (s : Settings) : ofEntries? s.entries = some s := by
  have hcurrency : sectionValues currencyKeys (Toml.find? "currency" s.entries) =
      some [s.marketingCode.map .string, s.stateCode.map .string] :=
    congrArg some (find?_optionalEntries s)
  have hreport : sectionValues reportKeys (Toml.find? "report" s.entries) =
      some [some (.string s.timeZone), some (.integer s.barWidth)] := rfl
  have hdata : sectionValues dataKeys (Toml.find? "data" s.entries) =
      some
        [some (.string s.paymentsPath), some (.string s.ratesPath),
          some (.string s.currenciesPath)] := rfl
  rw [ofEntries?, hcurrency, hreport, hdata]
  simp only [Option.bind_eq_bind, Option.bind_some, optionalText_map]
  rfl

/-- Settings are read back from their text, if their number has 63 bits. -/
theorem ofText?_toText {s : Settings} (hs : (s.barWidth : Int) < Toml.integerLimit) :
    ofText? s.toText = some s := by
  have hmark : Toml.skipMark s.toText.toList = s.toText.toList := by
    unfold toText
    simp only [String.toList_append, List.append_assoc]
    rfl
  have hread : Toml.ofText? s.toText = Toml.build s.statements := (lines_toText hs).ofChars? hmark
  rw [ofText?, hread, build_statements]
  exact ofEntries?_entries s

/-- Settings that are read have a document, which is read as the same settings. -/
theorem exists_document {text : String} {s : Settings} (h : ofText? text = some s) :
    ∃ saved, s.document? = some saved ∧ ofText? saved = some s :=
  ⟨s.toText, if_pos (Int.lt_toNat.mpr (barWidth_lt h)), ofText?_toText (barWidth_lt h)⟩

end Settings

namespace Environment

theorem settings_of_path {env : Environment} {config : Option String} {path : String}
    (hpath : env.configPath config = .ok path) : env.settings config = env.settingsAt path := by
  rw [settings, hpath]
  rfl

/-- The settings of a file are what its text says. -/
theorem settings_of_read {env : Environment} {config : Option String} {path text : String}
    {s : Settings} (hpath : env.configPath config = .ok path)
    (hread : env.files.read? path = some (Utf8.encode text.toList))
    (hs : Settings.ofText? text = some s) : env.settings config = .ok s := by
  rw [settings_of_path hpath, settingsAt, hread]
  dsimp only
  rw [Utf8.decode_encode]
  dsimp only
  rw [String.ofList_toList, hs]

theorem save_of_document {env : Environment} {s : Settings} {path saved : String}
    (h : s.document? = some saved) :
    env.save s path = .ok (env.files.write path (Utf8.encode saved.toList)) := by
  rw [save, h]

end Environment

/-- Settings that a text gives can be saved anywhere. The file that holds them is loaded as the same
settings, whose file has the same bytes again. -/
theorem settings_are_kept {text : String} {s : Settings} (h : Settings.ofText? text = some s) :
    ∃ saved, s.document? = some saved ∧ Settings.ofText? saved = some s ∧
      (∀ (env : Environment) path,
        env.save s path = .ok (env.files.write path (Utf8.encode saved.toList))) ∧
      (∀ (env : Environment) path files, env.save s path = .ok files →
        (env.files.locate path).isSome → Files.namesFile path →
        { env with files := files }.settings (some path) = .ok s) ∧
      (∀ (env : Environment) config path, env.configPath config = .ok path →
        env.files.read? path = some (Utf8.encode saved.toList) → env.settings config = .ok s) ∧
      ∀ (env : Environment) config path reloaded, env.configPath config = .ok path →
        env.files.read? path = some (Utf8.encode saved.toList) →
        env.settings config = .ok reloaded →
        ∀ (env' : Environment) path,
          env'.save reloaded path = .ok (env'.files.write path (Utf8.encode saved.toList)) := by
  obtain ⟨saved, hdocument, hreload⟩ := Settings.exists_document h
  have hsave : ∀ (env : Environment) path,
      env.save s path = .ok (env.files.write path (Utf8.encode saved.toList)) := by
    intro env path
    exact Environment.save_of_document hdocument
  refine ⟨saved, hdocument, hreload, hsave, ?_, ?_, ?_⟩
  · intro env path files hfiles hplace hname
    rw [hsave] at hfiles
    cases hfiles
    exact Environment.settings_of_read rfl (Files.read?_write hplace hname) hreload
  · intro env config path hpath hread
    exact Environment.settings_of_read hpath hread hreload
  · intro env config path reloaded hpath hread hload env' path'
    rw [Environment.settings_of_read hpath hread hreload] at hload
    cases hload
    exact hsave env' path'

def quotedText : String :=
  "\uFEFF# first\nreport.bar_width = 0x1_7\n" ++
    "[currency]\r\n\"marketing_currency_code\" = \"\\\\ \\u00e9'\"\n\n" ++
    "[data]\npayments = '''\na \"b\" ''c'''''\n" ++
    "rates = \"\"\"x\\\n  y\"\" \n\\u0007\"\"\"\ncurrencies = ''\n" ++
    "[other]\nunknown = [1, 2.5, 1979-05-27]\n"

def quotedSettings : Settings :=
  ⟨some "\\ é'", none, "UTC", 23, "a \"b\" ''c''", "xy\"\" \n\x07", ""⟩

def withoutFiles : Environment := ⟨⟨[], []⟩, some "", .epoch⟩

theorem settings_are_kept_quoted :
    Settings.ofText? quotedText = some quotedSettings ∧
    ∃ files, withoutFiles.save quotedSettings "crm.toml" = .ok files ∧
      { withoutFiles with files := files }.settings (some "crm.toml") = .ok quotedSettings := by
  have h : Settings.ofText? quotedText = some quotedSettings := by decide +kernel
  obtain ⟨saved, _, _, hsave, hload, _⟩ := settings_are_kept h
  have hfiles := hsave withoutFiles "crm.toml"
  exact ⟨h, _, hfiles, hload withoutFiles "crm.toml" _ hfiles (by decide) (by decide)⟩

end TrailingYear
