import SourceScan.Proofs.Settings.RoundTrip

/-!
# Where the value of a field comes from

A field of the settings is set by its variable, if the text of the variable fits the kind of the
field; else by the settings file, if the file has the field; else it keeps its standard value.
-/

namespace SourceScan

open Environment (Target Variable applyVariable)

theorem Value.entry?_concat (key : Value) (entries : List (Value × Value)) (e : Value × Value) :
    entry? key (entries ++ [e]) =
      ( entry? key entries).or (if sameKey e.1 key then some e.2 else none) := by
  unfold entry?
  rw [List.find?_append, Option.map_or, List.find?_singleton]
  cases sameKey e.1 key <;> rfl

/-! ## The fields of a section -/

namespace Field

variable {α : Type} {fields : List (Field α)} {f : Field α} {type : Text} {standard x : α}

def Separate (fields : List (Field α)) : Prop :=
  ∀ f ∈ fields, ∀ g ∈ fields, ∀ v x,
    f.get (g.set v x) = if f.name = g.name then v else f.get x

theorem separate_scanner : Separate ScannerSettings.fields := by
  simp [Separate, ScannerSettings.fields]

theorem separate_watch : Separate WatchSettings.fields := by
  simp [Separate, WatchSettings.fields]

theorem separate_logging : Separate LogSettings.fields := by
  simp [Separate, LogSettings.fields]

theorem eq_map_of_mapM {entries : List (Value × Value)} {named : List (Text × Value)}
    (h : (entries.mapM fun (k, v) =>
      match k with
      | .str name => Except.ok (name, v)
      | _ => Except.error SectionError.keyNotText) = .ok named) :
    entries = named.map fun e => (.str e.1, e.2) := by
  induction entries generalizing named with
  | nil =>
      cases h
      rfl
  | cons e entries ih =>
      rw [List.mapM_cons] at h
      obtain ⟨first, hfirst, h⟩ := ok_of_bind h
      obtain ⟨rest, hrest, h⟩ := ok_of_bind h
      cases h
      obtain ⟨k, v⟩ := e
      cases k with
      | str name =>
          cases hfirst
          rw [ih hrest]
          rfl
      | _ => cases hfirst

theorem get_of_foldlM {named : List (Text × Value)} (hfields : Separate fields) (hf : f ∈ fields)
    (h : named.foldlM (fun x (name, v) =>
      match find? fields name with
      | some f => Except.ok (f.set v x)
      | none => Except.error (SectionError.unknownKey type name)) standard = .ok x) :
    f.get x = ( Value.entry? (.str f.name)
      (named.map fun e => (Value.str e.1, e.2)).reverse).getD (f.get standard) := by
  induction named generalizing standard with
  | nil =>
      cases h
      rfl
  | cons e named ih =>
      obtain ⟨name, v⟩ := e
      rw [List.foldlM_cons] at h
      obtain ⟨next, hnext, hrest⟩ := ok_of_bind h
      cases hfound : find? fields name with
      | none =>
          simp only [hfound] at hnext
          cases hnext
      | some g =>
          simp only [hfound] at hnext
          cases hnext
          have hname : g.name = name :=
            of_decide_eq_true
              (List.find?_some (p := fun g : Field α => decide (g.name = name)) hfound)
          have hset := hfields f hf g (List.mem_of_find?_eq_some hfound) v standard
          rw [ih hrest, hset, List.map_cons, List.reverse_cons, Value.entry?_concat]
          cases Value.entry? (.str f.name) (named.map fun e => (.str e.1, e.2)).reverse with
          | some w => rfl
          | none =>
              subst hname
              by_cases hsame : f.name = g.name <;> simp [Value.sameKey, hsame, eq_comm]

def listed? (name : Text) : Option Value → Option Value
  | some (.map entries) => Value.entry? (.str name) entries.reverse
  | _ => none

def read (fields : List (Field α)) (type : Text) (standard : α) :
    Option Value → Except SectionError α
  | some v => fill fields type standard v
  | none => .ok standard

theorem get_of_read {found : Option Value} (hfields : Separate fields) (hf : f ∈ fields)
    (h : read fields type standard found = .ok x) :
    f.get x = (listed? f.name found).getD (f.get standard) := by
  cases found with
  | none =>
      cases h
      rfl
  | some v =>
      cases v with
      | map entries =>
          obtain ⟨named, hnamed, hfold⟩ := ok_of_bind h
          rw [eq_map_of_mapM hnamed]
          exact get_of_foldlM hfields hf hfold
      | _ => cases h

end Field

/-! ## All fields -/

structure Setting where
  section_ : Text
  name : Text
  get : Settings → Value
  set : Value → Settings → Settings

namespace Setting

def ofScanner (f : Field ScannerSettings) : Setting :=
  ⟨"scanner", f.name, fun s => f.get s.scanner, fun v s => { s with scanner := f.set v s.scanner }⟩

def ofWatch (f : Field WatchSettings) : Setting :=
  ⟨"watch", f.name, fun s => f.get s.watch, fun v s => { s with watch := f.set v s.watch }⟩

def ofLogging (f : Field LogSettings) : Setting :=
  ⟨"logging", f.name, fun s => f.get s.logging, fun v s => { s with logging := f.set v s.logging }⟩

def all : List Setting :=
  ScannerSettings.fields.map ofScanner ++ WatchSettings.fields.map ofWatch ++
    LogSettings.fields.map ofLogging

def variableName (x : Setting) : Text :=
  ("PCS_" : Text) ++ Text.asciiUpper x.section_ ++ '_' :: Text.asciiUpper x.name

def variableKinds : List (Text × Target) :=
  [("PCS_SCANNER_MAX_FILE_SIZE", .int), ("PCS_SCANNER_MAX_FILES", .int),
   ("PCS_SCANNER_OUTPUT_FILE", .text), ("PCS_SCANNER_EXCLUDE_PATTERNS", .list),
   ("PCS_SCANNER_IGNORE_PATTERNS", .list), ("PCS_SCANNER_USE_GITIGNORE", .bool),
   ("PCS_SCANNER_USE_HOST_EXCLUDES", .bool), ("PCS_SCANNER_FOLLOW_SYMLINKS", .bool),
   ("PCS_SCANNER_SCAN_TIMEOUT", .float), ("PCS_WATCH_DEBOUNCE_MS", .int),
   ("PCS_WATCH_SCAN_ON_START", .bool), ("PCS_LOGGING_LEVEL", .text)]

def ownVariable? (x : Setting) : Option Variable :=
  (Assoc.get? x.variableName variableKinds).map fun kind => ⟨x.variableName, kind, x.set⟩

theorem known_eq : Environment.known = all.filterMap ownVariable? := by
  rfl

def converted? (env : Environment) (x : Setting) : Option Value :=
  (Assoc.get? x.variableName variableKinds).bind fun kind =>
    (env.get? x.variableName).bind kind.convert?

/-- The value that a settings file gives for a field. If the field stands there more than once the
last value holds. -/
def given? (entries : List (Value × Value)) (x : Setting) : Option Value :=
  Field.listed? x.name ( Value.entry? (.str x.section_) entries)

variable {x y : Setting} {s : Settings} {env : Environment}

theorem mem_all : x ∈ all ↔ (∃ f ∈ ScannerSettings.fields, ofScanner f = x) ∨
    (∃ f ∈ WatchSettings.fields, ofWatch f = x) ∨ ∃ f ∈ LogSettings.fields, ofLogging f = x := by
  simp only [all, List.mem_append, List.mem_map, or_assoc]

theorem ext_all {s s' : Settings} (h : ∀ x ∈ all, x.get s = x.get s') : s = s' := by
  have hscanner : ∀ f ∈ ScannerSettings.fields, f.get s.scanner = f.get s'.scanner :=
    fun f hf => h (ofScanner f) (mem_all.mpr (.inl ⟨f, hf, rfl⟩))
  have hwatch : ∀ f ∈ WatchSettings.fields, f.get s.watch = f.get s'.watch :=
    fun f hf => h (ofWatch f) (mem_all.mpr (.inr (.inl ⟨f, hf, rfl⟩)))
  have hlogging : ∀ f ∈ LogSettings.fields, f.get s.logging = f.get s'.logging :=
    fun f hf => h (ofLogging f) (mem_all.mpr (.inr (.inr ⟨f, hf, rfl⟩)))
  simp only [ScannerSettings.fields, List.forall_mem_cons] at hscanner
  simp only [WatchSettings.fields, List.forall_mem_cons] at hwatch
  simp only [LogSettings.fields, List.forall_mem_cons] at hlogging
  obtain ⟨⟨⟩, ⟨⟩, ⟨⟩⟩ := s
  obtain ⟨⟨⟩, ⟨⟩, ⟨⟩⟩ := s'
  simp_all only

theorem get_set (hx : x ∈ all) (hy : y ∈ all) (v : Value) (s : Settings) :
    x.get (y.set v s) = if x.section_ = y.section_ ∧ x.name = y.name then v else x.get s := by
  rcases mem_all.mp hx with ⟨f, hf, rfl⟩ | ⟨f, hf, rfl⟩ | ⟨f, hf, rfl⟩ <;>
    rcases mem_all.mp hy with ⟨g, hg, rfl⟩ | ⟨g, hg, rfl⟩ | ⟨g, hg, rfl⟩
  · exact (Field.separate_scanner f hf g hg v s.scanner).trans
      (if_congr (and_iff_right rfl).symm rfl rfl)
  · rfl
  · rfl
  · rfl
  · exact (Field.separate_watch f hf g hg v s.watch).trans
      (if_congr (and_iff_right rfl).symm rfl rfl)
  · rfl
  · rfl
  · rfl
  · exact (Field.separate_logging f hf g hg v s.logging).trans
      (if_congr (and_iff_right rfl).symm rfl rfl)

theorem converted?_eq {env : Environment} (hsection : x.section_ = y.section_)
    (hname : x.name = y.name) : x.converted? env = y.converted? env := by
  unfold converted? variableName
  rw [hsection, hname]

def override (env : Environment) (s : Settings) (x : Setting) : Settings :=
  (x.converted? env).elim s fun v => x.set v s

theorem apply_eq (env : Environment) (s : Settings) : env.apply s = all.foldl (override env) s := by
  rw [Environment.apply, known_eq, List.foldl_filterMap]
  congr
  funext s x
  unfold ownVariable? override converted? applyVariable
  cases Assoc.get? x.variableName variableKinds with
  | none => rfl
  | some kind =>
      change (match (env.get? x.variableName).bind kind.convert? with
        | some v => x.set v s
        | none => s) = ((env.get? x.variableName).bind kind.convert?).elim s fun v => x.set v s
      cases (env.get? x.variableName).bind kind.convert? <;> rfl

theorem get_override (hx : x ∈ all) (hy : y ∈ all) : x.get (override env s y) =
    if x.section_ = y.section_ ∧ x.name = y.name then (x.converted? env).getD (x.get s)
    else x.get s := by
  unfold override
  split
  · next hsame =>
      rw [converted?_eq hsame.1 hsame.2]
      cases y.converted? env with
      | none => rfl
      | some v => exact (get_set hx hy v s).trans (if_pos hsame)
  · next hother =>
      cases y.converted? env with
      | none => rfl
      | some v => exact (get_set hx hy v s).trans (if_neg hother)

theorem get_foldl {ys : List Setting} (hx : x ∈ all) (hys : ∀ y ∈ ys, y ∈ all) :
    x.get (ys.foldl (override env) s) =
      if ∃ y ∈ ys, x.section_ = y.section_ ∧ x.name = y.name then
        (x.converted? env).getD (x.get s)
      else x.get s := by
  induction ys generalizing s with
  | nil => simp
  | cons y ys ih =>
      obtain ⟨hy, hys⟩ := List.forall_mem_cons.mp hys
      rw [List.foldl_cons, ih hys, get_override hx hy]
      simp only [List.mem_cons, exists_eq_or_imp]
      by_cases hsame : x.section_ = y.section_ ∧ x.name = y.name <;>
        by_cases hlater : ∃ y ∈ ys, x.section_ = y.section_ ∧ x.name = y.name <;>
        cases x.converted? env <;> simp [hsame, hlater]

/-- In the environment a field is set by its own variable only, if the text of the variable fits. -/
theorem get_apply (hx : x ∈ all) (env : Environment) (s : Settings) :
    x.get (env.apply s) = (x.converted? env).getD (x.get s) := by
  rw [apply_eq, get_foldl hx fun y hy => hy]
  exact if_pos ⟨x, hx, rfl, rfl⟩

/-! ## Files -/

theorem ofEntries_eq (entries : List (Value × Value)) : Settings.ofEntries entries =
    Field.read ScannerSettings.fields "ScannerConfig" .standard (Value.field? "scanner" entries) >>=
      fun scanner =>
        Field.read WatchSettings.fields "WatchConfig" .standard (Value.field? "watch" entries) >>=
          fun watch =>
            Field.read LogSettings.fields "LoggingConfig" .standard
              (Value.field? "logging" entries) >>= fun logging =>
                .ok ⟨scanner, watch, logging⟩ := by
  unfold Settings.ofEntries
  cases Value.field? "scanner" entries <;> cases Value.field? "watch" entries <;>
    cases Value.field? "logging" entries <;> rfl

theorem get_of_ofEntries {entries : List (Value × Value)} (hx : x ∈ all)
    (h : Settings.ofEntries entries = .ok s) :
    x.get s = (x.given? entries).getD (x.get .standard) := by
  rw [ofEntries_eq] at h
  obtain ⟨scanner, hscanner, h⟩ := ok_of_bind h
  obtain ⟨watch, hwatch, h⟩ := ok_of_bind h
  obtain ⟨logging, hlogging, h⟩ := ok_of_bind h
  cases h
  rcases mem_all.mp hx with ⟨f, hf, rfl⟩ | ⟨f, hf, rfl⟩ | ⟨f, hf, rfl⟩
  · exact Field.get_of_read Field.separate_scanner hf hscanner
  · exact Field.get_of_read Field.separate_watch hf hwatch
  · exact Field.get_of_read Field.separate_logging hf hlogging

end Setting

namespace Settings

variable {d : Disk} {path : Path} {file? : Option Path} {env : Environment}
  {given project : Option Path}

def Holds (d : Disk) (path : Path) (entries : List (Value × Value)) : Prop :=
  ∃ bytes text form, d.exists? path = .ok true ∧ d.readFile path = .ok bytes ∧
    Utf8.decode bytes = .ok text ∧ FileForm.ofPath? path = some form ∧
      parse path form (Text.universalNewlines text) = .ok (.map entries)

theorem ofFile_eq_ok_iff {s : Settings} :
    ofFile d path = .ok s ↔ ∃ entries, Holds d path entries ∧ ofEntries entries = .ok s := by
  constructor
  · intro h
    unfold ofFile at h
    obtain ⟨found, hfound, h⟩ := ok_of_bind h
    cases found with
    | false => cases h
    | true =>
        obtain ⟨bytes, hbytes, h⟩ := ok_of_bind h
        obtain ⟨text, htext, h⟩ := ok_of_bind h
        cases hform : FileForm.ofPath? path with
        | none =>
            rw [hform] at h
            cases h
        | some form =>
            rw [hform] at h
            obtain ⟨v, hv, h⟩ := ok_of_bind h
            cases v with
            | map entries =>
                exact ⟨entries, ⟨bytes, text, form, ok_of_mapError hfound, ok_of_mapError hbytes,
                  ok_of_mapError htext, hform, hv⟩, ok_of_mapError h⟩
            | _ => cases h
  · rintro ⟨entries, ⟨bytes, text, form, hexists, hbytes, htext, hform, hparse⟩, hentries⟩
    rw [ofFile, hexists, hbytes]
    simp only [Except.mapError, htext, hform, hparse, hentries, bind, Except.bind]
    rfl

theorem Holds.unique {entries entries' : List (Value × Value)} (h : Holds d path entries)
    (h' : Holds d path entries') : entries = entries' := by
  obtain ⟨bytes, text, form, -, hbytes, htext, hform, hparse⟩ := h
  obtain ⟨_, _, _, -, hbytes', htext', hform', hparse'⟩ := h'
  cases hbytes.symm.trans hbytes'
  cases htext.symm.trans htext'
  cases hform.symm.trans hform'
  cases hparse.symm.trans hparse'
  rfl

/-- The entries that settings are loaded from; without a file there are none. -/
def Source (d : Disk) (file? : Option Path) (entries : List (Value × Value)) : Prop :=
  match file? with
  | some path => Holds d path entries
  | none => entries = []

/-- If the file to load is accepted, the settings are loaded in every environment, and they are
the ones of which each field has the value of its own variable, if that is set to a text that can
be converted; else the value that the file gives for it; else its standard value. -/
theorem load_precedence (hfile : fileToLoad d given project = .ok file?)
    (haccepts : ∀ path, file? = some path → ∃ s, ofFile d path = .ok s) :
    ∃ entries, Source d file? entries ∧ ∀ env, (∃ s, load d env given project = .ok s) ∧
      ∀ s, load d env given project = .ok s ↔ ∀ x ∈ Setting.all, x.get s =
        (x.converted? env).getD ((x.given? entries).getD (x.get .standard)) := by
  obtain ⟨entries, base, hsource, hload, hbase⟩ : ∃ entries base, Source d file? entries ∧
      (∀ env, load d env given project = .ok (env.apply base)) ∧
        ∀ x ∈ Setting.all, x.get base = (x.given? entries).getD (x.get .standard) := by
    cases file? with
    | none =>
        refine ⟨[], .standard, rfl, fun env => ?_, fun x _ => rfl⟩
        rw [load, hfile]
        rfl
    | some path =>
        obtain ⟨s, hs⟩ := haccepts path rfl
        obtain ⟨entries, hholds, hentries⟩ := ofFile_eq_ok_iff.mp hs
        refine ⟨entries, s, hholds, fun env => ?_, fun x hx => Setting.get_of_ofEntries hx hentries⟩
        rw [load, hfile]
        simp only [Except.mapError, bind, Except.bind, hs]
        rfl
  refine ⟨entries, hsource, fun env => ⟨⟨_, hload env⟩, fun s => ?_⟩⟩
  have hfields : ∀ x ∈ Setting.all, x.get (env.apply base) =
      (x.converted? env).getD ((x.given? entries).getD (x.get .standard)) := by
    intro x hx
    rw [Setting.get_apply hx, hbase x hx]
  rw [hload env]
  constructor
  · rintro ⟨⟩
    exact hfields
  · intro hs
    refine congrArg _ (Setting.ext_all fun x hx => ?_)
    rw [hfields x hx, hs x hx]

def twoFields : List (Value × Value) :=
  [(.text "scanner", .map [(.text "max_files", .int 7), (.text "output_file", .text "o.json")])]

/-- One variable of a field that the file has too, one with a text that is no integer, and one of
no field. -/
def threeVariables : Environment :=
  [("PCS_SCANNER_MAX_FILES", " 1_2 "), ("PCS_SCANNER_MAX_FILE_SIZE", "many"),
   ("PCS_SCANNER_FORMAT", "yaml")]

def settingsFile : Path := ⟨1, [RawText.ofText ("pcs.json" : Text)]⟩

def diskWith (content : Bytes) : Disk :=
  ⟨.dir [(RawText.ofText ("pcs.json" : Text), .file content)], [], [], []⟩

theorem stat_diskWith (content : Bytes) :
    (diskWith content).stat settingsFile = .ok (.file content) := by cbv

theorem simple_twoFields : (Value.map twoFields).Simple := by
  have hkeys : [Value.text "max_files", .text "output_file"].Nodup := by
    simp [Value.text]
  have hshort : Value.Short 7 := short_of_small (by decide)
  exact ⟨List.nodup_singleton _, ⟨_, rfl⟩, ⟨hkeys, ⟨_, rfl⟩, hshort, ⟨_, rfl⟩, trivial, trivial⟩,
    trivial⟩

theorem holds_twoFields : ∃ content, Holds (diskWith content) settingsFile twoFields := by
  obtain ⟨text, hwrite, hread⟩ := Json.read_write simple_twoFields
  have hportable := Json.portable_write simple_twoFields hwrite
  obtain ⟨rest, rfl⟩ := Json.write_map hwrite
  have hform : FileForm.ofPath? settingsFile = some .json := by decide
  refine ⟨Utf8.encode ('\x7b' :: rest), _, _, .json, ?_, ?_, Utf8.decode_encode hportable,
    hform, ?_⟩
  · obtain ⟨place, hreach⟩ := Disk.reaches_of_stat (stat_diskWith _)
    rw [Disk.exists?, Disk.ask_eq_look (by decide), hreach.look]
    rfl
  · rw [Disk.readFile, stat_diskWith]
    rfl
  · rw [universalNewlines_eq hportable, parse, isEmpty_strip (by decide), hread]
    rfl

/-- The first variable is stronger than the file, the second one leaves the standard value, and
the third one changes nothing. -/
theorem load_precedence_twoFields : ∃ content s,
    Holds (diskWith content) settingsFile twoFields ∧
    fileToLoad (diskWith content) (some settingsFile) none = .ok (some settingsFile) ∧
    (∃ s, ofFile (diskWith content) settingsFile = .ok s) ∧
    load (diskWith content) threeVariables (some settingsFile) none = .ok s ∧
    s.scanner.maxFiles = .int 12 ∧ s.scanner.maxFileSize = .int 1000000 ∧
    s.scanner.outputFile = .text "o.json" := by
  obtain ⟨content, hholds⟩ := holds_twoFields
  have hfile : ∃ s, ofFile (diskWith content) settingsFile = .ok s :=
    ⟨_, ofFile_eq_ok_iff.mpr ⟨twoFields, hholds, rfl⟩⟩
  obtain ⟨entries, hsource, hload⟩ := load_precedence (d := diskWith content)
    (show fileToLoad (diskWith content) (some settingsFile) none = .ok (some settingsFile) from rfl)
    (by rintro path ⟨⟩; exact hfile)
  obtain rfl := Holds.unique hsource hholds
  obtain ⟨⟨s, hs⟩, hfields⟩ := hload threeVariables
  have hvalues := (hfields s).mp hs
  have hfield : ∀ f ∈ ScannerSettings.fields, Setting.ofScanner f ∈ Setting.all :=
    fun f hf => Setting.mem_all.mpr (.inl ⟨f, hf, rfl⟩)
  refine ⟨content, s, hholds, rfl, hfile, hs, ?_, ?_, ?_⟩
  · exact (hvalues _ (hfield ScannerSettings.fields[1] (List.getElem_mem _))).trans rfl
  · exact (hvalues _ (hfield ScannerSettings.fields[0] (List.getElem_mem _))).trans rfl
  · exact (hvalues _ (hfield ScannerSettings.fields[2] (List.getElem_mem _))).trans rfl

end Settings

end SourceScan
