import SourceScan.Value.Use

/-!
# Settings

The settings of the scanner, of the watch service and of the log. A settings file
may put a value of any kind into any field; whether the kind fits shows when the
field is used.
-/

namespace SourceScan

structure ScannerSettings where
  maxFileSize : Value
  maxFiles : Value
  outputFile : Value
  excludePatterns : Value
  ignorePatterns : Value
  useGitignore : Value
  useHostExcludes : Value
  hostExcludes : Value
  followSymlinks : Value
  scanTimeout : Value
  deriving Repr, Inhabited

structure WatchSettings where
  debounceMs : Value
  scanOnStart : Value
  deriving Repr, Inhabited

structure LogSettings where
  level : Value
  format : Value
  deriving Repr, Inhabited

structure Settings where
  scanner : ScannerSettings
  watch : WatchSettings
  logging : LogSettings
  deriving Repr, Inhabited

structure Field (α : Type) where
  name : Text
  get : α → Value
  set : Value → α → α

namespace Value

def text (s : String) : Value := .str s.toList

def texts (l : List String) : Value := .list (l.map text)

end Value

namespace ScannerSettings

def standard : ScannerSettings where
  maxFileSize := .int 1000000
  maxFiles := .int 1000
  outputFile := .text "project-context.json"
  excludePatterns := .texts
    ["node_modules/", ".git/", "dist/", "build/", ".cache/", "__pycache__/", "**/*.jpg",
     "**/*.jpeg", "**/*.png", "**/*.gif", "**/*.pdf", "**/*.zip", "**/*.tar", "**/*.gz",
     "**/*.exe", "**/*.dll", "**/*.so", "**/*.dylib", "**/*.class", "**/*.log"]
  ignorePatterns := .list []
  useGitignore := .bool true
  useHostExcludes := .bool true
  hostExcludes := .map
    (["**/.git", "**/.svn", "**/.hg", "**/CVS", "**/.DS_Store", "**/Thumbs.db"].map fun s =>
      (.text s, .bool true))
  followSymlinks := .bool false
  scanTimeout := .null

def fields : List (Field ScannerSettings) :=
  [⟨"max_file_size", (·.maxFileSize), fun v s => { s with maxFileSize := v }⟩,
   ⟨"max_files", (·.maxFiles), fun v s => { s with maxFiles := v }⟩,
   ⟨"output_file", (·.outputFile), fun v s => { s with outputFile := v }⟩,
   ⟨"exclude_patterns", (·.excludePatterns), fun v s => { s with excludePatterns := v }⟩,
   ⟨"ignore_patterns", (·.ignorePatterns), fun v s => { s with ignorePatterns := v }⟩,
   ⟨"use_gitignore", (·.useGitignore), fun v s => { s with useGitignore := v }⟩,
   ⟨"use_host_excludes", (·.useHostExcludes), fun v s => { s with useHostExcludes := v }⟩,
   ⟨"host_excludes", (·.hostExcludes), fun v s => { s with hostExcludes := v }⟩,
   ⟨"follow_symlinks", (·.followSymlinks), fun v s => { s with followSymlinks := v }⟩,
   ⟨"scan_timeout", (·.scanTimeout), fun v s => { s with scanTimeout := v }⟩]

end ScannerSettings

namespace WatchSettings

def standard : WatchSettings where
  debounceMs := .int 2000
  scanOnStart := .bool true

def fields : List (Field WatchSettings) :=
  [⟨"debounce_ms", (·.debounceMs), fun v s => { s with debounceMs := v }⟩,
   ⟨"scan_on_start", (·.scanOnStart), fun v s => { s with scanOnStart := v }⟩]

end WatchSettings

namespace LogSettings

def standard : LogSettings where
  level := .text "INFO"
  format := .text "%(asctime)s - %(name)s - %(levelname)s - %(message)s"

def fields : List (Field LogSettings) :=
  [⟨"level", (·.level), fun v s => { s with level := v }⟩,
   ⟨"format", (·.format), fun v s => { s with format := v }⟩]

end LogSettings

namespace Field

variable {α : Type}

def find? (fields : List (Field α)) (name : Text) : Option (Field α) :=
  fields.find? (·.name = name)

def toValue (fields : List (Field α)) (section_ : α) : Value :=
  .map (fields.map fun f => (.str f.name, f.get section_))

end Field

namespace Settings

def standard : Settings := ⟨.standard, .standard, .standard⟩

def toValue (s : Settings) : Value :=
  .map
    [(.text "scanner", Field.toValue ScannerSettings.fields s.scanner),
     (.text "watch", Field.toValue WatchSettings.fields s.watch),
     (.text "logging", Field.toValue LogSettings.fields s.logging)]

end Settings

end SourceScan
