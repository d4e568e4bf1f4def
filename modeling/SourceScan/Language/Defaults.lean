import SourceScan.Language.Registry

/-!
# The languages known from the start
-/

namespace SourceScan.Registry

structure Row where
  language : Language
  extensions : List Text
  dependencies : Option Regex.Source
  declarations : Option Regex.Source

def scriptDependencies : Text :=
  "^(?:import\\b|require\\s*\\(|(?:const|let|var)\\s.*\\brequire\\s*\\()"

def defaultRows : List Row :=
  [⟨.javaScript, ["js", "jsx", "mjs", "cjs"], some scriptDependencies,
     some "^(?:class\\b|function\\b|async\\s+function\\b|const\\s.*=.*=>|export\\b)"⟩,
   ⟨.typeScript, ["ts", "tsx"], some scriptDependencies,
     some (("^(?:class\\b|function\\b|async\\s+function\\b|const\\s.*=.*=>|export\\b|" : Text) ++
       ("interface\\b|type\\b|enum\\b|abstract\\s+class\\b|declare\\b)" : Text))⟩,
   ⟨.python, ["py", "pyi"], some "^(?:import|from)\\s", some "^(?:def|async\\s+def|class)\\b"⟩,
   ⟨.java, ["java"], some "^import\\b",
     some (("^(?:public|private|protected)\\b.*\\b(?:class|interface|enum|record)\\b|" : Text) ++
       ("^(?:public|private|protected)\\b[^=;]*\\(" : Text))⟩,
   ⟨.ruby, ["rb"], some "^(?:require|require_relative|load)\\b", some "^(?:class|module|def)\\b"⟩,
   ⟨.php, ["php"], some "^(?:namespace|use|require|require_once|include|include_once)\\b",
     some (("^(?:(?:abstract|final)\\s+)?(?:class|interface|trait|function|enum)\\b|" : Text) ++
       ("^(?:public|private|protected)\\b.*\\bfunction\\b" : Text))⟩,
   ⟨.go, ["go"], some "^import\\b", some "^(?:func|type|var|const|package|import)\\b"⟩,
   ⟨.rust, ["rs"], some "^(?:use|extern\\s+crate)\\b",
     some (("^(?:pub(?:\\([^)]*\\))?\\s+)?(?:async\\s+)?" : Text) ++
       ("(?:fn|struct|enum|trait|impl|mod|type)\\b" : Text))⟩,
   ⟨.cFamily, ["c", "cpp", "cc", "cxx", "h", "hpp", "hh"], some "^#\\s*include\\b",
     some "^(?:class|struct|namespace|typedef|enum|template)\\b"⟩,
   ⟨.html, ["html", "htm"], none, none⟩,
   ⟨.css, ["css", "scss", "sass"], none, none⟩,
   ⟨.json, ["json"], none, none⟩,
   ⟨.markdown, ["md", "markdown"], none, none⟩,
   ⟨.shell, ["sh", "bash"], none, none⟩]

def standard : Registry :=
  defaultRows.foldl
    (fun r row => (r.register row.language.name row.extensions row.dependencies row.declarations).1)
    empty

end SourceScan.Registry
