/-
**The files of a source.** `crates/semble-core/src/source/local.rs`, `crates/semble-core/src/language/catalog.rs`.

A walk through the directory, which leaves out what is ignored, gives its entries in some order. Of the files the ones of a
selected kind are kept, ordered by their paths.

* `detectLanguage`, `contentTypeForPath` — the catalog.
* `discoverFiles` — the files.
* `discoverFiles_perm` — another order of the walk gives the same files.
-/

import Byok.Semble.Snapshot
import Byok.Library.Fallible

namespace Byok.Semble

open Library

/-! ### The catalog -/

/-- `Path::file_name`, of a path that does not end in a separator. -/
def fileName (path : String) : String := String.ofList ((path.toList.splitOn '/').getLast?.getD [])

def extension (path : String) : Option String :=
  let name := (fileName path).toList
  let before := (name.reverse.dropWhile (· ≠ '.')).drop 1
  if name = ['.', '.'] ∨ before = [] then none else some (String.ofList (name.reverse.takeWhile (· ≠ '.')).reverse)

def detectLanguage (path : String) : Option String :=
  (extension path).bind fun extension =>
    let extension := String.ofList (extension.toList.map Char.toLower)
    if extension ∈ ["rs"] then some "rust"
    else if extension ∈ ["py", "pyi", "pyw"] then some "python"
    else if extension ∈ ["js", "jsx", "mjs", "cjs"] then some "javascript"
    else if extension ∈ ["ts", "tsx", "mts", "cts"] then some "typescript"
    else if extension ∈ ["go"] then some "go"
    else if extension ∈ ["java"] then some "java"
    else if extension ∈ ["c", "h"] then some "c"
    else if extension ∈ ["cc", "cpp", "cxx", "hpp", "hxx"] then some "cpp"
    else if extension ∈ ["cs"] then some "csharp"
    else if extension ∈ ["rb"] then some "ruby"
    else if extension ∈ ["php"] then some "php"
    else if extension ∈ ["swift"] then some "swift"
    else if extension ∈ ["kt", "kts"] then some "kotlin"
    else if extension ∈ ["scala"] then some "scala"
    else if extension ∈ ["sh", "bash"] then some "bash"
    else if extension ∈ ["lua"] then some "lua"
    else if extension ∈ ["ex", "exs"] then some "elixir"
    else if extension ∈ ["dart"] then some "dart"
    else if extension ∈ ["sql"] then some "sql"
    else if extension ∈ ["html", "htm"] then some "html"
    else if extension ∈ ["css", "scss", "less"] then some "css"
    else if extension ∈ ["json", "json5"] then some "json"
    else if extension ∈ ["yaml", "yml"] then some "yaml"
    else if extension ∈ ["toml"] then some "toml"
    else if extension ∈ ["md", "markdown", "rst", "adoc"] then some "markdown"
    else none

def contentTypeForPath (path : String) : Option ContentType :=
  let name := String.ofList ((fileName path).toList.map Char.toLower)
  if name ∈ ["cargo.toml", "pyproject.toml", "package.json", "tsconfig.json", "dockerfile", "makefile", ".gitignore",
      ".sembleignore"] then
    some .config
  else
    (detectLanguage path).map fun language =>
      if language = "markdown" then .docs else if language ∈ ["json", "yaml", "toml"] then .config else .code

/-! ### Discovery -/

structure SourceFile where
  absolutePath : String
  relativePath : String
  stamp : FileStamp
  contentType : ContentType
deriving DecidableEq, Repr

/-- `ignore::DirEntry`: an entry of the walk, with its metadata, and its path from the root if it is below it. -/
structure WalkEntry where
  path : String
  isFile : Bool
  metadata : Except String FileStamp
  belowRoot : Option String

def sourceFile (selected : List ContentType) (maxBytes : Nat) (entry : WalkEntry) : Except Error (Option SourceFile) :=
  if !entry.isFile then .ok none
  else
    match contentTypeForPath entry.path with
    | none => .ok none
    | some contentType =>
      if contentType ∉ selected then .ok none
      else
        match entry.metadata with
        | .error error => .error (.io entry.path error)
        | .ok stamp =>
          if stamp.size = 0 ∨ maxBytes < stamp.size then .ok none
          else
            match entry.belowRoot with
            | none => .error (.unsafePath entry.path)
            | some path =>
              .ok (some
                { absolutePath := entry.path
                  relativePath := String.ofList (path.toList.map fun character => if character = '\\' then '/' else character)
                  stamp, contentType })

/-- An entry that the walk has sent. -/
def received (selected : List ContentType) (maxBytes : Nat) : Except String WalkEntry → Except Error (Option SourceFile)
  | .error error => .error (.invalidRequest error)
  | .ok entry => sourceFile selected maxBytes entry

/-- `discover_files`, on the entries of the walk in the order in which they come. -/
def discoverFiles (walk : List (Except String WalkEntry)) (selected : List ContentType) (maxBytes : Nat) :
    Except Error (List SourceFile) := do
  let files ← walk.mapM (received selected maxBytes)
  return files.reduceOption.mergeSort fun left right => (compare left.relativePath right.relativePath).isLE

theorem mapM_perm {α β ε : Type} {f : α → Except ε β} {list other : List α} {values : List β} (perm : list.Perm other)
    (ran : list.mapM f = .ok values) : ∃ values', other.mapM f = .ok values' ∧ values.Perm values' := by
  induction perm generalizing values with
  | nil => exact ⟨values, ran, .refl _⟩
  | cons element _ ih =>
    rw [List.mapM_cons] at ran
    obtain ⟨value, here, ran⟩ := except_bind_eq_ok.mp ran
    obtain ⟨rest, later, ran⟩ := except_bind_eq_ok.mp ran
    cases ran
    obtain ⟨rest', later', same⟩ := ih later
    refine ⟨value :: rest', ?_, .cons _ same⟩
    rw [List.mapM_cons, here, later']
    rfl
  | swap first second list =>
    rw [List.mapM_cons] at ran
    obtain ⟨value, here, ran⟩ := except_bind_eq_ok.mp ran
    obtain ⟨rest, later, ran⟩ := except_bind_eq_ok.mp ran
    cases ran
    rw [List.mapM_cons] at later
    obtain ⟨next, there, later⟩ := except_bind_eq_ok.mp later
    obtain ⟨more, behind, later⟩ := except_bind_eq_ok.mp later
    cases later
    refine ⟨next :: value :: more, ?_, .swap _ _ _⟩
    rw [List.mapM_cons, List.mapM_cons, here, there, behind]
    rfl
  | trans _ _ ih ih' =>
    obtain ⟨between, ran', same⟩ := ih ran
    obtain ⟨values', ran'', same'⟩ := ih' ran'
    exact ⟨values', ran'', same.trans same'⟩

theorem discoverFiles_perm {walk other : List (Except String WalkEntry)} {selected : List ContentType} {maxBytes : Nat}
    {files : List SourceFile} (perm : walk.Perm other) (found : discoverFiles walk selected maxBytes = .ok files) :
    ∃ files', discoverFiles other selected maxBytes = .ok files' ∧ files.Perm files' := by
  obtain ⟨entries, ran, sorted⟩ := except_bind_eq_ok.mp found
  cases sorted
  obtain ⟨entries', ran', same⟩ := mapM_perm perm ran
  refine ⟨entries'.reduceOption.mergeSort fun left right => (compare left.relativePath right.relativePath).isLE, ?_, ?_⟩
  · unfold discoverFiles
    rw [ran']
    rfl
  · exact (List.mergeSort_perm _ _).trans ((same.filterMap _).trans (List.mergeSort_perm _ _).symm)

end Byok.Semble
