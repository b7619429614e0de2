/-
**Files.** The operations of a program on files: a file is read, removed, renamed or put in place in one step.

* `Files.read`, `Files.remove`, `Files.rename`, `Files.persist`, `Files.stage` — the steps.
* `Ends.read` and its like — what they do, whatever becomes of them.
-/

import Byok.Library.Crash
import Mathlib.Logic.Function.Basic

namespace Byok.Library

/-- The contents of the files, by their paths. -/
abbrev Files (content : Type) := String → Option content

/-- Why a step on files failed. -/
inductive IoError where
  | notFound
  | refused
deriving DecidableEq, Repr

namespace Files

variable {content : Type}

/-- The files once `path` has `value`. -/
abbrev put (files : Files content) (path : String) (value : Option content) : Files content :=
  Function.update files path value

/-- Whether there is a file. A look that fails sees none. -/
def exists? (path : String) : Prog (Files content) Bool := Prog.act (fun files => (files, (files path).isSome)) false

def read (path : String) : Prog (Files content) (Except IoError content) :=
  Prog.act (fun files => (files, (files path).elim (.error .notFound) .ok)) (.error .refused)

def remove (path : String) : Prog (Files content) (Except IoError Unit) :=
  Prog.act (fun files => match files path with
    | some _ => (files.put path none, .ok ())
    | none => (files, .error .notFound)) (.error .refused)

/-- A file takes the place of another. -/
def rename (source target : String) : Prog (Files content) (Except IoError Unit) :=
  Prog.act (fun files => match files source with
    | some value => ((files.put source none).put target (some value), .ok ())
    | none => (files, .error .notFound)) (.error .refused)

/-- A temporary file is written. -/
def stage : Prog (Files content) (Except IoError Unit) := Prog.act (fun files => (files, .ok ())) (.error .refused)

/-- The temporary file takes its place. -/
def persist (path : String) (value : content) : Prog (Files content) (Except IoError Unit) :=
  Prog.act (fun files => (files.put path (some value), .ok ())) (.error .refused)

/-! ### The steps that work -/

section Works

variable (files : Files content) (path : String)

@[simp] theorem exec_exists? : (exists? path).exec files = (files, (files path).isSome) := rfl

@[simp] theorem exec_read : (read path).exec files = (files, (files path).elim (.error .notFound) .ok) := rfl

@[simp] theorem exec_stage : (stage : Prog (Files content) _).exec files = (files, .ok ()) := rfl

@[simp] theorem exec_persist (value : content) : (persist path value).exec files = (files.put path (some value), .ok ()) :=
  rfl

theorem exec_remove {value : content} (there : files path = some value) :
    (remove path).exec files = (files.put path none, .ok ()) := by
  simp [remove, Prog.act, Prog.exec, there]

@[simp] theorem exec_remove_files : ((remove path).exec files).1 = files.put path none := by
  cases there : files path with
  | none =>
    have same : files.put path none = files := by rw [← there]; exact Function.update_eq_self path files
    simp [remove, Prog.act, Prog.exec, there, same]
  | some value => rw [exec_remove files path there]

theorem exec_rename {source target : String} {value : content} (there : files source = some value) :
    (rename source target).exec files = ((files.put source none).put target (some value), .ok ()) := by
  simp [rename, Prog.act, Prog.exec, there]

end Works

end Files

/-! ### What the steps do -/

namespace Ends

variable {content α : Type} {bad : Files content → Files content → Prop} {outcomes : List Outcome}
  {files : Files content} {path : String} {post : α → List Outcome → Files content → Prop} {cut : Files content → Prop}

theorem exists? {next : Bool → Prog (Files content) α} (stops : outcomes = [] → cut files)
    (sees : ∀ rest, outcomes = .works :: rest → Ends bad rest files (next (files path).isSome) post cut)
    (blind : ∀ rest, outcomes = .fails :: rest → Ends bad rest files (next false) post cut) :
    Ends bad outcomes files (Files.exists? path >>= next) post cut :=
  act stops (fun rest works _ => sees rest works) blind

theorem exists_any {next : Bool → Prog (Files content) α} (stops : outcomes = [] → cut files)
    (goes : ∀ first rest seen, outcomes = first :: rest → (seen = true → (files path).isSome) →
      Ends bad rest files (next seen) post cut) :
    Ends bad outcomes files (Files.exists? path >>= next) post cut :=
  exists? stops (fun rest works => goes _ rest _ works id) fun rest fails => goes _ rest _ fails nofun

theorem read {next : Except IoError content → Prog (Files content) α} (stops : outcomes = [] → cut files)
    (found : ∀ rest value, outcomes = .works :: rest → files path = some value →
      Ends bad rest files (next (.ok value)) post cut)
    (lost : ∀ rest error, outcomes = .works :: rest ∧ files path = none ∨ outcomes = .fails :: rest →
      Ends bad rest files (next (.error error)) post cut) :
    Ends bad outcomes files (Files.read path >>= next) post cut := by
  refine act stops (fun rest works _ => ?_) fun rest fails => lost rest _ (.inr fails)
  cases there : files path with
  | none =>
    simp only [Option.elim_none]
    exact lost rest _ (.inl ⟨works, there⟩)
  | some value =>
    simp only [Option.elim_some]
    exact found rest value works there

theorem remove {next : Except IoError Unit → Prog (Files content) α} (stops : outcomes = [] → cut files)
    (gone : ∀ rest value, outcomes = .works :: rest → files path = some value →
      Ends bad rest (files.put path none) (next (.ok ())) post cut)
    (kept : ∀ rest error, outcomes = .works :: rest ∧ files path = none ∨ outcomes = .fails :: rest →
      Ends bad rest files (next (.error error)) post cut) :
    Ends bad outcomes files (Files.remove path >>= next) post cut := by
  refine act stops (fun rest works _ => ?_) fun rest fails => kept rest _ (.inr fails)
  cases there : files path with
  | none =>
    simp only
    exact kept rest _ (.inl ⟨works, there⟩)
  | some value =>
    simp only
    exact gone rest value works there

theorem read_any {next : Except IoError content → Prog (Files content) α} (stops : outcomes = [] → cut files)
    (goes : ∀ first rest result, outcomes = first :: rest → (∀ value, result = .ok value → files path = some value) →
      Ends bad rest files (next result) post cut) :
    Ends bad outcomes files (Files.read path >>= next) post cut := by
  refine read stops (fun rest value works there => ?_) fun rest error lost => ?_
  · refine goes _ rest _ works fun other same => ?_
    obtain rfl := Except.ok.inj same
    exact there
  · rcases lost with ⟨works, _⟩ | fails
    · exact goes _ rest _ works nofun
    · exact goes _ rest _ fails nofun

theorem remove_any {next : Except IoError Unit → Prog (Files content) α} (stops : outcomes = [] → cut files)
    (goes : ∀ first rest result after, outcomes = first :: rest → after = files ∨ after = files.put path none →
      Ends bad rest after (next result) post cut) :
    Ends bad outcomes files (Files.remove path >>= next) post cut := by
  refine remove stops (fun rest value works _ => goes _ rest _ _ works (.inr rfl)) fun rest error lost => ?_
  rcases lost with ⟨works, _⟩ | fails
  · exact goes _ rest _ _ works (.inl rfl)
  · exact goes _ rest _ _ fails (.inl rfl)

theorem rename {source target : String} {next : Except IoError Unit → Prog (Files content) α}
    (stops : outcomes = [] → cut files)
    (moved : ∀ rest value, outcomes = .works :: rest → files source = some value →
      ¬ bad files ((files.put source none).put target (some value)) →
      Ends bad rest ((files.put source none).put target (some value)) (next (.ok ())) post cut)
    (kept : ∀ rest error, outcomes = .works :: rest ∧ files source = none ∨ outcomes = .fails :: rest →
      Ends bad rest files (next (.error error)) post cut) :
    Ends bad outcomes files (Files.rename source target >>= next) post cut := by
  refine act stops (fun rest works avoids => ?_) fun rest fails => kept rest _ (.inr fails)
  cases there : files source with
  | none =>
    simp only
    exact kept rest _ (.inl ⟨works, there⟩)
  | some value =>
    simp only [there] at avoids ⊢
    exact moved rest value works there avoids

theorem stage {next : Except IoError Unit → Prog (Files content) α} (stops : outcomes = [] → cut files)
    (staged : ∀ rest, outcomes = .works :: rest → Ends bad rest files (next (.ok ())) post cut)
    (refused : ∀ rest error, outcomes = .fails :: rest → Ends bad rest files (next (.error error)) post cut) :
    Ends bad outcomes files (Files.stage >>= next) post cut :=
  act stops (fun rest works _ => staged rest works) fun rest => refused rest _

theorem persist {value : content} {next : Except IoError Unit → Prog (Files content) α}
    (stops : outcomes = [] → cut files)
    (done : ∀ rest, outcomes = .works :: rest → Ends bad rest (files.put path (some value)) (next (.ok ())) post cut)
    (kept : ∀ rest error, outcomes = .fails :: rest → Ends bad rest files (next (.error error)) post cut) :
    Ends bad outcomes files (Files.persist path value >>= next) post cut :=
  act stops (fun rest works _ => done rest works) fun rest => kept rest _

end Ends

end Byok.Library
