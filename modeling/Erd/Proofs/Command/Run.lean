import Mathlib.Data.List.Basic
import Erd.Command.Run
import Erd.Proofs.Command.Given

/-!
# What a run does to the files

Every command has the same shape: the configuration is loaded, the sources are read and parsed one by one, and
what is left cannot fail but for a schema that is not valid.  So how a run ends is told by the configuration and
by what is found where the sources are looked for, and a file is written at the very end, by the one command
that formats it in place.
-/

namespace Erd.Command

/-! ## Sources -/

/-- The text of a source, if there is one. -/
def Inputs.text? (i : Inputs) (path : String) : Option String :=
  if isStandardInput path then some i.stdin else (fileAt? i.files path).map (·.2)

/-- What a run finds where it looks for its sources, a text or nothing.  It looks for one after the other, and no
further than to the first that is missing or does not parse. -/
def Inputs.found (i : Inputs) : List String → List (Option String)
  | [] => []
  | path :: rest =>
    i.text? path ::
      match i.text? path with
      | none => []
      | some text =>
        match Schema.parse text with
        | .error _ => []
        | .ok _ => (i.afterReading path).found rest

/-- A source that the run looks for is missing. -/
def Inputs.Misses (i : Inputs) (paths : List String) : Prop := none ∈ i.found paths

/-- A source that the run reads does not parse. -/
def Inputs.Misreads (i : Inputs) (paths : List String) : Prop :=
  ∃ text, some text ∈ i.found paths ∧ ∃ e, Schema.parse text = .error e

/-- The schemas of sources, or the failure of the first that has none. -/
def loadAll (i : Inputs) : List String → Except Failure (List Schema)
  | [] => .ok []
  | path :: rest =>
    match load i path with
    | .error f => .error f
    | .ok s =>
      match loadAll (i.afterReading path) rest with
      | .error f => .error f
      | .ok ss => .ok (s :: ss)

variable {i : Inputs} {a : Arguments} {path : String} {paths : List String} {s : Schema} {ss : List Schema}
  {f : Failure} {task : Task} {o : Outcome}

/-- What keeps a task from success when all its sources were read. -/
def Task.verdict : Task → List Schema → Option Failure
  | .validate path, [s] => if s.check.valid then none else some (.invalid path s.check.errorCount)
  | _, _ => none

/-- The file that a task writes when all its sources were read, with its text. -/
def Task.rewrite (i : Inputs) : Task → List Schema → Option (String × String)
  | .format path true, [s] =>
    if isStandardInput path then none else (fileAt? i.files path).map fun file => (file.1, s.print)
  | _, _ => none

/-- How a task ends, by what loading its sources gave. -/
structure Task.Ends (task : Task) (i : Inputs) (o : Outcome) : Prop where
  error : ∀ f, loadAll i task.sources = .error f → o.failure = some f ∧ o.write = none
  ok : ∀ ss, loadAll i task.sources = .ok ss → o.failure = task.verdict ss ∧ o.write = task.rewrite i ss

theorem Task.Ends.of_error (h : loadAll i task.sources = .error f) : task.Ends i (.failing f) := by
  refine ⟨fun g hg => ?_, fun ss hss => ?_⟩
  · cases h.symm.trans hg
    exact ⟨rfl, rfl⟩
  · cases h.symm.trans hss

theorem Task.Ends.of_ok (h : loadAll i task.sources = .ok ss) (hfailure : o.failure = task.verdict ss)
    (hwrite : o.write = task.rewrite i ss) : task.Ends i o := by
  refine ⟨fun g hg => ?_, fun ts hts => ?_⟩
  · cases h.symm.trans hg
  · cases h.symm.trans hts
    exact ⟨hfailure, hwrite⟩

/-- A task with one source. -/
theorem Task.Ends.single {next : Schema → Outcome} (hsources : task.sources = [path])
    (hnext : ∀ s, load i path = .ok s → (next s).failure = task.verdict [s] ∧ (next s).write = task.rewrite i [s]) :
    task.Ends i (.after (load i path) next) := by
  cases h : load i path with
  | error f => exact .of_error (by rw [hsources, loadAll, h])
  | ok s =>
    have hload : loadAll i task.sources = .ok [s] := by
      rw [hsources, loadAll, h]
      rfl
    exact .of_ok hload (hnext s h).1 (hnext s h).2

/-- The configuration, if there is one, is a file whose text is one. -/
def ConfigLoads (i : Inputs) (config : Option String) : Prop :=
  ∀ path, config = some path → ∃ name text, fileAt? i.files path = some (name, text) ∧
    ∃ settings : Settings Float, Settings.parse? text = some settings

/-- The run formats this file in place, to the text of this schema. -/
structure FormatsInPlace (i : Inputs) (a : Arguments) (path name : String) (s : Schema) : Prop where
  task : a.task = .format path true
  path_ne : isStandardInput path = false
  config : ConfigLoads i a.config
  file : ∃ text, fileAt? i.files path = some (name, text) ∧ Schema.parse text = .ok s

/-- The run validates a schema that is not valid. -/
def Rejects (i : Inputs) (a : Arguments) : Prop :=
  ∃ path text s, a.task = .validate path ∧ i.text? path = some text ∧ Schema.parse text = .ok s ∧
    s.check.valid = false

/-- What a run does to the files, and how it ends. -/
structure Outcome.Answers (o : Outcome) (i : Inputs) (a : Arguments) : Prop where
  untouched : (∀ path name s, ¬ FormatsInPlace i a path name s) → o.filesAfter i.files = i.files
  /-- The file that is formatted holds the printed schema, and every other what it held. -/
  rewritten : ∀ path name s, FormatsInPlace i a path name s → o.exitCode = 0 ∧
    (o.filesAfter i.files).map (·.1) = i.files.map (·.1) ∧
    ∀ q, fileAt? (o.filesAfter i.files) q =
      if pathParts q = pathParts path then some (name, s.print) else fileAt? i.files q
  failing : o.exitCode ≠ 0 → o.filesAfter i.files = i.files
  misread : o.exitCode = 3 ↔ ConfigLoads i a.config ∧ i.Misreads a.task.sources
  invalid : o.exitCode = 4 ↔ ConfigLoads i a.config ∧ Rejects i a
  unread : o.exitCode = 1 ↔ ¬ ConfigLoads i a.config ∨ i.Misses a.task.sources
  codes : o.exitCode = 0 ∨ o.exitCode = 1 ∨ o.exitCode = 3 ∨ o.exitCode = 4

/-! ## Files -/

end Erd.Command
