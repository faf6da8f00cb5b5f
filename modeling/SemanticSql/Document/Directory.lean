import SemanticSql.Document
import SemanticSql.Project.Validation

/-!
Projects from files: one document, or all documents of a directory and the directories in it.
-/
namespace SemanticSql.Document

def load (source : String) : Except Error Project := do Project.ofValid (← parse source)

def components (path : String) : List String := (Text.split '/' path).filter fun s => !s.isEmpty

def namesOrdered : List String → List String → Bool
  | [], _ => true
  | _ :: _, [] => false
  | a :: as, b :: bs => a < b || (a == b && namesOrdered as bs)

def pathOrder (a b : String) : Bool := namesOrdered (components a) (components b)

def extension? (path : String) : Option String :=
  match (components path).getLast? with
  | none => none
  | some name =>
    let tail := name.toList.reverse.takeWhile (· != '.')
    if tail.length + 1 < name.length then some (String.ofList tail.reverse) else none

def holdsDefinitions (path : String) : Bool := extension? path == some "yml" || extension? path == some "yaml"

def mergeFiles (files : List (String × String)) : Except Error Definitions :=
  ((files.filter fun f => holdsDefinitions f.1).mergeSort fun a b => pathOrder a.1 b.1).foldlM
    (fun all f =>
      match parse f.2 with
      | .ok d => .ok (all.append d)
      | .error _ => .error (.config .fileUnreadable))
    {}

def loadDirectory (path : String) (files : Option (List (String × String))) : Except Error Project :=
  match files with
  | none => .error (.config (.notDirectory path))
  | some files => do Project.ofValid (← mergeFiles files)

end SemanticSql.Document
