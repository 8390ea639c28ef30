/-!
A directory as the command line sees it: files by their paths. Reading gives text, or the
cause why there is none. A path is walked name by name; an empty name or a dot stays where
it is, and two dots go back.
-/

namespace Fish.Cli

inductive ReadError
  | notFound
  | notDirectory
  | isDirectory
  | notText
  | other (cause : String)
  deriving DecidableEq

def ReadError.cause : ReadError → String
  | notFound => "No such file or directory (os error 2)"
  | notDirectory => "Not a directory (os error 20)"
  | isDirectory => "Is a directory (os error 21)"
  | notText => "stream did not contain valid UTF-8"
  | other cause => cause

/-- The text that some bytes spell. -/
def decodeText (bytes : ByteArray) : Except ReadError String :=
  match String.fromUTF8? bytes with
  | some text => .ok text
  | none => .error .notText

/-- The names between the slashes of a path. -/
def pathNames (cs : List Char) : List String :=
  (cs.foldr (fun c names =>
    if c = '/' then [] :: names
    else match names with
      | name :: rest => (c :: name) :: rest
      | [] => [[c]]) [[]]).map String.ofList

/-- The files of a directory and of those within it. -/
structure Directory where
  files : List (List String × ByteArray) := []

namespace Directory

def ofFiles (files : List (String × ByteArray)) : Directory :=
  ⟨files.map fun (path, bytes) => (pathNames path.toList, bytes)⟩

def file? (d : Directory) (place : List String) : Option ByteArray :=
  (d.files.find? fun file => file.1 == place).map (·.2)

def hasFolder (d : Directory) (place : List String) : Bool :=
  d.files.any fun file => place.isPrefixOf file.1 && place.length < file.1.length

/-- Walks on from the folder `place`. Nothing is known of what lies outside. -/
def find (d : Directory) (place : List String) : List String → Except ReadError ByteArray
  | [] => .error .isDirectory
  | name :: rest =>
    if name = "" ∨ name = "." then d.find place rest
    else if name = ".." then
      if place.isEmpty then
        .error (if rest.all fun n => n = "" || n = "." || n = ".." then .isDirectory
          else .notFound)
      else d.find place.dropLast rest
    else
      let here := place ++ [name]
      match d.file? here with
      | some bytes => if rest.isEmpty then .ok bytes else .error .notDirectory
      | none => if d.hasFolder here then d.find here rest else .error .notFound

/-- The text of the file at `path`. -/
def read (d : Directory) (path : String) : Except ReadError String := do
  let bytes ← match path.toList with
    | '/' :: cs =>
      let outside := pathNames cs
      .error (if outside.all fun n => n = "" || n = "." || n = ".." then .isDirectory
        else .notFound)
    | cs => d.find [] (pathNames cs)
  decodeText bytes

end Directory

end Fish.Cli
