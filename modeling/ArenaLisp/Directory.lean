import ArenaLisp.Console

/-!
# Files

What a path leads to is for the system to say. A directory of files is one that can be asked.
-/

namespace ArenaLisp

/-- What is at a path, if anything is. -/
inductive Found where
  | file (contents : List Byte)
  | directory
  | barred (reason : String)
  deriving DecidableEq, Repr

structure Directory where
  files : List (String × List Byte)
  deriving Repr, Inhabited

namespace Directory

def parts : List Char → List (List Char)
  | [] => [[]]
  | c :: path =>
    if c = '/' then [] :: parts path
    else match parts path with
      | part :: rest => (c :: part) :: rest
      | [] => [[c]]

def stays (part : List Char) : Bool :=
  part == [] || part == ['.']

/-- A file has nothing inside, not even itself: `a/` and `a/.` are barred. -/
def follow (directory : Directory) : List (List Char) → Option Found
  | [] => some .directory
  | part :: rest =>
    if stays part then directory.follow rest
    else (directory.files.lookup (String.ofList part)).map fun contents =>
      if rest.isEmpty then .file contents else .barred "Not a directory (os error 20)"

def find? (directory : Directory) (path : String) : Option Found :=
  match path.toList with
  | [] => none
  | '/' :: _ => none
  | path => directory.follow (parts path)

end Directory

end ArenaLisp
