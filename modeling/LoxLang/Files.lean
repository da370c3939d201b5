set_option autoImplicit false

namespace LoxLang

structure SystemError where
  description : String
  number : Nat
  deriving DecidableEq, Repr

namespace SystemError

def message (e : SystemError) : String :=
  e.description ++ " (os error " ++ toString e.number ++ ")"

def notFound : SystemError := ⟨"No such file or directory", 2⟩
def noDevice : SystemError := ⟨"No such device", 19⟩
def notDirectory : SystemError := ⟨"Not a directory", 20⟩
def nameTooLong : SystemError := ⟨"File name too long", 36⟩
def permissionDenied : SystemError := ⟨"Permission denied", 13⟩
def isDirectory : SystemError := ⟨"Is a directory", 21⟩

def known : List SystemError :=
  [notFound, permissionDenied, noDevice, notDirectory, isDirectory, nameTooLong]

/-- The refusal of a number, in the given words if it is not one of the known ones. -/
def ofNumber (number : Nat) (description : String) : SystemError :=
  (known.find? fun e => e.number = number).getD ⟨description, number⟩

end SystemError

inductive Opened where
  | content (bytes : List UInt8)
  /-- The standard input of the program itself. -/
  | standardInput
  /-- A directory opens and cannot be read. -/
  | directory
  | refused (cause : SystemError)
  deriving DecidableEq, Repr

inductive FileTree where
  | file (content : List UInt8)
  | standardInput
  | directory (entries : List (String × FileTree))

def nameLimit : Nat := 255

def pathLimit : Nat := 4096

/-- A place in a tree: the part that begins there and the directories around it, the innermost
first. -/
structure Place where
  here : FileTree
  above : List FileTree

namespace Place

def root (p : Place) : Place := ⟨p.above.getLastD p.here, []⟩

def up (p : Place) : Place :=
  match p.above with
  | [] => p
  | outer :: rest => ⟨outer, rest⟩

def step (p : Place) (component : String) : Except SystemError Place :=
  match p.here with
  | .directory entries =>
    if component = "" || component = "." then .ok p
    else if component = ".." then .ok p.up
    else if nameLimit < component.utf8ByteSize then .error .nameTooLong
    else
      match entries.lookup component with
      | some found => .ok ⟨found, p.here :: p.above⟩
      | none => .error .notFound
  | .file _ | .standardInput => .error .notDirectory

def walk (p : Place) : List String → Except SystemError Place
  | [] => .ok p
  | component :: rest =>
    match p.step component with
    | .ok next => next.walk rest
    | .error cause => .error cause

/-- The place a path leads to from here. -/
def find (p : Place) (path : String) : Except SystemError Place :=
  if path = "" then .error .notFound
  else if pathLimit ≤ path.utf8ByteSize then .error .nameTooLong
  else (if path.startsWith "/" then p.root else p).walk (path.splitOn "/")

def opened (p : Place) (path : String) : Opened :=
  match p.find path with
  | .error cause => .refused cause
  | .ok found =>
    match found.here with
    | .file content => .content content
    | .standardInput => .standardInput
    | .directory _ => .directory

def systemDirectories : List (String × FileTree) :=
  ("dev", .directory
      [("null", .file []), ("stdin", .standardInput),
       ("fd", .directory [("0", .standardInput)])]) ::
    ["bin", "boot", "etc", "home", "lib", "media", "mnt", "opt", "proc", "root", "run", "sbin",
      "srv", "sys", "usr", "var"].map fun name => (name, .directory [])

/-- A working directory with some files, which stands among those for temporary files. -/
def workingDirectory (files : List (String × FileTree)) : Place :=
  let here := FileTree.directory files
  let temporary := FileTree.directory [("work", here)]
  ⟨here, [temporary, .directory (("tmp", temporary) :: systemDirectories)]⟩

end Place

end LoxLang
