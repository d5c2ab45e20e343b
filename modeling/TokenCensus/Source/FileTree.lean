/-!
# File trees

Sources are read from files, which are found by paths.  A path is a list of names with slashes
between them, read from left to right: each name but the last must lead to a directory.  An empty
name, as between two slashes, and the name `.` stay where they are, and `..` leads one directory up.
So different paths can lead to the same place, and a file tree holds its entries by their places.

Paths start at the working directory, or with a slash at the root.  Where the working directory is
cannot be seen: no path from the root leads into it, and none that has left it leads back.
-/

namespace TokenCensus

/-- Why a file cannot be read. -/
inductive ReadFailure where
  /-- The path contains the null character. -/
  | nullInPath
  /-- There is nothing of that name. -/
  | notFound
  /-- A name was to be looked up in something that is not a directory. -/
  | notADirectory
  /-- The path leads to a directory. -/
  | isADirectory
  /-- A name in the path, or the path as a whole, is too long. -/
  | nameTooLong
  /-- Any other reason, in the words of the operating system. -/
  | other (message : String)
deriving DecidableEq, Repr

/-- The failure in words, with its number where the operating system has one. -/
def ReadFailure.message : ReadFailure → String
  | nullInPath => "file name contained an unexpected NUL byte"
  | notFound => "No such file or directory (os error 2)"
  | notADirectory => "Not a directory (os error 20)"
  | isADirectory => "Is a directory (os error 21)"
  | nameTooLong => "File name too long (os error 36)"
  | other message => message

/-- The names between the slashes of a path. -/
def pathNames (path : String) : List String :=
  path.splitOn "/"

/-- The greatest number of bytes in a name. -/
def nameLimit : Nat := 255

/-- The greatest number of bytes in a path. -/
def pathLimit : Nat := 4095

/-- A directory that is known by its relation to others. -/
inductive Base where
  /-- The directory so many levels above the working directory, which itself is at level zero. -/
  | above (levels : Nat)
  /-- The directory that all others are in. -/
  | root
deriving DecidableEq, Repr

/-- The directory one level up.  The root has none above it, and `..` stays there. -/
def Base.parent : Base → Base
  | above levels => above (levels + 1)
  | root => root

/-- A place in a file tree, by the names that lead to it from a base.  None of them is empty, `.`
or `..`. -/
structure Location where
  base : Base
  names : List String
deriving DecidableEq, Repr

namespace Location

/-- The place that a path starts from. -/
def start (path : String) : Location :=
  if path.startsWith "/" then ⟨.root, []⟩ else ⟨.above 0, []⟩

/-- The place that a name leads to. -/
def move (location : Location) (name : String) : Location :=
  if name = "" ∨ name = "." then location
  else if name = ".." then
    match location.names with
    | [] => ⟨location.base.parent, []⟩
    | names => ⟨location.base, names.dropLast⟩
  else ⟨location.base, location.names ++ [name]⟩

/-- The place that names lead to, one after the other. -/
def resolve (location : Location) (names : List String) : Location :=
  names.foldl move location

/-- The place that a path leads to. -/
def ofPath (path : String) : Location :=
  (start path).resolve (pathNames path)

/-- The places that names pass on their way, from the first one to the last but one. -/
def passed (location : Location) : List String → List Location
  | [] => []
  | name :: names => location :: passed (location.move name) names

end Location

/-- What a path can lead to. -/
inductive Entry where
  | file (bytes : List UInt8)
  | directory
deriving DecidableEq, Repr

/-- Entries by their places, the latest first: of two at the same place the first one counts. -/
structure FileTree where
  entries : List (Location × Entry)
deriving DecidableEq, Repr

namespace FileTree

/-- The tree of an empty working directory. -/
def empty : FileTree := ⟨[]⟩

/-- What is at a place, if there is anything.  Bases are directories. -/
def entryAt? (tree : FileTree) (location : Location) : Option Entry :=
  if location.names = [] then some .directory else tree.entries.lookup location

/-- Puts an entry at a place, instead of what was there before. -/
def put (tree : FileTree) (location : Location) (entry : Entry) : FileTree :=
  ⟨(location, entry) :: tree.entries⟩

/-- Makes a directory of a place where there is nothing. -/
def ensureDirectory (tree : FileTree) (location : Location) : FileTree :=
  if (tree.entryAt? location).isSome then tree else tree.put location .directory

/-- Adds an entry under a path, and the directories that the path passes. -/
def add (tree : FileTree) (path : String) (entry : Entry) : FileTree :=
  let passed := (Location.start path).passed (pathNames path)
  (passed.foldl ensureDirectory tree).put (Location.ofPath path) entry

/-- Reads one more name of a path. -/
def step (tree : FileTree) (location : Location) (name : String) : Except ReadFailure Location :=
  match tree.entryAt? location with
  | none => .error .notFound
  | some (.file _) => .error .notADirectory
  | some .directory =>
    -- whether anything has the name is asked at the next step, or at the end
    if nameLimit < name.utf8ByteSize then .error .nameTooLong else .ok (location.move name)

/-- Reads the names of a path, one after the other. -/
def walk (tree : FileTree) (location : Location) (names : List String) :
    Except ReadFailure Location :=
  names.foldlM tree.step location

/-- The bytes of the file that a path leads to. -/
def read (tree : FileTree) (path : String) : Except ReadFailure (List UInt8) := do
  if path.contains '\x00' then throw .nullInPath
  if path = "" then throw .notFound
  if pathLimit < path.utf8ByteSize then throw .nameTooLong
  match tree.entryAt? (← tree.walk (Location.start path) (pathNames path)) with
  | none => throw .notFound
  | some .directory => throw .isADirectory
  | some (.file bytes) => return bytes

end FileTree

end TokenCensus
