import Lineage.Failure
import Lineage.Files.Content
import Lineage.Files.Path

/-! A tree of folders and files, as far as programs look at it: what is at a path, what
lies below a folder, and what changes when something is written or removed. -/

namespace Lineage

/-- The names on the way from the root. -/
abbrev Location := List String

/-- A place holds one file at most. -/
structure FileTree where
  folders : List Location
  files : List (Location × FileContent)
  distinct : (files.map Prod.fst).Nodup

namespace FileTree

def empty : FileTree := ⟨[], [], .nil⟩

inductive Entry where
  | folder
  | file (content : FileContent)

/-- The root is always a folder. -/
def isFolder (tree : FileTree) (location : Location) : Bool :=
  location.isEmpty || tree.folders.contains location

def fileAt? (tree : FileTree) (location : Location) : Option FileContent :=
  (tree.files.find? fun file => file.1 == location).map Prod.snd

def entry? (tree : FileTree) (location : Location) : Option Entry :=
  if tree.isFolder location then some .folder
  else (tree.fileAt? location).map Entry.file

/-- Names may not be longer, and paths not either. -/
def maxName : Nat := 255
def maxPath : Nat := 4095

/-- Goes on from a location by one segment after another. Only from a folder there is a
way on, be it to the same place. -/
def follow (tree : FileTree) : Location → List String → Option Location
  | location, [] => if (tree.entry? location).isSome then some location else none
  | location, segment :: rest =>
    if !tree.isFolder location then none
    else if segment.isEmpty || segment == "." then follow tree location rest
    else if segment == ".." then follow tree location.dropLast rest
    else if maxName < segment.utf8ByteSize then none
    else follow tree (location ++ [segment]) rest

/-- Whether a path can be asked for at all. -/
def isPathable (path : String) : Bool :=
  path.utf8ByteSize ≤ maxPath && path.toList.all fun c => c.toNat != 0

/-- Where a path leads, seen from a folder. -/
def resolve? (tree : FileTree) (working : Location) (path : String) : Option Location :=
  if path.isEmpty || !isPathable path then none
  else match Path.segments path with
    | "" :: rest => tree.follow [] rest
    | all => tree.follow working all

def isFile (tree : FileTree) (working : Location) (path : String) : Bool :=
  ((tree.resolve? working path).bind tree.fileAt?).isSome

def read (tree : FileTree) (working : Location) (path : String) : Except Failure (List UInt8) :=
  match (tree.resolve? working path).bind tree.fileAt? with
  | some content => .ok content.toBytes
  | none => .error (.file "not a file that can be read")

/-- The files below a folder with the names that lead to each of them. -/
def filesBelow (tree : FileTree) (folder : Location) : List (Location × FileContent) :=
  tree.files.filterMap fun file =>
    if folder.isPrefixOf file.1 then some (file.1.drop folder.length, file.2) else none

def keepFiles (p : Location → Bool) (tree : FileTree) : FileTree where
  folders := tree.folders
  files := tree.files.filter fun file => p file.1
  distinct := tree.distinct.sublist (List.filter_sublist.map _)

/-- Puts a file where none was, or in the place of the one that was there. -/
def setFile (location : Location) (content : FileContent) (tree : FileTree) : FileTree where
  folders := tree.folders
  files := (tree.keepFiles (· != location)).files ++ [(location, content)]
  distinct := by
    rw [List.map_append, List.nodup_append]
    refine ⟨(tree.keepFiles (· != location)).distinct, by simp, ?_⟩
    intro a ha b hb
    simp only [keepFiles, List.mem_map, List.mem_filter, bne_iff_ne] at ha
    obtain ⟨file, ⟨_, hne⟩, rfl⟩ := ha
    simp only [List.map_cons, List.map_nil, List.mem_singleton] at hb
    exact hb ▸ hne

def addFolder (tree : FileTree) (location : Location) : FileTree :=
  if tree.isFolder location then tree
  else { tree with folders := tree.folders ++ [location] }

/-- Makes the folders on the way, and says where it leads, unless a file stands in the way
or a name is too long. What was made until then stays. -/
def makeWay (tree : FileTree) : Location → List String → FileTree × Option Location
  | location, [] => (tree, some location)
  | location, segment :: rest =>
    if segment.isEmpty || segment == "." then makeWay tree location rest
    else if segment == ".." then makeWay tree location.dropLast rest
    else
      let next := location ++ [segment]
      if (tree.fileAt? next).isSome || maxName < segment.utf8ByteSize then (tree, none)
      else makeWay (tree.addFolder next) next rest

def start (working : Location) (path : String) : Location × List String :=
  match Path.segments path with
  | "" :: rest => ([], rest)
  | all => (working, all)

/-- The segments without the empty ones at the end. -/
def dropSlashes (way : List String) : List String :=
  (way.reverse.dropWhile String.isEmpty).reverse

/-- The segments without those at the end that lead nowhere else. -/
def dropIdle (way : List String) : List String :=
  (way.reverse.dropWhile fun segment => segment.isEmpty || segment == ".").reverse

/-- Makes a folder and those above it that are missing, and says whether the folder is
there. One that is named by a dot inside of it is not made. -/
def makeFolder (tree : FileTree) (working : Location) (path : String) : FileTree × Bool :=
  if !isPathable path then (tree, false)
  else
    let (base, way) := start working path
    let core := dropIdle way
    if core == dropSlashes way then
      let (tree, place) := tree.makeWay base way
      (tree, place.isSome)
    else
      let (tree, _) := tree.makeWay base core.dropLast
      (tree, (tree.resolve? working path).any tree.isFolder)

/-- Writes a file and makes the folders above it that are missing, and says whether the
file was written. -/
def write (tree : FileTree) (working : Location) (path : String) (bytes : List UInt8) :
    FileTree × Bool :=
  let (base, way) := start working path
  let above := (dropIdle way).dropLast
  if !isPathable (Path.spellNames above) then (tree, false)
  else
    match tree.makeWay base above, way.getLast? with
    | (tree, some folder), some name =>
      let location := folder ++ [name]
      if !isPathable path || name.isEmpty || name == "." || name == ".." ||
        maxName < name.utf8ByteSize || tree.isFolder location then (tree, false)
      else (tree.setFile location (.bytes bytes), true)
    | (tree, _), _ => (tree, false)

/-- Removes a file, or a folder with all that is in it, if something is there. A folder that
is named from inside of it is emptied and stays, and by a single dot it cannot be removed. -/
def remove (tree : FileTree) (working : Location) (path : String) : Option (FileTree × Bool) :=
  (tree.resolve? working path).map fun location =>
    let last := (dropSlashes (Path.segments path)).getLast?
    let stays := last == some "." || last == some ".."
    ({ tree.keepFiles (!location.isPrefixOf ·) with
        folders := tree.folders.filter fun folder =>
          (stays && folder == location) || !location.isPrefixOf folder },
      last != some ".")

def locationText (location : Location) : String := "/" ++ "/".intercalate location

/-- The path of a place without dots and doubled slashes, if something is there. -/
def canonical? (tree : FileTree) (working : Location) (path : String) : Option String :=
  (tree.resolve? working path).map locationText

end FileTree

end Lineage
