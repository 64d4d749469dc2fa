set_option autoImplicit false

/-!
# Paths and folders

A path is cut at its slashes; parts that are empty or a single point count for nothing. A folder
holds texts by their paths and has the folders that lie on the way to them. Two points lead out of a
folder, and above the topmost one nothing is known but that it is a folder. Names and paths have a
greatest length, counted in bytes.
-/
namespace NumberedBasic.Command

def pieces (sep : Char) : List Char → List (List Char)
  | [] => [[]]
  | c :: rest =>
    if c == sep then [] :: pieces sep rest
    else
      match pieces sep rest with
      | [] => [[c]]
      | piece :: more => (c :: piece) :: more

structure Path where
  root : String
  parts : List String
  deriving DecidableEq

namespace Path

/-- Two slashes at the start differ from one, and more than two do not. -/
def ofString (s : String) : Path :=
  let cs := s.toList
  let slashes := (cs.takeWhile (· == '/')).length
  let root := if slashes = 0 then "" else if slashes = 2 then "//" else "/"
  let parts := (pieces '/' cs).filter fun part => !part.isEmpty && part != ['.']
  ⟨root, parts.map String.ofList⟩

def text (p : Path) : String :=
  if p.root.isEmpty && p.parts.isEmpty then "." else p.root ++ "/".intercalate p.parts

def extend (p : Path) (suffix : String) : Path :=
  match p.parts.getLast? with
  | some last => { p with parts := p.parts.dropLast ++ [last ++ suffix] }
  | none => p

end Path

structure Folder where
  files : List (String × String)
  deriving DecidableEq

inductive Place where
  | file (name text : String)
  | folder
  /-- Nothing; a file made there would have this name. -/
  | free (name : String)
  | nowhere
  | tooLong
  deriving DecidableEq

def maxNameBytes : Nat := 255

def maxPathBytes : Nat := 4095

namespace Folder

def get? (f : Folder) (name : String) : Option String := f.files.lookup name

def put (f : Folder) (name text : String) : Folder :=
  ⟨f.files.filter (·.1 != name) ++ [(name, text)]⟩

def hasFolder (f : Folder) (parts : List String) : Bool :=
  f.files.any fun file =>
    let here := (pieces '/' file.1.toList).map String.ofList
    parts.isPrefixOf here && parts.length < here.length

/-- What lies at the parts of a path, seen from a folder of which nothing is known. -/
def placeOutside (parts : List String) : Place :=
  match parts.dropWhile (· == "..") with
  | [] => .folder
  | part :: _ => if maxNameBytes < part.utf8ByteSize then .tooLong else .nowhere

def placeFrom (f : Folder) (here : List String) : List String → Place
  | [] => .folder
  | part :: rest =>
    if part = ".." then
      if here.isEmpty then placeOutside rest else f.placeFrom here.dropLast rest
    else if maxNameBytes < part.utf8ByteSize then .tooLong
    else
      let there := here ++ [part]
      if f.hasFolder there then f.placeFrom there rest
      else if rest.isEmpty then
        let name := "/".intercalate there
        match f.get? name with
        | some text => .file name text
        | none => .free name
      else .nowhere

/-- What lies at a path. Nothing lies at one with a zero character in it. -/
def place (f : Folder) (p : Path) : Place :=
  if p.text.toList.contains '\x00' then .nowhere
  else if maxPathBytes < p.text.utf8ByteSize then .tooLong
  else if p.root.isEmpty then f.placeFrom [] p.parts
  else placeOutside p.parts

end Folder

end NumberedBasic.Command
