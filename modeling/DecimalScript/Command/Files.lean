import DecimalScript.Command.Path

/-!
# Files

What a path leads to, and trees of files in which a path is followed name by name: a name goes down
into a folder, two dots go up, and a path that starts at no top starts at the working folder. The
folders of a tree are those that its files lie in, and any others that it lists.
-/

namespace DecimalScript

/-- What a path leads to. -/
inductive PathTarget where
  | text (content : String)
  | folder
  | nothing
  /-- The path or one of its names is longer than paths or names may be. -/
  | tooLong

/-- Files, by their paths. -/
abbrev Files := String → PathTarget

/-- A place in a tree: its name and those of the folders around it, innermost first. -/
abbrev Place := List String

namespace Place

/-- The place of a path from the top. -/
def ofPath (path : String) : Place :=
  (Path.names path).reverse

end Place

/-- A tree of files. -/
structure FileTree where
  /-- The folder at which paths start. -/
  working : Place
  texts : List (Place × String)
  folders : List Place := []

namespace FileTree

/-- The longest name, in bytes. -/
def maxNameLength : Nat := 255

/-- The longest path, in bytes. -/
def maxPathLength : Nat := 4095

/-- What lies at a place. -/
def target (tree : FileTree) (place : Place) : PathTarget :=
  match tree.texts.lookup place with
  | some content => .text content
  | none =>
    let places := tree.working :: tree.texts.map (·.1) ++ tree.folders
    if places.any fun inner => place.isSuffixOf inner then .folder else .nothing

/-- Follows names from a place. Only folders lead on. -/
def follow (tree : FileTree) (place : Place) : List String → PathTarget
  | [] => tree.target place
  | name :: names =>
    match tree.target place with
    | .folder =>
      if name = ".." then tree.follow place.tail names
      else if maxNameLength < name.utf8ByteSize then .tooLong
      else tree.follow (name :: place) names
    | _ => .nothing

/-- What a path leads to. No path has a null character in it. -/
def find (tree : FileTree) : Files := fun path =>
  let normal := Path.normalize path
  if normal.toList.contains '\x00' then .nothing
  else if maxPathLength < normal.utf8ByteSize then .tooLong
  else tree.follow (if Path.isAbsolute path then [] else tree.working) (Path.names path)

end FileTree

end DecimalScript
