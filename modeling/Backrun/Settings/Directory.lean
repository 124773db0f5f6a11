import Backrun.Settings.Load

/-!
# Directories in memory

A directory given by the names and the texts of its files.  A name with slashes lies in
folders of its own, and paths are followed step by step as on a disk: every step but
the last has to be a folder.
-/

namespace Backrun

/-- The names of files, split at slashes, with their texts. -/
structure Directory where
  files : List (List String × String)

namespace Directory

/-- Splits a path at slashes. -/
def steps (path : String) : List String := (path.toList.splitOn '/').map String.ofList

/-- Whether a step stays where it is. -/
def stays (step : String) : Bool := step == "" || step == "."

/-- A directory with the given files. -/
def ofFiles (files : List (String × String)) : Directory :=
  ⟨files.map fun f => ((steps f.1).filter fun step => !stays step, f.2)⟩

/-- Whether a folder is there. -/
def hasFolder (d : Directory) (folder : List String) : Bool :=
  folder.isEmpty || d.files.any fun f => folder.isPrefixOf f.1 && folder != f.1

/-- The folder or file that steps lead to from a folder. -/
def walk (d : Directory) (folder : List String) : List String → Option (List String)
  | [] => some folder
  | step :: rest =>
      if ¬ d.hasFolder folder then none
      else if stays step then walk d folder rest
      else if step = ".." then
        if folder.isEmpty then none else walk d folder.dropLast rest
      else walk d (folder ++ [step]) rest

/-- The text of the file at a path. -/
def read (d : Directory) : Files := fun path =>
  match path.toList with
  | [] => none
  | '/' :: _ => none
  | _ =>
      match d.walk [] (steps path) with
      | some place => d.files.lookup place
      | none => none

end Directory

end Backrun
