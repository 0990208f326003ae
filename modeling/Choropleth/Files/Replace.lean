import Choropleth.Files.Tree

/-!
# Replacing files at one stroke

A file is written under another name beside its place and then moved there, so that at its place
there is never a part of it.

* `FileStep`: what a program does to a tree in one step;
* `FileStep.runAll`: steps one after the other, up to the first that fails;
* `replaceSteps`, `Tree.replace`: the steps by which a file is replaced.
-/

namespace Choropleth

/-- What a program does to a tree in one step. -/
inductive FileStep
  /-- Creates a directory unless it is there. -/
  | ensureDirectory (path : String)
  /-- Writes a file. -/
  | write (path : String) (content : Content)
  /-- Moves a file, over an older one if there is one. -/
  | move (source target : String)
deriving DecidableEq

namespace FileStep

/-- Does a step. A step that fails may have created some of its directories. -/
def run (t : Tree) : FileStep → Except FileFault Unit × Tree
  | ensureDirectory path => t.ensureDirectory path
  | write path content =>
    match t.write path content with
    | .error e => (.error e, t)
    | .ok t => (.ok (), t)
  | move source target =>
    match t.move source target with
    | .error e => (.error e, t)
    | .ok t => (.ok (), t)

/-- Does steps one after the other, up to the first that fails. -/
def runAll (t : Tree) : List FileStep → Except FileFault Unit × Tree
  | [] => (.ok (), t)
  | s :: r =>
    match s.run t with
    | (.error e, t) => (.error e, t)
    | (.ok (), t) => runAll t r

end FileStep

/-- The path under which a file is written before it is moved to its place. -/
def draftPath (path : String) : String := Path.beside path ".tmp"

/-- The steps by which a file is replaced. -/
def replaceSteps (path : String) (content : Content) : List FileStep :=
  (Path.parent? path).toList.map .ensureDirectory ++
    [.write (draftPath path) content, .move (draftPath path) path]

/-- Replaces a file at one stroke. -/
def Tree.replace (t : Tree) (path : String) (content : Content) : Except FileFault Unit × Tree :=
  FileStep.runAll t (replaceSteps path content)

end Choropleth
