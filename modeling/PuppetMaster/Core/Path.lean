/-
  PuppetMaster.Core.Path — POSIX paths as `std::filesystem::path` has them.

  A path is its text. `join` is `operator/`; a root directory makes a path absolute.
-/

import Mathlib.Logic.Basic
import PuppetMaster.Core.Status

namespace PuppetMaster.Core.Path

def separator : UInt8 := 0x2f

def isAbsolute (path : Bytes) : Bool := path.head? == some separator

def join (base path : Bytes) : Bytes :=
  if isAbsolute path then path
  else if base = [] ∨ base.getLast? = some separator then base ++ path
  else base ++ separator :: path

/-- Without the last component and the separators in front of it; a root directory stays. -/
def parentPath (path : Bytes) : Bytes :=
  if path.all (· == separator) then path
  else
    let behind := path.reverse.dropWhile (· != separator)
    if behind.all (· == separator) then behind.take 1
    else (behind.dropWhile (· == separator)).reverse

def hasParentPath (path : Bytes) : Bool := parentPath path ≠ []

/-- One more component, over those that are kept so far, last first. -/
def normalStep (rooted : Bool) (kept : List Bytes) (component : Bytes) : List Bytes :=
  if component = [] ∨ component = text "." then kept
  else if component = text ".." then
    match kept with
    | [] => if rooted then [] else [component]
    | last :: before => if last = component then component :: last :: before else before
  else component :: kept

/-- A path that ends in a directory keeps a separator at its end, unless that directory is `..`. -/
def lexicallyNormal (path : Bytes) : Bytes :=
  let components := path.splitOn separator
  let kept := components.foldl (normalStep (isAbsolute path)) []
  let last := components.getLastD []
  let root := if isAbsolute path then [separator] else []
  if path = [] then []
  else if kept = [] then if isAbsolute path then root else text "."
  else if (last = [] ∨ last = text "." ∨ last = text "..") ∧ kept.head? ≠ some (text "..") then
    root ++ [separator].intercalate kept.reverse ++ [separator]
  else root ++ [separator].intercalate kept.reverse

example : ["/var/tmp/x", "/x", "x", "a//b/", "/"].map (fun path => parentPath (text path)) =
    ["/var/tmp", "/", "", "a//b", "/"].map text := by decide +kernel

example : ["foo/./bar/..", "foo/.///bar/../", "../a/..", "/..", "a/.."].map (fun path => lexicallyNormal (text path)) =
    ["foo/", "foo/", "..", "/", "."].map text := by decide +kernel

end PuppetMaster.Core.Path
