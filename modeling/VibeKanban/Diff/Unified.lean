import VibeKanban.Lib.Text
import VibeKanban.Lib.Lines

/-! Unified diffs as agents write them, cut into hunks and written again for the diff viewer. -/
namespace VibeKanban.Diff
open Lib

def isHeader (line : List Char) : Bool := "@@".toList.isPrefixOf line

def startsWithAny (starts : List Char) (line : List Char) : Bool :=
  match line with
  | [] => false
  | c :: _ => c ∈ starts

def isContent (line : List Char) : Bool := startsWithAny [' ', '+', '-'] line

/-- The header made for lines that come without one. -/
def countHeader (lines : List (List Char)) : List Char :=
  let oldCount := (lines.filter (startsWithAny ['-', ' '])).length
  let newCount := (lines.filter (startsWithAny ['+', ' '])).length
  "@@ -1,".toList ++ Nat.toDigits 10 oldCount ++ " +1,".toList ++ Nat.toDigits 10 newCount ++
    " @@".toList

/-- The hunk that is open at a new header, at an unknown line or at the end. -/
def flush (current : Option (List Char)) : List (List Char) :=
  match current with
  | some hunk => if hunk.isEmpty then [] else [hunk]
  | none => []

def collectHunks (current : Option (List Char)) : List (List Char) → List (List Char)
  | [] => flush current
  | line :: rest =>
    if isHeader line then flush current ++ collectHunks (some line) rest
    else match current with
      | some hunk =>
        if isContent line then collectHunks (some (hunk ++ line)) rest
        else flush (some hunk) ++ collectHunks none rest
      | none => collectHunks none rest

/-- A hunk with a header that has its counts; `none` for a hunk that is skipped. -/
def fixHunkHeader (hunk : List Char) : Option (List Char) :=
  match splitInclusive '\n' hunk with
  | header :: line :: rest =>
    if isHeader header then
      if trimChars header = "@@".toList then
        -- the new header has no line end
        some (countHeader (line :: rest) ++ (line :: rest).flatten)
      else some hunk
    else none
  | _ => none

def fixHunkHeaders (hunks : List (List Char)) : List (List Char) := hunks.filterMap fixHunkHeader

def extractUnifiedDiffHunks (unifiedDiff : List Char) : List (List Char) :=
  let lines := splitInclusive '\n' unifiedDiff
  if lines.any isHeader then fixHunkHeaders (collectHunks none lines)
  else
    let hunk := (lines.filter isContent).flatten
    if hunk.isEmpty then [] else [countHeader lines ++ '\n' :: hunk]

def fileHeader (path : List Char) : List Char :=
  "diff --git a/".toList ++ path ++ " b/".toList ++ path ++ "\n--- a/".toList ++ path ++
    "\n+++ b/".toList ++ path ++ ['\n']

def concatenateDiffHunks (path : List Char) (hunks : List (List Char)) : List Char :=
  if hunks.isEmpty then fileHeader path
  else
    let kept := (hunks.flatMap lines).filter fun line =>
      "@@ ".toList.isPrefixOf line || isContent line
    let unifiedDiff := fileHeader path ++ ['\n'].intercalate kept
    if unifiedDiff.getLast? = some '\n' then unifiedDiff else unifiedDiff ++ ['\n']

def normalizeUnifiedDiff (path unifiedDiff : List Char) : List Char :=
  concatenateDiffHunks path (extractUnifiedDiffHunks unifiedDiff)

end VibeKanban.Diff
