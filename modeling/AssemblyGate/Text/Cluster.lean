import AssemblyGate.Text.Width

/-!
# Clusters

A cluster is what a reader takes for one character, so that no line is broken inside
it: a character with its marks, a pair of letters that make a flag, or pictures that
are held together by joiners.
-/

namespace AssemblyGate.Text

def isEmojiPart (c : Char) : Bool := isPicture c || (isStyled c && lastBasic < c)

def continuesCluster (cluster : List Char) (c : Char) : Bool :=
  match cluster with
  | [] => false
  | last :: before =>
      charWidth c == 0 || isSkinTone c
        || (isFlagLetter c && isFlagLetter last && before.isEmpty)
        || (last == joiner && isEmojiPart c && before.any isEmojiPart)

/-- Add a character to some clusters; clusters and characters are given last first. -/
def addToClusters (c : Char) : List (List Char) → List (List Char)
  | [] => [[c]]
  | cluster :: clusters =>
      if continuesCluster cluster c then (c :: cluster) :: clusters
      else [c] :: cluster :: clusters

def clusters (text : String) : List String :=
  (text.toList.foldl (fun found c => addToClusters c found) []).reverse.map fun cluster =>
    String.ofList cluster.reverse

end AssemblyGate.Text
