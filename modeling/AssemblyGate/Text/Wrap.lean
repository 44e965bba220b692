import AssemblyGate.Text.Cluster

/-!
# Wrapping

A line that is too wide is broken between words.  Only a word that is too wide for any
line is broken itself, and never inside a cluster.
-/

namespace AssemblyGate.Text

def pieces (separator : Char) (text : String) : List String :=
  (text.split separator).toList.map String.Slice.copy

/-- Closed lines, last first, and the line that is being filled with its width. -/
structure Wrapping where
  closed : List String
  line : String
  used : Nat
  deriving Repr

namespace Wrapping

def start : Wrapping := ⟨[], "", 0⟩

def close (state : Wrapping) : Wrapping := ⟨state.line :: state.closed, "", 0⟩

/-- The room that is not worth filling: a blank and one more column. -/
def spare : Nat := 2

def settle (limit : Nat) (state : Wrapping) : Wrapping :=
  if state.used > limit - spare then state.close else state

/--
Take clusters while they fit into some columns.  The taken ones are given last first,
with the clusters that are left.
-/
def takeFitting (room : Nat) (taken : List String) : List String → List String × List String
  | [] => (taken, [])
  | cluster :: clusters =>
      if width cluster ≤ room then
        takeFitting (room - width cluster) (cluster :: taken) clusters
      else (taken, cluster :: clusters)

def takeLine (limit : Nat) (word : List String) : List String × List String :=
  match takeFitting limit [] word with
  | ([], cluster :: rest) => ([cluster], rest)
  | parts => parts

def begin (limit : Nat) : (lines : Nat) → List String → Wrapping → Wrapping
  | 0, _, state => state
  | lines + 1, word, state =>
      let text := String.join word
      if width text ≤ limit then
        settle limit { state with line := text, used := width text }
      else
        let (taken, rest) := takeLine limit word
        begin limit lines rest { state with line := String.join taken.reverse }.close

def beginWord (limit : Nat) (word : List String) (state : Wrapping) : Wrapping :=
  begin limit (word.length + 1) word state

def add (limit : Nat) (state : Wrapping) (word : String) : Wrapping :=
  if state.line.isEmpty then beginWord limit (clusters word) state
  else if state.used + 1 + width word ≤ limit then
    settle limit
      { state with line := state.line ++ " " ++ word, used := state.used + 1 + width word }
  else
    let room := limit - state.used - 1
    if room ≤ spare ∨ width word ≤ limit then beginWord limit (clusters word) state.close
    else
      let (taken, rest) := takeFitting room [] (clusters word)
      beginWord limit rest
        { state with line := state.line ++ " " ++ String.join taken.reverse }.close

def lines (state : Wrapping) : List String :=
  (if state.line.isEmpty then state.closed else state.line :: state.closed).reverse

end Wrapping

def wrap (limit : Nat) (text : String) : List String :=
  if width text ≤ limit then [text]
  else ((pieces ' ' text).foldl (Wrapping.add limit) .start).lines

end AssemblyGate.Text
