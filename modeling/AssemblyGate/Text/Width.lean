import AssemblyGate.Text.Emoji
import AssemblyGate.Text.Ligature

/-!
# Width of text

How many columns of a terminal a text takes.  Most characters add their own width,
but some merge with what follows them: the parts of an emoji, a letter and a style
selector, the letters of a ligature.  The text is therefore read from its end, and
`After` is what has to be known of the part already read.
-/

namespace AssemblyGate.Text

/-! ## What follows a character -/

inductive Selector where
  | asText
  | asPicture
  /-- The wide form of a quotation mark. -/
  | asWide
  deriving DecidableEq, Repr

def Selector.of? (c : Char) : Option Selector :=
  if c = '\ufe0e' then some .asText
  else if c = '\ufe0f' then some .asPicture
  else if c = '\ufe01' then some .asWide
  else none

/--
The later part of a ligature.  Where a joiner is needed in front of a letter, `joined`
says whether it has been read.
-/
inductive LigatureEnd where
  | alef
  | lamed (joined : Bool)
  | buginese (joined : Bool)
  | bugineseVowel
  | tifinagh (joined : Bool)
  | tifinaghJoiner
  | lisuTone
  | oldTurkic (joined : Bool)
  | khmerBelow
  deriving DecidableEq, Repr

def LigatureEnd.join : LigatureEnd → LigatureEnd
  | .lamed _ => .lamed true
  | .buginese _ => .buginese true
  | .tifinagh _ => .tifinagh true
  | .oldTurkic _ => .oldTurkic true
  | ending => ending

/-- The tags in front of the end of a flag: letters alone, or digits with letters behind. -/
inductive TagRun where
  | letters (count : Nat)
  | digits (count : Nat)
  deriving DecidableEq, Repr

def TagRun.extend? (c : Char) : TagRun → Option TagRun
  | .letters count =>
      if isTagLetter c then if count < 6 then some (.letters (count + 1)) else none
      else if isTagDigit c then if count ≤ 4 then some (.digits 1) else none
      else none
  | .digits count => if isTagDigit c ∧ count < 3 then some (.digits (count + 1)) else none

def TagRun.isWhole : TagRun → Bool
  | .letters count => 3 ≤ count && count ≤ 6
  | .digits count => count == 3

inductive Follower where
  | plain
  | lineFeed
  | skinTone
  | flagLetter
  | flagLetters
  | picture
  | joinedPicture
  | joinedKeycap
  | joinedFlagLetter
  /-- Two or more letters of flags, then a joiner and a picture. -/
  | joinedFlags (even : Bool)
  | joinedTags (tags : TagRun)
  | vowelE
  | vowelAi
  | ligature (ending : LigatureEnd)
  deriving DecidableEq, Repr

structure After where
  selector : Option Selector
  follower : Follower
  deriving DecidableEq, Repr

namespace After

def only (follower : Follower) : After := ⟨none, follower⟩

def nothing : After := only .plain

/--
Read a selector.  Ligatures go on across selectors, and a joiner keeps its picture
across the selector of a picture.
-/
def select (selector : Selector) (after : After) : After :=
  match after.follower, selector with
  | .ligature ending, _ => ⟨some selector, .ligature ending⟩
  | .joinedPicture, .asPicture => ⟨some selector, .joinedPicture⟩
  | .joinedKeycap, .asPicture => ⟨some selector, .joinedKeycap⟩
  | _, _ => ⟨some selector, .plain⟩

def unselect (after : After) : After :=
  match after.selector, after.follower with
  | some _, .ligature ending => only (.ligature ending)
  | some _, _ => nothing
  | none, follower => only follower

def ofChar (c : Char) : After :=
  only <|
    if isPicture c then .picture
    else if isSkinTone c then .skinTone
    else if isFlagLetter c then .flagLetter
    else if isAlef c then .ligature .alef
    else if c = '\u05dc' then .ligature (.lamed false)
    else if isNarrowBelow c then .ligature .khmerBelow
    else if c = '\u1a10' then .ligature (.buginese false)
    else if isTifinaghConsonant c then .ligature (.tifinagh false)
    else if isSecondTone c then .ligature .lisuTone
    else if c = Char.ofNat 0x10c03 then .ligature (.oldTurkic false)
    else if c = Char.ofNat 0x16d67 then .vowelE
    else if c = Char.ofNat 0x16d68 then .vowelAi
    else .plain

end After

/-! ## Reading a character -/

abbrev Reading := Int × After

def readLigature? (c : Char) : LigatureEnd → Option Reading
  | .alef =>
      if isLam c then some (0, .nothing)
      else if isTransparent c then some (0, .only (.ligature .alef))
      else none
  | ending =>
      if c = joiner then some (0, .only (.ligature ending.join))
      else if isIgnoredMark c then some (0, .only (.ligature ending))
      else match ending with
        | .lamed true => if c = '\u05d0' then some (0, .nothing) else none
        | .buginese true =>
            if c = '\u1a17' then some (0, .only (.ligature .bugineseVowel)) else none
        | .bugineseVowel => if c = '\u1a15' then some (0, .nothing) else none
        | .tifinagh joined =>
            if c = '\u2d7f' then some (1, .only (.ligature .tifinaghJoiner))
            else if joined && isTifinaghConsonant c then some (0, .nothing)
            else none
        | .tifinaghJoiner => if isTifinaghConsonant c then some (-1, .nothing) else none
        | .lisuTone => if isFirstTone c then some (0, .nothing) else none
        | .oldTurkic true => if c = Char.ofNat 0x10c32 then some (0, .nothing) else none
        | .khmerBelow => if c = '\u17d2' then some (-1, .nothing) else none
        | _ => none

def readJoined? (c : Char) : Option Reading :=
  if c = keycap then some (0, .only .joinedKeycap)
  else if isFlagLetter c then some (1, .only .joinedFlagLetter)
  else if isSkinTone c then some (0, .only .skinTone)
  else if c = tagEnd then some (0, .only (.joinedTags (.letters 0)))
  else if isPicture c then some (0, .only .picture)
  else none

def readMerged? (c : Char) : Follower → Option Reading
  | .ligature ending => readLigature? c ending
  | .skinTone =>
      if takesSkinTone c then some (0, .only .picture)
      else if c = joiner then some (0, .only .joinedPicture)
      else none
  | .flagLetter => if isFlagLetter c then some (1, .only .flagLetters) else none
  | .flagLetters =>
      if isFlagLetter c then some (1, .only .flagLetters)
      else if c = joiner then some (0, .only .joinedPicture)
      else none
  | .picture => if c = joiner then some (0, .only .joinedPicture) else none
  | .joinedPicture => readJoined? c
  | .joinedFlagLetter => if isFlagLetter c then some (-1, .only (.joinedFlags true)) else none
  | .joinedFlags even =>
      if isFlagLetter c then some (if even then 3 else -1, .only (.joinedFlags !even))
      else if c = joiner then some (0, .only .joinedPicture)
      else none
  | .joinedTags tags =>
      if c = blackFlag ∧ tags.isWhole then some (0, .only .picture)
      else (tags.extend? c).map fun tags => (0, .only (.joinedTags tags))
  | .vowelE =>
      if c = Char.ofNat 0x16d63 ∨ c = Char.ofNat 0x16d69 then some (0, .nothing)
      else if c = Char.ofNat 0x16d67 then some (0, .only .vowelAi)
      else if c = Char.ofNat 0x16d68 then some (1, .only .vowelE)
      else none
  | .vowelAi => if c = Char.ofNat 0x16d63 then some (0, .nothing) else none
  | _ => none

def isQuotationMark (c : Char) : Bool := inRanges [(0x2018, 0x2019), (0x201c, 0x201d)] c

def readSelected? (c : Char) (after : After) : Option Reading :=
  match after.selector with
  | some .asPicture =>
      if isStyled c then
        some (if after.follower = .plain ∨ after.follower matches .ligature _ then 2 else 0,
          .only .picture)
      else none
  | some .asText => if narrowsAsText c then some (1, .nothing) else none
  | some .asWide => if isQuotationMark c then some (2, .nothing) else none
  | none => none

/-- The last character that neither merges nor is more than one column wide. -/
def lastBasic : Char := '\u00a0'

def readBasic (c : Char) (after : After) : Reading :=
  if c = '\n' then (1, .only .lineFeed)
  else if c = '\r' ∧ after.follower = .lineFeed then (0, .nothing)
  else (1, .nothing)

def readChar (c : Char) (after : After) : Reading :=
  match readSelected? c after with
  | some reading => reading
  | none =>
      if c ≤ lastBasic then readBasic c after
      else match Selector.of? c with
        | some selector =>
            (0, (if after.selector = some .asPicture then after.unselect else after).select selector)
        | none =>
            (readMerged? c after.unselect.follower).getD (charWidth c, .ofChar c)

def width (text : String) : Nat :=
  (text.toList.foldr (fun c (sum, after) =>
    let (change, before) := readChar c after
    (sum + change, before)) ((0 : Int), After.nothing)).1.toNat

end AssemblyGate.Text
