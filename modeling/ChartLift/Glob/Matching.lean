import ChartLift.Glob.Pattern
import ChartLift.Text.Utf8

/-!
# Matching names

Which names a pattern matches. Names are matched byte by byte, and a pattern is followed from a set
of positions in the name at once, each given by what remains of it.
-/

namespace ChartLift.Glob

open Text (Bytes)

/-- A name's remains at some positions. -/
abbrev Rests := List Bytes

/-- What remains of a name at each of its positions. -/
def tails : Bytes → Rests
  | [] => [[]]
  | b :: rest => (b :: rest) :: tails rest

/-- What remains behind a slash, for each slash of a name. -/
def behindSlashes : Bytes → Rests
  | [] => []
  | b :: rest => if b = 47 then rest :: behindSlashes rest else behindSlashes rest

/-- Positions of one name without repetitions. -/
def distinct (rests : Rests) : Rests :=
  rests.foldl (fun seen rest => if seen.any (·.length == rest.length) then seen else rest :: seen) []

/-- What remains behind some bytes, where a name goes on with them. -/
def behind? (bytes rest : Bytes) : Option Bytes :=
  if bytes.isPrefixOf rest then some (rest.drop bytes.length) else none

/-- The bytes within a range of characters. Of a character of several bytes only the byte next to
the dash bounds the range; the others stand for themselves. -/
def inRange (b : UInt8) (range : Char × Char) : Bool :=
  let low := Text.bytes range.1.toString
  let high := Text.bytes range.2.toString
  if range.1 = range.2 then low.contains b
  else low.contains b || high.contains b || (low.getLastD 0 ≤ b && b ≤ high.headD 0)

mutual

/-- Whether a token can do without any byte because nothing is in it. -/
def isVoid : GlobToken → Bool
  | .choice alternatives => areVoid alternatives
  | _ => false

/-- Whether nothing is in any of some alternatives. -/
def areVoid : List (List GlobToken) → Bool
  | [] => true
  | tokens :: rest => allVoid tokens && areVoid rest

/-- Whether nothing is in any of some tokens. -/
def allVoid : List GlobToken → Bool
  | [] => true
  | token :: rest => isVoid token && allVoid rest

end

mutual

/-- The positions that a token leads to. -/
def after (rests : Rests) : GlobToken → Rests
  | .literal c => rests.filterMap (behind? (Text.bytes c.toString))
  | .one => rests.filterMap fun rest => match rest with
    | [] => none
    | _ :: rest => some rest
  | .many => distinct (rests.flatMap tails)
  | .leading => distinct (rests ++ rests.flatMap behindSlashes)
  | .trailing => distinct ((rests.filterMap (behind? [47])).flatMap tails)
  | .between =>
    let rests := rests.filterMap (behind? [47])
    distinct (rests ++ rests.flatMap behindSlashes)
  | .oneOf negated ranges => rests.filterMap fun rest => match rest with
    | [] => none
    | b :: rest => if ranges.any (inRange b) != negated then some rest else none
  | .choice alternatives =>
    if areVoid alternatives then rests else distinct (afterAny rests alternatives)

/-- The positions that alternatives lead to; those with nothing in them do not count. -/
def afterAny (rests : Rests) : List (List GlobToken) → Rests
  | [] => []
  | tokens :: others =>
    (if allVoid tokens then [] else afterAll rests tokens) ++ afterAny rests others

/-- The positions that tokens lead to, one after the other. -/
def afterAll (rests : Rests) : List GlobToken → Rests
  | [] => rests
  | token :: others => afterAll (after rests token) others

end

/-- Whether a pattern matches a name as a whole. A pattern of two stars alone matches every name. -/
def isMatch (glob : Glob) (name : String) : Bool :=
  match glob.tokens with
  | [.leading] => true
  | tokens => (afterAll [Text.bytes name] tokens).any (·.isEmpty)

end ChartLift.Glob
