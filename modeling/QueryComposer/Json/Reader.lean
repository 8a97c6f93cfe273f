import QueryComposer.Entries
import QueryComposer.Json.Names
import QueryComposer.Json.Token

/-!
# Reading values

The reader is a machine over tokens. It keeps a stack of the lists and objects that are still open,
and its state says what may come next. A value that is complete is handed to the innermost of them.

## Main definitions

* `Reader.step` is the machine, one token at a time.
* `Json.read?` reads a text that holds exactly one value.
* `Json.overlong?` tells of the texts that are not read because of an integer with too many digits.

## Implementation notes

A key that comes again in an object keeps its first place and takes its last value. Keys are
compared as they were written and get their names when the object is complete.
-/

namespace QueryComposer.Json

namespace Reader

/-- An open list with the items read so far, last first, or an open object with the entries read so
far and the key whose value is due. -/
inductive Frame where
  | items (reversed : List Json)
  | entries (done : List (Text.Wide × Json)) (key : Text.Wide)

/-- What the machine waits for, inside the frames that are open around it. -/
inductive State where
  | value (frames : List Frame)
  | firstItem (frames : List Frame)
  | afterItem (reversed : List Json) (frames : List Frame)
  | firstKey (frames : List Frame)
  | key (done : List (Text.Wide × Json)) (frames : List Frame)
  | colon (done : List (Text.Wide × Json)) (key : Text.Wide) (frames : List Frame)
  | afterEntry (done : List (Text.Wide × Json)) (frames : List Frame)
  | finished (value : Json)

/-- A complete value goes to the innermost open list or object. -/
def complete (v : Json) : List Frame → State
  | [] => .finished v
  | .items reversed :: fs => .afterItem (v :: reversed) fs
  | .entries done key :: fs => .afterEntry (Entries.put key v done) fs

/-- The first token of a value. -/
def begin? (frames : List Frame) : Token → Option State
  | .openBracket => some (.firstItem frames)
  | .openBrace => some (.firstKey frames)
  | .text s => some (complete (.string s.shown) frames)
  | .atom v => some (complete v frames)
  | _ => none

/-- One token. Where a state has no use for the token the text is refused. -/
def step : State → Token → Option State
  | .value fs, t => begin? fs t
  | .firstItem fs, .closeBracket => some (complete (.array []) fs)
  | .firstItem fs, t => begin? (.items [] :: fs) t
  | .afterItem reversed fs, .closeBracket => some (complete (.array reversed.reverse) fs)
  | .afterItem reversed fs, .comma => some (.value (.items reversed :: fs))
  | .firstKey fs, .closeBrace => some (complete (.object []) fs)
  | .firstKey fs, .text k => some (.colon [] k fs)
  | .key done fs, .text k => some (.colon done k fs)
  | .colon done k fs, .colon => some (.value (.entries done k :: fs))
  | .afterEntry done fs, .closeBrace => some (complete (.object (named done)) fs)
  | .afterEntry done fs, .comma => some (.key done fs)
  | _, _ => none

/-- The value that a machine in this state has read, if it is done. -/
def State.result? : State → Option Json
  | .finished v => some v
  | _ => none

/-- A value may begin here. -/
def State.isDue : State → Bool
  | .value _ | .firstItem _ => true
  | _ => false

/-- How many digits the first integer with too many has, if the reader comes to it on its way
through the text. -/
def overlong? : Token.Mode → State → List Char → Option Nat
  | _, _, [] => none
  | m, st, c :: cs =>
    match if m = .between && st.isDue then Number.overlong? (c :: cs) else none with
    | some n => some n
    | none =>
      match Token.step m c with
      | none => none
      | some (ts, m') => (ts.foldlM step st).bind fun st' => overlong? m' st' cs

end Reader

/-- The value of a whole text of tokens. -/
def ofTokens? (ts : List Token) : Option Json :=
  (ts.foldlM Reader.step (.value [])).bind Reader.State.result?

/-- The value of a text, if it holds exactly one and nothing else. -/
def read? (cs : List Char) : Option Json :=
  (Token.scanner.tokens cs).bind ofTokens?

/-- How many digits the integer has that reading breaks off at, if that is what it breaks off at:
up to there the text could be that of a value, and the integer has too many. -/
def overlong? (cs : List Char) : Option Nat := Reader.overlong? .between (.value []) cs

end QueryComposer.Json
