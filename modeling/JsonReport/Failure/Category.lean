import JsonReport.Json.Message

/-!
# Categories of decode failures

A failure is sorted by its message first: four phrases are searched in it in a fixed order, without
regard to the case of ASCII letters, and the first that occurs decides.  Where none occurs, the
class of the cause decides.  The message is searched as a whole, quoted payload text included.
-/

namespace JsonReport

inductive Category where
  | grammar
  | endOfInput
  | data
  | numericRange
  | depthLimit
  | unicode
deriving DecidableEq, Repr

namespace Category

def label : Category → String
  | .grammar => "syntax"
  | .endOfInput => "eof"
  | .data => "data"
  | .numericRange => "numeric-range"
  | .depthLimit => "depth-limit"
  | .unicode => "unicode"

/-- The word shown where no phrase tells the category. -/
def unknownLabel : String := "unknown"

def occursIn (phrase : List Char) : List Char → Bool
  | [] => phrase.isEmpty
  | c :: text => phrase.isPrefixOf (c :: text) || occursIn phrase text

/-- The phrases in the order in which they are searched. -/
def phrases : List (String × Category) :=
  [("recursion limit exceeded", .depthLimit),
   ("number out of range", .numericRange),
   ("invalid unicode code point", .unicode),
   ("eof while parsing", .endOfInput)]

/-- The category that a message tells by itself. -/
def ofMessage? (message : String) : Option Category :=
  let lower := message.toList.map Char.toLower
  (phrases.find? fun phrase => occursIn phrase.1.toList lower).map Prod.snd

def labelOfMessage (message : String) : String :=
  ((ofMessage? message).map label).getD unknownLabel

def ofCause : Cause → Category
  | .endOfValue | .endOfList | .endOfObject | .endOfString => .endOfInput
  | .wrongType _ _ | .duplicate _ => .data
  | _ => .grammar

def ofFault (fault : Fault) (input : Octets) : Category :=
  -- The whole message is searched, so the cause counts only where no phrase is found in it.
  (ofMessage? (fault.message input)).getD (ofCause fault.cause)

/-- The hint that goes with a category; `context` names the caller. -/
def hint (category : Category) (context : String) : String :=
  "parse category: " ++ category.label ++ "; context: " ++ context

end Category

end JsonReport
