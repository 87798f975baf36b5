import ThemedSheets.Text.Digit
/- Log records. Channels form one family under a common name; a record has a level, and sinks show
   the records that reach their own. Names nest by dots, and a channel comes under the family as far
   as its name can be followed back to it (`isUnderFamily`). -/
namespace ThemedSheets.Log

/-! ## Levels -/

/-- A level of records; the higher its rank, the more urgent. -/
structure Level where
  rank : Int
  deriving DecidableEq, Repr

namespace Level

def debug : Level := ⟨10⟩
def info : Level := ⟨20⟩
def warning : Level := ⟨30⟩
def error : Level := ⟨40⟩
def critical : Level := ⟨50⟩

def named : List (Level × String) :=
  [(⟨0⟩, "NOTSET"), (debug, "DEBUG"), (info, "INFO"), (warning, "WARNING"), (error, "ERROR"),
    (critical, "CRITICAL")]

/-- The name of a level; one without a name of its own is called by its rank. -/
def name (level : Level) : String :=
  match named.find? (·.1 == level) with
  | some (_, name) => name
  | none => "Level " ++ String.ofList (Text.intText level.rank)

def reaches (level least : Level) : Bool := least.rank ≤ level.rank

end Level

/-! ## Channels -/

/-- The name that all channels stand under. -/
def family : String := "scopedsass"

/-- The full name of a channel; the empty name is the family itself. -/
def channelName (name : String) : String := if name = "" then family else family ++ "." ++ name

/-- Whether the way up from a channel ends at the family. The name is read backwards. A channel
stands under the first one met that is in use, among the names that its own goes on from with a dot;
the character in front of such a dot is passed over, so of two dots side by side only the last
counts. -/
def climbs (used : List String) : List Char → Bool
  | [] | [_] => false
  | c :: d :: rest =>
    if c = '.' then
      let above := String.ofList (d :: rest).reverse
      if above = family then true
      else if used.contains above then climbs used (d :: rest)
      else climbs used rest
    else climbs used (d :: rest)

/-- Whether a channel comes under the family, the given channels being in use. -/
def isUnderFamily (used : List String) (channel : String) : Bool :=
  channel = family || climbs used channel.toList.reverse

/-! ## Records -/

/-- One record: its level, the full name of its channel and its message. -/
structure Record where
  level : Level
  channel : String
  message : String
  deriving DecidableEq, Repr

namespace Record

def consoleLine (r : Record) : String :=
  "[" ++ family ++ "] " ++ r.level.name ++ " " ++ r.message ++ "\n"

/-- A record as a log file holds it, after the time of day. -/
def fileLine (r : Record) : String :=
  r.level.name ++ " " ++ r.channel ++ ": " ++ r.message ++ "\n"

/-- A record that no sink is there for: its bare message, from warnings on. -/
def bareLine (r : Record) : String :=
  if r.level.reaches .warning then r.message ++ "\n" else ""

end Record

example : isUnderFamily [] (channelName "a..b") = true := by decide +kernel
example : isUnderFamily [] (channelName ".a") = false := by decide +kernel
example : isUnderFamily [channelName "."] (channelName "..a") = false := by decide +kernel

end ThemedSheets.Log
