import Spidercheck.Model.Parser
import Spidercheck.Model.Schema
import Spidercheck.Robots.Basic

/-! What the program meets outside its own code: library functions that are
kept as parameters, the answers of the network, the clock and the plugins. -/
namespace Spidercheck

open Text Url Robots

/-- The library functions that the results do not depend on. -/
structure Platform where
  netlocCheck : NetlocCheck
  quoting : Quoting
  /-- The start tags of `HTMLParser.feed`, or what it raises. -/
  startTags : Str → Except PyError (List StartTag)
  /-- The order in which a set of texts is walked. -/
  iterate : List Str → List Str
  iterate_perm : ∀ s, (iterate s).Perm s

/-- The library on ASCII hosts and unreserved characters, for a text with these tags. -/
def Platform.scripted (tags : List StartTag) : Platform where
  netlocCheck := { bracketedHost := fun _ => false, nfkc := fun _ => false }
  quoting := { quote := id, unquote := id }
  startTags := fun _ => .ok tags
  iterate := id
  iterate_perm := fun s => .refl s

/-- Header fields in order; lookup ignores the case of the name. -/
abbrev Headers := List (Str × Str)

def Headers.get (headers : Headers) (name default : Str) : Str :=
  match headers.find? (fun field => lower field.1 == lower name) with
  | some field => field.2
  | none => default

structure Response where
  statusCode : Nat
  headers : Headers
  url : Str
  deriving DecidableEq, Repr

/-- The value of a `Success`: the default `True`, or a response object. -/
inductive Payload where
  | true
  | response (r : Response)
  deriving DecidableEq, Repr

def attributeError (name : Str) : PyError :=
  { kind := .attributeError, text := "'bool' object has no attribute '" ++ name ++ "'" }

/-- Attribute access on the value of a `Success`. -/
def Payload.asResponse (name : Str) : Payload → Except PyError Response
  | .response r => .ok r
  | .true => .error (attributeError name)

/-- What `urlopen` does with the `HEAD` request. -/
inductive HeadOutcome where
  | response (r : Response)
  | raised (e : PyError)
  deriving DecidableEq, Repr

/-- What the `GET` request does: `urlopen` raises, or it answers with headers
and a body that is read and decoded, where either can raise. -/
inductive GetOutcome where
  | response (headers : Headers) (body : Except PyError Str)
  | raised (e : PyError)

abbrev Dict := List (Str × Str)

/-- `d[name] = value`, keeping the position of a known name. -/
def Dict.set (d : Dict) (name value : Str) : Dict :=
  if d.any (·.1 == name) then d.map fun item => if item.1 == name then (name, value) else item
  else d ++ [(name, value)]

def Dict.update (d other : Dict) : Dict := other.foldl (fun acc item => acc.set item.1 item.2) d

/-- A registered plugin; the values of its answer are given as `str(value)`. -/
structure Plugin where
  name : Str
  process : Page → Headers → Str → Except PyError (Option Dict)

/-- Everything that one call reads from outside: the clock, the network and
the plugins. `stamp` is the clock at the `INSERT` of the row with that key. -/
structure Input where
  justNow : Time
  startTime : Time
  stopTime : Time
  stamp : Nat → Time
  head : HeadOutcome
  get : GetOutcome
  robots : Except PyError RobotFileParser
  plugins : List Plugin

/-- A call at time 10, of a site that has no `robots.txt`. -/
def Input.scripted (head : HeadOutcome) : Input where
  justNow := 10
  startTime := 0
  stopTime := 0
  stamp := fun pk => pk
  head := head
  get := .response [] (.ok [])
  robots := .ok RobotFileParser.missing
  plugins := []

end Spidercheck
