import Spidercheck.Url.Basic

/-! The decision part of `urllib.robotparser.RobotFileParser`: which of the
parsed rules answers for a URL. Reading the file is left to the caller. -/
namespace Robots

open Text Url

structure Quoting where
  quote : Str → Str
  unquote : Str → Str

structure RuleLine where
  path : Str
  allowance : Bool
  deriving DecidableEq, Repr

def RuleLine.appliesTo (r : RuleLine) (filename : Str) : Bool :=
  r.path == ['*'] || startsWith r.path filename

structure Entry where
  useragents : List Str
  rulelines : List RuleLine
  deriving DecidableEq, Repr

def isIn (agent useragent : Str) : Bool := useragent.tails.any (startsWith agent ·)

def Entry.appliesTo (e : Entry) (useragent : Str) : Bool :=
  let name := lower (cut '/' useragent).1
  e.useragents.any fun agent => agent == ['*'] || isIn (lower agent) name

/-- The first rule that applies decides; without one the URL is allowed. -/
def Entry.allowance (e : Entry) (filename : Str) : Bool :=
  match e.rulelines.find? (·.appliesTo filename) with
  | some line => line.allowance
  | none => true

/-- The state of a parser after `read`. -/
structure RobotFileParser where
  disallowAll : Bool
  allowAll : Bool
  lastChecked : Bool
  entries : List Entry
  defaultEntry : Option Entry

/-- The parser after a `404` answer: everything is allowed. -/
def RobotFileParser.missing : RobotFileParser where
  disallowAll := false
  allowAll := true
  lastChecked := false
  entries := []
  defaultEntry := none

variable (chk : NetlocCheck) (q : Quoting)

/-- The text that the rules are compared with: the path of the URL with its
parameters, query and fragment, quoted. -/
def target (url : Str) : Option Str :=
  (urlparse chk (q.unquote url) []).map fun parsed =>
    let filename := q.quote (urlunparse { parsed with scheme := [], netloc := [] })
    if filename = [] then ['/'] else filename

/-- The answer of the entries to an already prepared text. -/
def RobotFileParser.verdict (rp : RobotFileParser) (useragent filename : Str) : Bool :=
  match rp.entries.find? (·.appliesTo useragent) with
  | some entry => entry.allowance filename
  | none =>
    match rp.defaultEntry with
    | some entry => entry.allowance filename
    | none => true

def RobotFileParser.canFetch (rp : RobotFileParser) (useragent url : Str) : Option Bool :=
  if rp.disallowAll then some false
  else if rp.allowAll then some true
  else if !rp.lastChecked then some false
  else (target chk q url).map (rp.verdict useragent)

end Robots
