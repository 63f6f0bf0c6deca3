import Spidercheck.Text.Basic

/-! The URL functions of `urllib.parse` in CPython 3.11: splitting a URL into
its components, putting components back together and resolving a reference
against a base. `none` is the `ValueError` of a malformed network location. -/
namespace Url

open Text

/-- The two library checks of a network location that go beyond its text:
the address between brackets, and the NFKC form of a non-ASCII name. -/
structure NetlocCheck where
  bracketedHost : Str → Bool
  nfkc : Str → Bool

structure SplitResult where
  scheme : Str
  netloc : Str
  path : Str
  query : Str
  fragment : Str
  deriving DecidableEq, Repr

structure ParseResult where
  scheme : Str
  netloc : Str
  path : Str
  params : Str
  query : Str
  fragment : Str
  deriving DecidableEq, Repr

def usesRelative : List Str :=
  ["", "ftp", "http", "gopher", "nntp", "imap", "wais", "file", "https", "shttp", "mms",
   "prospero", "rtsp", "rtsps", "rtspu", "sftp", "svn", "svn+ssh", "ws", "wss"].map String.toList

def usesNetloc : List Str :=
  ["", "ftp", "http", "gopher", "nntp", "telnet", "imap", "wais", "file", "mms", "https", "shttp",
   "snews", "prospero", "rtsp", "rtsps", "rtspu", "rsync", "svn", "svn+ssh", "sftp", "nfs", "git",
   "git+ssh", "ws", "wss"].map String.toList

def usesParams : List Str :=
  ["", "ftp", "hdl", "prospero", "http", "imap", "https", "shttp", "rtsp", "rtsps", "rtspu", "sip",
   "sips", "mms", "sftp", "tel"].map String.toList

def schemeChar (c : Char) : Bool := c.isAlphanum || c == '+' || c == '-' || c == '.'

def c0ControlOrSpace (c : Char) : Bool := c.toNat ≤ 32

def unsafeByte (c : Char) : Bool := c == '\t' || c == '\r' || c == '\n'

/-- The clean-up that `urlsplit` starts with. -/
def sanitize (url : Str) : Str := (url.dropWhile c0ControlOrSpace).filter (!unsafeByte ·)

/-- Take a scheme off the front, or keep the default one. -/
def splitScheme (url scheme : Str) : Str × Str :=
  let before := url.takeWhile (· != ':')
  if ':' ∈ url ∧ (url.head?.any Char.isAlpha) ∧ before.all schemeChar then
    (before.map Char.toLower, url.drop (before.length + 1))
  else (scheme, url)

def netlocChar (c : Char) : Bool := c != '/' && c != '?' && c != '#'

/-- `_splitnetloc`, applied where the text starts with two slashes. -/
def splitNetloc (url : Str) : Str × Str :=
  match url with
  | '/' :: '/' :: rest => (rest.takeWhile netlocChar, rest.dropWhile netlocChar)
  | _ => ([], url)

/-- The bracket test of `urlsplit`, with `_check_bracketed_host` and `_checknetloc`. -/
def NetlocCheck.allows (chk : NetlocCheck) (netloc : Str) : Bool :=
  (decide ('[' ∈ netloc) == decide (']' ∈ netloc)) &&
  (decide ('[' ∉ netloc) || chk.bracketedHost (cut ']' (cut '[' netloc).2).1) &&
  (netloc.all (·.toNat < 128) || chk.nfkc netloc)

def urlsplit (chk : NetlocCheck) (url scheme : Str) : Option SplitResult :=
  let scheme := (stripOf c0ControlOrSpace scheme).filter (!unsafeByte ·)
  let schemed := splitScheme (sanitize url) scheme
  let located := splitNetloc schemed.2
  let fragmented := cut '#' located.2
  let queried := cut '?' fragmented.1
  if chk.allows located.1 then
    some { scheme := schemed.1, netloc := located.1, path := queried.1,
           query := queried.2, fragment := fragmented.2 }
  else none

def lastSegment (path : Str) : Str := (path.reverse.takeWhile (· != '/')).reverse

def uptoLastSlash (path : Str) : Str := (path.reverse.dropWhile (· != '/')).reverse

/-- `_splitparams`: the parameters of the last path segment. -/
def splitParams (path : Str) : Str × Str :=
  (uptoLastSlash path ++ (cut ';' (lastSegment path)).1, (cut ';' (lastSegment path)).2)

def urlparse (chk : NetlocCheck) (url scheme : Str) : Option ParseResult :=
  (urlsplit chk url scheme).map fun r =>
    let pair := if r.scheme ∈ usesParams ∧ ';' ∈ r.path then splitParams r.path else (r.path, [])
    { scheme := r.scheme, netloc := r.netloc, path := pair.1, params := pair.2,
      query := r.query, fragment := r.fragment }

/-- The leading slash that `urlunsplit` puts between a network location and a path. -/
def slashed (path : Str) : Str :=
  match path with
  | [] => []
  | '/' :: _ => path
  | _ => '/' :: path

/-- The part of a URL before its query. -/
def locator (scheme netloc path : Str) : Str :=
  let place :=
    if netloc ≠ [] ∨ (scheme ≠ [] ∧ scheme ∈ usesNetloc) ∨ startsWith "//" path then
      "//" ++ netloc ++ slashed path
    else path
  if scheme ≠ [] then scheme ++ ':' :: place else place

/-- A component that is written only when it is not empty. -/
def marked (mark : Char) (text : Str) : Str := if text = [] then [] else mark :: text

def urlunsplit (r : SplitResult) : Str :=
  locator r.scheme r.netloc r.path ++ marked '?' r.query ++ marked '#' r.fragment

def urlunparse (r : ParseResult) : Str :=
  urlunsplit { scheme := r.scheme, netloc := r.netloc, path := r.path ++ marked ';' r.params,
               query := r.query, fragment := r.fragment }

/-- Drop the empty segments other than the first and the last. -/
def squeeze : List Str → List Str
  | [] => []
  | first :: rest => first :: (rest.dropLast.filter (· ≠ []) ++ rest.getLast?.toList)

/-- One step of dot-segment removal on the resolved segments so far. -/
def resolveSegment (resolved : List Str) (seg : Str) : List Str :=
  if seg = ['.', '.'] then resolved.dropLast
  else if seg = ['.'] then resolved
  else resolved ++ [seg]

/-- The directory of a base path, as segments. -/
def baseParts (path : Str) : List Str :=
  let parts := path.splitOn '/'
  if parts.getLast? = some [] then parts else parts.dropLast

/-- Resolve the path of a reference against a base path. -/
def mergePath (base path : Str) : Str :=
  let segments :=
    if path.head? = some '/' then path.splitOn '/'
    else squeeze (baseParts base ++ path.splitOn '/')
  let resolved := segments.foldl resolveSegment []
  let closed :=
    if segments.getLast? = some ['.'] ∨ segments.getLast? = some ['.', '.'] then resolved ++ [[]]
    else resolved
  let joined := ['/'].intercalate closed
  if joined = [] then ['/'] else joined

def urljoin (chk : NetlocCheck) (base url : Str) : Option Str :=
  if base = [] then some url
  else if url = [] then some base
  else do
    let b ← urlparse chk base []
    let r ← urlparse chk url b.scheme
    if r.scheme ≠ b.scheme ∨ r.scheme ∉ usesRelative then return url
    if r.scheme ∈ usesNetloc ∧ r.netloc ≠ [] then return urlunparse r
    let netloc := if r.scheme ∈ usesNetloc then b.netloc else r.netloc
    if r.path = [] ∧ r.params = [] then
      return urlunparse { r with netloc := netloc, path := b.path, params := b.params,
                                 query := if r.query = [] then b.query else r.query }
    return urlunparse { r with netloc := netloc, path := mergePath b.path r.path }

end Url
