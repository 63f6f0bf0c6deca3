import Spidercheck.Model.Results

/-! `parser.py` and `webparser.py`: the links of an HTML text, and whether a
text looks like a complete HTML document. The tag events of the standard
`HTMLParser` are an input. -/
namespace Spidercheck

open Text

/-- A start tag as `handle_starttag` receives it. -/
structure StartTag where
  tag : Str
  attrs : List (Str × Option Str)
  deriving DecidableEq, Repr

/-- `dict(attrs).get(name)`: the last occurrence of a repeated name counts. -/
def StartTag.get (t : StartTag) (name : Str) : Option Str :=
  ((t.attrs.filter (·.1 == name)).getLast?).bind (·.2)

/-- One character of a lower-case pattern under `re.IGNORECASE`: the letter
`i` also meets the two Turkish letters that fold to it. -/
def ignoreCaseMatch (pattern c : Char) : Bool :=
  c == pattern || c.toLower == pattern || (pattern == 'i' && (c.toNat == 0x130 || c.toNat == 0x131))

/-- `re.compile(pattern, re.IGNORECASE).match(text)` for a literal pattern. -/
def matchIgnoreCase : Str → Str → Bool
  | [], _ => true
  | _ :: _, [] => false
  | p :: pattern, c :: text => ignoreCaseMatch p c && matchIgnoreCase pattern text

def excludePaths : List Str := ["/api/", "/api2/", "/__debug__/"].map String.toList

def isValidUrl (url : Str) : Bool := excludePaths.all fun pattern => !matchIgnoreCase pattern url

/-- The four sets of a `LinkExtractor`, each in the order of first insertion. -/
structure LinkExtractor where
  links : List Str
  images : List Str
  styles : List Str
  scripts : List Str
  deriving DecidableEq, Repr

namespace LinkExtractor

def empty : LinkExtractor where
  links := []
  images := []
  styles := []
  scripts := []

/-- `parameters.get(name)` when it is a non-empty text. -/
def nonEmpty (t : StartTag) (name : Str) : Option Str := (t.get name).filter (· ≠ [])

def handleStarttag (e : LinkExtractor) (t : StartTag) : LinkExtractor :=
  if t.tag = "a" then
    match nonEmpty t "href" with
    | some url => if isValidUrl url then { e with links := e.links.insert url } else e
    | none => e
  else if t.tag = "link" then
    match nonEmpty t "href" with
    | some url => { e with styles := e.styles.insert url }
    | none => e
  else if t.tag = "img" then
    match nonEmpty t "src" with
    | some url => { e with images := e.images.insert url }
    | none => e
  else if t.tag = "script" then
    match nonEmpty t "src" with
    | some url => { e with scripts := e.scripts.insert url }
    | none => e
  else e

/-- The extractor after `feed`, given the tags that the text produces. -/
def feed (tags : List StartTag) : LinkExtractor := tags.foldl handleStarttag empty

/-- `all_links()`, where `iterate` is the order in which a set is walked. -/
def allLinks (iterate : List Str → List Str) (e : LinkExtractor) : List Str :=
  iterate e.styles ++ iterate e.scripts ++ iterate e.images ++ iterate e.links

end LinkExtractor

/-- `pat_html_begin.search`: `<html`, then a `>` on the same line. -/
def htmlBegins (body : Str) : Bool :=
  body.tails.any fun rest =>
    matchIgnoreCase "<html" rest && ((rest.drop 5).takeWhile (· != '\n')).contains '>'

def isValidHtml (body : Str) : Bool :=
  let body := strip body
  if body.length < 14 then false
  else if lower (body.drop (body.length - 7)) != "</html>".toList then false
  else htmlBegins body

end Spidercheck
