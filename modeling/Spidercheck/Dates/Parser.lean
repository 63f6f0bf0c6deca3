import Spidercheck.Model.Site
import Spidercheck.Regex.Basic
import Spidercheck.Text.Unicode

/-! The two parsers of `fechas.py`: the patterns in the order in which they are
tried, and what is made of the first one that matches. -/
namespace Spidercheck

open Text Regex

inductive Field where
  | day
  | month
  | year
  | hour
  | minute
  | second
  deriving DecidableEq, Repr

abbrev DatePattern := Pattern Char Field

def is (c : Char) : DatePattern := .char (· == c)

/-- The class `[\\\/:\.,\- ]`. -/
def isSeparator (c : Char) : Bool := "\\/:.,- ".toList.contains c

def isSlash (c : Char) : Bool := c == '/' || c == '-'

def isTimeMark (c : Char) : Bool := c == ' ' || c == 'T'

def isSign (c : Char) : Bool := c == '+' || c == '-'

/-- `.` is any character but the end of a line. -/
def isAny (c : Char) : Bool := c != '\n'

def atEnd : DatePattern := .stop (· == '\n')

section Patterns
variable (u : Unicode)

def number (field : Field) : DatePattern := .group field (.plus u.isDecimal)

def digits (n : Nat) (field : Field) : DatePattern := .group field (.times n u.isDecimal)

def oneOrTwo (field : Field) : DatePattern :=
  .group field (.all [.char u.isDecimal, .opt (.char u.isDecimal)])

def weekday : DatePattern := .opt (.all [.times 3 u.isWord, is ',', is ' '])

def patDmy : DatePattern := .all [
  number u .day, .plus isSeparator,
  .group .month (.plus Char.isAlphanum), .char isSeparator,
  digits u 4 .year, atEnd]

def patIso8601DateExt : DatePattern := .all [
  digits u 4 .year, is '-', digits u 2 .month, is '-', digits u 2 .day, atEnd]

def patIso8601DatetimeExtBasic : DatePattern := .all [
  digits u 4 .year, is '-', digits u 2 .month, is '-', digits u 2 .day, .char isTimeMark,
  digits u 2 .hour, is ':', digits u 2 .minute, is ':', digits u 2 .second,
  .opt (.all [.char isSign, .times 2 u.isDecimal, is ':', .times 2 u.isDecimal]), atEnd]

def patIso8601DateBasic : DatePattern := .all [
  digits u 4 .year, digits u 2 .month, digits u 2 .day, atEnd]

def patIso8601DatetimeBasic : DatePattern := .all [
  digits u 4 .year, digits u 2 .month, digits u 2 .day,
  digits u 2 .hour, digits u 2 .minute, digits u 2 .second, atEnd]

def patRfc822Datetime : DatePattern := .all [
  weekday u, number u .day, is ' ', .group .month (.plus u.isWord), is ' ', number u .year, is ' ',
  number u .hour, is ':', number u .minute, is ':', number u .second, .plus isAny, atEnd]

def patRfc822Date : DatePattern := .all [
  weekday u, number u .day, is ' ', .group .month (.plus u.isWord), is ' ', number u .year, atEnd]

def patFechaCompleta : DatePattern := .all [
  number u .day, is ' ', is 'd', is 'e', is ' ',
  .group .month (.plus Char.isAlpha), is ' ', is 'd', is 'e', is ' ',
  number u .year, atEnd]

def patFechaHora : DatePattern := .all [
  number u .day, is '-', number u .month, is '-', number u .year, is ' ',
  digits u 2 .hour, is ':', digits u 2 .minute, is ':', digits u 2 .second,
  .char isAny, .plus u.isDecimal, atEnd]

def patDdmmyyyyhhmmss : DatePattern := .all [
  oneOrTwo u .day, .char isSlash, oneOrTwo u .month, .char isSlash, digits u 4 .year, is ' ',
  number u .hour, is ':', number u .minute, is ':', number u .second, atEnd]

def patDdmmyyhhmmss : DatePattern := .all [
  oneOrTwo u .day, .char isSlash, oneOrTwo u .month, .char isSlash, digits u 2 .year, is ' ',
  number u .hour, is ':', number u .minute, is ':', number u .second, atEnd]

def parsers : List DatePattern := [
  patDmy u,
  patIso8601DatetimeExtBasic u,
  patIso8601DatetimeBasic u,
  patIso8601DateBasic u,
  patIso8601DateExt u,
  patRfc822Datetime u,
  patRfc822Date u,
  patFechaCompleta u,
  patFechaHora u,
  patDdmmyyyyhhmmss u,
  patDdmmyyhhmmss u]

end Patterns

def reverseMonth : List (String × Nat) := [
  ("JAN", 1), ("JANUARY", 1), ("ENE", 1), ("ENERO", 1),
  ("FEB", 2), ("FEBRUARY", 2), ("FEBRERO", 2),
  ("MAR", 3), ("MARCH", 3), ("MARZO", 3),
  ("APR", 4), ("APRIL", 4), ("ABR", 4), ("ABRIL", 4),
  ("MAY", 5), ("MAYO", 5),
  ("JUN", 6), ("JUNE", 6), ("JUNIO", 6),
  ("JUL", 7), ("JULY", 7), ("JULIO", 7),
  ("AUG", 8), ("AUGUST", 8), ("AGO", 8), ("AGOSTO", 8),
  ("SEP", 9), ("SEPTEMBER", 9), ("SEPTIEMBRE", 9),
  ("OCT", 10), ("OCTOBER", 10), ("OCTUBRE", 10),
  ("NOV", 11), ("NOVEMBER", 11), ("NOVIEMBRE", 11),
  ("DEC", 12), ("DECEMBER", 12), ("DIC", 12), ("DICIEMBRE", 12)]

def monthNamed (name : Str) : Option Nat :=
  (reverseMonth.find? (·.1.toList == name)).map (·.2)

def isLeap (year : Nat) : Bool := year % 4 == 0 && (year % 100 != 0 || year % 400 == 0)

def daysInMonth (year month : Nat) : Nat :=
  if month = 2 then (if isLeap year then 29 else 28)
  else if month ∈ [4, 6, 9, 11] then 30
  else 31

structure Date where
  year : Nat
  month : Nat
  day : Nat
  yearValid : 1 ≤ year ∧ year ≤ 9999
  monthValid : 1 ≤ month ∧ month ≤ 12
  dayValid : 1 ≤ day ∧ day ≤ daysInMonth year month
  deriving DecidableEq, Repr

/-- `datetime.datetime` without a fraction of a second. -/
structure DateTime extends Date where
  hour : Nat
  minute : Nat
  second : Nat
  hourValid : hour < 24
  minuteValid : minute < 60
  secondValid : second < 60
  deriving DecidableEq, Repr

def overflowError (text : Str) : PyError := { kind := .other, text := text }

/-- An argument that is passed as a C `int`. -/
def toCInt (n : Nat) : Except PyError Nat :=
  if n < 2 ^ 31 then .ok n
  else if n < 2 ^ 63 then .error (overflowError "signed integer is greater than maximum")
  else .error (overflowError "Python int too large to convert to C long")

/-- `Date(year, month, day)` after its arguments were converted. -/
def Date.check (year month day : Nat) : Except PyError Date :=
  if hYear : 1 ≤ year ∧ year ≤ 9999 then
    if hMonth : 1 ≤ month ∧ month ≤ 12 then
      if hDay : 1 ≤ day ∧ day ≤ daysInMonth year month then
        .ok { year, month, day, yearValid := hYear, monthValid := hMonth, dayValid := hDay }
      else .error (valueError "day is out of range for month")
    else .error (valueError "month must be in 1..12")
  else .error (valueError ("year " ++ ofInt year ++ " is out of range"))

def Date.make (year month day : Nat) : Except PyError Date := do
  Date.check (← toCInt year) (← toCInt month) (← toCInt day)

/-- `DateTime(year, month, day, hour, minute, second)`. -/
def DateTime.make (year month day hour minute second : Nat) : Except PyError DateTime := do
  let year ← toCInt year
  let month ← toCInt month
  let day ← toCInt day
  let hour ← toCInt hour
  let minute ← toCInt minute
  let second ← toCInt second
  let date ← Date.check year month day
  if hHour : hour < 24 then
    if hMinute : minute < 60 then
      if hSecond : second < 60 then
        return { date with
          hour, minute, second
          hourValid := hHour, minuteValid := hMinute, secondValid := hSecond }
      else throw (valueError "second must be in 0..59")
    else throw (valueError "minute must be in 0..59")
  else throw (valueError "hour must be in 0..23")

section Parse
variable (u : Unicode)

/-- `int(s)` of what `\d+` took, or of a text of digits: longer numbers than the
interpreter's default limit are refused. -/
def toInteger (s : Str) : Except PyError Nat :=
  let count := (s.takeWhile u.isDecimal).length
  if maxStrDigits < count then
    .error (valueError ("Exceeds the limit (" ++ ofInt maxStrDigits ++
      " digits) for integer string conversion: value has " ++ ofInt count ++
      " digits; use sys.set_int_max_str_digits() to increase the limit"))
  else match u.toNat s with
  | some n => .ok n
  | none => .error (valueError ("invalid literal for int() with base 10: '" ++ s ++ "'"))

/-- `_match.group(field)`: a pattern without that group is an `IndexError`. Every
group with a name takes part in each match of its pattern. -/
def groupOf (captures : Captures Char Field) (field : Field) : Except PyError Str :=
  match captures.lookup field with
  | some text => .ok text
  | none => .error { kind := .other, text := "no such group" }

/-- `REVERSE_MONTH[name]`. -/
def monthOf (name : Str) : Except PyError Nat :=
  match monthNamed name with
  | some month => .ok month
  | none => .error { kind := .other, text := "'" ++ name ++ "'" }

def toYearMonthDay (captures : Captures Char Field) : Except PyError (Nat × Nat × Nat) := do
  let day ← groupOf captures .day
  let month ← groupOf captures .month
  let year ← groupOf captures .year
  let day ← toInteger u day
  let month ← if u.allDigits month then toInteger u month else monthOf (u.upper month)
  let year ← toInteger u year
  return (if year ≤ 100 then year + 2000 else year, month, day)

/-- `_to_hour_minute_second`: what was read before an `IndexError` is kept. -/
def toHourMinuteSecond (captures : Captures Char Field) : Except PyError (Nat × Nat × Nat) :=
  match captures.lookup .hour with
  | none => .ok (0, 0, 0)
  | some hour => do
    let hour ← toInteger u hour
    match captures.lookup .minute with
    | none => return (hour, 0, 0)
    | some minute =>
      let minute ← toInteger u minute
      match captures.lookup .second with
      | none => return (hour, minute, 0)
      | some second => return (hour, minute, ← toInteger u second)

def escape (s : Str) : Str :=
  s.flatMap fun c =>
    if c = '&' then "&amp;".toList
    else if c = '<' then "&lt;".toList
    else if c = '>' then "&gt;".toList
    else if c = '"' then "&quot;".toList
    else if c = '\'' then "&#x27;".toList
    else [c]

def parseDate (texto : Str) : Except PyError (Option Date) :=
  let texto := strip texto
  if texto = [] then .ok none
  else match (parsers u).findSome? (·.match? texto) with
  | some captures => do
    let (year, month, day) ← toYearMonthDay u captures
    return some (← Date.make year month day)
  | none => .error (valueError ("Formato de fecha incorrecto: \"" ++ escape texto ++ "\""))

def parseDatetime (texto : Str) : Except PyError (Option DateTime) :=
  let texto := strip texto
  if texto = [] then .ok none
  else match (parsers u).findSome? (·.match? texto) with
  | some captures => do
    let (year, month, day) ← toYearMonthDay u captures
    let (hour, minute, second) ← toHourMinuteSecond u captures
    return some (← DateTime.make year month day hour minute second)
  | none => .error (valueError ("Formato de fecha/hora incorrecto: \"" ++ escape texto ++ "\""))

end Parse

end Spidercheck
