import RadarTimeline.Number.Layout
import RadarTimeline.Number.Reading

namespace RadarTimeline.Console

/-- A day of the Gregorian calendar. -/
structure Date where
  year : Int
  month : Int
  day : Int
deriving Repr, DecidableEq

/-- The date a number of days after 1 January 1970. Years are counted from March here, so that a
leap day is the last of its year; 400 of them have 146097 days. -/
def Date.ofDays (days : Int) : Date :=
  let shifted := days + 719468
  let era := shifted / 146097
  let dayOfEra := shifted % 146097
  let yearOfEra := (dayOfEra - dayOfEra / 1460 + dayOfEra / 36524 - dayOfEra / 146096) / 365
  let dayOfYear := dayOfEra - (365 * yearOfEra + yearOfEra / 4 - yearOfEra / 100)
  let monthFromMarch := (5 * dayOfYear + 2) / 153
  let day := dayOfYear - (153 * monthFromMarch + 2) / 5 + 1
  let month := if monthFromMarch < 10 then monthFromMarch + 3 else monthFromMarch - 9
  let year := yearOfEra + era * 400 + if month ≤ 2 then 1 else 0
  ⟨year, month, day⟩

def twoDigits (n : Int) : String :=
  let text := toString n
  if text.length < 2 then "0" ++ text else text

/-- The written parts of an instant. -/
structure Instant where
  day : String
  month : String
  year : String
  hours : String
  minutes : String
  seconds : String

/-- The parts of an instant that no calendar has. -/
def Instant.none : Instant := ⟨"NaN", "NaN", "NaN", "NaN", "NaN", "NaN"⟩

def Instant.ofSeconds (seconds : Int) : Instant :=
  let date := Date.ofDays (seconds / 86400)
  let time := seconds % 86400
  ⟨twoDigits date.day, twoDigits date.month, toString date.year, twoDigits (time / 3600),
    twoDigits (time / 60 % 60), twoDigits (time % 60)⟩

def lastMillisecond : Float := 8.64e15

/-- The instant of a number of seconds, without its fraction. -/
def Instant.of (seconds : Float) : Instant :=
  if (Number.floorFloat seconds * 1000).abs ≤ lastMillisecond then
    .ofSeconds (Number.floor seconds)
  else .none

def decimalsOption? (option : String) : Option Nat :=
  match option.toList with
  | ['-', digit] => if Number.isDigit digit then some (digit.toNat - '0'.toNat) else none
  | _ => none

/-- The decimals options ask for, the last of them if several do, and one if none does. -/
def decimals (options : List String) : Nat :=
  if options.contains "-nofrac" then 0 else (options.filterMap decimalsOption?).getLastD 1

/-- A time in seconds since 1970 as `DD-MM-YYYY hh:mm:ss.f`. -/
def timestampText (seconds : Float) (options : List String) : String :=
  let instant := Instant.of seconds
  let year := if options.contains "-noyear" then "" else "-" ++ instant.year
  let date := if options.contains "-nodate" then "" else s!"{instant.day}-{instant.month}{year} "
  let places := decimals options
  let fraction := Number.fixedText (seconds - Number.floorFloat seconds) places
  let decimals := if places = 0 then "" else String.ofList (fraction.toList.drop 1)
  s!"{date}{instant.hours}:{instant.minutes}:{instant.seconds}{decimals}"

end RadarTimeline.Console
