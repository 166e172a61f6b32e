import Workflow.Json.Reader

/-! Dates, and dates with a time of day, that scalars of YAML 1.1 write. A day that is in no calendar, a
    time beyond its bounds and a clock that is a day or more ahead are faults. -/

namespace Workflow.Yaml

/-- A time of day; `micro` counts the millionths of the second. -/
structure TimeOfDay where
  hour : Nat
  minute : Nat
  second : Nat
  micro : Nat

/-- A date, with a time of day or without, and how many minutes its clock is ahead, where this is
    known. -/
structure Moment where
  year : Nat
  month : Nat
  day : Nat
  time : Option TimeOfDay := none
  ahead : Option Int := none

/-! ### Texts -/

/-- The number of the digits at the head of a text, which are at least `least` and at most `most`, and
    the rest. -/
def digitsBetween? (least most : Nat) (cs : List Char) : Option (Nat × List Char) :=
  let ds := (cs.take most).takeWhile Json.isDigit
  if least ≤ ds.length then some (Number.ofDigits ds, cs.drop ds.length) else none

def after? (mark : Char) : List Char → Option (List Char)
  | c :: cs => if c = mark then some cs else none
  | [] => none

def isBlankMark (c : Char) : Bool := c == ' ' || c == '\t'

/-- What follows the mark between a date and a time: a letter, or blanks. -/
def afterDate? : List Char → Option (List Char)
  | 'T' :: cs | 't' :: cs => some cs
  | c :: cs => if isBlankMark c then some (cs.dropWhile isBlankMark) else none
  | [] => none

/-- The millionths that a fraction of a second writes. -/
def micros (ds : List Char) : Nat :=
  let ds := ds.take 6
  Number.ofDigits (ds ++ List.replicate (6 - ds.length) '0')

/-- The clock at the end of a text, after blanks: nothing, the common clock, or a signed distance from
    it in hours and minutes. -/
def clock? (cs : List Char) : Option (Option Int) :=
  match cs, cs.dropWhile isBlankMark with
  | [], _ => some none
  | _, ['Z'] => some (some 0)
  | _, sign :: rest =>
    if sign = '+' ∨ sign = '-' then do
      let (hours, rest) ← digitsBetween? 1 2 rest
      let minutes ← match rest with
        | [] => some 0
        | rest => do
          let (n, rest) ← digitsBetween? 2 2 (← after? ':' rest)
          if rest.isEmpty then some n else none
      let n : Int := 60 * hours + minutes
      return some (if sign = '-' then -n else n)
    else none
  | _, [] => none

/-- The moment that a text writes: a date of four, two and two digits, or a date and a time. -/
def Moment.ofText? (cs : List Char) : Option Moment := do
  let (year, rest) ← digitsBetween? 4 4 cs
  let (month, rest) ← digitsBetween? 1 2 (← after? '-' rest)
  let (day, rest) ← digitsBetween? 1 2 (← after? '-' rest)
  if rest.isEmpty then
    if cs.length = 10 then return { year, month, day } else none
  else
    let (hour, rest) ← digitsBetween? 1 2 (← afterDate? rest)
    let (minute, rest) ← digitsBetween? 2 2 (← after? ':' rest)
    let (second, rest) ← digitsBetween? 2 2 (← after? ':' rest)
    let (fraction, rest) := match rest with
      | '.' :: cs => (cs.takeWhile Json.isDigit, cs.dropWhile Json.isDigit)
      | cs => ([], cs)
    let ahead ← clock? rest
    return { year, month, day, time := some ⟨hour, minute, second, micros fraction⟩, ahead }

/-! ### Values -/

def isLeap (year : Nat) : Bool := year % 4 == 0 && (year % 100 != 0 || year % 400 == 0)

def daysIn (year month : Nat) : Nat :=
  if month = 2 then (if isLeap year then 29 else 28)
  else if [4, 6, 9, 11].contains month then 30 else 31

/-- A span of time in minutes, as whole days and the seconds after them. -/
def spanValue (minutes : Int) : Value :=
  let days := Int.fdiv minutes 1440
  let seconds := 60 * Int.fmod minutes 1440
  .object Value.spanKind
    ((if days = 0 then [] else [("days", .int days)]) ++
      (if seconds = 0 then [] else [("seconds", .int seconds)]))

/-- A clock that is ahead by some minutes. -/
def clockValue (ahead : Int) : Except Fault Value :=
  if ahead = 0 then .ok (.object Value.clockKind [])
  else if -1440 < ahead ∧ ahead < 1440 then .ok (.object Value.clockKind [("offset", spanValue ahead)])
  else .error (.value ("offset must be a timedelta strictly between -timedelta(hours=24) and " ++
    s!"timedelta(hours=24), not {(spanValue ahead).literal}."))

namespace Moment

/-- Refuses a day that is in no calendar. -/
def checkDate (m : Moment) : Except Fault Unit :=
  if m.year = 0 then .error (.value "year 0 is out of range")
  else if m.month = 0 ∨ 12 < m.month then .error (.value "month must be in 1..12")
  else if m.day = 0 ∨ daysIn m.year m.month < m.day then
    .error (.value "day is out of range for month")
  else .ok ()

/-- The attributes of a time of day; nothing is said of seconds that are zero. -/
def timeFields (t : TimeOfDay) : Except Fault Fields :=
  if 23 < t.hour then .error (.value "hour must be in 0..23")
  else if 59 < t.minute then .error (.value "minute must be in 0..59")
  else if 59 < t.second then .error (.value "second must be in 0..59")
  else
    .ok ([("hour", .int t.hour), ("minute", .int t.minute)] ++
      (if t.second = 0 ∧ t.micro = 0 then [] else [("second", .int t.second)]) ++
      (if t.micro = 0 then [] else [("microsecond", .int t.micro)]))

def value (m : Moment) : Except Fault Value := do
  let clock ← m.ahead.mapM clockValue
  m.checkDate
  let date : Fields := [("year", .int m.year), ("month", .int m.month), ("day", .int m.day)]
  match m.time with
  | none => return .object Value.dateKind date
  | some t =>
    return .object Value.momentKind
      (date ++ (← timeFields t) ++ (clock.toList.map fun c => ("tzinfo", c)))

end Moment

end Workflow.Yaml
