/-!
# Days and times of day

A `Moment` is a day of the calendar, or a time of such a day, which may say how far its clock is
from universal time. `Date.ofParts`, `Clock.ofParts` and `Offset.ofMinutes` build the parts and say
what is out of range.

* `Moment.text` and `Moment.inspect`: a moment for readers, and as a value in a message;
* `Moment.same`: equality; times with offsets are equal when they are the same instant;
* `Moment.before?`: the order of days, that of times without offsets, and that of times with them.
-/

namespace Criteria

/-- What is out of range in a day or a time. -/
inductive MomentFault
  | year (value : Nat)
  | month | day | hour | minute | second
  /-- A clock is less than a day away from universal time. -/
  | offset (minutes : Int)
  deriving DecidableEq, Repr

/-! ## Days -/

namespace Date

/-- Every fourth year has a day more, but of the full centuries only every fourth. -/
def isLeap (year : Nat) : Bool := year % 4 == 0 && (year % 100 != 0 || year % 400 == 0)

/-- The number of days of a month. -/
def daysIn (year month : Nat) : Nat :=
  if month = 2 then if isLeap year then 29 else 28
  else if [4, 6, 9, 11].contains month then 30 else 31

/-- The parts are those of a day. -/
def Valid (year month day : Nat) : Prop :=
  1 ≤ year ∧ 1 ≤ month ∧ month ≤ 12 ∧ 1 ≤ day ∧ day ≤ daysIn year month

instance (year month day : Nat) : Decidable (Valid year month day) :=
  inferInstanceAs (Decidable (_ ∧ _ ∧ _ ∧ _ ∧ _))

end Date

/-- A day of the calendar. -/
structure Date where
  year : Nat
  month : Nat
  day : Nat
  valid : Date.Valid year month day
  deriving DecidableEq

namespace Date

/-- The day with the given parts. -/
def ofParts (year month day : Nat) : Except MomentFault Date :=
  if h : Valid year month day then .ok ⟨year, month, day, h⟩
  else if year = 0 then .error (.year year)
  else if month = 0 ∨ 12 < month then .error .month
  else .error .day

/-- The number of days before a year, from the first day of the first year on. -/
def daysBeforeYear (year : Nat) : Nat :=
  let past := year - 1
  365 * past + past / 4 - past / 100 + past / 400

/-- The number of a day, the first day of the first year being one. -/
def number (date : Date) : Nat :=
  daysBeforeYear date.year +
    (List.range (date.month - 1)).foldl (fun days m => days + daysIn date.year (m + 1)) 0 + date.day

end Date

/-! ## Times -/

/-- A time of day. -/
structure Clock where
  hour : Nat
  minute : Nat
  second : Nat
  /-- Millionths of a second. -/
  micro : Nat
  hour_lt : hour < 24
  minute_lt : minute < 60
  second_lt : second < 60
  micro_lt : micro < 1000000
  deriving DecidableEq

namespace Clock

/-- The time with the given parts. -/
def ofParts (hour minute second micro : Nat) : Except MomentFault Clock :=
  if h : hour < 24 then
    if m : minute < 60 then
      if s : second < 60 then
        .ok ⟨hour, minute, second, micro % 1000000, h, m, s, Nat.mod_lt _ (by decide)⟩
      else .error .second
    else .error .minute
  else .error .hour

/-- The number of millionths of a second since the start of the day. -/
def micros (clock : Clock) : Nat :=
  ((clock.hour * 60 + clock.minute) * 60 + clock.second) * 1000000 + clock.micro

end Clock

/-- How many minutes a clock is ahead of universal time. -/
structure Offset where
  minutes : Int
  bounded : minutes.natAbs < 24 * 60
  deriving DecidableEq

/-- The offset of some minutes. -/
def Offset.ofMinutes (minutes : Int) : Except MomentFault Offset :=
  if h : minutes.natAbs < 24 * 60 then .ok ⟨minutes, h⟩ else .error (.offset minutes)

/-- A day, or a time of a day. -/
inductive Moment
  | day (date : Date)
  | time (date : Date) (clock : Clock) (offset : Option Offset)
  deriving DecidableEq

namespace Moment

/-- The number of millionths of a second up to a time of a day, as its own clock counts or, with an
offset, in universal time. -/
def instant (date : Date) (clock : Clock) (offset : Option Offset) : Int :=
  let ahead := (offset.map Offset.minutes).getD 0
  (date.number : Int) * (24 * 3600 * 1000000) + clock.micros - ahead * (60 * 1000000)

/-- The same day, or the same time. A time with an offset is not one without. -/
def same : Moment → Moment → Bool
  | .day a, .day b => decide (a = b)
  | .time a c x, .time b d y => x.isSome == y.isSome && instant a c x == instant b d y
  | _, _ => false

/-- Whether a moment comes before another; moments of different kinds have no order. -/
def before? : Moment → Moment → Option Bool
  | .day a, .day b => some (decide (a.number < b.number))
  | .time a c x, .time b d y =>
    if x.isSome = y.isSome then some (decide (instant a c x < instant b d y)) else none
  | _, _ => none

/-! ## Texts -/

/-- A number in decimal with at least the given number of digits. -/
def digits (width n : Nat) : String :=
  let run := Nat.toDigits 10 n
  String.ofList (List.replicate (width - run.length) '0' ++ run)

/-- A day as year, month and day. -/
def dateText (date : Date) : String :=
  s!"{digits 4 date.year}-{digits 2 date.month}-{digits 2 date.day}"

/-- A time as hours, minutes and seconds, with the fraction of a second when there is one. -/
def clockText (clock : Clock) : String :=
  let whole := s!"{digits 2 clock.hour}:{digits 2 clock.minute}:{digits 2 clock.second}"
  if clock.micro = 0 then whole else s!"{whole}.{digits 6 clock.micro}"

/-- An offset as signed hours and minutes. -/
def offsetText (offset : Offset) : String :=
  let size := offset.minutes.natAbs
  let sign := if offset.minutes < 0 then "-" else "+"
  s!"{sign}{digits 2 (size / 60)}:{digits 2 (size % 60)}"

/-- A moment for readers. -/
def text : Moment → String
  | .day date => dateText date
  | .time date clock offset =>
    dateText date ++ " " ++ clockText clock ++ (offset.map offsetText).getD ""

/-- A span of minutes as a value in a message: full days, and the seconds beyond them. -/
def inspectSpan (minutes : Int) : String :=
  let days := minutes / (24 * 60)
  let seconds := 60 * (minutes % (24 * 60))
  let parts := (if days = 0 then [] else [s!"days={days}"]) ++
    (if seconds = 0 then [] else [s!"seconds={seconds}"])
  let shown := if parts.isEmpty then "0" else ", ".intercalate parts
  s!"datetime.timedelta({shown})"

/-- An offset as a value in a message. -/
def inspectOffset (offset : Offset) : String :=
  if offset.minutes = 0 then "datetime.timezone.utc"
  else s!"datetime.timezone({inspectSpan offset.minutes})"

/-- A moment as a value in a message. Seconds and fractions are left out where they are zero. -/
def inspect : Moment → String
  | .day date => s!"datetime.date({date.year}, {date.month}, {date.day})"
  | .time date clock offset =>
    let parts := [date.year, date.month, date.day, clock.hour, clock.minute] ++
      (if clock.second = 0 ∧ clock.micro = 0 then [] else [clock.second]) ++
      (if clock.micro = 0 then [] else [clock.micro])
    let zone := match offset with
      | some offset => [s!"tzinfo={inspectOffset offset}"]
      | none => []
    let shown := ", ".intercalate (parts.map toString ++ zone)
    s!"datetime.datetime({shown})"

end Moment

/-- The wording of a fault. -/
def MomentFault.message : MomentFault → String
  | .year value => s!"year {value} is out of range"
  | .month => "month must be in 1..12"
  | .day => "day is out of range for month"
  | .hour => "hour must be in 0..23"
  | .minute => "minute must be in 0..59"
  | .second => "second must be in 0..59"
  | .offset minutes =>
    "offset must be a timedelta strictly between -timedelta(hours=24) and timedelta(hours=24), " ++
      s!"not {Moment.inspectSpan minutes}."

end Criteria
