import MileExplorer.Api
import MileExplorer.Calendar
import Mathlib.Data.List.TakeWhile
import Mathlib.Tactic.IntervalCases

/-!
# Times as text

`utcToString` prints a time with `put_time` and `getEpochTime` reads one with
`get_time`.  Their formats are written separately: the reader takes the minutes
after the hours, with `%M`, where the printer has `%m`, the month.
-/

namespace MileExplorer

/-- The members of `std::tm` that the formats and `timegm` use.  The month
counts from 0 and the year from 1900. -/
structure Tm where
  sec : Int
  min : Int
  hour : Int
  mday : Int
  mon : Int
  year : Int
  deriving DecidableEq, Repr

def epochDay : Int := Calendar.yearStart 1970

def gmtime (time : Int) : Tm :=
  let date := Calendar.dateOf (epochDay + time / 86400)
  { sec := time % 86400 % 60, min := time % 86400 / 60 % 60, hour := time % 86400 / 3600,
    mday := date.day, mon := date.month, year := date.year - 1900 }

/-- `timegm`, which carries months beyond the year over to the years. -/
def timegm (tm : Tm) : Int :=
  let date : Calendar.Date := ⟨tm.year + 1900 + tm.mon / 12, (tm.mon % 12).toNat, tm.mday⟩
  (date.number - epochDay) * 86400 + tm.hour * 3600 + tm.min * 60 + tm.sec

/-! ## Formats -/

/-- A conversion of a number: the digits to which it is filled up in print, the
digits that are read at most, its range and its member of `std::tm`. -/
structure NumberConversion where
  printed : Nat
  read : Nat
  least : Int
  greatest : Int
  get : Tm → Int
  set : Int → Tm → Tm

namespace NumberConversion

/-- `%Y`. -/
def year : NumberConversion :=
  ⟨1, 4, 0, 9999, fun tm => tm.year + 1900, fun value tm => { tm with year := value - 1900 }⟩

/-- `%d`. -/
def day : NumberConversion := ⟨2, 2, 1, 31, Tm.mday, fun value tm => { tm with mday := value }⟩

/-- `%H`. -/
def hour : NumberConversion := ⟨2, 2, 0, 23, Tm.hour, fun value tm => { tm with hour := value }⟩

/-- `%m`. -/
def month : NumberConversion :=
  ⟨2, 2, 1, 12, fun tm => tm.mon + 1, fun value tm => { tm with mon := value - 1 }⟩

/-- `%M`. -/
def minute : NumberConversion := ⟨2, 2, 0, 59, Tm.min, fun value tm => { tm with min := value }⟩

/-- `%S`. -/
def second : NumberConversion := ⟨2, 2, 0, 60, Tm.sec, fun value tm => { tm with sec := value }⟩

end NumberConversion

inductive Piece where
  | literal (char : Char)
  | number (conversion : NumberConversion)
  | monthName
  | zone

def pieces : List Char → List Piece
  | '%' :: 'Y' :: rest => .number .year :: pieces rest
  | '%' :: 'h' :: rest => .monthName :: pieces rest
  | '%' :: 'd' :: rest => .number .day :: pieces rest
  | '%' :: 'H' :: rest => .number .hour :: pieces rest
  | '%' :: 'm' :: rest => .number .month :: pieces rest
  | '%' :: 'M' :: rest => .number .minute :: pieces rest
  | '%' :: 'S' :: rest => .number .second :: pieces rest
  | '%' :: 'Z' :: rest => .zone :: pieces rest
  | char :: rest => .literal char :: pieces rest
  | [] => []

/-- The names of the months in the C locale, in full and short. -/
def monthNames : List (String × String) :=
  [("January", "Jan"), ("February", "Feb"), ("March", "Mar"), ("April", "Apr"), ("May", "May"),
    ("June", "Jun"), ("July", "Jul"), ("August", "Aug"), ("September", "Sep"),
    ("October", "Oct"), ("November", "Nov"), ("December", "Dec")]

/-! ## Printing -/

/-- A number with at least so many digits. -/
def padded (width : Nat) (value : Nat) : List Char :=
  List.leftpad width '0' (Nat.toDigits 10 value)

/-- What a part of the format prints; `zone` is the name of the time zone. -/
def Piece.print (zone : String) (tm : Tm) : Piece → List Char
  | .literal char => [char]
  | .number conversion => padded conversion.printed (conversion.get tm).toNat
  | .monthName => ((monthNames[tm.mon.toNat]?).map fun names => names.2.toList).getD ['?']
  | .zone => zone.toList

def putTime (zone : String) (tm : Tm) (format : String) : String :=
  String.ofList ((pieces format.toList).flatMap (Piece.print zone tm))

/-! ## Reading -/

/-- The text after a word, letters being alike in both cases. -/
def stripWord : List Char → List Char → Option (List Char)
  | [], input => some input
  | _ :: _, [] => none
  | letter :: word, char :: input =>
      if letter.toLower = char.toLower then stripWord word input else none

/-- A month by its full or its short name, and the text after it. -/
def readMonth (input : List Char) : Nat → List (String × String) → Option (Nat × List Char)
  | _, [] => none
  | index, (full, short) :: rest =>
      match stripWord full.toList input with
      | some after => some (index, after)
      | none =>
          match stripWord short.toList input with
          | some after => some (index, after)
          | none => readMonth input (index + 1) rest

/-- A number of at most so many digits, and the text after it. -/
def readNumber (width : Nat) (input : List Char) : Option (Nat × List Char) :=
  let digits := (input.take width).takeWhile Char.isDigit
  if digits = [] then none else some (Nat.ofDigitChars 10 digits 0, input.drop digits.length)

/-- `get_time`: the members are set one after the other until a part of the
format is not found.  A blank stands for any blanks, and the name of the time
zone is skipped. -/
def readPieces : List Piece → List Char → Tm → Tm
  | [], _, tm => tm
  | .literal char :: rest, input, tm =>
      if isSpace char then readPieces rest (input.dropWhile isSpace) tm
      else
        match stripWord [char] input with
        | some after => readPieces rest after tm
        | none => tm
  | .number conversion :: rest, input, tm =>
      match readNumber conversion.read input with
      | some (value, after) =>
          if conversion.least ≤ value ∧ value ≤ conversion.greatest then
            readPieces rest after (conversion.set value tm)
          else tm
      | none => tm
  | .monthName :: rest, input, tm =>
      match readMonth input 0 monthNames with
      | some (month, after) => readPieces rest after { tm with mon := month }
      | none => tm
  | .zone :: rest, input, tm => readPieces rest (input.dropWhile Char.isAlpha) tm

/-- `getTime`.  The structure it fills is `uninitialised` before. -/
def getTime (uninitialised : Tm) (dateTime : String) (adjustYear : Bool) : Tm :=
  let dt := readPieces (pieces "%Y-%h-%d %H:%M:%S %Z".toList) (dateTime.toList.dropWhile isSpace)
    uninitialised
  if adjustYear then { dt with year := dt.year + 1900 } else dt

def getEpochTime (uninitialised : Tm) (dateTime : String) : Int :=
  timegm (getTime uninitialised dateTime false)

def utcToString (zone : String) (time : Int) : String :=
  putTime zone (gmtime time) "%Y-%h-%d %H:%m:%S %Z"

/-! ## The calendar -/

theorem timegm_gmtime (time : Int) : timegm (gmtime time) = time := by
  have monthLe := Calendar.dateOf_month_le (epochDay + time / 86400)
  have number := Calendar.number_dateOf (epochDay + time / 86400)
  unfold timegm gmtime
  dsimp only
  generalize Calendar.dateOf (epochDay + time / 86400) = date at monthLe number ⊢
  obtain ⟨year, month, day⟩ := date
  dsimp only at monthLe ⊢
  have carried : (⟨year - 1900 + 1900 + (month : Int) / 12, ((month : Int) % 12).toNat, day⟩ :
      Calendar.Date) = ⟨year, month, day⟩ := by
    simp only [Calendar.Date.mk.injEq, and_true]
    omega
  rw [carried, number]
  omega

/-- The members that a time until the end of 9999 has. -/
structure Tm.Bounded (tm : Tm) : Prop where
  sec : 0 ≤ tm.sec ∧ tm.sec < 60
  hour : 0 ≤ tm.hour ∧ tm.hour < 24
  mday : 1 ≤ tm.mday ∧ tm.mday ≤ 31
  mon : 0 ≤ tm.mon ∧ tm.mon ≤ 11
  year : 70 ≤ tm.year ∧ tm.year ≤ 8099

theorem gmtime_bounded {time : Int} (after : 0 ≤ time) (before : time < 253402300800) :
    (gmtime time).Bounded := by
  have month := Calendar.dateOf_month_le (epochDay + time / 86400)
  have day := Calendar.dateOf_day_bounds (epochDay + time / 86400)
  have first : Calendar.yearStart 1970 ≤ epochDay + time / 86400 := by
    unfold epochDay
    omega
  have last : epochDay + time / 86400 < Calendar.yearStart 10000 := by
    have ending : Calendar.yearStart 10000 = epochDay + 2932897 := by decide
    omega
  have year := Calendar.dateOf_year_bounds first last
  unfold gmtime
  refine ⟨?_, ?_, day, ?_, ?_⟩ <;> dsimp only <;> omega

/-! ## Printed and read again -/

section Numbers

variable {width value : Nat} (small : value < 10 ^ width) (positive : 0 < width)

include small positive

theorem length_padded : (padded width value).length = width := by
  have short := (Nat.length_toDigits_le_iff (by decide : 1 < 10) positive).mpr small
  rw [padded, List.length_leftpad]
  omega

omit small positive in
theorem isDigit_of_mem_padded {char : Char} (member : char ∈ padded width value) :
    char.isDigit = true := by
  rcases List.mem_append.mp member with filled | digit
  · rw [(List.mem_replicate.mp filled).2]
    decide
  · exact Nat.isDigit_of_mem_toDigits (by decide) (by decide) digit

omit small positive in
theorem ofDigitChars_padded : Nat.ofDigitChars 10 (padded width value) 0 = value := by
  rw [padded, List.leftpad, Nat.ofDigitChars_append, Nat.ofDigitChars_replicate_zero, mul_zero,
    Nat.ofDigitChars_ten_toDigits]

theorem readNumber_padded (rest : List Char) :
    readNumber width (padded width value ++ rest) = some (value, rest) := by
  have length := length_padded small positive
  have taken : (padded width value ++ rest).take width = padded width value := by
    rw [List.take_append_of_le_length length.ge, List.take_of_length_le length.le]
  have digits : (padded width value).takeWhile Char.isDigit = padded width value :=
    List.takeWhile_eq_self_iff.mpr fun char member => isDigit_of_mem_padded member
  have nonempty : padded width value ≠ [] := by
    intro empty
    rw [empty] at length
    exact absurd length positive.ne
  rw [readNumber, taken, digits]
  simp only [nonempty, if_false, ofDigitChars_padded, List.drop_left]

end Numbers

theorem padded_year {value : Nat} (least : 1000 ≤ value) (greatest : value < 10 ^ 4) :
    padded 1 value = padded 4 value := by
  have short := (Nat.length_toDigits_le_iff (by decide : 1 < 10) (by decide : 0 < 4)).mpr greatest
  have long : ¬ (Nat.toDigits 10 value).length ≤ 3 := by
    rw [Nat.length_toDigits_le_iff (by decide) (by decide)]
    omega
  have full : (Nat.toDigits 10 value).length = 4 := by omega
  simp [padded, List.leftpad, full]

/-- No blank stands in front of a printed number. -/
theorem dropWhile_padded (width value : Nat) (rest : List Char) :
    (padded width value ++ rest).dropWhile isSpace = padded width value ++ rest := by
  cases digits : padded width value with
  | nil =>
      have nonempty : Nat.toDigits 10 value ≠ [] := Nat.toDigits_ne_nil
      exact absurd (List.append_eq_nil_iff.mp digits).2 nonempty
  | cons digit others =>
      have isDigit : digit.isDigit = true :=
        @isDigit_of_mem_padded width value digit (by rw [digits]; exact List.mem_cons_self)
      have notSpace : isSpace digit = false := by
        by_contra space
        simp only [isSpace, Bool.or_eq_true, decide_eq_true_eq, Bool.not_eq_false] at space
        rcases space with ((((rfl | rfl) | rfl) | rfl) | rfl) | rfl <;> revert isDigit <;> decide
      rw [List.cons_append, List.dropWhile_cons_of_neg (by simp [notSpace])]

section Pieces

variable {current : Tm} {rest : List Piece} {input : List Char}

theorem readPieces_literal {char : Char} (notSpace : isSpace char = false) :
    readPieces (.literal char :: rest) (char :: input) current = readPieces rest input current := by
  simp [readPieces, notSpace, stripWord]

theorem readPieces_blank {width value : Nat} :
    readPieces (.literal ' ' :: rest) (' ' :: (padded width value ++ input)) current =
      readPieces rest (padded width value ++ input) current := by
  have blank : isSpace ' ' = true := by decide
  rw [readPieces, if_pos blank, List.dropWhile_cons_of_pos blank, dropWhile_padded]

theorem readPieces_number (conversion : NumberConversion) (width : Nat) {value : Int}
    (widthEq : conversion.read = width) (positive : 0 < width) (nonneg : 0 ≤ value)
    (small : value < 10 ^ width)
    (inRange : conversion.least ≤ value ∧ value ≤ conversion.greatest) :
    readPieces (.number conversion :: rest) (padded width value.toNat ++ input) current =
      readPieces rest input (conversion.set value current) := by
  obtain ⟨number, rfl⟩ := Int.eq_ofNat_of_zero_le nonneg
  have fits : number < 10 ^ width := by exact_mod_cast small
  rw [readPieces, widthEq, Int.toNat_natCast, readNumber_padded fits positive]
  exact if_pos inRange

theorem readPieces_monthName (zone : String) {tm : Tm} (least : 0 ≤ tm.mon)
    (greatest : tm.mon ≤ 11) :
    readPieces (.monthName :: rest) (Piece.print zone tm .monthName ++ '-' :: input) current =
      readPieces rest ('-' :: input) { current with mon := tm.mon } := by
  obtain ⟨sec, min, hour, mday, mon, year⟩ := tm
  dsimp only at least greatest
  interval_cases mon <;> rfl

end Pieces

/-! ## A time printed and read -/

/-- The text that `utcToString` makes of the members of a time. -/
def printedTime (zone : String) (tm : Tm) : List Char :=
  padded 1 (tm.year + 1900).toNat ++ '-' :: (Piece.print zone tm .monthName ++ '-' ::
    (padded 2 tm.mday.toNat ++ ' ' :: (padded 2 tm.hour.toNat ++ ':' ::
      (padded 2 (tm.mon + 1).toNat ++ ':' :: (padded 2 tm.sec.toNat ++ ' ' :: zone.toList)))))

theorem toList_utcToString (zone : String) (time : Int) :
    (utcToString zone time).toList = printedTime zone (gmtime time) := by
  have format : pieces "%Y-%h-%d %H:%m:%S %Z".toList =
      [.number .year, .literal '-', .monthName, .literal '-', .number .day, .literal ' ',
        .number .hour, .literal ':', .number .month, .literal ':', .number .second,
        .literal ' ', .zone] := rfl
  rw [utcToString, putTime, String.toList_ofList, format]
  simp only [List.flatMap_cons, List.flatMap_nil, Piece.print, List.cons_append, List.nil_append,
    List.append_nil]
  rfl

theorem readPieces_printedTime (zone : String) {tm : Tm} (bounded : tm.Bounded) (current : Tm) :
    readPieces (pieces "%Y-%h-%d %H:%M:%S %Z".toList) (printedTime zone tm) current =
      { tm with min := tm.mon + 1 } := by
  obtain ⟨sec, hour, mday, mon, year⟩ := bounded
  have format : pieces "%Y-%h-%d %H:%M:%S %Z".toList =
      [.number .year, .literal '-', .monthName, .literal '-', .number .day, .literal ' ',
        .number .hour, .literal ':', .number .minute, .literal ':', .number .second,
        .literal ' ', .zone] := rfl
  have yearRange : NumberConversion.year.least ≤ tm.year + 1900 ∧
      tm.year + 1900 ≤ NumberConversion.year.greatest := by
    simp only [NumberConversion.year]
    omega
  have minuteRange : NumberConversion.minute.least ≤ tm.mon + 1 ∧
      tm.mon + 1 ≤ NumberConversion.minute.greatest := by
    simp only [NumberConversion.minute]
    omega
  have hourRange : NumberConversion.hour.least ≤ tm.hour ∧
      tm.hour ≤ NumberConversion.hour.greatest := by
    simp only [NumberConversion.hour]
    omega
  have secRange : NumberConversion.second.least ≤ tm.sec ∧
      tm.sec ≤ NumberConversion.second.greatest := by
    simp only [NumberConversion.second]
    omega
  rw [format, printedTime, padded_year (by omega) (by omega),
    readPieces_number .year 4 rfl (by decide) (by omega) (by omega) yearRange,
    readPieces_literal (by decide), readPieces_monthName zone mon.1 mon.2,
    readPieces_literal (by decide),
    readPieces_number .day 2 rfl (by decide) (by omega) (by omega) mday, readPieces_blank,
    readPieces_number .hour 2 rfl (by decide) hour.1 (by omega) hourRange,
    readPieces_literal (by decide),
    readPieces_number .minute 2 rfl (by decide) (by omega) (by omega) minuteRange,
    readPieces_literal (by decide),
    readPieces_number .second 2 rfl (by decide) sec.1 (by omega) secRange]
  obtain ⟨seconds, minutes, hours, day, month, years⟩ := tm
  simp [readPieces, isSpace, NumberConversion.year, NumberConversion.day, NumberConversion.hour,
    NumberConversion.minute, NumberConversion.second]

theorem getTime_utcToString (zone : String) (uninitialised : Tm) {time : Int}
    (bounded : (gmtime time).Bounded) :
    getTime uninitialised (utcToString zone time) false =
      { gmtime time with min := (gmtime time).mon + 1 } := by
  have start : (printedTime zone (gmtime time)).dropWhile isSpace =
      printedTime zone (gmtime time) := dropWhile_padded _ _ _
  rw [getTime, toList_utcToString, start, readPieces_printedTime zone bounded]
  rfl

/-- The time that is read has the number of the month for its minutes. -/
theorem getEpochTime_utcToString (zone : String) (uninitialised : Tm) {time : Int}
    (after : 0 ≤ time) (before : time < 253402300800) :
    getEpochTime uninitialised (utcToString zone time) =
      time + ((gmtime time).mon + 1 - (gmtime time).min) * 60 := by
  have inverse := timegm_gmtime time
  rw [getEpochTime, getTime_utcToString zone uninitialised (gmtime_bounded after before)]
  simp only [timegm] at inverse ⊢
  omega

/-- A time is read as it was printed exactly if its minute is the number of its
month. -/
theorem time_round_trip_iff (zone : String) (uninitialised : Tm) {time : Int} (after : 0 ≤ time)
    (before : time < 253402300800) :
    getEpochTime uninitialised (utcToString zone time) = time ↔
      (gmtime time).min = (gmtime time).mon + 1 := by
  rw [getEpochTime_utcToString zone uninitialised after before]
  omega

/-- The second minute of 1970. -/
theorem time_round_trip_iff_january :
    getEpochTime ⟨0, 0, 0, 0, 0, 0⟩ (utcToString "GMT" 61) = 61 := by
  rw [time_round_trip_iff "GMT" ⟨0, 0, 0, 0, 0, 0⟩ (by decide) (by decide)]
  decide

/-- The first second of 1970 becomes the second minute. -/
theorem first_second_not_read :
    ¬ getEpochTime ⟨0, 0, 0, 0, 0, 0⟩ (utcToString "GMT" 0) = 0 := by
  decide +kernel

end MileExplorer
