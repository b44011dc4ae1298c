import Recurrence.Schedule.Fault
/-!
# Words of an expression

Each kind of word that an expression is made of has a function that gives its value, and a
fault that quotes the word if it is not of that kind.
-/

namespace Recurrence.Token

/-- The numbers from 1 to 31 as words. -/
def ordinalWords : List (List Char) :=
  ["first".toList, "second".toList, "third".toList, "fourth".toList, "fifth".toList,
   "sixth".toList, "seventh".toList, "eighth".toList, "ninth".toList, "tenth".toList,
   "eleventh".toList, "twelfth".toList, "thirteenth".toList, "fourteenth".toList,
   "fifteenth".toList, "sixteenth".toList, "seventeenth".toList, "eighteenth".toList,
   "nineteenth".toList, "twentieth".toList, "twenty-first".toList, "twenty-second".toList,
   "twenty-third".toList, "twenty-fourth".toList, "twenty-fifth".toList, "twenty-sixth".toList,
   "twenty-seventh".toList, "twenty-eighth".toList, "twenty-ninth".toList, "thirtieth".toList,
   "thirty-first".toList]

def ordinalEndings : List (List Char) := ["st".toList, "nd".toList, "rd".toList, "th".toList]

/-- A token without its ordinal ending, if it has one. -/
def dropOrdinalEnding (token : List Char) : List Char :=
  (ordinalEndings.findSome? (·.isSuffixOf? token)).getD token

/-- A word such as `third`, or one or two digits with any ordinal ending or none. -/
def ordinal? (token : List Char) : Option Nat :=
  match ordinalWords.idxOf? token with
  | some i => some (i + 1)
  | none =>
    let digits := dropOrdinalEnding token
    if 1 ≤ digits.length ∧ digits.length ≤ 2 ∧ digits.all Char.isDigit then
      some (Nat.ofDigitChars 10 digits 0)
    else none

/-- The position of the first name that the token is, or abbreviates to three letters. -/
def nameIndex? (names : List (List Char)) (token : List Char) : Option Nat :=
  names.findIdx? fun name => name == token || token.length == 3 && token.isPrefixOf name

def weekday? (token : List Char) : Option Nat := nameIndex? weekdayNames token

def month? (token : List Char) : Option Nat := (nameIndex? monthNames token).map (· + 1)

/-- Two digits, a colon and two digits. -/
def clockTime? : List Char → Option ClockTime
  | [h₁, h₂, colon, m₁, m₂] =>
    if colon = ':' ∧ [h₁, h₂, m₁, m₂].all Char.isDigit then
      ClockTime.ofHourMinute? (Nat.ofDigitChars 10 [h₁, h₂] 0) (Nat.ofDigitChars 10 [m₁, m₂] 0)
    else none
  | _ => none

def unit? (token : List Char) : Option TimeUnit :=
  if token = "mins".toList ∨ token = "minutes".toList then some .minutes
  else if token = "hours".toList then some .hours
  else none

/-- Lengths have at most 32 bits. -/
def maxLength : Nat := 4294967295

/-! ## Words or faults -/

def ordinal (token : List Char) : Except Fault Nat :=
  (ordinal? token).elim (.error (.notOrdinal token)) .ok

def weekday (token : List Char) : Except Fault Nat :=
  (weekday? token).elim (.error (.notWeekday token)) .ok

def month (token : List Char) : Except Fault Nat :=
  (month? token).elim (.error (.notMonth token)) .ok

def clockTime (token : List Char) : Except Fault ClockTime :=
  (clockTime? token).elim (.error (.notTime token)) .ok

def unit (token : List Char) : Except Fault TimeUnit :=
  (unit? token).elim (.error (.notUnit token)) .ok

/-- The length of an interval in digits. -/
def length (token : List Char) : Except Fault Nat :=
  if ¬ token.all Char.isDigit then .error (.notNumber token)
  else if token = [] ∨ maxLength < Nat.ofDigitChars 10 token 0 then .error (.numberTooLarge token)
  else .ok (Nat.ofDigitChars 10 token 0)

/-- Items with single commas between them. -/
def listOf (item : List Char → Except Fault Nat) (token : List Char) : Except Fault (List Nat) :=
  (token.splitOn ',').mapM item

example : ordinal? "22nd".toList = some 22 ∧ ordinal? "thirty-first".toList = some 31 := by decide

example : weekday? "thu".toList = some 3 ∧ month? "thu".toList = none := by decide

example : clockTime? "24:00".toList = none := by decide

end Recurrence.Token
