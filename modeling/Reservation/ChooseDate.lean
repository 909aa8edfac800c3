import Reservation.Machine
import Mathlib.Logic.Function.Basic

/-! The time form: three text fields that share one date picker. Only touches
change the form here, what is typed on the keyboard is left out. -/

namespace Reservation

def daysIn (year month : Nat) : Nat :=
  if month = 2 then
    if year % 4 = 0 ∧ (year % 100 ≠ 0 ∨ year % 400 = 0) then 29 else 28
  else if month = 4 ∨ month = 6 ∨ month = 9 ∨ month = 11 then 30 else 31

structure Day where
  year : Nat
  month : Nat
  day : Nat
  month_le : 1 ≤ month ∧ month ≤ 12
  day_le : 1 ≤ day ∧ day ≤ daysIn year month
  deriving DecidableEq

structure TimeOfDay where
  hour : Fin 24
  minute : Fin 60
  second : Fin 60
  deriving DecidableEq

structure Date where
  day : Day
  time : TimeOfDay
  deriving DecidableEq

inductive DateFormat
  -- "dd.MM.yyyy"
  | dayMonthYear
  -- "HH:mm"
  | hourMinute
  deriving DecidableEq

def padded (width n : Nat) : List Char := (Nat.toDigits 10 n).leftpad width '0'

/-- The formatter has the calendar and the digits of the device; these are the
Gregorian one and the Western ones. -/
def DateFormat.string : DateFormat → Date → String
  | dayMonthYear, date =>
    .ofList (padded 2 date.day.day ++ '.' :: padded 2 date.day.month ++ '.' :: padded 4 date.day.year)
  | hourMinute, date => .ofList (padded 2 date.time.hour ++ ':' :: padded 2 date.time.minute)

inductive DatePickerMode
  | time
  | date
  | dateAndTime
  deriving DecidableEq

/-- The part of the value that the wheels of this mode replace. -/
def DatePickerMode.replace : DatePickerMode → Date → Date → Date
  | time, old, new => { old with time := new.time }
  | date, old, new => { old with day := new.day }
  | dateAndTime, _, new => new

@[simp] theorem DatePickerMode.replace_self (mode : DatePickerMode) (d : Date) :
    mode.replace d d = d := by
  cases mode <;> rfl

@[simp] theorem DatePickerMode.replace_replace (mode : DatePickerMode) (d v w : Date) :
    mode.replace (mode.replace d v) w = mode.replace d w := by
  cases mode <;> rfl

structure UIDatePicker where
  date : Date
  datePickerMode : DatePickerMode
  isHidden : Bool
  deriving DecidableEq

inductive Field
  | changeDateField
  | changeStartTimeField
  | changeFinishTimeField
  deriving DecidableEq

/-- `firstResponder` is the field being edited: its toolbar is the one on the
screen. Without one there are no buttons to touch. -/
structure ChooseDateVC where
  text : Field → String
  datePicker : UIDatePicker
  firstResponder : Option Field

inductive ChooseDateEvent
  | touch (field : Field)
  | scroll (value : Date)
  | done
  | cancel
  deriving DecidableEq

namespace ChooseDateVC

def setText (vc : ChooseDateVC) (field : Field) (format : DateFormat) : ChooseDateVC :=
  { vc with text := Function.update vc.text field (format.string vc.datePicker.date) }

def setMode (vc : ChooseDateVC) (mode : DatePickerMode) : ChooseDateVC :=
  { vc with datePicker := { vc.datePicker with datePickerMode := mode } }

def setupUI (now : Date) : ChooseDateVC :=
  ⟨fun _ => "", { date := now, datePickerMode := .dateAndTime, isHidden := true }, none⟩

def showDate (vc : ChooseDateVC) : ChooseDateVC := (vc.setMode .date).setText .changeDateField .dayMonthYear

def showTime (vc : ChooseDateVC) : ChooseDateVC :=
  ((vc.setMode .time).setText .changeStartTimeField .hourMinute).setText .changeFinishTimeField .hourMinute

/-- `now` is the value a new picker has. -/
def viewDidLoad (now : Date) : ChooseDateVC := (setupUI now).showDate.showTime

/-- The picker appears, and UIKit makes the touched field the first responder. -/
def edit (vc : ChooseDateVC) (field : Field) : ChooseDateVC :=
  { vc with datePicker := { vc.datePicker with isHidden := false }, firstResponder := some field }

def showDatePiker (vc : ChooseDateVC) : ChooseDateVC := vc.setMode .date

def showStartPicker (vc : ChooseDateVC) : ChooseDateVC := vc.setMode .time

def showFinishPicker (vc : ChooseDateVC) : ChooseDateVC := vc.setMode .time

def tapOnText (vc : ChooseDateVC) : ChooseDateVC := vc.showDatePiker.edit .changeDateField

def tapOnStartTimeField (vc : ChooseDateVC) : ChooseDateVC := vc.showStartPicker.edit .changeStartTimeField

def tapOnFinishField (vc : ChooseDateVC) : ChooseDateVC := vc.showFinishPicker.edit .changeFinishTimeField

def endEditing (vc : ChooseDateVC) : ChooseDateVC :=
  { vc with datePicker := { vc.datePicker with isHidden := true }, firstResponder := none }

def doneDateButton (vc : ChooseDateVC) : ChooseDateVC := (vc.setText .changeDateField .dayMonthYear).endEditing

def doneStartTime (vc : ChooseDateVC) : ChooseDateVC :=
  (vc.setText .changeStartTimeField .hourMinute).endEditing

def DoneFinishTime (vc : ChooseDateVC) : ChooseDateVC :=
  (vc.setText .changeFinishTimeField .hourMinute).endEditing

def cancelDateButton (vc : ChooseDateVC) : ChooseDateVC := vc.endEditing

def cancelStartTime (vc : ChooseDateVC) : ChooseDateVC := vc.endEditing

def CancelFinishTime (vc : ChooseDateVC) : ChooseDateVC := vc.endEditing

def scroll (vc : ChooseDateVC) (value : Date) : ChooseDateVC :=
  { vc with datePicker :=
      { vc.datePicker with date := vc.datePicker.datePickerMode.replace vc.datePicker.date value } }

def step (vc : ChooseDateVC) : ChooseDateEvent → ChooseDateVC
  | .touch .changeDateField => vc.tapOnText
  | .touch .changeStartTimeField => vc.tapOnStartTimeField
  | .touch .changeFinishTimeField => vc.tapOnFinishField
  -- a hidden picker receives no touch
  | .scroll value => if vc.datePicker.isHidden then vc else vc.scroll value
  | .done =>
    match vc.firstResponder with
    | none => vc
    | some .changeDateField => vc.doneDateButton
    | some .changeStartTimeField => vc.doneStartTime
    | some .changeFinishTimeField => vc.DoneFinishTime
  | .cancel =>
    match vc.firstResponder with
    | none => vc
    | some .changeDateField => vc.cancelDateButton
    | some .changeStartTimeField => vc.cancelStartTime
    | some .changeFinishTimeField => vc.CancelFinishTime

end ChooseDateVC

def timeForm : Machine ChooseDateVC ChooseDateEvent Empty := ⟨fun vc e => (vc.step e, [])⟩

def Field.datePickerMode : Field → DatePickerMode
  | changeDateField => .date
  | changeStartTimeField => .time
  | changeFinishTimeField => .time

def Field.dateFormat : Field → DateFormat
  | changeDateField => .dayMonthYear
  | changeStartTimeField => .hourMinute
  | changeFinishTimeField => .hourMinute

theorem DateFormat.string_replace {field : Field} {d v : Date}
    (h : field.dateFormat.string v = field.dateFormat.string d) (format : DateFormat) :
    format.string (field.datePickerMode.replace d v) = format.string d := by
  cases field <;> cases format <;> first | exact h | rfl

@[simp] theorem DateFormat.string_replace_field (field : Field) (d v : Date) :
    field.dateFormat.string (field.datePickerMode.replace d v) = field.dateFormat.string v := by
  cases field <;> rfl

theorem DateFormat.exists_string_ne (format : DateFormat) (t : String) :
    ∃ date : Date, format.string date ≠ t := by
  have hnow : ∃ d₁ d₂ : Date, format.string d₁ ≠ format.string d₂ := by
    refine ⟨⟨⟨2021, 10, 23, by decide, by decide⟩, ⟨9, 0, 0⟩⟩,
      ⟨⟨2021, 10, 24, by decide, by decide⟩, ⟨10, 0, 0⟩⟩, ?_⟩
    cases format <;> decide
  obtain ⟨d₁, d₂, hne⟩ := hnow
  by_cases h : format.string d₁ = t
  · exact ⟨d₂, fun h' => hne (h.trans h'.symm)⟩
  · exact ⟨d₁, h⟩

end Reservation
