import Reservation.FieldEpisodes
import Reservation.Decimal

/-! The time form as its user sees it: the value on the wheels, the field being
edited, and the values accepted with Done. A field shows the last of its own. -/

namespace Reservation

structure AcceptedValue where
  field : Field
  value : Date
  deriving DecidableEq

def AcceptedValue.of (field : Field) (accepted : AcceptedValue) : Option Date :=
  if accepted.field = field then some accepted.value else none

structure TimeForm where
  value : Date
  editing : Option Field
  deriving DecidableEq

namespace TimeForm

def loaded (now : Date) : TimeForm := ⟨now, none⟩

def step (form : TimeForm) : ChooseDateEvent → TimeForm × List AcceptedValue
  | .touch field => ({ form with editing := some field }, [])
  | .scroll value =>
    match form.editing with
    | none => (form, [])
    | some field => ({ form with value := field.datePickerMode.replace form.value value }, [])
  | .done =>
    match form.editing with
    | none => (form, [])
    | some field => ({ form with editing := none }, [⟨field, form.value⟩])
  | .cancel => ({ form with editing := none }, [])

end TimeForm

def timeFormLaw : Machine TimeForm ChooseDateEvent AcceptedValue := ⟨TimeForm.step⟩

/-- The value that the field has; `now` is the one of a new picker. -/
def acceptedDate (now : Date) (es : List ChooseDateEvent) (field : Field) : Date :=
  (timeFormLaw.lastOutput (.loaded now) (AcceptedValue.of field) es).getD now

structure ChooseDateVC.Obeys (vc : ChooseDateVC) (form : TimeForm) (accepted : Field → Date) : Prop where
  text : ∀ (field : Field), vc.text field = field.dateFormat.string (accepted field)
  date : vc.datePicker.date = form.value
  firstResponder : vc.firstResponder = form.editing
  consistent : vc.Consistent

namespace ChooseDateVC.Obeys

variable {vc : ChooseDateVC} {form : TimeForm} {accepted : Field → Date}

theorem accept (h : vc.Obeys form accepted) (field : Field) :
    ((vc.setText field field.dateFormat).endEditing).Obeys { form with editing := none }
      (Function.update accepted field form.value) := by
  refine ⟨fun other => ?_, h.date, rfl, rfl⟩
  by_cases hother : other = field
  · subst hother
    simp [setText, endEditing, h.date]
  · simp [setText, endEditing, hother, h.text]

theorem cancel (h : vc.Obeys form accepted) : vc.endEditing.Obeys { form with editing := none } accepted :=
  ⟨h.text, h.date, rfl, rfl⟩

/-- Done accepts a value for the field being edited, and nothing else does. -/
theorem step (h : vc.Obeys form accepted) (e : ChooseDateEvent) :
    (vc.step e).Obeys (form.step e).1 fun field =>
      (((form.step e).2.filterMap (AcceptedValue.of field)).getLast?).getD (accepted field) := by
  have hnext := h.consistent.step e
  cases e with
  | touch field =>
    rw [step_touch] at hnext ⊢
    exact ⟨h.text, h.date, rfl, hnext⟩
  | scroll value =>
    cases hfirst : vc.firstResponder with
    | none =>
      have hediting : form.editing = none := h.firstResponder ▸ hfirst
      have hhidden := h.consistent.closed hfirst
      simpa [ChooseDateVC.step, TimeForm.step, hhidden, hediting] using h
    | some field =>
      have hediting : form.editing = some field := h.firstResponder ▸ hfirst
      obtain ⟨hvisible, hmode⟩ := h.consistent.opened hfirst
      simp only [ChooseDateVC.step, TimeForm.step, hvisible, hediting, Bool.false_eq_true, if_false]
        at hnext ⊢
      refine ⟨h.text, ?_, h.firstResponder.trans hediting, hnext⟩
      simp only [scroll, hmode, h.date]
  | done =>
    cases hfirst : vc.firstResponder with
    | none =>
      have hediting : form.editing = none := h.firstResponder ▸ hfirst
      simpa [step_done_none hfirst, TimeForm.step, hediting] using h
    | some field =>
      have hediting : form.editing = some field := h.firstResponder ▸ hfirst
      have hlast (other : Field) : (([(⟨field, form.value⟩ : AcceptedValue)].filterMap
          (AcceptedValue.of other)).getLast?).getD (accepted other) =
            Function.update accepted field form.value other := by
        by_cases hother : field = other
        · subst hother
          simp [AcceptedValue.of]
        · simp [AcceptedValue.of, hother, Function.update_of_ne (Ne.symm hother)]
      simp only [step_done_some hfirst, TimeForm.step, hediting, hlast]
      exact h.accept field
  | cancel =>
    cases hfirst : vc.firstResponder with
    | none =>
      have hsame : { form with editing := none } = form := by rw [← hfirst, h.firstResponder]
      rw [step_cancel_none hfirst, TimeForm.step, hsame]
      exact h
    | some field =>
      rw [step_cancel_some hfirst]
      exact h.cancel

end ChooseDateVC.Obeys

theorem acceptedDate_snoc (now : Date) (es : List ChooseDateEvent) (e : ChooseDateEvent) (field : Field) :
    acceptedDate now (es ++ [e]) field =
      (((timeFormLaw.emit (.loaded now) es e).filterMap (AcceptedValue.of field)).getLast?).getD
        (acceptedDate now es field) := by
  rw [acceptedDate, Machine.lastOutput_snoc, acceptedDate]
  cases ((timeFormLaw.emit (.loaded now) es e).filterMap (AcceptedValue.of field)).getLast? <;> rfl

theorem timeForm_obeys (now : Date) (es : List ChooseDateEvent) :
    (timeForm.run (.viewDidLoad now) es).Obeys (timeFormLaw.run (.loaded now) es) (acceptedDate now es) := by
  induction es using List.reverseRecOn with
  | nil =>
    refine ⟨fun field => ?_, rfl, rfl, rfl⟩
    cases field <;> rfl
  | append_singleton es e ih =>
    rw [Machine.run_snoc, Machine.run_snoc, funext (acceptedDate_snoc now es e)]
    exact ih.step e

/-- The wheels were turned to this value while a field of this mode was edited. -/
def Scrolled (now : Date) (es : List ChooseDateEvent) (mode : DatePickerMode) (value : Date) : Prop :=
  ∃ past future field, es = past ++ .scroll value :: future ∧
    (timeForm.run (.viewDidLoad now) past).firstResponder = some field ∧ field.datePickerMode = mode

/-- The day of the value and its time each were scrolled, or are those of now. -/
structure Sourced (now : Date) (es : List ChooseDateEvent) (value : Date) : Prop where
  day : value.day = now.day ∨ ∃ scrolled, Scrolled now es .date scrolled ∧ value.day = scrolled.day
  time : value.time = now.time ∨ ∃ scrolled, Scrolled now es .time scrolled ∧ value.time = scrolled.time

section

variable {now : Date} {es : List ChooseDateEvent}

theorem Scrolled.snoc {mode : DatePickerMode} {value : Date} (h : Scrolled now es mode value)
    (e : ChooseDateEvent) : Scrolled now (es ++ [e]) mode value := by
  obtain ⟨past, future, field, rfl, hfield⟩ := h
  exact ⟨past, future ++ [e], field, by simp, hfield⟩

theorem Sourced.snoc {value : Date} (h : Sourced now es value) (e : ChooseDateEvent) :
    Sourced now (es ++ [e]) value := by
  constructor
  · rcases h.day with hnow | ⟨scrolled, hscrolled, hday⟩
    · exact .inl hnow
    · exact .inr ⟨scrolled, hscrolled.snoc e, hday⟩
  · rcases h.time with hnow | ⟨scrolled, hscrolled, htime⟩
    · exact .inl hnow
    · exact .inr ⟨scrolled, hscrolled.snoc e, htime⟩

/-- The wheels of a field replace the part of the value that it is about. -/
theorem Sourced.replace {old value : Date} (h : Sourced now es old) {field : Field}
    (hfield : (timeForm.run (.viewDidLoad now) es).firstResponder = some field) :
    Sourced now (es ++ [.scroll value]) (field.datePickerMode.replace old value) := by
  have hscrolled : Scrolled now (es ++ [.scroll value]) field.datePickerMode value :=
    ⟨es, [], field, rfl, hfield, rfl⟩
  have hold := h.snoc (.scroll value)
  cases field with
  | changeDateField => exact ⟨.inr ⟨value, hscrolled, rfl⟩, hold.time⟩
  | changeStartTimeField => exact ⟨hold.day, .inr ⟨value, hscrolled, rfl⟩⟩
  | changeFinishTimeField => exact ⟨hold.day, .inr ⟨value, hscrolled, rfl⟩⟩

end

theorem padded_injective {width n m : Nat} (h : padded width n = padded width m) : n = m := by
  have hvalue (k : Nat) : Nat.ofDigitChars 10 (padded width k) 0 = k := by
    rw [padded, List.leftpad, Nat.ofDigitChars_append, Nat.ofDigitChars_replicate_zero, Nat.mul_zero,
      Nat.ofDigitChars_ten_toDigits]
  rw [← hvalue n, h, hvalue]

theorem padded_length {n : Nat} (h : n < 100) : (padded 2 n).length = 2 := by
  have hdigits : (Nat.toDigits 10 n).length ≤ 2 := (Nat.length_toDigits_le_iff (by decide) (by decide)).mpr h
  rw [padded, List.length_leftpad]
  omega

theorem Day.month_lt (d : Day) : d.month < 100 := by
  have hmonth := d.month_le.2
  omega

theorem Day.day_lt (d : Day) : d.day < 100 := by
  have hday := d.day_le.2
  have hdays : daysIn d.year d.month ≤ 31 := by
    rw [daysIn]
    split
    · split <;> omega
    · split <;> omega
  omega

/-- Two values agree in what the format writes. -/
def DateFormat.Same : DateFormat → Date → Date → Prop
  | dayMonthYear, d, d' => d.day = d'.day
  | hourMinute, d, d' => d.time.hour = d'.time.hour ∧ d.time.minute = d'.time.minute

theorem DateFormat.string_eq_iff (format : DateFormat) (d d' : Date) :
    format.string d = format.string d' ↔ format.Same d d' := by
  cases format with
  | dayMonthYear =>
    simp only [DateFormat.string, String.ofList_inj, Same, List.append_assoc, List.cons_append]
    constructor
    · intro h
      have hlength : (padded 2 d.day.day).length = (padded 2 d'.day.day).length := by
        rw [padded_length d.day.day_lt, padded_length d'.day.day_lt]
      obtain ⟨hday, hrest⟩ := List.append_inj h hlength
      have hlength' : (padded 2 d.day.month).length = (padded 2 d'.day.month).length := by
        rw [padded_length d.day.month_lt, padded_length d'.day.month_lt]
      obtain ⟨hmonth, hrest'⟩ := List.append_inj (List.cons.inj hrest).2 hlength'
      have hyear := padded_injective (List.cons.inj hrest').2
      obtain ⟨⟨_, _, _, _, _⟩, _⟩ := d
      obtain ⟨⟨_, _, _, _, _⟩, _⟩ := d'
      simp only [Day.mk.injEq]
      exact ⟨hyear, padded_injective hmonth, padded_injective hday⟩
    · intro h
      rw [h]
  | hourMinute =>
    simp only [DateFormat.string, String.ofList_inj, Same]
    constructor
    · intro h
      have hlength : (padded 2 d.time.hour).length = (padded 2 d'.time.hour).length := by
        rw [padded_length (by omega), padded_length (by omega)]
      obtain ⟨hhour, hrest⟩ := List.append_inj h hlength
      have hminute := padded_injective (List.cons.inj hrest).2
      exact ⟨Fin.ext (padded_injective hhour), Fin.ext hminute⟩
    · rintro ⟨hhour, hminute⟩
      rw [hhour, hminute]

/-- Two forms show the same texts exactly when their fields have the same day and
the same two times of day, up to the seconds. -/
theorem same_texts_iff (now now' : Date) (es es' : List ChooseDateEvent) :
    (timeForm.run (.viewDidLoad now) es).text = (timeForm.run (.viewDidLoad now') es').text ↔
      (acceptedDate now es .changeDateField).day = (acceptedDate now' es' .changeDateField).day ∧
        ∀ field, field ≠ .changeDateField →
          (acceptedDate now es field).time.hour = (acceptedDate now' es' field).time.hour ∧
            (acceptedDate now es field).time.minute = (acceptedDate now' es' field).time.minute := by
  have htext := (timeForm_obeys now es).text
  have htext' := (timeForm_obeys now' es').text
  have hfield (field : Field) : (timeForm.run (.viewDidLoad now) es).text field =
      (timeForm.run (.viewDidLoad now') es').text field ↔
        field.dateFormat.Same (acceptedDate now es field) (acceptedDate now' es' field) := by
    rw [htext, htext', DateFormat.string_eq_iff]
  rw [funext_iff]
  simp only [hfield]
  constructor
  · intro h
    refine ⟨h .changeDateField, fun field hfield => ?_⟩
    cases field with
    | changeDateField => exact absurd rfl hfield
    | changeStartTimeField => exact h .changeStartTimeField
    | changeFinishTimeField => exact h .changeFinishTimeField
  · rintro ⟨hday, htimes⟩ field
    cases field with
    | changeDateField => exact hday
    | changeStartTimeField => exact htimes .changeStartTimeField (by decide)
    | changeFinishTimeField => exact htimes .changeFinishTimeField (by decide)

/-- What to do for a field to show a value. -/
def enter (field : Field) (value : Date) : List ChooseDateEvent := [.touch field, .scroll value, .done]

theorem acceptedDate_enter (now : Date) (es : List ChooseDateEvent) (field : Field) (value : Date) :
    acceptedDate now (es ++ enter field value) = Function.update (acceptedDate now es) field
      (field.datePickerMode.replace (timeFormLaw.run (.loaded now) es).value value) := by
  funext other
  have houtputs : timeFormLaw.outputs (timeFormLaw.run (.loaded now) es) (enter field value) =
      [⟨field, field.datePickerMode.replace (timeFormLaw.run (.loaded now) es).value value⟩] := rfl
  rw [acceptedDate, Machine.lastOutput, Machine.outputs_append, houtputs]
  by_cases hother : field = other
  · subst hother
    simp [AcceptedValue.of]
  · simp [AcceptedValue.of, hother, Function.update_of_ne (Ne.symm hother), acceptedDate, Machine.lastOutput]

/-- Whatever it shows now, the form can be brought to show any day and any two
times, in particular a finish before the start, and it can show nothing else. -/
theorem texts_reachable_iff (now : Date) (es : List ChooseDateEvent) (text : Field → String) :
    (∃ es', (timeForm.run (.viewDidLoad now) (es ++ es')).text = text) ↔
      ∃ value : Field → Date, ∀ field, text field = field.dateFormat.string (value field) := by
  constructor
  · rintro ⟨es', rfl⟩
    exact ⟨acceptedDate now (es ++ es'), (timeForm_obeys now (es ++ es')).text⟩
  · rintro ⟨value, hvalue⟩
    refine ⟨enter .changeDateField (value .changeDateField) ++
      enter .changeStartTimeField (value .changeStartTimeField) ++
      enter .changeFinishTimeField (value .changeFinishTimeField), funext fun field => ?_⟩
    rw [(timeForm_obeys now _).text, hvalue field, ← List.append_assoc, ← List.append_assoc,
      acceptedDate_enter, acceptedDate_enter, acceptedDate_enter]
    cases field <;> simp [Function.update_of_ne]

end Reservation
