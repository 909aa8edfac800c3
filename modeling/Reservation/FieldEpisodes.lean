import Reservation.ChooseDate

/-! Opening a field of the time form and closing it again without a new value,
compared with never having touched the field. -/

namespace Reservation

namespace ChooseDateVC

theorem step_touch (vc : ChooseDateVC) (field : Field) :
    vc.step (.touch field) = (vc.setMode field.datePickerMode).edit field := by
  cases field <;> rfl

theorem step_done_none {vc : ChooseDateVC} (h : vc.firstResponder = none) : vc.step .done = vc := by
  simp [step, h]

theorem step_done_some {vc : ChooseDateVC} {field : Field} (h : vc.firstResponder = some field) :
    vc.step .done = (vc.setText field field.dateFormat).endEditing := by
  cases field <;> simp [step, h] <;> rfl

theorem step_cancel_none {vc : ChooseDateVC} (h : vc.firstResponder = none) :
    vc.step .cancel = vc := by
  simp [step, h]

theorem step_cancel_some {vc : ChooseDateVC} {field : Field} (h : vc.firstResponder = some field) :
    vc.step .cancel = vc.endEditing := by
  cases field <;> simp [step, h] <;> rfl

/-- The picker is on the screen exactly while a field is edited, in its mode. -/
def Consistent (vc : ChooseDateVC) : Prop :=
  match vc.firstResponder with
  | none => vc.datePicker.isHidden = true
  | some field => vc.datePicker.isHidden = false ∧ vc.datePicker.datePickerMode = field.datePickerMode

theorem Consistent.closed {vc : ChooseDateVC} (h : vc.Consistent) (hclosed : vc.firstResponder = none) :
    vc.datePicker.isHidden = true := by
  simpa only [Consistent, hclosed] using h

theorem Consistent.opened {vc : ChooseDateVC} (h : vc.Consistent) {field : Field}
    (hopen : vc.firstResponder = some field) :
    vc.datePicker.isHidden = false ∧ vc.datePicker.datePickerMode = field.datePickerMode := by
  simpa only [Consistent, hopen] using h

theorem Consistent.step {vc : ChooseDateVC} (h : vc.Consistent) (e : ChooseDateEvent) :
    (vc.step e).Consistent := by
  cases e with
  | touch field =>
    rw [step_touch]
    exact ⟨rfl, rfl⟩
  | scroll value =>
    by_cases hhidden : vc.datePicker.isHidden = true
    · simpa [ChooseDateVC.step, hhidden] using h
    · simpa [ChooseDateVC.step, hhidden, Consistent, ChooseDateVC.scroll] using h
  | done =>
    cases hfirst : vc.firstResponder with
    | none =>
      rw [step_done_none hfirst]
      exact h
    | some field =>
      rw [step_done_some hfirst]
      rfl
  | cancel =>
    cases hfirst : vc.firstResponder with
    | none =>
      rw [step_cancel_none hfirst]
      exact h
    | some field =>
      rw [step_cancel_some hfirst]
      rfl

end ChooseDateVC

theorem timeForm_consistent (now : Date) (es : List ChooseDateEvent) :
    (timeForm.run (.viewDidLoad now) es).Consistent := by
  have hloaded : (ChooseDateVC.viewDidLoad now).Consistent := rfl
  exact timeForm.run_invariant (P := fun _ vc => vc.Consistent) hloaded (fun _ e h => h.step e) es

/-- What no later event can tell apart: the values of the two pickers may differ
as long as both formats show the same, and their modes while they are hidden. -/
structure SameForm (s t : ChooseDateVC) : Prop where
  text : s.text = t.text
  firstResponder : s.firstResponder = t.firstResponder
  isHidden : s.datePicker.isHidden = t.datePicker.isHidden
  mode : s.datePicker.isHidden = false → s.datePicker.datePickerMode = t.datePicker.datePickerMode
  string : ∀ format : DateFormat, format.string s.datePicker.date = format.string t.datePicker.date

theorem DateFormat.string_congr_replace {d d' : Date}
    (h : ∀ format : DateFormat, format.string d = format.string d') (mode : DatePickerMode) (value : Date)
    (format : DateFormat) :
    format.string (mode.replace d value) = format.string (mode.replace d' value) := by
  have hformat := h format
  cases mode <;> cases format <;> first | rfl | exact hformat

theorem SameForm.endEditing {s t : ChooseDateVC} (htext : s.text = t.text)
    (hstring : ∀ format : DateFormat,
      format.string s.datePicker.date = format.string t.datePicker.date) :
    SameForm s.endEditing t.endEditing :=
  ⟨htext, rfl, rfl, fun hvisible => Bool.noConfusion hvisible, hstring⟩

theorem SameForm.step {s t : ChooseDateVC} (h : SameForm s t) (e : ChooseDateEvent) :
    SameForm (s.step e) (t.step e) := by
  cases e with
  | touch field =>
    rw [ChooseDateVC.step_touch, ChooseDateVC.step_touch]
    exact ⟨h.text, rfl, rfl, fun _ => rfl, h.string⟩
  | scroll value =>
    by_cases hhidden : s.datePicker.isHidden = true
    · have hhidden' : t.datePicker.isHidden = true := h.isHidden ▸ hhidden
      simpa [ChooseDateVC.step, hhidden, hhidden'] using h
    · have hs : s.datePicker.isHidden = false := Bool.eq_false_iff.mpr hhidden
      have ht : t.datePicker.isHidden = false := h.isHidden ▸ hs
      simp only [ChooseDateVC.step, hs, ht, Bool.false_eq_true, if_false]
      refine ⟨h.text, h.firstResponder, h.isHidden, h.mode, fun format => ?_⟩
      simp only [ChooseDateVC.scroll, h.mode hs]
      exact DateFormat.string_congr_replace h.string _ value format
  | done =>
    cases hfirst : s.firstResponder with
    | none =>
      have hfirst' : t.firstResponder = none := h.firstResponder ▸ hfirst
      rw [ChooseDateVC.step_done_none hfirst, ChooseDateVC.step_done_none hfirst']
      exact h
    | some field =>
      have hfirst' : t.firstResponder = some field := h.firstResponder ▸ hfirst
      rw [ChooseDateVC.step_done_some hfirst, ChooseDateVC.step_done_some hfirst']
      have htext : (s.setText field field.dateFormat).text = (t.setText field field.dateFormat).text := by
        simp only [ChooseDateVC.setText, h.text, h.string]
      exact .endEditing htext h.string
  | cancel =>
    cases hfirst : s.firstResponder with
    | none =>
      have hfirst' : t.firstResponder = none := h.firstResponder ▸ hfirst
      rw [ChooseDateVC.step_cancel_none hfirst, ChooseDateVC.step_cancel_none hfirst']
      exact h
    | some field =>
      have hfirst' : t.firstResponder = some field := h.firstResponder ▸ hfirst
      rw [ChooseDateVC.step_cancel_some hfirst, ChooseDateVC.step_cancel_some hfirst']
      exact .endEditing h.text h.string

theorem SameForm.run {s t : ChooseDateVC} (h : SameForm s t) (es : List ChooseDateEvent) :
    SameForm (timeForm.run s es) (timeForm.run t es) :=
  timeForm.run_related (fun _ _ e hst => hst.step e) h es

def cancelled (field : Field) (scrolls : List Date) : List ChooseDateEvent :=
  .touch field :: scrolls.map .scroll ++ [.cancel]

def accepted (field : Field) : List ChooseDateEvent := [.touch field, .done]

def NoOp (vc : ChooseDateVC) (episode : List ChooseDateEvent) : Prop :=
  ∀ later, (timeForm.run vc (episode ++ later)).text = (timeForm.run vc later).text

theorem SameForm.noOp {vc : ChooseDateVC} {episode : List ChooseDateEvent}
    (h : SameForm (timeForm.run vc episode) vc) : NoOp vc episode := by
  intro later
  rw [Machine.run_append]
  exact (h.run later).text

theorem run_scrolls {vc : ChooseDateVC} (hvisible : vc.datePicker.isHidden = false) (scrolls : List Date) :
    timeForm.run vc (scrolls.map .scroll) = vc.scroll (scrolls.getLastD vc.datePicker.date) := by
  induction scrolls using List.reverseRecOn with
  | nil => simp [ChooseDateVC.scroll]
  | append_singleton scrolls value ih =>
    rw [List.map_append, List.map_singleton, Machine.run_snoc, ih]
    simp [timeForm, ChooseDateVC.step, ChooseDateVC.scroll, hvisible]

theorem run_cancelled (vc : ChooseDateVC) (field : Field) (scrolls : List Date) :
    timeForm.run vc (cancelled field scrolls) =
      { text := vc.text
        datePicker :=
          { date := field.datePickerMode.replace vc.datePicker.date (scrolls.getLastD vc.datePicker.date)
            datePickerMode := field.datePickerMode
            isHidden := true }
        firstResponder := none } := by
  have htouch : timeForm.run vc (cancelled field scrolls) =
      (timeForm.run ((vc.setMode field.datePickerMode).edit field) (scrolls.map .scroll)).step .cancel := by
    rw [cancelled, Machine.run_snoc, ← ChooseDateVC.step_touch]
    rfl
  rw [htouch, run_scrolls rfl, @ChooseDateVC.step_cancel_some _ field rfl]
  rfl

theorem run_accepted (vc : ChooseDateVC) (field : Field) :
    timeForm.run vc (accepted field) =
      { text := Function.update vc.text field (field.dateFormat.string vc.datePicker.date)
        datePicker :=
          { date := vc.datePicker.date
            datePickerMode := field.datePickerMode
            isHidden := true }
        firstResponder := none } := by
  have htouch : timeForm.run vc (accepted field) =
      ((vc.setMode field.datePickerMode).edit field).step .done := by
    rw [← ChooseDateVC.step_touch]
    rfl
  rw [htouch, @ChooseDateVC.step_done_some _ field rfl]
  rfl

/-- While a field is being edited its text can still be changed, by events that
do nothing to a form with no field open. -/
theorem exists_later_text_ne {vc : ChooseDateVC} (hvc : vc.Consistent) {field : Field}
    (hopen : vc.firstResponder = some field) (t : String) :
    ∃ later, (timeForm.run vc later).text field ≠ t ∧
      ∀ s : ChooseDateVC, s.firstResponder = none → s.datePicker.isHidden = true →
        timeForm.run s later = s := by
  obtain ⟨value, hne⟩ := field.dateFormat.exists_string_ne t
  obtain ⟨hvisible, hmode⟩ := hvc.opened hopen
  refine ⟨[.scroll value, .done], ?_, ?_⟩
  · have hscroll : vc.step (.scroll value) = vc.scroll value := by simp [ChooseDateVC.step, hvisible]
    have hdone : (timeForm.run vc [.scroll value, .done]).text field =
        ((vc.step (.scroll value)).step .done).text field := rfl
    have hopen' : (vc.scroll value).firstResponder = some field := hopen
    rw [hdone, hscroll, ChooseDateVC.step_done_some hopen']
    simpa [ChooseDateVC.endEditing, ChooseDateVC.setText, ChooseDateVC.scroll, hmode] using hne
  · intro s hclosed hhidden
    have hscroll : s.step (.scroll value) = s := by simp [ChooseDateVC.step, hhidden]
    have hdone : timeForm.run s [.scroll value, .done] = (s.step (.scroll value)).step .done := rfl
    rw [hdone, hscroll, ChooseDateVC.step_done_none hclosed]

theorem NoOp.closed {vc : ChooseDateVC} (hvc : vc.Consistent) {episode : List ChooseDateEvent}
    (h : NoOp vc episode) (hclosed : (timeForm.run vc episode).firstResponder = none)
    (hhidden : (timeForm.run vc episode).datePicker.isHidden = true) : vc.firstResponder = none := by
  cases hfirst : vc.firstResponder with
  | none => rfl
  | some field =>
    obtain ⟨later, hne, hidle⟩ := exists_later_text_ne hvc hfirst ((timeForm.run vc episode).text field)
    have hsame := congrFun (h later) field
    rw [Machine.run_append, hidle _ hclosed hhidden] at hsame
    exact absurd hsame.symm hne

theorem cancelled_text (vc : ChooseDateVC) (field : Field) (scrolls : List Date) :
    (timeForm.run vc (cancelled field scrolls)).text = vc.text := by
  rw [run_cancelled]

theorem cancelled_noOp_iff {vc : ChooseDateVC} (hvc : vc.Consistent) (field : Field)
    (scrolls : List Date) :
    NoOp vc (cancelled field scrolls) ↔ vc.firstResponder = none ∧
      field.dateFormat.string (scrolls.getLastD vc.datePicker.date) =
        field.dateFormat.string vc.datePicker.date := by
  constructor
  · intro h
    have hclosed := h.closed hvc (by rw [run_cancelled]) (by rw [run_cancelled])
    refine ⟨hclosed, ?_⟩
    -- the field is touched once more and its value accepted
    have hsame := congrFun (h (accepted field)) field
    rw [Machine.run_append, run_accepted, run_accepted, run_cancelled] at hsame
    simpa using hsame
  · rintro ⟨hclosed, hstring⟩
    have hhidden := hvc.closed hclosed
    apply SameForm.noOp
    rw [run_cancelled]
    refine ⟨rfl, hclosed.symm, hhidden.symm, fun hvisible => Bool.noConfusion hvisible, ?_⟩
    exact DateFormat.string_replace hstring

theorem accepted_noOp_iff {vc : ChooseDateVC} (hvc : vc.Consistent) (field : Field) :
    NoOp vc (accepted field) ↔ vc.firstResponder = none ∧
      vc.text field = field.dateFormat.string vc.datePicker.date := by
  constructor
  · intro h
    refine ⟨h.closed hvc (by rw [run_accepted]) (by rw [run_accepted]), ?_⟩
    have hsame := congrFun (h []) field
    rw [List.append_nil, run_accepted, Machine.run_nil] at hsame
    simpa using hsame.symm
  · rintro ⟨hclosed, htext⟩
    have hhidden := hvc.closed hclosed
    apply SameForm.noOp
    rw [run_accepted, ← htext, Function.update_eq_self]
    exact ⟨rfl, hclosed.symm, hhidden.symm, fun hvisible => Bool.noConfusion hvisible, fun _ => rfl⟩

/-- What closing a field without a new value does to the form. -/
structure ClosesAsShown (vc : ChooseDateVC) (field : Field) : Prop where
  cancel_text : ∀ scrolls, (timeForm.run vc (cancelled field scrolls)).text = vc.text
  cancel_noOp : ∀ scrolls, NoOp vc (cancelled field scrolls) ↔ vc.firstResponder = none ∧
    field.dateFormat.string (scrolls.getLastD vc.datePicker.date) =
      field.dateFormat.string vc.datePicker.date
  done_text : (timeForm.run vc (accepted field)).text =
    Function.update vc.text field (field.dateFormat.string vc.datePicker.date)
  done_noOp : NoOp vc (accepted field) ↔ vc.firstResponder = none ∧
    vc.text field = field.dateFormat.string vc.datePicker.date

/-- The picker keeps what is scrolled for a field that is then cancelled, and
`Done` takes what the picker shows. So an episode leaves no trace exactly when
it starts with no field open and ends with the value the form already has. -/
theorem closes_as_shown (now : Date) (es : List ChooseDateEvent) (field : Field) :
    ClosesAsShown (timeForm.run (.viewDidLoad now) es) field := by
  have hvc := timeForm_consistent now es
  refine ⟨cancelled_text _ field, cancelled_noOp_iff hvc field, ?_, accepted_noOp_iff hvc field⟩
  rw [run_accepted]

def nine : Date := ⟨⟨2021, 10, 23, by decide, by decide⟩, ⟨9, 0, 0⟩⟩

def ten : Date := ⟨⟨2021, 10, 23, by decide, by decide⟩, ⟨10, 0, 0⟩⟩

/-- The start is scrolled to ten and cancelled, then the finish is accepted as
the picker shows it. -/
theorem cancelled_start_in_finish :
    ¬ ∀ (now : Date) (es : List ChooseDateEvent) (field : Field),
      (∀ scrolls, NoOp (timeForm.run (.viewDidLoad now) es) (cancelled field scrolls)) ∧
      NoOp (timeForm.run (.viewDidLoad now) es) (accepted field) := by
  intro h
  have hnoop := (h nine [] .changeStartTimeField).1 [ten] (accepted .changeFinishTimeField)
  exact absurd (congrFun hnoop .changeFinishTimeField) (by decide)

end Reservation
