import Reservation.TableDownloads

/-! Whether the booking form can still be reached. The way to it starts with a
sign-in, and after the third alert there is none any more; whoever is past the
login screen by then can go on as far as the tables allow. -/

namespace Reservation

/-- From this controller there is a way on: it is the form, or its download may
still bring a record to go on with, or has brought one. -/
def TableApp.Leads (s : TableApp) (c : Nat) (vc : ViewController) : Prop :=
  match vc.screen with
  | .authorizationViewController => False
  | .officeChoiceController => s.ended c = false ∨ s.officeChoice c ≠ []
  | .roomsViewController => s.ended c = false ∨ vc.HasAvailable
  | .workPlaceViewController => s.ended c = false ∨ vc.HasAvailable
  | .chooseDateVC => True

namespace TableApp

/-- After the third alert, with nothing on the stack that leads on. -/
structure Locked (s : TableApp) : Prop where
  subscription : s.app.login.authResult.subscription = none
  stuck : ∀ c ∈ s.app.viewControllers, ∀ (vc : ViewController), s.app.controllers[c]? = some vc → ¬ s.Leads c vc

theorem leads_of_hasAvailable {s : TableApp} {c : Nat} {vc : ViewController} (h : vc.HasAvailable) :
    s.Leads c vc := by
  have hlist := h
  rw [ViewController.HasAvailable] at hlist
  rw [Leads]
  cases hscreen : vc.screen with
  | roomsViewController => exact .inr h
  | workPlaceViewController => exact .inr h
  | _ => simp [hscreen] at hlist

theorem Leads.congr {s s' : TableApp} {c : Nat} {vc vc' : ViewController}
    (hended : s'.ended c = false → s.ended c = false) (hchoice : s'.officeChoice c = s.officeChoice c)
    (hscreen : vc'.screen = vc.screen) (hlists : vc'.rooms = vc.rooms ∧ vc'.workplaces = vc.workplaces)
    (h : s'.Leads c vc') : s.Leads c vc := by
  have havailable : vc'.HasAvailable → vc.HasAvailable :=
    .congr hscreen.symm hlists.1.symm hlists.2.symm
  rw [Leads] at h ⊢
  rw [hscreen] at h
  cases hvc : vc.screen with
  | authorizationViewController => simp [hvc] at h
  | officeChoiceController =>
    simp only [hvc, hchoice] at h
    exact h.imp_left hended
  | roomsViewController =>
    simp only [hvc] at h
    exact h.imp hended havailable
  | workPlaceViewController =>
    simp only [hvc] at h
    exact h.imp hended havailable
  | chooseDateVC => trivial

/-- A list changes the controller of its table only. -/
theorem passes_frame (app : BookingApp) (c : Nat) (download : Download) :
    (booking.run app (download.passes c)).login = app.login ∧
      (booking.run app (download.passes c)).viewControllers = app.viewControllers ∧
      ∀ d ≠ c, (booking.run app (download.passes c)).controllers[d]? = app.controllers[d]? := by
  have hmodify (f : ViewController → ViewController) : (app.modify c f).1.login = app.login ∧
      (app.modify c f).1.viewControllers = app.viewControllers ∧
      ∀ d ≠ c, (app.modify c f).1.controllers[d]? = app.controllers[d]? := by
    rw [BookingApp.modify]
    split
    · exact ⟨rfl, rfl, fun _ _ => rfl⟩
    · exact ⟨rfl, rfl, fun d hd => List.getElem?_set_ne hd.symm⟩
  cases download with
  | requestOffice offices => exact ⟨rfl, rfl, fun _ _ => rfl⟩
  | requestRooms rooms => exact hmodify (ViewController.requestRooms rooms)
  | serviceWorkplace workplaces => exact hmodify (ViewController.serviceWorkplace workplaces)

namespace Locked

variable {s : TableApp}

theorem congr (h : s.Locked) {app : BookingApp} (hlogin : app.login.authResult.subscription = none)
    (hstack : app.viewControllers ⊆ s.app.viewControllers) (hcontrollers : app.controllers = s.app.controllers) :
    ({ s with app := app } : TableApp).Locked := by
  refine ⟨hlogin, fun c hc vc hvc hleads => ?_⟩
  rw [hcontrollers] at hvc
  exact h.stuck c (hstack hc) vc hvc hleads

theorem set (h : s.Locked) {d : Nat} {wc wc' : ViewController} (hwc : s.app.controllers[d]? = some wc)
    (hscreen : wc'.screen = wc.screen) (hlists : wc'.rooms = wc.rooms ∧ wc'.workplaces = wc.workplaces) :
    ({ s with app := { s.app with controllers := s.app.controllers.set d wc' } } : TableApp).Locked := by
  refine ⟨h.subscription, fun c hc vc hvc hleads => ?_⟩
  by_cases hd : c = d
  · subst hd
    rw [List.getElem?_set_self', hwc] at hvc
    obtain rfl : wc' = vc := Option.some.inj hvc
    exact h.stuck c hc wc hwc (hleads.congr id rfl hscreen hlists)
  · rw [List.getElem?_set_ne (Ne.symm hd)] at hvc
    exact h.stuck c hc vc hvc hleads

theorem screen (h : s.Locked) (hsound : s.Sound) {e : BookingEvent} (he : e.isScreen = true) :
    ({ s with app := (s.app.step e).1 } : TableApp).Locked := by
  have hstep := s.app.step_cases e
  generalize s.app.step e = next at hstep ⊢
  cases hstep with
  | idle => exact h
  | @login event login _ _ hstep _ =>
    have hended := AuthorizationViewController.step_ended h.subscription event
    rw [hstep] at hended
    exact h.congr hended.1 (List.Subset.refl _) rfl
  | pushView _ hl _ =>
    obtain ⟨a, ha, _⟩ := AuthorizationViewController.isListening_iff.mp hl
    simp [h.subscription] at ha
  | didSelectRow _ _ => cases he
  | extend _ hwc hextends hlists =>
    exact h.set hwc hextends.screen (hlists (BookingEvent.isDownload_of_isScreen he))
  | configure hwc _ => exact h.set hwc rfl ⟨rfl, rfl⟩
  | @touchDetails c k vc cell callback htop hcell hvisible hcallback =>
    obtain ⟨hlast, hvc⟩ := BookingApp.topViewController_eq_some.mp htop
    have hclosure : cell.buttonCallback ≠ none := by simp [hcallback]
    have havailable := (hsound.filled c vc hvc).cells cell (List.mem_of_getElem? hcell) hclosure hvisible
    exact absurd (leads_of_hasAvailable havailable) (h.stuck c (List.mem_of_getLast? hlast) vc hvc)
  | back _ => exact h.congr h.subscription (List.dropLast_subset _) rfl

theorem not_awaits (h : s.Locked) {c : Nat} (hc : c ∈ s.app.viewControllers) {download : Download} :
    ¬ s.Awaits c download := by
  rintro ⟨hended, hscreen⟩
  obtain ⟨vc, hvc, hkind⟩ := Option.map_eq_some_iff.mp hscreen
  refine h.stuck c hc vc hvc ?_
  rw [Leads, hkind]
  cases download <;> exact .inl hended

theorem step (h : s.Locked) (hsound : s.Sound) (e : TableEvent) : (s.step e).1.Locked := by
  cases e with
  | screen event =>
    by_cases hscreen : event.isScreen = true
    · simp only [TableApp.step, passes, if_pos hscreen]
      exact h.screen hsound hscreen
    · simp only [TableApp.step, passes, if_neg hscreen]
      exact h
  | didSelectRow row =>
    cases htop : s.app.topViewController with
    | none =>
      simp only [TableApp.step, passes, htop]
      exact h
    | some top =>
      obtain ⟨c, vc⟩ := top
      obtain ⟨hlast, hvc⟩ := BookingApp.topViewController_eq_some.mp htop
      by_cases hrow : row < (s.officeChoice c).length
      · have hother : vc.screen ≠ .officeChoiceController := by
          intro hscreen
          refine h.stuck c (List.mem_of_getLast? hlast) vc hvc ?_
          rw [Leads, hscreen]
          exact .inr (List.length_pos_iff.mp (Nat.zero_lt_of_lt hrow))
        have hselect : (s.app.step .didSelectRow).1 = s.app := by
          simp only [BookingApp.step, BookingApp.didSelectRow, htop, if_neg hother]
        simp only [TableApp.step, passes, htop, if_pos hrow]
        change ({ s with app := (s.app.step .didSelectRow).1 } : TableApp).Locked
        rw [hselect]
        exact h
      · simp only [TableApp.step, passes, htop, if_neg hrow]
        exact h
  | downloaded c download =>
    by_cases hawaits : s.Awaits c download
    · have haway : c ∉ s.app.viewControllers := fun hc => h.not_awaits hc hawaits
      obtain ⟨hlogin, hstack, hothers⟩ := passes_frame s.app c download
      simp only [TableApp.step, take, passes, if_pos hawaits]
      refine ⟨hlogin ▸ h.subscription, fun d hd vc hvc hleads => ?_⟩
      rw [hstack] at hd
      have hne : d ≠ c := by
        rintro rfl
        exact haway hd
      rw [hothers d hne] at hvc
      refine h.stuck d hd vc hvc (hleads.congr ?_ ?_ rfl ⟨rfl, rfl⟩)
      · simp [Function.update_of_ne hne]
      · simp [Function.update_of_ne hne]
    · simp only [TableApp.step, take, passes, if_neg hawaits]
      exact h
  | failed c =>
    rw [TableApp.step, take]
    split
    · refine ⟨h.subscription, fun d hd vc hvc hleads => ?_⟩
      refine h.stuck d hd vc hvc (@Leads.congr s { s with ended := Function.update s.ended c true } d vc vc
        (fun hended => ?_) rfl rfl ⟨rfl, rfl⟩ hleads)
      by_cases hdc : d = c
      · subst hdc
        simp at hended
      · simpa [Function.update_of_ne hdc] using hended
    · exact h

end Locked

end TableApp

theorem tables_locked {email password : Text} {past : List TableEvent}
    (h : (tables.run (.launch email password) past).Locked) (more : List TableEvent) :
    (tables.run (.launch email password) (past ++ more)).Locked := by
  induction more using List.reverseRecOn with
  | nil => rwa [List.append_nil]
  | append_singleton more e ih =>
    rw [← List.append_assoc, Machine.run_snoc]
    exact ih.step (tables_sound email password _) e

/-- Back to a controller of the stack. -/
theorem BookingApp.pop_to {app : BookingApp} {c : Nat} (hc : c ∈ app.viewControllers) :
    ∃ (n : Nat) (stack : List Nat), stack.getLast? = some c ∧
      booking.run app (List.replicate n .back) = { app with viewControllers := stack } := by
  obtain ⟨below, above, hstack⟩ := List.append_of_mem hc
  clear hc
  induction above using List.reverseRecOn generalizing app with
  | nil => exact ⟨0, app.viewControllers, by simp [hstack], rfl⟩
  | append_singleton above d ih =>
    have hpop : (app.step .back).1 = { app with viewControllers := below ++ c :: above } := by
      have hdrop : (below ++ c :: (above ++ [d])).dropLast = below ++ c :: above := by
        rw [← List.cons_append, ← List.append_assoc, List.dropLast_concat]
      change app.popViewController = _
      rw [popViewController, if_pos (by simp [hstack]; omega), hstack, hdrop]
    obtain ⟨n, stack, hlast, hrun⟩ := @ih { app with viewControllers := below ++ c :: above } rfl
    refine ⟨n + 1, stack, hlast, ?_⟩
    rw [List.replicate_succ]
    change booking.run (app.step .back).1 (List.replicate n .back) = _
    rw [hpop, hrun]

namespace TableApp

variable {s : TableApp} {c : Nat} {vc : ViewController}

/-- From here the form can be reached. -/
def Reaches (s : TableApp) : Prop := ∃ more, (tables.run s more).app.onForm

theorem Reaches.of_run {more : List TableEvent} (h : (tables.run s more).Reaches) : s.Reaches := by
  obtain ⟨later, hform⟩ := h
  exact ⟨more ++ later, by rwa [Machine.run_append]⟩

theorem run_screen (s : TableApp) {es : List BookingEvent}
    (hes : ∀ e ∈ es, e.isScreen = true) :
    tables.run s (es.map .screen) = { s with app := booking.run s.app es } := by
  induction es generalizing s with
  | nil => rfl
  | cons e es ih =>
    obtain ⟨hscreen, hrest⟩ := List.forall_mem_cons.mp hes
    have hstep : (s.step (.screen e)).1 = { s with app := (s.app.step e).1 } := by
      simp only [step, passes, if_pos hscreen]
      rfl
    change tables.run (s.step (.screen e)).1 (es.map .screen) = _
    rw [hstep, ih _ hrest]
    rfl

theorem Reaches.of_screen {es : List BookingEvent} (hes : ∀ e ∈ es, e.isScreen = true)
    (h : ({ s with app := booking.run s.app es } : TableApp).Reaches) : s.Reaches := by
  rw [← run_screen s hes] at h
  exact h.of_run

theorem Sound.run (h : s.Sound) {es : List BookingEvent}
    (hes : ∀ e ∈ es, e.isScreen = true) :
    ({ s with app := booking.run s.app es } : TableApp).Sound := by
  rw [← run_screen s hes]
  exact tables.run_invariant (P := fun _ s => s.Sound) h (fun _ e h => step_sound h e) _

/-- A details button that shows is touched in a new cell. -/
theorem reaches_of_touch (hsound : s.Sound) (htop : s.app.topViewController = some (c, vc)) {new : DetailsCell}
    {row : Nat} {callback : ButtonCallback}
    (hdequeue : vc.dequeue = { vc with cells := vc.cells ++ [({} : DetailsCell)] })
    (hbind : vc.dequeue.bindViewModel c row {} = some (new, true)) (hhidden : new.isHidden = false)
    (hcallback : new.buttonCallback = some callback) (hsource : callback.sourceVC = c)
    (hnext : ∀ (s' : TableApp) (d : Nat), s'.Sound → s'.ended d = false →
      s'.app.topViewController = some (d, { screen := callback.screen }) → s'.Reaches) : s.Reaches := by
  obtain ⟨d, hfresh, htop'⟩ := BookingApp.top_touchDetails htop hdequeue hbind hhidden hcallback hsource
  have hes : ∀ e ∈ ([.dequeue c, .configure c vc.cells.length row, .touchDetails vc.cells.length] :
      List BookingEvent), e.isScreen = true := by
    simp [BookingEvent.isScreen, BookingEvent.isDownload]
  exact .of_screen hes (hnext _ d (hsound.run hes) (hsound.fresh d hfresh) htop')

theorem reaches_of_free_workplace (hsound : s.Sound) (htop : s.app.topViewController = some (c, vc))
    (hscreen : vc.screen = .workPlaceViewController) {workplace : WorkPlace}
    (hmem : workplace ∈ vc.workplaces) (hfree : workplace.isAvailable = true) : s.Reaches := by
  obtain ⟨row, hrow⟩ := List.getElem?_of_mem hmem
  have hdequeue : vc.dequeue = { vc with cells := vc.cells ++ [({} : DetailsCell)] } := by
    rw [ViewController.dequeue, if_pos (.inr hscreen)]
  have hbind : vc.dequeue.bindViewModel c row {} =
      some (⟨false, some (workplace.name ++ " " ++ workplace.number), some (.pushWorkplace c)⟩, true) := by
    rw [hdequeue, ViewController.bindViewModel, hscreen]
    simp [hrow, hfree, WorkPlaceTableViewCell.configure, DetailsCell.configure]
  refine reaches_of_touch hsound htop hdequeue hbind rfl rfl rfl fun s' d _ _ htop' => ⟨[], ?_⟩
  exact congrArg (Option.map fun top : Nat × ViewController => top.2.screen) htop'

/-- The download that the controller waits for comes. -/
theorem reaches_of_download (hsound : s.Sound) (htop : s.app.topViewController = some (c, vc))
    (hended : s.ended c = false) (download : Download) (hscreen : vc.screen = download.screen)
    (hnext : ∀ (s' : TableApp), s'.Sound → s'.app = booking.run s.app (download.passes c) →
      s'.officeChoice c = download.offices → s'.Reaches) : s.Reaches := by
  have hvc := (BookingApp.topViewController_eq_some.mp htop).2
  have hawaits : s.Awaits c download := ⟨hended, by rw [hvc]; exact congrArg some hscreen⟩
  apply @Reaches.of_run _ [.downloaded c download]
  refine hnext _ (step_sound hsound (.downloaded c download)) ?_ ?_
  · change booking.run s.app (s.passes (.downloaded c download)) = _
    rw [passes, if_pos hawaits]
  · change (s.take (.downloaded c download)).officeChoice c = _
    rw [take, if_pos hawaits]
    exact Function.update_self ..

theorem reaches_of_workplaces (hsound : s.Sound) (htop : s.app.topViewController = some (c, vc))
    (hscreen : vc.screen = .workPlaceViewController) (hleads : s.ended c = false ∨ vc.HasAvailable) :
    s.Reaches := by
  rcases hleads with hended | havailable
  · let free : WorkPlace := ⟨"", "", true⟩
    refine reaches_of_download hsound htop hended (.serviceWorkplace [free]) hscreen fun s' hsound' happ _ => ?_
    have hdownload := BookingApp.top_modify htop (ViewController.serviceWorkplace [free])
    have hready : vc.serviceWorkplace [free] = { vc with workplaces := [free] } := by
      rw [ViewController.serviceWorkplace, if_pos hscreen]
    rw [hready] at hdownload
    have htop' : s'.app.topViewController = some (c, { vc with workplaces := [free] }) := happ ▸ hdownload
    exact reaches_of_free_workplace hsound' htop' hscreen (List.mem_singleton_self free) rfl
  · rw [ViewController.HasAvailable, hscreen] at havailable
    obtain ⟨workplace, hmem, hfree⟩ := havailable
    exact reaches_of_free_workplace hsound htop hscreen hmem hfree

theorem reaches_of_free_room (hsound : s.Sound) (htop : s.app.topViewController = some (c, vc))
    (hscreen : vc.screen = .roomsViewController) {room : RoomsJSON} (hmem : room ∈ vc.rooms)
    (hfree : room.isAvailable = true) : s.Reaches := by
  obtain ⟨row, hrow⟩ := List.getElem?_of_mem hmem
  have hdequeue : vc.dequeue = { vc with cells := vc.cells ++ [({} : DetailsCell)] } := by
    rw [ViewController.dequeue, if_pos (.inl hscreen)]
  have hbind : vc.dequeue.bindViewModel c row {} = some (⟨false, some room.name, some (.pushRooms c)⟩, true) := by
    rw [hdequeue, ViewController.bindViewModel, hscreen]
    simp [hrow, hfree, RoomsTableViewCell.configure, DetailsCell.configure]
  exact reaches_of_touch hsound htop hdequeue hbind rfl rfl rfl fun s' d hsound' hended htop' =>
    reaches_of_workplaces hsound' htop' rfl (.inl hended)

theorem reaches_of_rooms (hsound : s.Sound) (htop : s.app.topViewController = some (c, vc))
    (hscreen : vc.screen = .roomsViewController) (hleads : s.ended c = false ∨ vc.HasAvailable) :
    s.Reaches := by
  rcases hleads with hended | havailable
  · let free : RoomsJSON := ⟨"", true⟩
    refine reaches_of_download hsound htop hended (.requestRooms [free]) hscreen fun s' hsound' happ _ => ?_
    have hdownload := BookingApp.top_modify htop (ViewController.requestRooms [free])
    have hready : vc.requestRooms [free] = { vc with rooms := [free] } := by
      rw [ViewController.requestRooms, if_pos hscreen]
    rw [hready] at hdownload
    have htop' : s'.app.topViewController = some (c, { vc with rooms := [free] }) := happ ▸ hdownload
    exact reaches_of_free_room hsound' htop' hscreen (List.mem_singleton_self free) rfl
  · rw [ViewController.HasAvailable, hscreen] at havailable
    obtain ⟨room, hmem, hfree⟩ := havailable
    exact reaches_of_free_room hsound htop hscreen hmem hfree

theorem reaches_of_row (hsound : s.Sound) (htop : s.app.topViewController = some (c, vc))
    (hscreen : vc.screen = .officeChoiceController) (hrow : s.officeChoice c ≠ []) : s.Reaches := by
  apply @Reaches.of_run _ [.didSelectRow 0]
  have hsound' := step_sound hsound (.didSelectRow 0)
  have hselect : (s.step (.didSelectRow 0)).1 =
      { s with app := (s.app.pushViewController .roomsViewController).1 } := by
    have hpush : (s.app.step .didSelectRow).1 = (s.app.pushViewController .roomsViewController).1 := by
      simp only [BookingApp.step, BookingApp.didSelectRow, htop, hscreen, if_true, BookingApp.pushFrom_top htop]
    simp only [step, passes, htop, if_pos (List.length_pos_iff.mpr hrow)]
    rw [← hpush]
    rfl
  have hfresh := hsound.fresh _ (List.getElem?_length s.app.controllers)
  rw [hselect] at hsound'
  change (s.step (.didSelectRow 0)).1.Reaches
  rw [hselect]
  exact reaches_of_rooms hsound' (BookingApp.top_push s.app .roomsViewController) rfl (.inl hfresh)

theorem reaches_of_offices (hsound : s.Sound) (htop : s.app.topViewController = some (c, vc))
    (hscreen : vc.screen = .officeChoiceController) (hleads : s.ended c = false ∨ s.officeChoice c ≠ []) :
    s.Reaches := by
  rcases hleads with hended | hrow
  · let office : Office := ⟨1, ""⟩
    refine reaches_of_download hsound htop hended (.requestOffice [office]) hscreen fun s' hsound' happ hchoice => ?_
    have htop' : s'.app.topViewController = some (c, vc) := happ ▸ htop
    exact reaches_of_row hsound' htop' hscreen (by simp [hchoice, Download.offices])
  · exact reaches_of_row hsound htop hscreen hrow

theorem Leads.reaches (hleads : s.Leads c vc) (hsound : s.Sound)
    (htop : s.app.topViewController = some (c, vc)) : s.Reaches := by
  rw [Leads] at hleads
  cases hscreen : vc.screen with
  | authorizationViewController => simp [hscreen] at hleads
  | officeChoiceController => exact reaches_of_offices hsound htop hscreen (by simpa [hscreen] using hleads)
  | roomsViewController => exact reaches_of_rooms hsound htop hscreen (by simpa [hscreen] using hleads)
  | workPlaceViewController => exact reaches_of_workplaces hsound htop hscreen (by simpa [hscreen] using hleads)
  | chooseDateVC => exact ⟨[], by simp [tables, Machine.run, BookingApp.onForm, htop, hscreen]⟩

/-- Back to a controller of the stack, and on from there. -/
theorem reaches_of_back (hsound : s.Sound) (hc : c ∈ s.app.viewControllers)
    (hvc : s.app.controllers[c]? = some vc)
    (hnext : ∀ (s' : TableApp), s'.Sound → s'.ended = s.ended → s'.officeChoice = s.officeChoice →
      s'.app.login = s.app.login → s'.app.topViewController = some (c, vc) → s'.Reaches) : s.Reaches := by
  obtain ⟨n, stack, hlast, hrun⟩ := BookingApp.pop_to hc
  have hes : ∀ e ∈ List.replicate n BookingEvent.back, e.isScreen = true := by
    intro e he
    rw [List.eq_of_mem_replicate he]
    rfl
  refine .of_screen hes (hnext _ (hsound.run hes) rfl rfl ?_ ?_)
  · rw [hrun]
  · rw [hrun]
    exact BookingApp.topViewController_eq_some.mpr ⟨hlast, hvc⟩

theorem reaches_of_login (hsound : s.Sound) (hrooted : s.app.Rooted) {l : Login}
    (hobeys : s.app.login.Obeys l) (hfew : l.attempt < 3) : s.Reaches := by
  obtain ⟨above, vc, hstack, hvc, hauth, _⟩ := hrooted.root
  have hroot : 0 ∈ s.app.viewControllers := by
    rw [hstack]
    exact List.mem_cons_self
  refine reaches_of_back hsound hroot hvc fun s' hsound' _ _ hlogin htop => ?_
  have hlast := (BookingApp.topViewController_eq_some.mp htop).1
  rw [← hlogin] at hobeys
  obtain ⟨es, d, hfresh, htop'⟩ := BookingApp.top_of_login htop hauth (List.mem_of_getLast? hlast) hobeys hfew
  have hes : ∀ e ∈ es.map BookingEvent.login, e.isScreen = true := by
    intro e he
    obtain ⟨event, _, rfl⟩ := List.mem_map.mp he
    rfl
  exact .of_screen hes (reaches_of_offices (hsound'.run hes) htop' rfl (.inl (hsound'.fresh d hfresh)))

end TableApp

/-- The form can still be reached exactly when fewer than three alerts have been
presented, or a controller on the stack leads on to it: the form itself, one whose
download is still to come, or one whose download brought an office, or an available
room or workplace. -/
theorem form_reachable_iff (email password : Text) (past : List TableEvent) :
    (∃ more, (tables.run (.launch email password) (past ++ more)).app.onForm) ↔
      (tables.outputs (.launch email password) past).countP BookingEffect.isAlert < 3 ∨
        ∃ c ∈ (tables.run (.launch email password) past).app.viewControllers, ∃ (vc : ViewController),
          (tables.run (.launch email password) past).app.controllers[c]? = some vc ∧
            (tables.run (.launch email password) past).Leads c vc := by
  have hsound := tables_sound email password past
  have hrooted := booking_rooted email password (screenEvents email password past)
  obtain ⟨l, hobeys, hattempt⟩ := booking_obeys email password (screenEvents email password past)
  have halerts : (tables.outputs (.launch email password) past).countP BookingEffect.isAlert = l.attempt := by
    rw [tables_outputs, hattempt]
    rfl
  rw [← tables_app] at hrooted hobeys
  rw [halerts]
  constructor
  · rintro ⟨more, hform⟩
    by_contra hstuck
    obtain ⟨hmany, hnone⟩ := not_or.mp hstuck
    have hlocked : (tables.run (.launch email password) past).Locked := by
      refine ⟨?_, fun c hc vc hvc hleads => hnone ⟨c, hc, vc, hvc, hleads⟩⟩
      simpa using fun hsome => hmany (hobeys.attempt_lt_iff.mpr hsome)
    have hlocked' := tables_locked hlocked more
    rw [BookingApp.onForm, Option.map_eq_some_iff] at hform
    obtain ⟨⟨c, vc⟩, htop, hscreen⟩ := hform
    obtain ⟨hlast, hvc⟩ := BookingApp.topViewController_eq_some.mp htop
    refine hlocked'.stuck c (List.mem_of_getLast? hlast) vc hvc ?_
    rw [TableApp.Leads, hscreen]
    trivial
  · intro h
    suffices hreaches : (tables.run (.launch email password) past).Reaches by
      obtain ⟨more, hform⟩ := hreaches
      exact ⟨more, by rwa [Machine.run_append]⟩
    rcases h with hfew | ⟨c, hc, vc, hvc, hleads⟩
    · exact TableApp.reaches_of_login hsound hrooted hobeys hfew
    · refine TableApp.reaches_of_back hsound hc hvc fun s' hsound' hended hchoice _ htop => ?_
      have hleads' : s'.Leads c vc := by
        rw [TableApp.Leads, hended, hchoice]
        exact hleads
      exact hleads'.reaches hsound' htop

end Reservation
