import Reservation.BookingGuards

/-! Where the rows of the two tables come from: what a cell was configured with
is a row of a list that was downloaded for its controller. -/

namespace Reservation

namespace BookingApp

/-- Whatever else happens, controllers come about by being pushed. -/
def Pushes (app app' : BookingApp) : Prop :=
  ∃ (screens : List Screen), app'.controllers =
    app.controllers ++ screens.map fun screen => ({ screen := screen } : ViewController)

namespace Pushes

theorem refl {app app' : BookingApp} (h : app'.controllers = app.controllers) : app.Pushes app' :=
  ⟨[], by simpa using h⟩

theorem trans {app app' app'' : BookingApp} (h : app.Pushes app') (h' : app'.Pushes app'') :
    app.Pushes app'' := by
  obtain ⟨screens, hscreens⟩ := h
  obtain ⟨screens', hscreens'⟩ := h'
  exact ⟨screens ++ screens', by rw [hscreens', hscreens, List.map_append, List.append_assoc]⟩

theorem pushFrom (app : BookingApp) (sourceVC : Nat) (screen : Screen) :
    app.Pushes (app.pushFrom sourceVC screen).1 := by
  rw [BookingApp.pushFrom]
  split
  · exact ⟨[screen], rfl⟩
  · exact refl rfl

theorem perform (app : BookingApp) (effect : LoginEffect) : app.Pushes (app.perform effect).1 := by
  cases effect with
  | pushView => exact pushFrom app 0 .officeChoiceController
  | _ => exact refl rfl

theorem performAll (app : BookingApp) (effects : List LoginEffect) :
    app.Pushes (app.performAll effects).1 := by
  induction effects generalizing app with
  | nil => exact refl rfl
  | cons effect effects ih => exact (perform app effect).trans (ih _)

theorem loginEvent (app : BookingApp) (event : LoginEvent) : app.Pushes (app.loginEvent event).1 :=
  performAll { app with login := (app.login.step event).1 } (app.login.step event).2

theorem didSelectRow (app : BookingApp) : app.Pushes app.didSelectRow.1 := by
  rw [BookingApp.didSelectRow]
  split
  · exact refl rfl
  · split
    · exact pushFrom app _ _
    · exact refl rfl

theorem call (app : BookingApp) (callback : ButtonCallback) : app.Pushes (app.call callback).1 := by
  cases callback with
  | pushRooms sourceVC => exact pushFrom app sourceVC .workPlaceViewController
  | pushWorkplace sourceVC => exact pushFrom app sourceVC .chooseDateVC

theorem touchDetails (app : BookingApp) (cell : Nat) : app.Pushes (app.touchDetails cell).1 := by
  rw [BookingApp.touchDetails]
  split
  · exact refl rfl
  · split
    · exact refl rfl
    · split
      · exact refl rfl
      · split
        · exact refl rfl
        · exact call app _

theorem back (app : BookingApp) : app.Pushes app.popViewController := by
  rw [popViewController]
  split
  · exact refl rfl
  · exact refl rfl

end Pushes

end BookingApp

/-- The lists of one kind of table, and the event that downloads one. -/
structure Listed {α : Type} (list : ViewController → List α) (download : Nat → List α → BookingEvent) :
    Prop where
  new : ∀ (screen : Screen), list { screen := screen } = []
  requestRooms : ∀ (c : Nat) (rooms : List RoomsJSON) (vc : ViewController),
    list (vc.requestRooms rooms) = list vc ∨
      BookingEvent.requestRooms c rooms = download c (list (vc.requestRooms rooms))
  serviceWorkplace : ∀ (c : Nat) (workplaces : List WorkPlace) (vc : ViewController),
    list (vc.serviceWorkplace workplaces) = list vc ∨
      BookingEvent.serviceWorkplace c workplaces = download c (list (vc.serviceWorkplace workplaces))
  cells : ∀ (vc : ViewController) (cells : List DetailsCell), list { vc with cells := cells } = list vc

theorem listed_rooms : Listed ViewController.rooms .requestRooms := by
  refine ⟨fun _ => rfl, fun c rooms vc => ?_, fun c workplaces vc => ?_, fun _ _ => rfl⟩
  · rw [ViewController.requestRooms]
    split
    · exact .inr rfl
    · exact .inl rfl
  · rw [ViewController.serviceWorkplace]
    split <;> exact .inl rfl

theorem listed_workplaces : Listed ViewController.workplaces .serviceWorkplace := by
  refine ⟨fun _ => rfl, fun c rooms vc => ?_, fun c workplaces vc => ?_, fun _ _ => rfl⟩
  · rw [ViewController.requestRooms]
    split <;> exact .inl rfl
  · rw [ViewController.serviceWorkplace]
    split
    · exact .inr rfl
    · exact .inl rfl

/-- Every table is empty or shows a list that was downloaded for it. -/
def Filled {α : Type} (list : ViewController → List α) (download : Nat → List α → BookingEvent)
    (past : List BookingEvent) (app : BookingApp) : Prop :=
  ∀ (c : Nat) (vc : ViewController), app.controllers[c]? = some vc → list vc = [] ∨ download c (list vc) ∈ past

namespace Filled

variable {α : Type} {list : ViewController → List α} {download : Nat → List α → BookingEvent}
  {past : List BookingEvent} {app : BookingApp} {e : BookingEvent}

theorem later (h : Filled list download past app) : Filled list download (past ++ [e]) app := by
  intro c vc hvc
  rcases h c vc hvc with hempty | hmem
  · exact .inl hempty
  · exact .inr (List.mem_append_left _ hmem)

theorem pushes (hlisted : Listed list download) (h : Filled list download past app) {app' : BookingApp}
    (hpushes : app.Pushes app') : Filled list download past app' := by
  obtain ⟨screens, hscreens⟩ := hpushes
  intro c vc hvc
  rw [hscreens, List.getElem?_append] at hvc
  split at hvc
  · exact h c vc hvc
  · rw [List.getElem?_map] at hvc
    obtain ⟨screen, _, rfl⟩ := Option.map_eq_some_iff.mp hvc
    exact .inl (hlisted.new screen)

theorem set (h : Filled list download past app) {c : Nat} {vc vc' : ViewController}
    (hvc : app.controllers[c]? = some vc) (hlist : list vc' = list vc ∨ e = download c (list vc')) :
    Filled list download (past ++ [e]) { app with controllers := app.controllers.set c vc' } := by
  intro d wc hwc
  by_cases hd : d = c
  · subst hd
    rw [List.getElem?_set_self', hvc] at hwc
    have hnew : vc' = wc := Option.some.inj hwc
    subst hnew
    rcases hlist with hsame | rfl
    · rw [hsame]
      exact h.later d vc hvc
    · exact .inr (List.mem_append_right _ (List.mem_singleton_self _))
  · rw [List.getElem?_set_ne (Ne.symm hd)] at hwc
    exact h.later d wc hwc

theorem modify (h : Filled list download past app) {c : Nat} {f : ViewController → ViewController}
    (hlist : ∀ (vc : ViewController), list (f vc) = list vc ∨ e = download c (list (f vc))) :
    Filled list download (past ++ [e]) (app.modify c f).1 := by
  rw [BookingApp.modify]
  cases hvc : app.controllers[c]? with
  | none => exact h.later
  | some vc => exact h.set hvc (hlist vc)

theorem configure (hlisted : Listed list download) (h : Filled list download past app) (c k row : Nat) :
    Filled list download (past ++ [e]) (app.configure c k row).1 := by
  rw [BookingApp.configure]
  cases hvc : app.controllers[c]? with
  | none => exact h.later
  | some vc =>
    cases hcell : vc.cells[k]? with
    | none => simpa only [hcell] using h.later
    | some old =>
      cases hbind : vc.bindViewModel c row old with
      | none => simpa only [hcell, hbind] using h.later
      | some bound => simpa only [hcell, hbind] using h.set hvc (.inl (hlisted.cells vc _))

theorem step (hlisted : Listed list download) (h : Filled list download past app) (e : BookingEvent) :
    Filled list download (past ++ [e]) (app.step e).1 := by
  cases e with
  | login event =>
    have hlogin := (h.pushes hlisted (.loginEvent app event)).later (e := .login event)
    cases event with
    | completion call error => exact hlogin
    | _ =>
      rw [BookingApp.step]
      · split
        · exact hlogin
        · exact h.later
      · simp
  | didSelectRow => exact (h.pushes hlisted (.didSelectRow app)).later
  | requestRooms c rooms => exact h.modify (hlisted.requestRooms c rooms)
  | serviceWorkplace c workplaces => exact h.modify (hlisted.serviceWorkplace c workplaces)
  | dequeue c =>
    refine h.modify fun vc => .inl ?_
    rw [ViewController.dequeue]
    split
    · exact hlisted.cells vc _
    · rfl
  | reuse _ _ => exact h.later
  | configure c k row => exact h.configure hlisted c k row
  | touchDetails k => exact (h.pushes hlisted (.touchDetails app k)).later
  | back => exact (h.pushes hlisted (.back app)).later

end Filled

theorem booking_filled {α : Type} {list : ViewController → List α} {download : Nat → List α → BookingEvent}
    (hlisted : Listed list download) (email password : Text) (es : List BookingEvent) :
    Filled list download es (booking.run (.launch email password) es) := by
  refine booking.run_invariant (P := Filled list download) ?_ (fun past e h => h.step hlisted e) es
  intro c vc hvc
  have hlaunch : vc = { screen := .authorizationViewController } := by
    simpa [BookingApp.launch] using List.mem_of_getElem? hvc
  rw [hlaunch]
  exact .inl (hlisted.new _)

/-- The cell was last configured with a row of a list downloaded for its table,
and the record in that row is available. -/
def Offers {α : Type} (download : Nat → List α → BookingEvent) (isAvailable : α → Bool)
    (email password : Text) (past : List BookingEvent) (c cell : Nat) : Prop :=
  ∃ before row after list record, past = before ++ .configure c cell row :: after ∧
    download c list ∈ before ∧ list[row]? = some record ∧ isAvailable record = true ∧
    (booking.outputs (booking.run (.launch email password) (before ++ [.configure c cell row]))
      after).filterMap (BookingEffect.configure c cell) = []

theorem BookingEffect.configure_eq_some {effect : BookingEffect} {c k : Nat} {isAvailable : Bool} :
    effect.configure c k = some isAvailable ↔ effect = .configured c k isAvailable := by
  cases effect with
  | configured d j available =>
    by_cases hcell : d = c ∧ j = k
    · obtain ⟨rfl, rfl⟩ := hcell
      simp [configure]
    · have hne : ¬ (d = c ∧ j = k ∧ available = isAvailable) := fun h => hcell ⟨h.1, h.2.1⟩
      simp [configure, hcell, hne]
  | _ => simp [configure]

/-- Only a `configure` of the cell itself changes what it was last configured with. -/
theorem BookingApp.step_configured {app : BookingApp} {e : BookingEvent} {c k : Nat} {isAvailable : Bool}
    (h : .configured c k isAvailable ∈ (app.step e).2) :
    ∃ row vc old new, e = .configure c k row ∧ app.controllers[c]? = some vc ∧
      vc.bindViewModel c row old = some (new, isAvailable) := by
  have hstep := app.step_cases e
  generalize app.step e = next at hstep h
  cases hstep with
  | @configure d j row vc old new available hvc hbind =>
    obtain ⟨rfl, rfl, rfl⟩ : c = d ∧ k = j ∧ isAvailable = available := by simpa using h
    exact ⟨row, vc, old, new, rfl, hvc, hbind⟩
  | _ => simp [BookingApp.pushViewController] at h

theorem ViewController.bindViewModel_rooms {vc : ViewController} (hscreen : vc.screen = .roomsViewController)
    {c row : Nat} {old new : DetailsCell} (h : vc.bindViewModel c row old = some (new, true)) :
    ∃ room, vc.rooms[row]? = some room ∧ room.isAvailable = true := by
  simp only [bindViewModel, hscreen, Option.map_eq_some_iff, Prod.mk.injEq] at h
  obtain ⟨room, hroom, _, havailable⟩ := h
  exact ⟨room, hroom, havailable⟩

theorem ViewController.bindViewModel_workplaces {vc : ViewController}
    (hscreen : vc.screen = .workPlaceViewController) {c row : Nat} {old new : DetailsCell}
    (h : vc.bindViewModel c row old = some (new, true)) :
    ∃ workplace, vc.workplaces[row]? = some workplace ∧ workplace.isAvailable = true := by
  simp only [bindViewModel, hscreen, Option.map_eq_some_iff, Prod.mk.injEq] at h
  obtain ⟨workplace, hworkplace, _, havailable⟩ := h
  exact ⟨workplace, hworkplace, havailable⟩

section

variable {email password : Text} {past : List BookingEvent} {e : BookingEvent} {c : Nat}

/-- The `configure` that a touch relies on, and the controller at that time. -/
theorem TouchesAvailable.configured {screen : Screen} (h : TouchesAvailable email password past e screen c) :
    ∃ k before row after vc old new, e = .touchDetails k ∧ past = before ++ .configure c k row :: after ∧
      (booking.run (.launch email password) before).controllers[c]? = some vc ∧ vc.screen = screen ∧
      vc.bindViewModel c row old = some (new, true) ∧
      (booking.outputs (booking.run (.launch email password) (before ++ [.configure c k row]))
        after).filterMap (BookingEffect.configure c k) = [] := by
  obtain ⟨top, k, rfl, htop, hscreen, hlast⟩ := h
  obtain ⟨before, e, after, rfl, hk, hquiet⟩ := Machine.lastOutput_eq_some hlast
  obtain ⟨effect, heffect, hconfigured⟩ := List.mem_filterMap.mp (List.mem_of_getLast? hk)
  rw [BookingEffect.configure_eq_some.mp hconfigured] at heffect
  obtain ⟨row, vc, old, new, rfl, hvc, hbind⟩ := BookingApp.step_configured heffect
  obtain ⟨vc', hvc', hsame⟩ := booking_screen (.configure c k row :: after) hvc
  rw [← Machine.run_append, (BookingApp.topViewController_eq_some.mp htop).2] at hvc'
  obtain rfl := Option.some.inj hvc'
  exact ⟨k, before, row, after, vc, old, new, rfl, rfl, hvc, hsame.symm.trans hscreen, hbind, hquiet⟩

theorem TouchesAvailable.offers {α : Type} {list : ViewController → List α}
    {download : Nat → List α → BookingEvent} {isAvailable : α → Bool} {screen : Screen}
    (hlisted : Listed list download)
    (hbind : ∀ (vc : ViewController), vc.screen = screen → ∀ (row : Nat) (old new : DetailsCell),
      vc.bindViewModel c row old = some (new, true) →
        ∃ record, (list vc)[row]? = some record ∧ isAvailable record = true)
    (h : TouchesAvailable email password past e screen c) :
    ∃ k, e = .touchDetails k ∧ Offers download isAvailable email password past c k := by
  obtain ⟨k, before, row, after, vc, old, new, he, hpast, hvc, hscreen, hnew, hquiet⟩ := h.configured
  obtain ⟨record, hrecord, havailable⟩ := hbind vc hscreen row old new hnew
  have hfilled := booking_filled hlisted email password before c vc hvc
  have hlist : download c (list vc) ∈ before := hfilled.resolve_left fun hempty => by simp [hempty] at hrecord
  exact ⟨k, he, before, row, after, list vc, record, hpast, hlist, hrecord, havailable, hquiet⟩

/-- Only a details button pushes the booking form. -/
theorem BookingApp.step_chooseDate {app : BookingApp} {form : Nat}
    (h : .pushed form .chooseDateVC ∈ (app.step e).2) :
    ∃ c k vc cell callback, e = .touchDetails k ∧ app.topViewController = some (c, vc) ∧
      vc.cells[k]? = some cell ∧ cell.isHidden = false ∧ cell.buttonCallback = some callback ∧
      callback.screen = .chooseDateVC := by
  have hstep := app.step_cases e
  generalize app.step e = next at hstep h
  cases hstep with
  | login _ _ _ => simp at h
  | @touchDetails c k vc cell callback htop hcell hvisible hcallback =>
    have hscreen : callback.screen = .chooseDateVC := by
      simp only [pushViewController, List.mem_singleton, BookingEffect.pushed.injEq] at h
      exact h.2.symm
    exact ⟨c, k, vc, cell, callback, rfl, htop, hcell, hvisible, hcallback, hscreen⟩
  | _ => simp [pushViewController] at h

theorem Traced.form_guarded (h : Traced email password past (booking.run (.launch email password) past))
    {form : Nat} (hform : .pushed form .chooseDateVC ∈ booking.emit (.launch email password) past e) :
    SignedIn email password past ∧ ∃ workplace, PushedByRoom email password past workplace ∧
      TouchesAvailable email password past e .workPlaceViewController workplace := by
  obtain ⟨c, k, vc, cell, callback, rfl, htop, hcell, hvisible, hcallback, hchoose⟩ :=
    BookingApp.step_chooseDate hform
  have hvc := (BookingApp.topViewController_eq_some.mp htop).2
  obtain ⟨hbutton, htouch⟩ := h.touches htop hcell hvisible hcallback
  obtain ⟨_, ⟨_, hwork⟩ | ⟨hscreen, _⟩⟩ := ViewController.didTapButton_screen hbutton
  · simp [hwork] at hchoose
  · rw [hscreen] at htouch
    exact ⟨h.signedIn c vc hvc (by simp [hscreen]), c, h.pushedByRoom c vc hvc hscreen, htouch⟩

theorem TouchesAvailable.offersRoom (h : TouchesAvailable email password past e .roomsViewController c) :
    ∃ k, e = .touchDetails k ∧ Offers .requestRooms RoomsJSON.isAvailable email password past c k :=
  h.offers listed_rooms fun _ hscreen _ _ _ hnew => ViewController.bindViewModel_rooms hscreen hnew

theorem TouchesAvailable.offersWorkplace
    (h : TouchesAvailable email password past e .workPlaceViewController c) :
    ∃ k, e = .touchDetails k ∧ Offers .serviceWorkplace WorkPlace.isAvailable email password past c k :=
  h.offers listed_workplaces fun _ hscreen _ _ _ hnew => ViewController.bindViewModel_workplaces hscreen hnew

end

end Reservation
