import Reservation.BookingSteps

/-! Why the booking form can be trusted to follow a sign-in, an available room
and an available workplace: a cell never keeps a closure apart from the flag it
was configured with, whatever its controller, its reuse or its age. -/

namespace Reservation

def BookingEffect.configure (controller cell : Nat) : BookingEffect → Option Bool
  | configured c k isAvailable => if c = controller ∧ k = cell then some isAvailable else none
  | _ => none

section

variable (email password : Text)

/-- `isAvailable` of the most recent `configure` of a cell. -/
def lastConfigured (past : List BookingEvent) (controller cell : Nat) : Option Bool :=
  booking.lastOutput (.launch email password) (BookingEffect.configure controller cell) past

def SignedIn (past : List BookingEvent) : Prop :=
  ∃ before call after, past = before ++ .login (.completion call none) :: after ∧
    call ∈ (booking.run (.launch email password) before).login.pending ∧
    (booking.run (.launch email password) before).login.isListening call = true

/-- The details button that this event touches is on the cell of a controller of
this kind, the one on top, and was last configured as available. -/
def TouchesAvailable (past : List BookingEvent) (e : BookingEvent) (screen : Screen) (c : Nat) : Prop :=
  ∃ vc k, e = .touchDetails k ∧
    (booking.run (.launch email password) past).topViewController = some (c, vc) ∧
    vc.screen = screen ∧ lastConfigured email password past c k = some true

def PushedByRoom (past : List BookingEvent) (workplace : Nat) : Prop :=
  ∃ before e after rooms, past = before ++ e :: after ∧
    TouchesAvailable email password before e .roomsViewController rooms ∧
    .pushed workplace .workPlaceViewController ∈ booking.emit (.launch email password) before e

end

theorem SignedIn.append {email password : Text} {past : List BookingEvent}
    (h : SignedIn email password past) (future : List BookingEvent) :
    SignedIn email password (past ++ future) := by
  obtain ⟨before, call, after, rfl, hcall⟩ := h
  exact ⟨before, call, after ++ future, by simp, hcall⟩

theorem PushedByRoom.append {email password : Text} {past : List BookingEvent} {workplace : Nat}
    (h : PushedByRoom email password past workplace) (future : List BookingEvent) :
    PushedByRoom email password (past ++ future) workplace := by
  obtain ⟨before, e, after, rooms, rfl, htouch⟩ := h
  exact ⟨before, e, after ++ future, rooms, by simp, htouch⟩

/-- Every cell that has a closure has its own controller's, and hides its button
as its most recent `configure` said. -/
def ViewController.Guarded (vc : ViewController) (controller : Nat) (last : Nat → Option Bool) : Prop :=
  ∀ k cell callback, vc.cells[k]? = some cell → cell.buttonCallback = some callback →
    vc.didTapButton controller = some callback ∧ last k = some (!cell.isHidden)

structure Traced (email password : Text) (past : List BookingEvent) (app : BookingApp) : Prop where
  guarded : ∀ (c : Nat) (vc : ViewController), app.controllers[c]? = some vc →
    vc.Guarded c (lastConfigured email password past c)
  pushedByRoom : ∀ (c : Nat) (vc : ViewController), app.controllers[c]? = some vc →
    vc.screen = .workPlaceViewController → PushedByRoom email password past c
  signedIn : ∀ (c : Nat) (vc : ViewController), app.controllers[c]? = some vc →
    vc.screen ≠ .authorizationViewController → SignedIn email password past

theorem ViewController.didTapButton_screen {vc : ViewController} {controller : Nat}
    {callback : ButtonCallback} (h : vc.didTapButton controller = some callback) :
    callback.sourceVC = controller ∧
      (vc.screen = .roomsViewController ∧ callback.screen = .workPlaceViewController ∨
        vc.screen = .workPlaceViewController ∧ callback.screen = .chooseDateVC) := by
  rw [didTapButton] at h
  cases hscreen : vc.screen with
  | roomsViewController =>
    simp only [hscreen, Option.some.injEq] at h
    subst h
    exact ⟨rfl, .inl ⟨rfl, rfl⟩⟩
  | workPlaceViewController =>
    simp only [hscreen, Option.some.injEq] at h
    subst h
    exact ⟨rfl, .inr ⟨rfl, rfl⟩⟩
  | _ => simp [hscreen] at h

theorem ViewController.Guarded.extend {vc vc' : ViewController} {controller : Nat}
    {last : Nat → Option Bool} (h : vc.Guarded controller last) (hextends : vc.Extends vc') :
    vc'.Guarded controller last := by
  intro k cell callback hcell hcallback
  have hold : vc.cells[k]? = some cell := by
    rcases hextends.cells with hcells | hcells
    · rw [← hcells]
      exact hcell
    · rw [hcells, List.getElem?_append] at hcell
      split at hcell
      · exact hcell
      · -- a new cell has no closure yet
        have hnew : cell = ({} : DetailsCell) := by
          simpa using List.mem_of_getElem? hcell
        rw [hnew] at hcallback
        simp at hcallback
  have hguard := h k cell callback hold hcallback
  rw [didTapButton] at hguard ⊢
  rw [hextends.screen]
  exact hguard

theorem ViewController.Guarded.configure {vc : ViewController} {controller k row : Nat}
    {last last' : Nat → Option Bool} {old new : DetailsCell} {isAvailable : Bool}
    (h : vc.Guarded controller last)
    (hbind : vc.bindViewModel controller row old = some (new, isAvailable))
    (hlast : last' k = some isAvailable) (hothers : ∀ j, j ≠ k → last' j = last j) :
    ({ vc with cells := vc.cells.set k new } : ViewController).Guarded controller last' := by
  obtain ⟨hhidden, hbutton⟩ := bindViewModel_eq hbind
  intro j cell callback hcell hcallback
  by_cases hj : j = k
  · subst hj
    have hnew : cell = new := by
      rw [List.getElem?_set_self'] at hcell
      obtain ⟨_, _, rfl⟩ := Option.map_eq_some_iff.mp hcell
      rfl
    subst hnew
    refine ⟨?_, ?_⟩
    · rw [← hcallback, hbutton]
      rfl
    · rw [hlast, hhidden, Bool.not_not]
  · rw [hothers j hj]
    have hold : vc.cells[j]? = some cell := by
      rwa [List.getElem?_set_ne (Ne.symm hj)] at hcell
    exact h j cell callback hold hcallback

section

variable {email password : Text} {past : List BookingEvent} {e : BookingEvent} {app : BookingApp}

theorem lastConfigured_snoc (c k : Nat) :
    lastConfigured email password (past ++ [e]) c k =
      ((booking.emit (.launch email password) past e).filterMap
        (BookingEffect.configure c k)).getLast?.or (lastConfigured email password past c k) :=
  booking.lastOutput_snoc _ _ _ _

theorem Traced.idle (h : Traced email password past app)
    (hlast : ∀ c, lastConfigured email password (past ++ [e]) c = lastConfigured email password past c) :
    Traced email password (past ++ [e]) app := by
  constructor
  · intro c vc hvc
    rw [hlast]
    exact h.guarded c vc hvc
  · exact fun c vc hvc hscreen => (h.pushedByRoom c vc hvc hscreen).append [e]
  · exact fun c vc hvc hscreen => (h.signedIn c vc hvc hscreen).append [e]

theorem Traced.congr {app' : BookingApp} (h : Traced email password past app)
    (hcontrollers : app'.controllers = app.controllers) : Traced email password past app' := by
  constructor
  · exact fun c vc hvc => h.guarded c vc (hcontrollers ▸ hvc)
  · exact fun c vc hvc => h.pushedByRoom c vc (hcontrollers ▸ hvc)
  · exact fun c vc hvc => h.signedIn c vc (hcontrollers ▸ hvc)

/-- One controller is replaced by another of the same kind. -/
theorem Traced.set (h : Traced email password past app) {c : Nat} {vc vc' : ViewController}
    (hvc : app.controllers[c]? = some vc) (hscreen : vc'.screen = vc.screen)
    (hguarded : vc'.Guarded c (lastConfigured email password (past ++ [e]) c))
    (hothers : ∀ d, d ≠ c → lastConfigured email password (past ++ [e]) d =
      lastConfigured email password past d) :
    Traced email password (past ++ [e]) { app with controllers := app.controllers.set c vc' } := by
  have hcases : ∀ d wc, (app.controllers.set c vc')[d]? = some wc →
      d = c ∧ wc = vc' ∨ d ≠ c ∧ app.controllers[d]? = some wc := by
    intro d wc hwc
    by_cases hd : d = c
    · subst hd
      rw [List.getElem?_set_self'] at hwc
      obtain ⟨_, _, rfl⟩ := Option.map_eq_some_iff.mp hwc
      exact .inl ⟨rfl, rfl⟩
    · rw [List.getElem?_set_ne (Ne.symm hd)] at hwc
      exact .inr ⟨hd, hwc⟩
  constructor
  · intro d wc hwc
    rcases hcases d wc hwc with ⟨rfl, rfl⟩ | ⟨hd, hold⟩
    · exact hguarded
    · rw [hothers d hd]
      exact h.guarded d wc hold
  · intro d wc hwc hwork
    rcases hcases d wc hwc with ⟨rfl, rfl⟩ | ⟨_, hold⟩
    · exact (h.pushedByRoom d vc hvc (hscreen ▸ hwork)).append [e]
    · exact (h.pushedByRoom d wc hold hwork).append [e]
  · intro d wc hwc hauth
    rcases hcases d wc hwc with ⟨rfl, rfl⟩ | ⟨_, hold⟩
    · exact (h.signedIn d vc hvc (hscreen ▸ hauth)).append [e]
    · exact (h.signedIn d wc hold hauth).append [e]

theorem Traced.push (h : Traced email password past app) {screen : Screen}
    (hlast : ∀ c, lastConfigured email password (past ++ [e]) c = lastConfigured email password past c)
    (hsigned : SignedIn email password (past ++ [e]))
    (hroom : screen = .workPlaceViewController →
      PushedByRoom email password (past ++ [e]) app.controllers.length) :
    Traced email password (past ++ [e]) (app.pushViewController screen).1 := by
  have hcases : ∀ d wc, (app.controllers ++ [{ screen := screen }])[d]? = some wc →
      app.controllers[d]? = some wc ∨ d = app.controllers.length ∧ wc = { screen := screen } := by
    intro d wc hwc
    rcases Nat.lt_trichotomy d app.controllers.length with hlt | heq | hgt
    · rw [List.getElem?_append_left hlt] at hwc
      exact .inl hwc
    · subst heq
      rw [List.getElem?_concat_length, Option.some.injEq] at hwc
      exact .inr ⟨rfl, hwc.symm⟩
    · have hlength : (app.controllers ++ [({ screen := screen } : ViewController)]).length ≤ d := by
        rw [List.length_append, List.length_singleton]
        omega
      rw [List.getElem?_eq_none hlength] at hwc
      simp at hwc
  have hold := h.idle hlast
  constructor
  · intro d wc hwc
    rcases hcases d wc hwc with hvc | ⟨_, rfl⟩
    · exact hold.guarded d wc hvc
    · intro k cell callback hcell
      simp at hcell
  · intro d wc hwc hwork
    rcases hcases d wc hwc with hvc | ⟨rfl, rfl⟩
    · exact hold.pushedByRoom d wc hvc hwork
    · exact hroom hwork
  · exact fun _ _ _ _ => hsigned

/-- A touch that gets through to a closure is on an available cell. -/
theorem Traced.touches (h : Traced email password past (booking.run (.launch email password) past))
    {c k : Nat} {vc : ViewController} {cell : DetailsCell} {callback : ButtonCallback}
    (htop : (booking.run (.launch email password) past).topViewController = some (c, vc))
    (hcell : vc.cells[k]? = some cell) (hvisible : cell.isHidden = false)
    (hcallback : cell.buttonCallback = some callback) :
    vc.didTapButton c = some callback ∧
      TouchesAvailable email password past (.touchDetails k) vc.screen c := by
  have hvc := (BookingApp.topViewController_eq_some.mp htop).2
  obtain ⟨hbutton, hlast⟩ := h.guarded c vc hvc k cell callback hcell hcallback
  rw [hvisible] at hlast
  exact ⟨hbutton, vc, k, rfl, htop, rfl, hlast⟩

theorem Traced.step (h : Traced email password past (booking.run (.launch email password) past)) :
    Traced email password (past ++ [e]) ((booking.run (.launch email password) past).step e).1 := by
  have hstep := (booking.run (.launch email password) past).step_cases e
  have hsnoc := @lastConfigured_snoc email password past e
  have hemit : booking.emit (.launch email password) past e =
    ((booking.run (.launch email password) past).step e).2 := rfl
  rw [hemit] at hsnoc
  generalize hnext : (booking.run (.launch email password) past).step e = next at hstep hsnoc hemit ⊢
  cases hstep with
  | idle => exact h.idle fun c => funext fun k => by rw [hsnoc]; rfl
  | @login event login effects _ _ _ =>
    refine (h.idle fun c => funext fun k => ?_).congr rfl
    rw [hsnoc, List.filterMap_map]
    have hnone : effects.filterMap (BookingEffect.configure c k ∘ BookingEffect.login) = [] := by
      simp [BookingEffect.configure]
    rw [hnone]
    rfl
  | @pushView call login hp hl _ =>
    have hlogin : Traced email password past
        { booking.run (.launch email password) past with login := login } := h.congr rfl
    refine hlogin.push (fun c => funext fun k => ?_) ⟨past, call, [], rfl, hp, hl⟩ ?_
    · rw [hsnoc]
      rfl
    · intro hscreen
      simp at hscreen
  | @didSelectRow c vc htop hscreen =>
    have hvc := (BookingApp.topViewController_eq_some.mp htop).2
    refine h.push (fun c => funext fun k => ?_) ?_ ?_
    · rw [hsnoc]
      rfl
    · exact (h.signedIn c vc hvc (by simp [hscreen])).append _
    · intro hwork
      simp at hwork
  | @extend _ c vc vc' hvc hextends =>
    have hlast : ∀ d, lastConfigured email password (past ++ [e]) d =
        lastConfigured email password past d := by
      intro d
      funext k
      rw [hsnoc]
      rfl
    refine h.set hvc hextends.screen ?_ fun d _ => hlast d
    rw [hlast]
    exact (h.guarded c vc hvc).extend hextends
  | @configure c k row vc old new isAvailable hvc hbind =>
    have hother : ∀ d j, ¬(c = d ∧ k = j) →
        lastConfigured email password (past ++ [.configure c k row]) d j =
          lastConfigured email password past d j := by
      intro d j hne
      rw [hsnoc]
      simp [BookingEffect.configure, hne]
    refine h.set hvc rfl ((h.guarded c vc hvc).configure hbind ?_ fun j hj => ?_) fun d hd => ?_
    · rw [hsnoc]
      simp [BookingEffect.configure]
    · exact hother c j fun hsame => hj hsame.2.symm
    · funext j
      exact hother d j fun hsame => hd hsame.1.symm
  | @touchDetails c k vc cell callback htop hcell hvisible hcallback =>
    have hvc := (BookingApp.topViewController_eq_some.mp htop).2
    obtain ⟨hbutton, htouch⟩ := h.touches htop hcell hvisible hcallback
    obtain ⟨_, hscreens⟩ := ViewController.didTapButton_screen hbutton
    refine h.push (fun c => funext fun k => ?_) ?_ ?_
    · rw [hsnoc]
      rfl
    · have hauth : vc.screen ≠ .authorizationViewController := by
        rcases hscreens with ⟨hscreen, _⟩ | ⟨hscreen, _⟩ <;> simp [hscreen]
      exact (h.signedIn c vc hvc hauth).append _
    · intro hwork
      rcases hscreens with ⟨hscreen, _⟩ | ⟨_, hchoose⟩
      · refine ⟨past, _, [], c, rfl, hscreen ▸ htouch, ?_⟩
        rw [hemit, ← hwork]
        exact List.mem_singleton_self _
      · simp [hwork] at hchoose
  | back _ =>
    refine (h.idle fun c => funext fun k => ?_).congr rfl
    rw [hsnoc]
    rfl

end

theorem launch_traced (email password : Text) :
    Traced email password [] (.launch email password) := by
  have hlaunch : ∀ (c : Nat) (vc : ViewController),
      (BookingApp.launch email password).controllers[c]? = some vc →
        vc = { screen := .authorizationViewController } := by
    intro c vc hvc
    simpa [BookingApp.launch] using List.mem_of_getElem? hvc
  constructor
  · intro c vc hvc k cell callback hcell
    simp [hlaunch c vc hvc] at hcell
  · intro c vc hvc hscreen
    simp [hlaunch c vc hvc] at hscreen
  · intro c vc hvc hscreen
    simp [hlaunch c vc hvc] at hscreen

theorem booking_traced (email password : Text) (es : List BookingEvent) :
    Traced email password es (booking.run (.launch email password) es) := by
  induction es using List.reverseRecOn with
  | nil => exact launch_traced email password
  | append_singleton es e ih =>
    rw [Machine.run_snoc]
    exact ih.step

/-- Over any run, whatever is downloaded and however cells are reused, an event
that pushes the booking form comes after a sign-in that succeeded. It touches
the details button of an available workplace, on a controller that was itself
pushed by the details button of an available room. -/
theorem chooseDate_pushed_through_available (email password : Text) (es : List BookingEvent) :
    Machine.AtEach (fun past e => ∀ form,
      .pushed form .chooseDateVC ∈ booking.emit (.launch email password) past e →
        SignedIn email password past ∧
        ∃ workplace, PushedByRoom email password past workplace ∧
          TouchesAvailable email password past e .workPlaceViewController workplace) es := by
  intro past e future _ form hpushed
  have h := booking_traced email password past
  have hstep := (booking.run (.launch email password) past).step_cases e
  change .pushed form .chooseDateVC ∈ ((booking.run (.launch email password) past).step e).2 at hpushed
  generalize (booking.run (.launch email password) past).step e = next at hstep hpushed
  cases hstep with
  | login _ _ _ => simp at hpushed
  | touchDetails htop hcell hvisible hcallback =>
    obtain ⟨hbutton, htouch⟩ := h.touches htop hcell hvisible hcallback
    obtain ⟨_, hscreens⟩ := ViewController.didTapButton_screen hbutton
    have hvc := (BookingApp.topViewController_eq_some.mp htop).2
    rcases hscreens with ⟨_, hwork⟩ | ⟨hscreen, _⟩
    · simp [BookingApp.pushViewController, hwork] at hpushed
    · refine ⟨h.signedIn _ _ hvc (by simp [hscreen]), _, h.pushedByRoom _ _ hvc hscreen, ?_⟩
      exact hscreen ▸ htouch
  | _ => simp [BookingApp.pushViewController] at hpushed

/-- The form can be reached; the cell of the workplace is used twice. -/
example : .pushed 4 .chooseDateVC ∈ booking.outputs (.launch ivan secret)
    [.login .tap, .login (.completion 0 none), .didSelectRow, .requestRooms 2 [⟨"A", true⟩],
      .dequeue 2, .configure 2 0 0, .touchDetails 0,
      .serviceWorkplace 3 [⟨"P", "№1", false⟩, ⟨"P", "№2", true⟩], .dequeue 3, .configure 3 0 0,
      .touchDetails 0, .reuse 3 0, .configure 3 0 1, .touchDetails 0] := by decide

end Reservation
