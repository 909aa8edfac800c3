import Reservation.RemoteHistory

/-! Back from the booking form to the bytes of the network: the form is pushed
only by the cells of records that were downloaded as available. -/

namespace Reservation

def RemoteEffect.configure (controller cell : Nat) (effect : RemoteEffect) : Option Bool :=
  effect.bookingEffect.bind (BookingEffect.configure controller cell)

section

variable (json : JSONSerialization) (email password : Text)

/-- A sign-in that the login screen was waiting for has succeeded. -/
def Accepted (past : List RemoteEvent) : Prop :=
  ∃ before call after, past = before ++ .login (.completion call none) :: after ∧
    call ∈ ((remoteBooking json).run (.launch email password) before).app.login.pending ∧
    ((remoteBooking json).run (.launch email password) before).app.login.isListening call = true

/-- The cell was last configured with a row of a list that had been downloaded
for its table, and the record in that row is available. -/
def Serves {α : Type} [Decodable α] [LawfulDecodable α] (isAvailable : α → Bool)
    (past : List RemoteEvent) (c cell : Nat) : Prop :=
  ∃ before row after list record, past = before ++ .configure c cell row :: after ∧
    Downloaded json email password before c list ∧ list[row]? = some record ∧ isAvailable record = true ∧
    ((remoteBooking json).outputs ((remoteBooking json).run (.launch email password)
      (before ++ [.configure c cell row])) after).filterMap (RemoteEffect.configure c cell) = []

/-- The event touches the details button of such a cell on the controller on top. -/
def TouchesServed {α : Type} [Decodable α] [LawfulDecodable α] (isAvailable : α → Bool)
    (past : List RemoteEvent) (e : RemoteEvent) (c : Nat) : Prop :=
  ∃ cell, e = .touchDetails cell ∧
    ((remoteBooking json).run (.launch email password) past).app.topViewController.map (·.1) = some c ∧
    Serves json email password isAvailable past c cell

end

section

variable {json : JSONSerialization} {email password : Text} {past : List RemoteEvent}

theorem outputs_configure (s : RemoteApp) (es : List RemoteEvent) (c cell : Nat) :
    ((remoteBooking json).outputs s es).filterMap (RemoteEffect.configure c cell) =
      (booking.outputs s.app ((remoteBooking json).passedOn (RemoteApp.passes json) s es)).filterMap
        (BookingEffect.configure c cell) := by
  have hout : ∀ (s : RemoteApp) (e : RemoteEvent), ((remoteBooking json).step s e).2.filterMap
      RemoteEffect.bookingEffect = booking.outputs s.app (s.passes json e) := by
    intro s e
    have herrors : (s.bindingErrors json e).filterMap RemoteEffect.bookingEffect = [] := by
      cases e <;> simp [RemoteApp.bindingErrors, RemoteEffect.bookingEffect]
    have hbooking : RemoteEffect.bookingEffect ∘ RemoteEffect.booking = some := rfl
    simp only [remoteBooking, RemoteApp.step, List.filterMap_append, herrors, List.append_nil,
      List.filterMap_map, hbooking, List.filterMap_some]
  rw [← Machine.outputs_passedOn (π := RemoteApp.app) (fun _ _ => rfl) hout s es, List.filterMap_filterMap]
  rfl

theorem SignedIn.accepted (h : SignedIn email password (bookingEvents json email password past)) :
    Accepted json email password past := by
  obtain ⟨before, call, after, hsplit, hpending, hlistening⟩ := h
  obtain ⟨past', e, future, rfl, rfl, hpasses, _⟩ := bookingEvents_split json email password hsplit
  obtain rfl := RemoteApp.passes_remote hpasses rfl
  rw [← remoteBooking_app] at hpending hlistening
  exact ⟨past', call, future, rfl, hpending, hlistening⟩

theorem Offers.serves {α : Type} [Decodable α] [LawfulDecodable α] {download : Nat → List α → BookingEvent}
    (hdownloaded : ∀ {es : List RemoteEvent} {c : Nat} {list : List α},
      download c list ∈ bookingEvents json email password es → Downloaded json email password es c list)
    {isAvailable : α → Bool} {c cell : Nat}
    (h : Offers download isAvailable email password (bookingEvents json email password past) c cell) :
    Serves json email password isAvailable past c cell := by
  obtain ⟨before, row, after, list, record, hsplit, hlist, hrecord, havailable, hquiet⟩ := h
  obtain ⟨past', e, future, rfl, rfl, hpasses, rfl⟩ := bookingEvents_split json email password hsplit
  obtain rfl := RemoteApp.passes_remote hpasses rfl
  refine ⟨past', row, future, list, record, rfl, hdownloaded hlist, hrecord, havailable, ?_⟩
  rw [outputs_configure, remoteBooking_app]
  have hconfigure : bookingEvents json email password (past' ++ [.configure c cell row]) =
      bookingEvents json email password past' ++ [.configure c cell row] := Machine.passedOn_snoc _ _ _ _ _
  rw [hconfigure]
  exact hquiet

theorem TouchesAvailable.served {α : Type} [Decodable α] [LawfulDecodable α]
    {download : Nat → List α → BookingEvent}
    (hdownloaded : ∀ {es : List RemoteEvent} {c : Nat} {list : List α},
      download c list ∈ bookingEvents json email password es → Downloaded json email password es c list)
    {isAvailable : α → Bool} {screen : Screen} {b : BookingEvent} {e : RemoteEvent} {c : Nat}
    (h : TouchesAvailable email password (bookingEvents json email password past) b screen c)
    (hoffers : ∃ k, b = .touchDetails k ∧
      Offers download isAvailable email password (bookingEvents json email password past) c k)
    (hpasses : b ∈ ((remoteBooking json).run (.launch email password) past).passes json e) :
    TouchesServed json email password isAvailable past e c := by
  obtain ⟨k, rfl, hoffers⟩ := hoffers
  obtain ⟨vc, _, _, htop, _, _⟩ := h
  refine ⟨k, RemoteApp.passes_remote hpasses rfl, ?_, hoffers.serves hdownloaded⟩
  rw [remoteBooking_app, htop]
  rfl

end

/-- Over every history of the screens and of the network, the booking form is
pushed only after a sign-in that succeeded, by the cell of a workplace that some
document carries as available, on a controller pushed by the cell of a room that
some document carries as available. -/
theorem form_follows_documents (json : JSONSerialization) (email password : Text) (es : List RemoteEvent) :
    Machine.AtEach (fun past e => ∀ form, .booking (.pushed form .chooseDateVC) ∈
        (remoteBooking json).emit (.launch email password) past e →
      Accepted json email password past ∧
      ∃ workplaces, TouchesServed json email password WorkPlace.isAvailable past e workplaces ∧
        ∃ before touch after rooms, past = before ++ touch :: after ∧
          TouchesServed json email password RoomsJSON.isAvailable before touch rooms ∧
          .booking (.pushed workplaces .workPlaceViewController) ∈
            (remoteBooking json).emit (.launch email password) before touch) es := by
  intro past e future _ form hpushed
  obtain ⟨b, hpasses, hform⟩ := (mem_emit_booking json email password).mp hpushed
  obtain ⟨hsigned, workplaces, hroom, htouch⟩ := (booking_traced email password _).form_guarded hform
  refine ⟨hsigned.accepted, workplaces,
    htouch.served downloaded_workplaces htouch.offersWorkplace hpasses, ?_⟩
  obtain ⟨before, b', after, rooms, hsplit, htouch', hpushed'⟩ := hroom
  obtain ⟨before', e', after', hpast, rfl, hpasses', _⟩ := bookingEvents_split json email password hsplit
  refine ⟨before', e', after', rooms, hpast, htouch'.served downloaded_rooms htouch'.offersRoom hpasses', ?_⟩
  exact (mem_emit_booking json email password).mpr ⟨b', hpasses', hpushed'⟩

end Reservation
