import Reservation.Machine
import Reservation.RxOperators
import Reservation.Queue
import Reservation.Bag
import Reservation.AsyncLock
import Reservation.CatchSequence
import Reservation.MergeSink
import Reservation.CombineLatestSink
import Reservation.ManagedObjects
import Reservation.OneToOne
import Reservation.Errors
import Reservation.ValidationService
import Reservation.AuthViewModel
import Reservation.AuthorizationViewController
import Reservation.LoginHistory
import Reservation.LoginCalls
import Reservation.LoginAttempts
import Reservation.LoginOutcomes
import Reservation.Navigation
import Reservation.KeyValueCoding
import Reservation.DataModel
import Reservation.UserStore
import Reservation.UserRows
import Reservation.UserRoundTrip
import Reservation.UserInvariant
import Reservation.FetchUserData
import Reservation.Catalogue
import Reservation.FailedSaves
import Reservation.MixedSaves
import Reservation.Decimal
import Reservation.WorkplaceOrder
import Reservation.AuthTransform
import Reservation.InjectedService
import Reservation.RetriedTransform
import Reservation.ChooseDate
import Reservation.FieldEpisodes
import Reservation.Booking
import Reservation.BookingSteps
import Reservation.BookingGuards
import Reservation.BookingNavigation
import Reservation.LoginLaw
import Reservation.LoginAccounts
import Reservation.Lockout
import Reservation.TableDownloads
import Reservation.FormReach
import Reservation.Json
import Reservation.Decoding
import Reservation.ServiceDownloadData
import Reservation.BookingDownloads
import Reservation.RemoteBooking
import Reservation.RemoteHistory
import Reservation.RemoteForm
import Reservation.Journal
import Reservation.StoreHistory
import Reservation.TimeFormLaw
import Reservation.UserFile
import Reservation.OrphanRows
import Reservation.BookingCells
import Reservation.OfficeChoiceController
