import Reservation.FetchUserData
import Reservation.Decoding

/-! `fetchUserData` from the file in the bundle on. Every run decodes the same
file and saves what it carries once more. -/

namespace Reservation

open ManagedObjects LawfulDecodable

/-- What `ServiceReadJSON` uses of the main bundle. -/
structure Bundle where
  path : (forResource ofType : String) → Option String
  contentsOfFile : (bundlePath : String) → Except NSError String

/-- `data(using: .utf8)`; every text has one. -/
def utf8 (text : String) : Data := text.toUTF8.toList

/-- What the closure is called with, if it is. -/
def ServiceReadJSON.read (bundle : Bundle) (name : String) : Option Data :=
  match bundle.path name "json" with
  | none => none
  | some bundlePath =>
    match bundle.contentsOfFile bundlePath with
    | .ok contents => some (utf8 contents)
    -- the error is printed
    | .error _ => none

/-- The operations that one run of `fetchUserData` adds to the queue. -/
def fetchUserData (json : JSONSerialization) (bundle : Bundle) : List UserOperation :=
  match ServiceReadJSON.read bundle "User" with
  | none => []
  | some data =>
    match ServiceParse.parsingArray json data with
    | none => []
    | some user => UserOperation.fetchUserData user

/-- The file is there and its text is a document that carries these users. -/
def Provides (json : JSONSerialization) (bundle : Bundle) (user : List User) : Prop :=
  ∃ bundlePath contents j, bundle.path "User" "json" = some bundlePath ∧
    bundle.contentsOfFile bundlePath = .ok contents ∧ json.jsonObject (utf8 contents) = some j ∧
    j.Carries (encode user)

section

variable {json : JSONSerialization} {bundle : Bundle}

theorem read_eq_some {name : String} {data : Data} : ServiceReadJSON.read bundle name = some data ↔
    ∃ bundlePath contents, bundle.path name "json" = some bundlePath ∧
      bundle.contentsOfFile bundlePath = .ok contents ∧ data = utf8 contents := by
  rw [ServiceReadJSON.read]
  cases hpath : bundle.path name "json" with
  | none => simp
  | some bundlePath =>
    cases hcontents : bundle.contentsOfFile bundlePath with
    | error _ => simp [hcontents]
    | ok contents => simp [hcontents, eq_comm]

theorem provides_iff {user : List User} : Provides json bundle user ↔
    ∃ data, ServiceReadJSON.read bundle "User" = some data ∧ ServiceParse.parsingArray json data = some user := by
  simp only [read_eq_some, ServiceParse.parsingArray, JSONSerialization.decodeData_iff]
  constructor
  · rintro ⟨bundlePath, contents, j, hpath, hcontents, hj, hcarries⟩
    exact ⟨utf8 contents, ⟨bundlePath, contents, hpath, hcontents, rfl⟩, j, hj, hcarries⟩
  · rintro ⟨_, ⟨bundlePath, contents, hpath, hcontents, rfl⟩, j, hj, hcarries⟩
    exact ⟨bundlePath, contents, j, hpath, hcontents, hj, hcarries⟩

theorem Provides.unique {user user' : List User} (h : Provides json bundle user)
    (h' : Provides json bundle user') : user = user' := by
  obtain ⟨data, hread, hparse⟩ := provides_iff.mp h
  obtain ⟨data', hread', hparse'⟩ := provides_iff.mp h'
  obtain rfl := Option.some.inj (hread.symm.trans hread')
  exact Option.some.inj (hparse.symm.trans hparse')

end

namespace UserFetch

end UserFetch

end Reservation
