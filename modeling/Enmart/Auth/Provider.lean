import Enmart.Models.User

/-!
# Whether an account is an administrator's

`AuthProvider` keeps in memory whether the signed-in account is an
administrator's, and the user it has read. Nothing in the store says of an
account that it is an administrator's: `getUserData` takes one without a
document in the users collection for that. The home route shows the user home
while the user in memory is approved.
-/

open Firestore

/-- **`AuthProvider`**, as far as it is kept in memory. -/
structure AuthProvider where
  isAdmin : Option Bool
  userModel : Option UserModel
  deriving DecidableEq, Repr

/-- `AuthProvider` when the app starts. -/
def AuthProvider.empty : AuthProvider := ⟨none, none⟩

/-- **`getUserData`**, from the document read: an account without one is an
administrator's. `false` stands for the exception raised by a document that
cannot be read. -/
def AuthProvider.getUserData (p : AuthProvider) : Option Fields → AuthProvider × Bool
  | some doc =>
    -- the flag is set before the document is decoded
    match UserModel.fromMap doc with
    | some m => (⟨some false, some m⟩, true)
    | none => ({ p with isAdmin := some false }, false)
  | none => ({ p with isAdmin := some true }, true)

/-- What the home route builds. -/
inductive HomePage where
  | userHome
  | userBlocked
  deriving DecidableEq, Repr

/-- **The page the home route builds**: the user home for an approved user. -/
def homePage (p : AuthProvider) : HomePage :=
  if (p.userModel.map UserModel.isApproved).getD false then .userHome else .userBlocked

/-- **An account is taken for an administrator's exactly when it has no
document**, whatever was in memory. -/
theorem AuthProvider.isAdmin_getUserData (p : AuthProvider) (doc : Option Fields) :
    (p.getUserData doc).fst.isAdmin = some true ↔ doc = none := by
  cases doc with
  | none => exact ⟨fun _ => rfl, fun _ => rfl⟩
  | some doc =>
    rcases hm : UserModel.fromMap doc with _ | m
    · simp [getUserData, hm]
    · simp [getUserData, hm]

/-- Nothing is raised where there is no document to read. -/
theorem AuthProvider.getUserData_none (p : AuthProvider) :
    (p.getUserData none).snd = true := rfl

/-- **Who comes to the user home** with the document just read: an approved
user. -/
theorem AuthProvider.homePage_getUserData (p : AuthProvider) {doc : Fields} {m : UserModel}
    (hm : UserModel.fromMap doc = some m) :
    homePage (p.getUserData (some doc)).fst
      = if m.isApproved then .userHome else .userBlocked := by
  simp [getUserData, hm, homePage]
