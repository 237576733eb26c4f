import Enmart.Auth.Provider
import Enmart.Base.Runs
import Enmart.Firestore.Write

/-!
# What is in memory and who is signed in

`getUserData` reads the users document of the account signed in when it is
called, and what it keeps of it in `AuthProvider` is used for the account
signed in when it is asked for. In between accounts come and go: signing out
changes nothing in memory, a read under way is not taken back, and the router
reads for the user home whether or not anybody is signed in. Where no document
is found only one of the two fields is written.

`readingStep` is one device on which accounts sign in and out while reads are
under way, and `described_iff` says when what is in memory describes the
account signed in after every read that completes. It is a condition on the
whole run: a user that arrives must be of the account the read was made for,
still signed in; and where no document arrives somebody must be signed in, and
no earlier read may have found a user, since nothing forgets that one.
-/

open Firestore

/-- What a call of `getUserData` is made for. -/
inductive ReadPurpose where
  | login
  | splash
  /-- The redirect to the user home. -/
  | home
  deriving DecidableEq, Repr

/-- A call of `getUserData` under way, with the account that was signed in when
it was made. -/
structure UserRead where
  uid : Option String
  purpose : ReadPurpose
  deriving DecidableEq, Repr

/-- **One device, and the users documents.** -/
structure ReadingState where
  users : Collection
  authUser : Option String
  auth : AuthProvider
  /-- The calls of `getUserData` under way. -/
  reads : List UserRead
  /-- The call that has just completed, if one has, with the page built. -/
  completed : Option (Option HomePage)

/-- What happens next. -/
inductive ReadingAction where
  /-- An account signs in through the login page, and is read. -/
  | signIn (uid : String)
  /-- The redirect to the login or the register page signs out. -/
  | signOut
  /-- A navigation to the splash screen. -/
  | openSplash
  /-- A navigation to the user home. -/
  | openHome
  /-- A document arrives. -/
  | complete (i : ℕ)
  /-- A document cannot be read. -/
  | fail (i : ℕ)
  deriving DecidableEq, Repr

namespace ReadingState

/-- The users document of an account; nobody has none. -/
def docOf (s : ReadingState) (uid : Option String) : Option Fields := uid.bind s.users

/-- `getUserData` is called. -/
def read (s : ReadingState) (purpose : ReadPurpose) : ReadingState :=
  { s with reads := s.reads ++ [⟨s.authUser, purpose⟩], completed := none }

/-- `getUserData` goes on with the document: what it keeps, and the page built
where the call was made for the home route. -/
def arrive (s : ReadingState) (i : ℕ) (r : UserRead) : ReadingState :=
  { s with
    auth := (s.auth.getUserData (s.docOf r.uid)).fst
    reads := s.reads.eraseIdx i
    completed :=
      if (s.auth.getUserData (s.docOf r.uid)).snd then
        some (if r.purpose = .home then
          some (homePage (s.auth.getUserData (s.docOf r.uid)).fst) else none)
      -- the document cannot be decoded, and nothing follows
      else none }

/-- The app starts, with the account that was signed in. -/
def start (users : Collection) (authUser : Option String) : ReadingState where
  users := users
  authUser := authUser
  auth := .empty
  reads := []
  completed := none

end ReadingState

/-- **One step of the device.** -/
def readingStep (s : ReadingState) : ReadingAction → Option ReadingState
  | .signIn uid => some (ReadingState.read { s with authUser := some uid } .login)
  -- nothing in memory is reset
  | .signOut => some { s with authUser := none, completed := none }
  | .openSplash =>
    match s.authUser with
    | none => some { s with completed := none }
    | some _ => some (s.read .splash)
  | .openHome => some (s.read .home)
  | .complete i =>
    match s.reads[i]? with
    | some r => some (s.arrive i r)
    | none => none
  | .fail i =>
    match s.reads[i]? with
    | some _ => some { s with reads := s.reads.eraseIdx i, completed := none }
    | none => none

/-- **What is in memory describes the account signed in**, whenever a call of
`getUserData` has just completed. -/
structure Described (s : ReadingState) : Prop where
  /-- The user in memory is the one of the account's document. -/
  userModel : s.completed.isSome → ∀ m, s.auth.userModel = some m →
    ∃ doc, s.docOf s.authUser = some doc ∧ UserModel.fromMap doc = some m
  /-- An administrator is signed in, without a document. -/
  isAdmin : s.completed.isSome → s.auth.isAdmin = some true →
    ∃ uid, s.authUser = some uid ∧ s.users uid = none
  /-- The user home is built for an account whose document approves it. -/
  home : s.completed = some (some .userHome) →
    ∃ doc, s.docOf s.authUser = some doc ∧ doc.get? "isApproved" = some (.bool true)

/-- The user of an account's document. -/
def ReadingState.userOf (s : ReadingState) (uid : Option String) : Option UserModel :=
  (s.docOf uid).bind UserModel.fromMap

/-- A read that has completed before found a user. -/
def FoundUser (past : List (ReadingState × ReadingAction)) : Prop :=
  ∃ s i r, (s, .complete i) ∈ past ∧ s.reads[i]? = some r ∧ (s.userOf r.uid).isSome

/-- **The account read is the one signed in.** -/
structure ReadsSignedIn (past : List (ReadingState × ReadingAction)) (s : ReadingState)
    (r : UserRead) : Prop where
  /-- A user arrives for the account it was read for, or for another whose
  document is of the same user. -/
  found : (s.userOf r.uid).isSome →
    s.authUser = r.uid ∨ s.userOf s.authUser = s.userOf r.uid
  /-- Where no document arrives somebody is signed in, the account it was asked
  for or another without one, and no user was found before. -/
  missing : s.docOf r.uid = none →
    s.authUser ≠ none ∧ (s.authUser = r.uid ∨ s.docOf s.authUser = none)
      ∧ ¬ FoundUser past

/-- **Reads complete for the account signed in.** -/
def CompletesSignedIn (past : List (ReadingState × ReadingAction)) (s : ReadingState) :
    ReadingAction → Prop
  | .complete i => ∀ r ∈ s.reads[i]?, ReadsSignedIn past s r
  | _ => True

/-- A user is approved only by a document that says so. -/
theorem UserModel.isApproved_of_fromMap {doc : Fields} {m : UserModel}
    (h : UserModel.fromMap doc = some m) (ha : m.isApproved = true) :
    doc.get? "isApproved" = some (.bool true) := by
  simp only [UserModel.fromMap, Option.bind_eq_bind, Option.bind_eq_some_iff] at h
  obtain ⟨email, -, uid, -, fullName, -, address, -, approved, happ, at', -, hm⟩ := h
  obtain rfl := Option.some.inj hm
  have htrue : approved = true := ha
  rw [htrue] at happ
  rcases hv : doc.get? "isApproved" with _ | v
  · rw [hv] at happ
    exact absurd happ (by decide)
  · rw [hv] at happ
    cases v with
    | scalar c =>
      cases c with
      | bool b =>
        obtain rfl : b = true := Option.some.inj happ
        rfl
      | null => exact absurd happ (by decide)
      | int n => exact absurd happ (by simp [approvedOf, asBool])
      | double q => exact absurd happ (by simp [approvedOf, asBool])
      | timestamp t => exact absurd happ (by simp [approvedOf, asBool])
      | string t => exact absurd happ (by simp [approvedOf, asBool])
    | array vs => exact absurd happ (by simp [approvedOf, asBool])
    | map fs => exact absurd happ (by simp [approvedOf, asBool])

namespace Described

variable {s s' : ReadingState} {a : ReadingAction} {i : ℕ} {r : UserRead}

/-- Nothing is asked while no call has just completed. -/
theorem of_none (h : s.completed = none) : Described s := by
  refine ⟨fun hc => ?_, fun hc => ?_, fun hc => ?_⟩
  · rw [h] at hc
    exact absurd hc (by simp)
  · rw [h] at hc
    exact absurd hc (by simp)
  · rw [h] at hc
    exact absurd hc (by simp)

/-- Without a document only the flag is written. -/
theorem arrive_none (hdoc : s.docOf r.uid = none) :
    (s.arrive i r).auth = { s.auth with isAdmin := some true } ∧
      (s.arrive i r).completed
        = some (if r.purpose = .home then some (homePage s.auth) else none) := by
  simp [ReadingState.arrive, hdoc, AuthProvider.getUserData, homePage]

/-- A document that can be decoded gives both fields. -/
theorem arrive_some {m : UserModel} (hdoc : s.userOf r.uid = some m) :
    (s.arrive i r).auth = ⟨some false, some m⟩ ∧
      (s.arrive i r).completed = some (if r.purpose = .home then
        some (if m.isApproved then .userHome else .userBlocked) else none) := by
  obtain ⟨doc, hdoc, hm⟩ := Option.bind_eq_some_iff.mp hdoc
  simp [ReadingState.arrive, hdoc, AuthProvider.getUserData, hm, homePage]

/-- A document that cannot be decoded completes nothing, and leaves the user
in memory. -/
theorem arrive_undecoded {doc : Fields} (hdoc : s.docOf r.uid = some doc)
    (hm : UserModel.fromMap doc = none) :
    (s.arrive i r).completed = none
      ∧ (s.arrive i r).auth.userModel = s.auth.userModel := by
  simp [ReadingState.arrive, hdoc, AuthProvider.getUserData, hm]

/-- **No document arrives well** exactly for an account that has none, with no
user left in memory. -/
theorem arrive_none_iff (hdoc : s.docOf r.uid = none) :
    Described (s.arrive i r)
      ↔ s.authUser.isSome ∧ s.docOf s.authUser = none ∧ s.auth.userModel = none := by
  obtain ⟨hauth, hcompleted⟩ := arrive_none (i := i) hdoc
  have hdone : (s.arrive i r).completed.isSome := by rw [hcompleted]; rfl
  constructor
  · intro h
    obtain ⟨uid, huid, hnone⟩ := h.isAdmin hdone (by rw [hauth])
    have hin : s.authUser = some uid := huid
    have hown : s.docOf s.authUser = none := by rw [hin]; exact hnone
    refine ⟨by rw [hin]; rfl, hown, ?_⟩
    by_contra hne
    obtain ⟨m, hm⟩ := Option.ne_none_iff_exists'.mp hne
    obtain ⟨doc, hsome, -⟩ := h.userModel hdone m (by rw [hauth]; exact hm)
    exact absurd (hown.symm.trans hsome) (by simp)
  · rintro ⟨hin, hown, hmem⟩
    obtain ⟨uid, huid⟩ := Option.isSome_iff_exists.mp hin
    refine ⟨fun _ m hm => ?_, fun _ _ => ⟨uid, huid, ?_⟩, fun hc => ?_⟩
    · rw [hauth] at hm
      exact absurd (hmem.symm.trans hm) (by simp)
    · rw [huid] at hown
      exact hown
    · -- with no user in memory the home route blocks
      rw [hcompleted] at hc
      simp [homePage, hmem] at hc

/-- **A user arrives well** exactly for the account with that user. -/
theorem arrive_some_iff {m : UserModel} (hdoc : s.userOf r.uid = some m) :
    Described (s.arrive i r) ↔ s.userOf s.authUser = some m := by
  obtain ⟨hauth, hcompleted⟩ := arrive_some (i := i) hdoc
  have hdone : (s.arrive i r).completed.isSome := by rw [hcompleted]; rfl
  constructor
  · intro h
    obtain ⟨doc, hown, hm⟩ := h.userModel hdone m (by rw [hauth])
    exact Option.bind_eq_some_iff.mpr ⟨doc, hown, hm⟩
  · intro h
    obtain ⟨doc, hown, hm⟩ := Option.bind_eq_some_iff.mp h
    refine ⟨fun _ m' hm' => ?_, fun _ hadmin => ?_, fun hc => ⟨doc, hown, ?_⟩⟩
    · rw [hauth] at hm'
      obtain rfl := Option.some.inj hm'
      exact ⟨doc, hown, hm⟩
    · rw [hauth] at hadmin
      exact absurd hadmin (by simp)
    · refine UserModel.isApproved_of_fromMap hm ?_
      by_contra hna
      rw [hcompleted] at hc
      simp [hna] at hc

end Described

/-- **What is in memory between the steps**: a user exactly when a read has
found one, and what describes the account signed in if a read has just
completed. -/
structure ReadingKept (past : List (ReadingState × ReadingAction)) (s : ReadingState) :
    Prop where
  described : Described s
  userModel : s.auth.userModel = none ↔ ¬ FoundUser past

section Past

variable {past : List (ReadingState × ReadingAction)} {s : ReadingState}
  {a : ReadingAction} {i : ℕ} {r : UserRead}

/-- A read that completes finds a user, or leaves what was found before. -/
theorem foundUser_complete (hr : s.reads[i]? = some r) :
    FoundUser (past ++ [(s, .complete i)]) ↔ FoundUser past ∨ (s.userOf r.uid).isSome := by
  constructor
  · rintro ⟨s', j, r', hmem, hr', hsome⟩
    rcases List.mem_append.mp hmem with hmem | hmem
    · exact Or.inl ⟨s', j, r', hmem, hr', hsome⟩
    · obtain ⟨rfl, hj⟩ := Prod.mk.inj (List.mem_singleton.mp hmem)
      obtain rfl := ReadingAction.complete.inj hj
      obtain rfl := Option.some.inj (hr.symm.trans hr')
      exact Or.inr hsome
  · rintro (⟨s', j, r', hmem, hr', hsome⟩ | hsome)
    · exact ⟨s', j, r', List.mem_append_left _ hmem, hr', hsome⟩
    · exact ⟨s, i, r, by simp, hr, hsome⟩

/-- No other step finds a user. -/
theorem foundUser_append (ha : ∀ i, a ≠ .complete i) :
    FoundUser (past ++ [(s, a)]) ↔ FoundUser past := by
  constructor
  · rintro ⟨s', j, r', hmem, hr', hsome⟩
    rcases List.mem_append.mp hmem with hmem | hmem
    · exact ⟨s', j, r', hmem, hr', hsome⟩
    · exact absurd (Prod.mk.inj (List.mem_singleton.mp hmem)).2.symm (ha j)
  · rintro ⟨s', j, r', hmem, hr', hsome⟩
    exact ⟨s', j, r', List.mem_append_left _ hmem, hr', hsome⟩

/-- **A call completes well exactly when it read the account signed in**, and
found no document only before any user was found. -/
theorem ReadingKept.arrive_iff (h : ReadingKept past s) :
    Described (s.arrive i r) ↔ ReadsSignedIn past s r := by
  rcases hdoc : s.docOf r.uid with _ | doc
  · rw [Described.arrive_none_iff hdoc, h.userModel, Option.isSome_iff_ne_none]
    have hnone : s.userOf r.uid = none := by rw [ReadingState.userOf, hdoc]; rfl
    constructor
    · rintro ⟨hin, hown, hfirst⟩
      exact ⟨fun hf => absurd hf (by simp [hnone]), fun _ => ⟨hin, Or.inr hown, hfirst⟩⟩
    · intro hC
      obtain ⟨hin, hsame, hfirst⟩ := hC.missing hdoc
      refine ⟨hin, ?_, hfirst⟩
      rcases hsame with hsame | hown
      · rw [hsame, hdoc]
      · exact hown
  · have hmissing : s.docOf r.uid ≠ none := by simp [hdoc]
    rcases hm : UserModel.fromMap doc with _ | m
    · have hnone : s.userOf r.uid = none := by rw [ReadingState.userOf, hdoc]; exact hm
      refine iff_of_true (Described.of_none (Described.arrive_undecoded hdoc hm).1) ?_
      exact ⟨fun hf => absurd hf (by simp [hnone]), fun hc => absurd hc hmissing⟩
    · have hsome : s.userOf r.uid = some m := by rw [ReadingState.userOf, hdoc]; exact hm
      rw [Described.arrive_some_iff hsome]
      constructor
      · intro hown
        exact ⟨fun _ => Or.inr (hown.trans hsome.symm), fun hc => absurd hc hmissing⟩
      · intro hC
        rcases hC.found (by simp [hsome]) with hsame | halike
        · rw [hsame, hsome]
        · rw [halike, hsome]

/-- The user in memory after a read. -/
theorem userModel_arrive (s : ReadingState) (i : ℕ) (r : UserRead) :
    (s.arrive i r).auth.userModel = (s.userOf r.uid).or s.auth.userModel := by
  unfold ReadingState.userOf
  rcases hdoc : s.docOf r.uid with _ | doc
  · rw [(Described.arrive_none (i := i) hdoc).1]
    rfl
  · rcases hm : UserModel.fromMap doc with _ | m
    · rw [(Described.arrive_undecoded (i := i) hdoc hm).2]
      simp [hm]
    · have hsome : s.userOf r.uid = some m := by rw [ReadingState.userOf, hdoc]; exact hm
      rw [(Described.arrive_some (i := i) hsome).1]
      simp [hm]

/-- **What a step does**: a read completes, or nothing has just completed and
the user in memory stays. -/
theorem readingStep_cases {s' : ReadingState} (h : readingStep s a = some s') :
    (∃ i r, a = .complete i ∧ s.reads[i]? = some r ∧ s' = s.arrive i r)
      ∨ ((∀ i, a ≠ .complete i) ∧ s'.completed = none ∧ s'.auth = s.auth) := by
  cases a with
  | signIn uid =>
    obtain rfl := Option.some.inj h
    exact Or.inr ⟨fun _ => by simp, rfl, rfl⟩
  | signOut =>
    obtain rfl := Option.some.inj h
    exact Or.inr ⟨fun _ => by simp, rfl, rfl⟩
  | openSplash =>
    rw [readingStep] at h
    split at h
    · obtain rfl := Option.some.inj h
      exact Or.inr ⟨fun _ => by simp, rfl, rfl⟩
    · obtain rfl := Option.some.inj h
      exact Or.inr ⟨fun _ => by simp, rfl, rfl⟩
  | openHome =>
    obtain rfl := Option.some.inj h
    exact Or.inr ⟨fun _ => by simp, rfl, rfl⟩
  | complete i =>
    rw [readingStep] at h
    split at h
    · next r hr => exact Or.inl ⟨i, r, rfl, hr, (Option.some.inj h).symm⟩
    · exact absurd h (by simp)
  | fail i =>
    rw [readingStep] at h
    split at h
    · obtain rfl := Option.some.inj h
      exact Or.inr ⟨fun _ => by simp, rfl, rfl⟩
    · exact absurd h (by simp)

end Past

namespace ReadingKept

variable {past : List (ReadingState × ReadingAction)} {s s' : ReadingState}
  {a : ReadingAction}

/-- The app has just started, and nothing is in memory. -/
theorem start (users : Collection) (authUser : Option String) :
    ReadingKept [] (.start users authUser) where
  described := Described.of_none rfl
  userModel := iff_of_true rfl (fun ⟨_, _, _, h, _⟩ => absurd h List.not_mem_nil)

/-- **A read that completes for the account signed in** keeps the memory. -/
theorem step (h : ReadingKept past s) (hC : CompletesSignedIn past s a)
    (hstep : readingStep s a = some s') : ReadingKept (past ++ [(s, a)]) s' := by
  rcases readingStep_cases hstep with ⟨i, r, rfl, hr, rfl⟩ | ⟨ha, hcompleted, hauth⟩
  · refine ⟨h.arrive_iff.mpr (hC r hr), ?_⟩
    rw [foundUser_complete hr, userModel_arrive, Option.or_eq_none_iff, h.userModel,
      not_or, Option.not_isSome_iff_eq_none, and_comm]
  · exact ⟨Described.of_none hcompleted, by rw [hauth, foundUser_append ha]; exact h.userModel⟩

/-- **A read that completes for another** shows. -/
theorem not_described (h : ReadingKept past s) (hC : ¬ CompletesSignedIn past s a)
    (hstep : readingStep s a = some s') : ¬ Described s' := by
  rcases readingStep_cases hstep with ⟨i, r, rfl, hr, rfl⟩ | ⟨ha, -, -⟩
  · intro hd
    refine hC (fun r' hr' => ?_)
    obtain rfl := Option.some.inj (hr.symm.trans hr')
    exact h.arrive_iff.mp hd
  · cases a with
    | complete i => exact absurd rfl (ha i)
    | _ => exact absurd trivial hC

end ReadingKept

/-- **When the memory describes the account signed in.** From the start of the
app, in any run of sign-ins, sign-outs, navigations to the splash screen and
the user home, and arriving or failing reads, what is in memory and what the
home route builds describe the account signed in whenever a call of
`getUserData` completes – exactly when each user that arrives is of the account
it was read for, still signed in, and a call that finds no document completes
for somebody signed in and before any call that found a user. -/
theorem described_iff (users : Collection) (authUser : Option String)
    (as : List ReadingAction) :
    Runs.Along readingStep Described (.start users authUser) as
      ↔ Runs.MeetsAfter readingStep CompletesSignedIn [] (.start users authUser) as :=
  Runs.along_iff_meetsAfter (fun _ _ h => h.described)
    (fun _ _ _ _ h hC hstep => h.step hC hstep)
    (fun _ _ _ _ h hC hstep => h.not_described hC hstep) (ReadingKept.start users authUser)

/-- An approved user, for worked examples. -/
def approvedUser (uid : String) : UserModel where
  email := uid
  uid := uid
  fullName := uid
  address := ""
  isApproved := true
  createdAt := ⟨0⟩

/-- **A customer left in memory**: an approved customer signs in and out, and an
administrator after that has the customer for a user. -/
theorem customer_in_memory :
    ¬ ∀ (users : Collection) (authUser : Option String) (as : List ReadingAction),
      Runs.Along readingStep Described (.start users authUser) as := by
  intro h
  have hlaw := h (Function.update (fun _ => none) "c" (some (approvedUser "c").toMap)) none
    [.signIn "c", .complete 0, .signOut, .signIn "a", .complete 0]
  obtain ⟨doc, hdoc, -⟩ := (hlaw.last rfl).userModel (by decide +kernel) (approvedUser "c")
    (by decide +kernel)
  have hnone : Function.update (fun _ => none) "c" (some (approvedUser "c").toMap) "a"
      = some doc := hdoc
  rw [Function.update_of_ne (by decide)] at hnone
  exact absurd hnone (by simp)
