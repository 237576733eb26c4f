import Enmart.Base.Runs
import Enmart.Auth.Provider
import Enmart.Firestore.Write

/-!
# Registering, signing in and restarting

Registration creates the account first and writes its users document second,
and either of the two may fail, or the app may stop in between. The account
is signed in from its creation on, and stays so when the app is restarted.

`sessionStep` is one device going through registrations, logins, restarts and
logouts, any request of which may fail. The documents of the accounts it
registered are exactly the ones whose write landed (`SessionKept`), so an
account left without one is an administrator's from the next time it is read,
and `registered_not_admin_iff` says that no other is.
-/

open Firestore

/-! ## The session -/

/-- What the app shows. -/
inductive Page where
  /-- The app is not running. -/
  | closed
  | splash
  | login
  | register
  | adminHome
  | userHome
  deriving DecidableEq, Repr

/-- An account created through `register`, and whether the write of its users
document landed. -/
structure Registration where
  uid : String
  written : Bool
  deriving DecidableEq, Repr

/-- **A device, the accounts and the users collection.** -/
structure Session where
  accounts : List String
  users : Collection
  registrations : List Registration
  /-- The account signed in, which outlives the app. -/
  authUser : Option String
  auth : AuthProvider
  /-- The account `getUserData` last completed for. -/
  fetchedFor : Option String
  page : Page

/-- How far a registration gets. -/
inductive RegisterOutcome where
  /-- The account is not created. -/
  | createFails
  /-- The app stops once the account is created. -/
  | stopsAfterCreate
  /-- The write of the users document fails. -/
  | writeFails
  /-- The app stops once the users document is written. -/
  | stopsAfterWrite
  | done
  deriving DecidableEq, Repr

/-- How far a login gets. -/
inductive LoginOutcome where
  /-- The account is not signed in. -/
  | signInFails
  /-- The app stops once the account is signed in. -/
  | stopsAfterSignIn
  /-- The users document is not read. -/
  | getFails
  | done
  deriving DecidableEq, Repr

/-- How far the splash screen gets. -/
inductive CheckOutcome where
  /-- The app stops, or the users document is not read. -/
  | getFails
  /-- The users document is read, but a customer's cart is not. -/
  | cartFails
  | done
  deriving DecidableEq, Repr

/-- What happens next. -/
inductive SessionAction where
  | register (uid email fulName address : String) (now : DateTime)
      (outcome : RegisterOutcome)
  | login (uid : String) (outcome : LoginOutcome)
  /-- The app is restarted, and the splash screen checks who is signed in. -/
  | restart (outcome : CheckOutcome)
  /-- The redirect to the login or the register page signs out. -/
  | logout (toRegister : Bool)
  /-- The redirect to the user home reads the users document again. -/
  | openHome (ok : Bool)
  deriving DecidableEq, Repr

namespace Session

/-- The page an account is sent to. -/
def home (p : AuthProvider) : Page :=
  if p.isAdmin = some true then .adminHome else .userHome

/-- The app stops: what is in memory is gone. -/
def stop (s : Session) : Session :=
  { s with auth := .empty, fetchedFor := none, page := .closed }

/-- `getUserData` for an account, and the page that follows where it
completes. -/
def fetch (s : Session) (uid : String) (next : AuthProvider → Page) : Session :=
  if (s.auth.getUserData (s.users uid)).snd then
    { s with
      auth := (s.auth.getUserData (s.users uid)).fst
      fetchedFor := some uid
      page := next (s.auth.getUserData (s.users uid)).fst }
  else { s with auth := (s.auth.getUserData (s.users uid)).fst }

/-- An account is created and signed in, its document written or not. -/
def create (s : Session) (uid : String) (doc : Option Fields) : Session :=
  { s with
    accounts := uid :: s.accounts
    users := match doc with
      | some doc => s.users.set uid (Fields.values doc)
      | none => s.users
    registrations := ⟨uid, doc.isSome⟩ :: s.registrations
    authUser := some uid }

end Session

/-- **One step of the session.** A new account has an identifier that no
account and no document has. -/
def sessionStep (s : Session) : SessionAction → Option Session
  | .register uid email fulName address now outcome =>
    if s.page = .register ∧ uid ∉ s.accounts ∧ s.users uid = none then
      let m : UserModel := ⟨email, uid, fulName, address, false, now⟩
      match outcome with
      | .createFails => some s
      | .stopsAfterCreate => some (s.create uid none).stop
      -- the error is caught, and the account stays signed in
      | .writeFails => some (s.create uid none)
      | .stopsAfterWrite => some (s.create uid (some m.toMap)).stop
      | .done =>
        some { s.create uid (some m.toMap) with
          auth := ⟨some false, some m⟩
          page := Session.home ⟨some false, some m⟩ }
    else none
  | .login uid outcome =>
    if s.page = .login ∧ uid ∈ s.accounts then
      match outcome with
      | .signInFails => some s
      | .stopsAfterSignIn => some { s.stop with authUser := some uid }
      | .getFails => some { s with authUser := some uid }
      | .done => some (Session.fetch { s with authUser := some uid } uid Session.home)
    else none
  | .restart outcome =>
    match s.authUser with
    | none => some { s.stop with page := .login }
    | some uid =>
      match outcome with
      | .getFails => some { s.stop with page := .splash }
      | .cartFails =>
        some (Session.fetch { s.stop with page := .splash } uid (fun p =>
          if p.isAdmin = some true then .adminHome else .splash))
      | .done => some (Session.fetch { s.stop with page := .splash } uid Session.home)
  | .logout toRegister =>
    if s.page = .closed then none
    else some { s with
      authUser := none
      page := if toRegister then .register else .login }
  | .openHome ok =>
    if s.page = .userHome then
      s.authUser.map (fun uid => if ok then s.fetch uid (fun _ => .userHome) else s)
    else none

/-! ## The law -/

/-- **A registered account is no administrator's**: `isAdmin` is not true once
`getUserData` has completed for it, and it is not sent to the admin home. -/
def RegisteredNotAdmin (s : Session) : Prop :=
  ∀ r ∈ s.registrations, s.authUser = some r.uid →
    (s.fetchedFor = some r.uid → s.auth.isAdmin ≠ some true) ∧ s.page ≠ .adminHome

/-- **Read only with a document**: where `getUserData` completes for an account
created through `register`, the write of its users document had landed. -/
def ReadsWritten (s : Session) : SessionAction → Prop
  | .login uid .done => ∀ r ∈ s.registrations, r.uid = uid → r.written = true
  | .restart .cartFails => ∀ r ∈ s.registrations, s.authUser = some r.uid → r.written = true
  | .restart .done => ∀ r ∈ s.registrations, s.authUser = some r.uid → r.written = true
  | .openHome true => ∀ r ∈ s.registrations, s.authUser = some r.uid → r.written = true
  | _ => True

/-- What is so between the steps. -/
structure SessionKept (s : Session) : Prop where
  /-- A registered account has the document its registration wrote, if it
  wrote one. -/
  documents : ∀ r ∈ s.registrations,
    if r.written then ∃ m, s.users r.uid = some (UserModel.toMap m) else s.users r.uid = none
  /-- Registered accounts are accounts. -/
  registered : ∀ r ∈ s.registrations, r.uid ∈ s.accounts
  /-- So is the one signed in. -/
  signedIn : ∀ uid, s.authUser = some uid → uid ∈ s.accounts
  /-- So is the one read. -/
  fetched : ∀ uid, s.fetchedFor = some uid → uid ∈ s.accounts
  /-- What is read for a registered account does not make it an
  administrator's. -/
  notAdmin : ∀ r ∈ s.registrations, s.fetchedFor = some r.uid → s.auth.isAdmin ≠ some true
  /-- The admin home is shown to the account read. -/
  adminHome : s.page = .adminHome →
    s.auth.isAdmin = some true ∧ s.fetchedFor = s.authUser

/-- A device on which no account has been registered yet. -/
def Session.start (accounts : List String) (users : Collection) : Session where
  accounts := accounts
  users := users
  registrations := []
  authUser := none
  auth := .empty
  fetchedFor := none
  page := .closed

theorem sessionKept_start (accounts : List String) (users : Collection) :
    SessionKept (Session.start accounts users) := by
  refine ⟨?_, ?_, ?_, ?_, ?_, ?_⟩
  · exact fun r hr => absurd hr List.not_mem_nil
  · exact fun r hr => absurd hr List.not_mem_nil
  · exact fun uid h => absurd h (by simp [Session.start])
  · exact fun uid h => absurd h (by simp [Session.start])
  · exact fun r hr => absurd hr List.not_mem_nil
  · exact fun h => absurd h (by simp [Session.start])

namespace SessionKept

variable {s s' : Session} {a : SessionAction} {uid : String}

/-- **Between the steps no registered account is an administrator's.** -/
theorem registeredNotAdmin (h : SessionKept s) : RegisteredNotAdmin s := by
  intro r hr hauth
  refine ⟨h.notAdmin r hr, fun hpage => ?_⟩
  obtain ⟨hadmin, hfetched⟩ := h.adminHome hpage
  rw [hauth] at hfetched
  exact h.notAdmin r hr hfetched hadmin

/-- The app may stop at any moment, and start with any page that is no
administrator's. -/
theorem stop (h : SessionKept s) (page : Page) (hpage : page ≠ .adminHome) :
    SessionKept { s.stop with page := page } := by
  refine ⟨h.documents, h.registered, h.signedIn, ?_, ?_, ?_⟩
  · exact fun uid hf => absurd hf (by simp [Session.stop])
  · exact fun r _ hf => absurd hf (by simp [Session.stop])
  · exact fun hp => absurd hp hpage

/-- An account may be signed in while nothing of an administrator's is
shown. -/
theorem signIn (h : SessionKept s) (huid : uid ∈ s.accounts)
    (hpage : s.page ≠ .adminHome) : SessionKept { s with authUser := some uid } := by
  refine ⟨h.documents, h.registered, ?_, h.fetched, h.notAdmin, ?_⟩
  · intro uid' h'
    rw [← Option.some.inj h']
    exact huid
  · exact fun hp => absurd hp hpage

/-- **Reading an account that has its document** makes it no
administrator's. -/
theorem fetch (h : SessionKept s) (hauth : s.authUser = some uid)
    (hwritten : ∀ r ∈ s.registrations, r.uid = uid → r.written = true)
    (next : AuthProvider → Page)
    (hnext : ∀ p, next p = .adminHome → p.isAdmin = some true)
    (hpage : s.page ≠ .adminHome) : SessionKept (s.fetch uid next) := by
  have hread := AuthProvider.isAdmin_getUserData s.auth (s.users uid)
  -- the document is there, so it is not the account of an administrator
  have hnot : ∀ r ∈ s.registrations, uid = r.uid →
      (s.auth.getUserData (s.users uid)).fst.isAdmin ≠ some true := by
    intro r hr heq hadmin
    have hdoc := h.documents r hr
    rw [if_pos (hwritten r hr heq.symm), ← heq] at hdoc
    obtain ⟨m, hm⟩ := hdoc
    have hnone := hread.mp hadmin
    rw [hm] at hnone
    exact absurd hnone (by simp)
  unfold Session.fetch
  by_cases hok : (s.auth.getUserData (s.users uid)).snd
  · rw [if_pos hok]
    refine ⟨h.documents, h.registered, h.signedIn, ?_, ?_, ?_⟩
    · intro uid' hf
      rw [← Option.some.inj hf]
      exact h.signedIn uid hauth
    · exact fun r hr hf => hnot r hr (Option.some.inj hf)
    · exact fun hp => ⟨hnext _ hp, hauth.symm⟩
  · rw [if_neg hok]
    have hsome : s.users uid ≠ none := fun hnone =>
      hok (by rw [hnone]; exact AuthProvider.getUserData_none s.auth)
    refine ⟨h.documents, h.registered, h.signedIn, h.fetched, ?_, ?_⟩
    · exact fun r _ _ hadmin => hsome (hread.mp hadmin)
    · exact fun hp => absurd hp hpage

/-- **An account is created**, its document written or not. -/
theorem create (h : SessionKept s) (hnew : uid ∉ s.accounts)
    (hnodoc : s.users uid = none) (m : Option UserModel) (hpage : s.page ≠ .adminHome) :
    SessionKept (s.create uid (m.map UserModel.toMap)) := by
  have hold : ∀ r ∈ s.registrations, r.uid ≠ uid := fun r hr heq =>
    hnew (heq ▸ h.registered r hr)
  refine ⟨?_, ?_, ?_, ?_, ?_, ?_⟩
  · intro r hr
    rcases List.mem_cons.mp hr with rfl | hr'
    · cases m with
      | none => exact hnodoc
      | some m =>
        refine ⟨m, ?_⟩
        show Collection.set s.users uid _ uid = _
        rw [Collection.set_self, Fields.ofUpdate_values (UserModel.toMap_sorted m)]
    · cases m with
      | none => exact h.documents r hr'
      | some m =>
        show if r.written then ∃ m', Collection.set s.users uid _ r.uid = _
          else Collection.set s.users uid _ r.uid = none
        rw [Collection.set_of_ne _ (hold r hr')]
        exact h.documents r hr'
  · intro r hr
    rcases List.mem_cons.mp hr with rfl | hr
    · exact List.mem_cons_self ..
    · exact List.mem_cons_of_mem _ (h.registered r hr)
  · intro uid' h'
    rw [← Option.some.inj h']
    exact List.mem_cons_self ..
  · exact fun uid' hf => List.mem_cons_of_mem _ (h.fetched uid' hf)
  · intro r hr hf
    rcases List.mem_cons.mp hr with rfl | hr
    · exact absurd (h.fetched uid hf) hnew
    · exact h.notAdmin r hr hf
  · exact fun hp => absurd hp hpage

/-- The page an account is sent to is the admin home for an administrator's
only. -/
theorem home_eq_adminHome {p : AuthProvider} (h : Session.home p = .adminHome) :
    p.isAdmin = some true := by
  unfold Session.home at h
  by_cases hp : p.isAdmin = some true
  · exact hp
  · rw [if_neg hp] at h
    exact absurd h (by decide)

/-- **A registration**, however far it gets, makes the account created no
administrator's. -/
theorem register (h : SessionKept s) {uid email fulName address : String} {now : DateTime}
    {outcome : RegisterOutcome}
    (hstep : sessionStep s (.register uid email fulName address now outcome) = some s') :
    SessionKept s' := by
  by_cases hguard : s.page = .register ∧ uid ∉ s.accounts ∧ s.users uid = none
  · obtain ⟨hpage, hnew, hnodoc⟩ := hguard
    have hhome : s.page ≠ .adminHome := by rw [hpage]; decide
    have hcreate := h.create hnew hnodoc
    simp only [sessionStep, if_pos (And.intro hpage (And.intro hnew hnodoc))] at hstep
    cases outcome with
    | createFails =>
      obtain rfl := Option.some.inj hstep
      exact h
    | stopsAfterCreate =>
      obtain rfl := Option.some.inj hstep
      exact (hcreate none hhome).stop .closed (by decide)
    | writeFails =>
      obtain rfl := Option.some.inj hstep
      exact hcreate none hhome
    | stopsAfterWrite =>
      obtain rfl := Option.some.inj hstep
      exact (hcreate (some _) hhome).stop .closed (by decide)
    | done =>
      obtain rfl := Option.some.inj hstep
      have hkept := hcreate (some ⟨email, uid, fulName, address, false, now⟩) hhome
      exact ⟨hkept.documents, hkept.registered, hkept.signedIn, hkept.fetched,
        fun _ _ _ hadmin => absurd (Option.some.inj hadmin) Bool.false_ne_true,
        fun hp => absurd hp (by simp [Session.home])⟩
  · simp [sessionStep, hguard] at hstep

/-- **The splash screen** reads the account that was signed in, if any. -/
theorem restart (h : SessionKept s) {outcome : CheckOutcome}
    (hC : ReadsWritten s (.restart outcome))
    (hstep : sessionStep s (.restart outcome) = some s') : SessionKept s' := by
  rcases hauth : s.authUser with _ | uid
  · simp only [sessionStep, hauth, Option.some.injEq] at hstep
    rw [← hstep]
    exact h.stop .login (by decide)
  · have hstopped := h.stop .splash (by decide)
    have hown : ∀ r ∈ s.registrations, r.uid = uid → s.authUser = some r.uid :=
      fun r _ hr => by rw [hauth, hr]
    simp only [sessionStep, hauth] at hstep
    cases outcome with
    | getFails =>
      obtain rfl := Option.some.inj hstep
      exact hstopped
    | cartFails =>
      obtain rfl := Option.some.inj hstep
      refine hstopped.fetch hauth (fun r hr heq => hC r hr (hown r hr heq))
        _ (fun p hp => ?_) (by simp)
      by_cases hadmin : p.isAdmin = some true
      · exact hadmin
      · rw [if_neg hadmin] at hp
        exact absurd hp (by decide)
    | done =>
      obtain rfl := Option.some.inj hstep
      exact hstopped.fetch hauth (fun r hr heq => hC r hr (hown r hr heq))
        _ (fun _ => home_eq_adminHome) (by simp)

/-- **A step that reads registered accounts with their documents only** makes
none an administrator's. -/
theorem step (h : SessionKept s) (hC : ReadsWritten s a)
    (hstep : sessionStep s a = some s') : SessionKept s' := by
  cases a with
  | register uid email fulName address now outcome => exact h.register hstep
  | login uid outcome =>
    by_cases hguard : s.page = .login ∧ uid ∈ s.accounts
    · have hhome : s.page ≠ .adminHome := by rw [hguard.1]; decide
      have hsigned := h.signIn hguard.2 hhome
      simp only [sessionStep, if_pos hguard] at hstep
      cases outcome with
      | signInFails =>
        obtain rfl := Option.some.inj hstep
        exact h
      | stopsAfterSignIn =>
        obtain rfl := Option.some.inj hstep
        exact hsigned.stop .closed (by decide)
      | getFails =>
        obtain rfl := Option.some.inj hstep
        exact hsigned
      | done =>
        obtain rfl := Option.some.inj hstep
        exact hsigned.fetch rfl hC _ (fun _ => home_eq_adminHome) hhome
    · simp [sessionStep, hguard] at hstep
  | restart outcome => exact h.restart hC hstep
  | logout toRegister =>
    by_cases hpage : s.page = .closed
    · simp [sessionStep, hpage] at hstep
    · simp only [sessionStep, if_neg hpage, Option.some.injEq] at hstep
      rw [← hstep]
      refine ⟨h.documents, h.registered, fun uid hf => absurd hf (by simp), h.fetched,
        h.notAdmin, fun hp => absurd hp ?_⟩
      cases toRegister with
      | true => simp
      | false => simp
  | openHome ok =>
    by_cases hpage : s.page = .userHome
    · simp only [sessionStep, if_pos hpage] at hstep
      obtain ⟨uid, hauth, rfl⟩ := Option.map_eq_some_iff.mp hstep
      cases ok with
      | true =>
        exact h.fetch hauth (fun r hr heq => hC r hr (by rw [hauth, heq]))
          (fun _ => .userHome) (fun _ hp => absurd hp (by decide))
          (by rw [hpage]; decide)
      | false => exact h
    · simp [sessionStep, hpage] at hstep

/-- **Reading an account that lacks its document** makes it an
administrator's. -/
theorem fetch_unwritten (h : SessionKept s) (hauth : s.authUser = some uid)
    {r : Registration} (hr : r ∈ s.registrations) (huid : r.uid = uid)
    (hw : ¬ r.written = true) (next : AuthProvider → Page) :
    ¬ RegisteredNotAdmin (s.fetch uid next) := by
  intro hlaw
  have hnone := h.documents r hr
  rw [if_neg hw, huid] at hnone
  have hfetch : s.fetch uid next
      = { s with
          auth := { s.auth with isAdmin := some true }
          fetchedFor := some uid
          page := next { s.auth with isAdmin := some true } } := by
    unfold Session.fetch
    rw [hnone]
    rfl
  rw [hfetch] at hlaw
  exact (hlaw r hr (by rw [huid]; exact hauth)).1 (by rw [huid]) rfl

/-- **A step that does not** breaks the law. -/
theorem not_registeredNotAdmin (h : SessionKept s) (hC : ¬ ReadsWritten s a)
    (hstep : sessionStep s a = some s') : ¬ RegisteredNotAdmin s' := by
  cases a with
  | register uid email fulName address now outcome => exact absurd trivial hC
  | login uid outcome =>
    cases outcome with
    | signInFails => exact absurd trivial hC
    | stopsAfterSignIn => exact absurd trivial hC
    | getFails => exact absurd trivial hC
    | done =>
      by_cases hguard : s.page = .login ∧ uid ∈ s.accounts
      · simp only [sessionStep, if_pos hguard, Option.some.injEq] at hstep
        have hsigned := h.signIn hguard.2 (by rw [hguard.1]; decide)
        unfold ReadsWritten at hC
        push Not at hC
        obtain ⟨r, hr, huid, hw⟩ := hC
        rw [← hstep]
        exact hsigned.fetch_unwritten rfl hr huid hw _
      · simp [sessionStep, hguard] at hstep
  | restart outcome =>
    have hbreak : ∀ next : AuthProvider → Page,
        (¬ ∀ r ∈ s.registrations, s.authUser = some r.uid → r.written = true) →
        ∀ uid, s.authUser = some uid →
          ¬ RegisteredNotAdmin (Session.fetch { s.stop with page := .splash } uid next) := by
      intro next hnot uid hauth
      push Not at hnot
      obtain ⟨r, hr, huid, hw⟩ := hnot
      have hstopped := h.stop .splash (by decide)
      exact hstopped.fetch_unwritten hauth hr
        (Option.some.inj (huid.symm.trans hauth)) hw next
    rcases hauth : s.authUser with _ | uid
    · refine absurd ?_ hC
      cases outcome with
      | getFails => trivial
      | cartFails => exact fun r _ hr => absurd (hauth.symm.trans hr) (by simp)
      | done => exact fun r _ hr => absurd (hauth.symm.trans hr) (by simp)
    · simp only [sessionStep, hauth] at hstep
      cases outcome with
      | getFails => exact absurd trivial hC
      | cartFails =>
        obtain rfl := Option.some.inj hstep
        exact hbreak _ hC uid hauth
      | done =>
        obtain rfl := Option.some.inj hstep
        exact hbreak _ hC uid hauth
  | logout toRegister => exact absurd trivial hC
  | openHome ok =>
    cases ok with
    | false => exact absurd trivial hC
    | true =>
      by_cases hpage : s.page = .userHome
      · simp only [sessionStep, if_pos hpage] at hstep
        obtain ⟨uid, hauth, rfl⟩ := Option.map_eq_some_iff.mp hstep
        unfold ReadsWritten at hC
        push Not at hC
        obtain ⟨r, hr, huid, hw⟩ := hC
        exact h.fetch_unwritten hauth hr (Option.some.inj (huid.symm.trans hauth)) hw
          (fun _ => .userHome)
      · simp [sessionStep, hpage] at hstep

end SessionKept

/-! ## Runs -/

/-- **When a registered account is an administrator's.** In any run of
registrations, logins, restarts and logouts, any request of which may fail or
the app stop before it, no account created through `register` is taken for an
administrator's – exactly when `getUserData` completes for such accounts only
as have had their users document written. -/
theorem registered_not_admin_iff (accounts : List String) (users : Collection)
    (as : List SessionAction) :
    Runs.Along sessionStep RegisteredNotAdmin (Session.start accounts users) as
      ↔ Runs.Meets sessionStep ReadsWritten (Session.start accounts users) as :=
  Runs.along_iff_meets (I := SessionKept) (fun _ h => h.registeredNotAdmin)
    (fun _ _ _ h hC hstep => h.step hC hstep)
    (fun _ _ _ h hC hstep => h.not_registeredNotAdmin hC hstep)
    (sessionKept_start accounts users)

/-- **A customer on the admin home**: the users document is not written at
registration, and the app is restarted. -/
theorem customer_on_admin_home :
    ¬ ∀ (accounts : List String) (users : Collection) (as : List SessionAction),
      Runs.Along sessionStep RegisteredNotAdmin (Session.start accounts users) as := by
  intro h
  have hlaw := (h [] (fun _ => none)
    [.restart .done, .logout true,
      .register "u" "u@example.com" "U" "A" ⟨0⟩ .writeFails, .restart .done]).last rfl
  exact (hlaw ⟨"u", false⟩ (List.mem_cons_self ..) rfl).2 rfl
