import Enmart.Auth.Reading
import Enmart.Routes.Table

/-!
# Pages and who is signed in

Whose pages are whose is decided in scattered places. The login page and the
splash screen send an account to one of the two homes, the home of a customer
is blocked for one who is not approved, and the links of each page lead to
pages for the same accounts. The route table itself asks nothing: a path that
is entered, as in the address bar of a browser, builds its page for whoever is
signed in. And what is decided takes time. The login page waits for the
sign-in and then for the users document, the splash screen for the document
and the cart, the redirects for a document or the sign-out; meanwhile links
can be followed, and accounts come and go.

`pagesStep` is one device on which all of this happens one await at a time:
accounts sign in and out, pages are opened by their links or by their paths,
what is awaited arrives or fails, and approvals are granted and withdrawn. Of
navigations that wait, the router follows the last only.
`right_role_of_meets` says that pages are built for the right accounts in every
run in which none is opened by its path for another, the account does not
change under open pages, what is read of an account leads on only while that
account is signed in, and no approval is withdrawn from under open pages.
-/

open Firestore

/-! ## The device -/

/-- Why `getUserData` was called. -/
inductive ReadFor where
  /-- The login page sends the account to its home. -/
  | login
  /-- So does the splash screen. -/
  | splash
  /-- A navigation, with its number, to the user home. -/
  | home (nav : ℕ) (push : Bool)
  deriving DecidableEq, Repr

/-- What is under way. -/
inductive PagesTask where
  /-- The login page waits for an account to sign in. -/
  | signingIn (uid : String)
  /-- A users document is read; the store may have answered. -/
  | reading (uid : Option String) (answer : Option (Option Fields)) (purpose : ReadFor)
  /-- The splash screen waits for the cart. -/
  | initializing
  /-- A navigation, with its number, waits for the sign-out. -/
  | signingOut (nav : ℕ) (r : Route) (push : Bool)
  deriving DecidableEq

/-- The page that goes on with a task, if it is still there. -/
def PagesTask.page : PagesTask → Option Screen
  | reading _ _ .login => some .loginPage
  | reading _ _ .splash => some .splashScreen
  | initializing => some .splashScreen
  | _ => none

/-- **One device, and the users documents.** -/
structure PagesState where
  users : Collection
  authUser : Option String
  auth : AuthProvider
  /-- `AuthProvider.isLoading`, while the login page waits. -/
  isLoading : Bool
  /-- The pages open, the one shown first. -/
  pages : List Screen
  /-- The page the last step has built, if any. -/
  built : Option Screen
  /-- The number of the last navigation. -/
  latest : ℕ
  tasks : List PagesTask

/-- What happens next. -/
inductive PagesAction where
  /-- A path is entered. -/
  | enter (r : Route)
  /-- A link of the page shown opens another over it. -/
  | push (r : Route)
  /-- A link of the page shown opens another in place of all. -/
  | go (r : Route)
  /-- The page shown is closed. -/
  | pop
  /-- The button of the login page is tapped. -/
  | signIn (uid : String)
  /-- The splash screen checks who is signed in. -/
  | check
  /-- The store answers a read. -/
  | answer (i : ℕ)
  /-- What a task waits for arrives; the page that goes on with it is still
  there, or has gone. -/
  | resume (i : ℕ) (mounted : Bool)
  /-- What a task waits for fails. -/
  | fail (i : ℕ)
  /-- An administrator grants or withdraws an approval. -/
  | setApproved (uid : String) (isApproved : Bool)
  deriving DecidableEq, Repr

namespace PagesState

/-- The users document of the account signed in; nobody has none. -/
def ownDoc (s : PagesState) : Option Fields := s.authUser.bind s.users

/-- The account signed in is of a role: an administrator has no users document,
an approved user one that says so. -/
def Has (s : PagesState) : Role → Prop
  | .administrator => s.authUser.isSome ∧ s.ownDoc = none
  | .approvedUser => ∃ doc, s.ownDoc = some doc ∧ doc.get? "isApproved" = some (.bool true)

/-- A page is built, over the pages open or in place of them. -/
def showPage (s : PagesState) (push : Bool) (screen : Screen) : PagesState :=
  { s with
    pages := if push then screen :: s.pages else [screen]
    built := some screen }

/-- The page of a route is built, unless the route lacks its product. -/
def build (s : PagesState) (r : Route) (push extra : Bool) : PagesState :=
  match r.pageBuilder s.auth extra with
  | some screen => s.showPage push screen
  | none => { s with built := none }

/-- Something is waited for. -/
def await (s : PagesState) (t : PagesTask) : PagesState :=
  { s with tasks := s.tasks ++ [t], built := none }

/-- **A navigation**: the redirect first, and then the page. The redirect to
the user home reads the users document of whoever is signed in, the redirect to
the login or the register page signs out, and the others have nothing to wait
for. -/
def navigate (s : PagesState) (r : Route) (push extra : Bool) : PagesState :=
  match r with
  | .homeRoute => PagesState.await { s with latest := s.latest + 1 }
      (.reading s.authUser none (.home (s.latest + 1) push))
  | .loginRoute => PagesState.await { s with latest := s.latest + 1 }
      (.signingOut (s.latest + 1) .loginRoute push)
  | .registerRoute => PagesState.await { s with latest := s.latest + 1 }
      (.signingOut (s.latest + 1) .registerRoute push)
  | r => PagesState.build { s with latest := s.latest + 1 } r push extra

/-- `getUserData` goes on with the document. -/
def received (s : PagesState) (doc : Option Fields) : PagesState :=
  { s with auth := (s.auth.getUserData doc).fst, built := none }

/-- **`processLogin` and `check` once the account is read**: an administrator
goes to the one home; of a customer the login page goes to the other, and the
splash screen waits for the cart first. -/
def sendHome (s : PagesState) (cart : Bool) : PagesState :=
  if s.auth.isAdmin = some true then s.navigate .adminHome false false
  else if cart then s.await .initializing
  else s.navigate .homeRoute false false

/-- **A users document arrives.** Nothing follows where it cannot be decoded,
where the page that asked has gone, or where a later navigation has come
before. -/
def arrive (s : PagesState) (doc : Option Fields) (mounted : Bool) : ReadFor → PagesState
  | .login =>
    if (s.auth.getUserData doc).snd ∧ mounted then
      PagesState.sendHome { s.received doc with isLoading := false } false
    else { s.received doc with isLoading := false }
  | .splash =>
    if (s.auth.getUserData doc).snd ∧ mounted then (s.received doc).sendHome true
    else s.received doc
  | .home nav push =>
    if (s.auth.getUserData doc).snd ∧ nav = s.latest then
      (s.received doc).build .homeRoute push false
    else s.received doc

/-- **A task goes on**, once what it waits for has arrived. -/
def goOn (s : PagesState) (mounted : Bool) : PagesTask → Option PagesState
  -- `getUserData` reads for the account that has just signed in
  | .signingIn uid => some (PagesState.await { s with authUser := some uid }
      (.reading (some uid) none .login))
  | .reading _ none _ => none
  | .reading _ (some doc) purpose => some (s.arrive doc mounted purpose)
  | .initializing =>
    if mounted then some (s.navigate .homeRoute false false)
    else some { s with built := none }
  | .signingOut nav r push =>
    if nav = s.latest then some (PagesState.build { s with authUser := none } r push false)
    else some { s with authUser := none, built := none }

/-- A task comes to nothing: the login page may be tapped again. -/
def giveUp (s : PagesState) : PagesTask → PagesState
  | .signingIn _ => { s with isLoading := false, built := none }
  | .reading _ _ .login => { s with isLoading := false, built := none }
  | _ => { s with built := none }

/-- The app starts, with the account that was signed in. -/
def start (users : Collection) (authUser : Option String) : PagesState where
  users := users
  authUser := authUser
  auth := .empty
  isLoading := false
  pages := [.splashScreen]
  built := some .splashScreen
  latest := 0
  tasks := []

end PagesState

/-- **One step of the device.** -/
def pagesStep (s : PagesState) : PagesAction → Option PagesState
  | .enter r => some (s.navigate r false false)
  | .push r =>
    match s.pages with
    | p :: _ => if r ∈ p.pushes then some (s.navigate r true true) else none
    | [] => none
  | .go r =>
    match s.pages with
    | p :: _ => if r ∈ p.goes then some (s.navigate r false false) else none
    | [] => none
  | .pop =>
    match s.pages with
    | _ :: q :: ps => some { s with pages := q :: ps, built := none }
    | _ => none
  | .signIn uid =>
    -- the button is dead while the provider is loading
    if s.pages.head? = some .loginPage ∧ s.isLoading = false then
      some (PagesState.await { s with isLoading := true } (.signingIn uid))
    else none
  | .check =>
    if s.pages.head? = some .splashScreen then
      match s.authUser with
      | none => some (s.navigate .loginRoute false false)
      | some uid => some (s.await (.reading (some uid) none .splash))
    else none
  | .answer i =>
    match s.tasks[i]? with
    | some (.reading uid none purpose) => some { s with
        tasks := s.tasks.set i (.reading uid (some (uid.bind s.users)) purpose)
        built := none }
    | _ => none
  | .resume i mounted =>
    match s.tasks[i]? with
    | some t =>
      if mounted = false ∨ ∀ p ∈ t.page, p ∈ s.pages then
        PagesState.goOn { s with tasks := s.tasks.eraseIdx i } mounted t
      else none
    | none => none
  | .fail i => s.tasks[i]?.map (fun t =>
      PagesState.giveUp { s with tasks := s.tasks.eraseIdx i } t)
  | .setApproved uid isApproved =>
    (s.users.update uid [("isApproved", .value (.bool isApproved))]).map (fun users =>
      { s with users := users, built := none })

/-- **Pages are built for the right role.** -/
def RightRole (s : PagesState) : Prop :=
  ∀ p, s.built = some p → ∀ r, p.role = some r → s.Has r

/-- A users document of an approved user. -/
def approves (doc : Option Fields) : Bool :=
  ((doc.bind UserModel.fromMap).map UserModel.isApproved).getD false

/-- A users document arrives in role: what it says is still of the account
signed in. -/
def ArrivesInRole (s : PagesState) (uid : Option String) (doc : Option Fields)
    (mounted : Bool) : ReadFor → Prop
  -- the home of the administrators is for the account that was read, or for
  -- another administrator
  | .login => mounted = true → doc = none → s.authUser = uid ∨ s.Has .administrator
  | .splash => mounted = true → doc = none → s.authUser = uid ∨ s.Has .administrator
  -- the user home is for the account that was read, or for another approved
  -- user; without a document it is for the user in memory
  | .home nav _ => nav = s.latest →
      (doc = none → homePage s.auth = .userBlocked ∨ s.Has .approvedUser) ∧
      (approves doc = true → s.authUser = uid ∨ s.Has .approvedUser)

/-- A task goes on in role: the account signed in does not change under pages
that are not for everybody. -/
def GoesOnInRole (s : PagesState) (mounted : Bool) : PagesTask → Prop
  | .signingIn uid => s.authUser = some uid ∨ ∀ p ∈ s.pages, p.Free
  | .reading uid (some doc) purpose => ArrivesInRole s uid doc mounted purpose
  | .signingOut nav _ push =>
      s.authUser = none ∨ (nav = s.latest ∧ push = false) ∨ ∀ p ∈ s.pages, p.Free
  | _ => True

/-- An answer that an account is approved is on its way to the user home. -/
def PagesTask.ApprovesHome (uid : String) : PagesTask → Prop
  | .reading u (some doc) (.home _ _) => u = some uid ∧ approves doc = true
  | _ => False

/-- **Paths, accounts and approvals stay in role.** A path is entered only by an
account its page is for; the account changes under no page of a role; what is
read leads on for the account it was read of; and no approval is withdrawn from
an account whose pages are open or whose home is on its way. -/
def StaysInRole (s : PagesState) : PagesAction → Prop
  | .enter r => ∀ p ∈ r.pageBuilder s.auth false, ∀ role ∈ p.role, s.Has role
  | .resume i mounted => ∀ t ∈ s.tasks[i]?, GoesOnInRole s mounted t
  | .setApproved uid false =>
      (s.authUser = some uid → ∀ p ∈ s.pages, p.role ≠ some .approvedUser ∧ p ≠ .userHome) ∧
        ∀ t ∈ s.tasks, ¬ t.ApprovesHome uid
  | _ => True

section Decidable

instance (s : PagesState) : (r : Role) → Decidable (s.Has r)
  | .administrator => inferInstanceAs (Decidable (s.authUser.isSome ∧ s.ownDoc = none))
  | .approvedUser => decidable_of_iff
      (s.ownDoc.bind (fun doc => doc.get? "isApproved") = some (.bool true))
      Option.bind_eq_some_iff

instance (s : PagesState) (uid : Option String) (doc : Option Fields) (mounted : Bool) :
    (purpose : ReadFor) → Decidable (ArrivesInRole s uid doc mounted purpose)
  | .login | .splash => inferInstanceAs (Decidable (mounted = true → doc = none → _ ∨ _))
  | .home nav _ => inferInstanceAs (Decidable (nav = s.latest → (doc = none → _ ∨ _) ∧ _))

instance (s : PagesState) (mounted : Bool) : (t : PagesTask) →
    Decidable (GoesOnInRole s mounted t)
  | .signingIn uid => inferInstanceAs (Decidable (s.authUser = some uid ∨ _))
  | .reading uid (some doc) purpose =>
    inferInstanceAs (Decidable (ArrivesInRole s uid doc mounted purpose))
  | .signingOut nav _ push =>
    inferInstanceAs (Decidable (s.authUser = none ∨ (nav = s.latest ∧ push = false) ∨ _))
  | .reading _ none _ | .initializing => isTrue trivial

instance (uid : String) : (t : PagesTask) → Decidable (t.ApprovesHome uid)
  | .reading u (some doc) (.home _ _) =>
    inferInstanceAs (Decidable (u = some uid ∧ approves doc = true))
  | .reading _ none _ | .reading _ (some _) .login | .reading _ (some _) .splash
  | .signingIn _ | .initializing | .signingOut _ _ _ => isFalse id

instance (s : PagesState) : (a : PagesAction) → Decidable (StaysInRole s a)
  | .enter r => inferInstanceAs (Decidable (∀ p ∈ r.pageBuilder s.auth false, _))
  | .resume i mounted => inferInstanceAs (Decidable (∀ t ∈ s.tasks[i]?, GoesOnInRole s mounted t))
  | .setApproved _ false => inferInstanceAs (Decidable ((_ → _) ∧ _))
  | .setApproved _ true | .push _ | .go _ | .pop | .signIn _ | .check | .answer _ | .fail _ =>
    isTrue trivial

end Decidable

/-! ## What is open -/

/-- A page fits the account signed in: it is for it, and the user home is for
approved users. -/
structure Fits (s : PagesState) (p : Screen) : Prop where
  role : ∀ r, p.role = some r → s.Has r
  home : p = .userHome → s.Has .approvedUser

/-- The document of an account says that its user is approved. -/
def ApprovedIn (users : Collection) (uid : Option String) : Prop :=
  ∃ doc, uid.bind users = some doc ∧ doc.get? "isApproved" = some (.bool true)

/-- **What is so of a read.** The login page and the splash screen ask for an
account; and what the store has answered is still so: an account without a
document has none, and one whose approval is on its way to the user home is
approved. -/
structure ReadKept (users : Collection) (uid : Option String) (answer : Option (Option Fields))
    (purpose : ReadFor) : Prop where
  account : purpose = .login ∨ purpose = .splash → uid ≠ none
  missing : answer = some none → uid.bind users = none
  approved : ∀ doc nav push, answer = some doc → purpose = .home nav push →
    approves doc = true → ApprovedIn users uid

/-- What is so of what is waited for. -/
def TaskKept (users : Collection) : PagesTask → Prop
  | .reading uid answer purpose => ReadKept users uid answer purpose
  | .signingOut _ r _ => r = .loginRoute ∨ r = .registerRoute
  | _ => True

/-- Nothing is so yet of a read that is not answered. -/
theorem ReadKept.unanswered {users : Collection} {uid : Option String} {purpose : ReadFor}
    (h : purpose = .login ∨ purpose = .splash → uid ≠ none) :
    ReadKept users uid none purpose :=
  ⟨h, fun hc => absurd hc.symm (Option.some_ne_none _),
    fun _ _ _ hc => absurd hc.symm (Option.some_ne_none _)⟩

/-- What is so between the steps. -/
structure PagesKept (s : PagesState) : Prop where
  /-- The pages open fit the account signed in. -/
  pages : ∀ p ∈ s.pages, Fits s p
  /-- The page just built is open. -/
  built : ∀ p, s.built = some p → p ∈ s.pages
  /-- The answers under way still hold. -/
  tasks : ∀ t ∈ s.tasks, TaskKept s.users t

/-- A page for everybody fits whoever is signed in. -/
theorem Fits.of_free {s : PagesState} {p : Screen} (h : p.Free) : Fits s p :=
  ⟨fun _ hr => absurd (h.1.symm.trans hr) (by simp), fun hc => absurd hc h.2⟩

/-- What a page fits is the account and the documents, not what is in
memory. -/
theorem Fits.congr {s s' : PagesState} {p : Screen} (h : Fits s p)
    (hauth : s'.authUser = s.authUser) (husers : s'.users = s.users) : Fits s' p := by
  have hdoc : s'.ownDoc = s.ownDoc := by rw [PagesState.ownDoc, hauth, husers]; rfl
  have hhas : ∀ r, s.Has r → s'.Has r := by
    intro r hr
    cases r with
    | administrator => exact ⟨by rw [hauth]; exact hr.1, hdoc.trans hr.2⟩
    | approvedUser =>
      obtain ⟨doc, hown, ha⟩ := hr
      exact ⟨doc, hdoc.trans hown, ha⟩
  exact ⟨fun r hr => hhas r (h.role r hr), fun hp => hhas _ (h.home hp)⟩

/-- A document that approves says so in its field. -/
theorem approvedIn_of_approves {users : Collection} {uid : Option String}
    (h : approves (uid.bind users) = true) : ApprovedIn users uid := by
  unfold approves at h
  rcases hm : (uid.bind users).bind UserModel.fromMap with _ | m
  · rw [hm] at h
    exact absurd h Bool.false_ne_true
  · rw [hm] at h
    obtain ⟨doc, hdoc, hm⟩ := Option.bind_eq_some_iff.mp hm
    exact ⟨doc, hdoc, UserModel.isApproved_of_fromMap hm h⟩

/-- What the home route builds is the user home or the page for the blocked. -/
theorem pageBuilder_homeRoute {auth : AuthProvider} {extra : Bool} {p : Screen}
    (hp : Route.pageBuilder auth extra .homeRoute = some p) :
    p = .userBlocked ∨ (p = .userHome ∧ homePage auth = .userHome) := by
  rw [Route.pageBuilder] at hp
  split at hp
  · next hhome => exact Or.inr ⟨(Option.some.inj hp).symm, hhome⟩
  · exact Or.inl (Option.some.inj hp).symm

namespace PagesState

/-- The redirect waits at three routes only. -/
theorem navigate_eq_build {r : Route} (hr : ¬ r.Awaits) (s : PagesState) (push extra : Bool) :
    s.navigate r push extra = PagesState.build { s with latest := s.latest + 1 } r push extra := by
  cases r <;> first
    | rfl
    | exact absurd (Or.inl rfl) hr
    | exact absurd (Or.inr (Or.inl rfl)) hr
    | exact absurd (Or.inr (Or.inr rfl)) hr

/-- The redirect to one of the three waits for a document, or for the sign-out. -/
theorem navigate_eq_await {r : Route} (hr : r.Awaits) (s : PagesState) (push extra : Bool) :
    ∃ t, s.navigate r push extra = PagesState.await { s with latest := s.latest + 1 } t
      ∧ ∀ users, TaskKept users t := by
  rcases hr with rfl | rfl | rfl
  · exact ⟨_, rfl, fun _ => .unanswered (fun hc => absurd hc (by simp))⟩
  · exact ⟨_, rfl, fun _ => Or.inl rfl⟩
  · exact ⟨_, rfl, fun _ => Or.inr rfl⟩

/-- **An account is kept approved**, or without a document, where the approval
of an account is set, unless its own approval is withdrawn. -/
theorem approvedIn_update {users : Collection} {uid : String} {b : Bool} {doc : Fields}
    {u : Option String} (h : ApprovedIn users u) (hb : u = some uid → b = true) :
    ApprovedIn (Function.update users uid (some (doc.set "isApproved" (.bool b)))) u := by
  obtain ⟨d, hown, ha⟩ := h
  obtain ⟨v, rfl, hv⟩ := Option.bind_eq_some_iff.mp hown
  by_cases hu : v = uid
  · subst hu
    refine ⟨doc.set "isApproved" (.bool b), Function.update_self .., ?_⟩
    rw [Fields.get?_set, if_pos rfl, hb rfl]
  · exact ⟨d, (Function.update_of_ne hu ..).trans hv, ha⟩

theorem missing_update {users : Collection} {uid : String} {doc doc' : Fields}
    {u : Option String} (hdoc : users uid = some doc) (h : u.bind users = none) :
    u.bind (Function.update users uid (some doc')) = none := by
  cases u with
  | none => rfl
  | some v =>
    have hu : v ≠ uid := by
      rintro rfl
      exact absurd (hdoc.symm.trans h) (by simp)
    exact (Function.update_of_ne hu ..).trans h

end PagesState

namespace PagesKept

variable {s s' : PagesState} {p : Screen} {r : Route} {a : PagesAction} {t : PagesTask}

/-- **Nothing is built**: pages may be closed, and something new may be waited
for. -/
theorem congr (h : PagesKept s) (hauth : s'.authUser = s.authUser) (husers : s'.users = s.users)
    (hpages : ∀ p ∈ s'.pages, p ∈ s.pages) (hbuilt : s'.built = none)
    (htasks : ∀ t ∈ s'.tasks, t ∈ s.tasks ∨ TaskKept s.users t) : PagesKept s' := by
  refine ⟨fun p hp => (h.pages p (hpages p hp)).congr hauth husers, fun p hp => ?_,
    fun t ht => ?_⟩
  · exact absurd (hbuilt.symm.trans hp) (by simp)
  · rw [husers]
    exact (htasks t ht).elim (h.tasks t) id

/-- What is in memory may change, and navigations may be counted. -/
theorem with_memory (h : PagesKept s) (auth : AuthProvider) (isLoading : Bool) (latest : ℕ) :
    PagesKept { s with auth := auth, isLoading := isLoading, latest := latest } :=
  ⟨fun p hp => (h.pages p hp).congr rfl rfl, h.built, h.tasks⟩

/-- Something may be waited for. -/
theorem await (h : PagesKept s) (ht : ∀ users, TaskKept users t) : PagesKept (s.await t) := by
  refine h.congr rfl rfl (fun _ hp => hp) rfl (fun t' ht' => ?_)
  rcases List.mem_append.mp ht' with ht' | ht'
  · exact Or.inl ht'
  · rw [List.mem_singleton.mp ht']
    exact Or.inr (ht s.users)

/-- The invariant is kept when a task is over and nothing is built. -/
theorem eraseTask (h : PagesKept s) (i : ℕ) (hbuilt : s'.built = none)
    (hauth : s'.authUser = s.authUser) (husers : s'.users = s.users)
    (hpages : s'.pages = s.pages) (htasks : s'.tasks = s.tasks.eraseIdx i) : PagesKept s' := by
  refine h.congr hauth husers (fun p hp => by rw [← hpages]; exact hp) hbuilt (fun t ht => ?_)
  rw [htasks] at ht
  exact Or.inl (List.mem_of_mem_eraseIdx ht)

/-- **A page that fits may be built**, over the others or in place of them. -/
theorem build (h : PagesKept s) {push extra : Bool}
    (hr : ∀ p ∈ r.pageBuilder s.auth extra, Fits s p) : PagesKept (s.build r push extra) := by
  unfold PagesState.build
  split
  · next p hp =>
    have hmem : ∀ q ∈ (s.showPage push p).pages, q = p ∨ q ∈ s.pages := by
      intro q hq
      cases push with
      | true => exact List.mem_cons.mp hq
      | false => exact Or.inl (List.mem_singleton.mp hq)
    refine ⟨fun q hq => ?_, fun q hq => ?_, h.tasks⟩
    · rcases hmem q hq with rfl | hq
      · exact (hr q hp).congr rfl rfl
      · exact (h.pages q hq).congr rfl rfl
    · rw [← Option.some.inj hq]
      cases push with
      | true => exact List.mem_cons_self ..
      | false => exact List.mem_singleton.mpr rfl
  · exact h.congr rfl rfl (fun _ hp => hp) rfl (fun _ ht => Or.inl ht)

/-- **A page for everybody may be built in place of all**, whoever is signed
in. -/
theorem showPage_alone (h : PagesKept s) (hp : p.Free) (uid : Option String) :
    PagesKept (PagesState.showPage { s with authUser := uid } false p) := by
  refine ⟨fun q hq => ?_, fun q hq => ?_, h.tasks⟩
  · rw [List.mem_singleton.mp hq]
    exact Fits.of_free hp
  · rw [← Option.some.inj hq]
    exact List.mem_singleton.mpr rfl

/-- **The account may change** under pages that are for everybody. -/
theorem withAccount (h : PagesKept s) (hfree : ∀ p ∈ s.pages, p.Free) (uid : Option String) :
    PagesKept { s with authUser := uid } :=
  ⟨fun p hp => Fits.of_free (hfree p hp), h.built, h.tasks⟩

/-! ## Navigations -/

/-- A navigation waits, or builds a page that fits. -/
theorem navigate (h : PagesKept s) {push extra : Bool}
    (hr : ¬ r.Awaits → ∀ p ∈ r.pageBuilder s.auth extra, Fits s p) :
    PagesKept (s.navigate r push extra) := by
  have hnext : PagesKept { s with latest := s.latest + 1 } :=
    h.with_memory s.auth s.isLoading (s.latest + 1)
  by_cases hw : r.Awaits
  · obtain ⟨t, ht, hkept⟩ := PagesState.navigate_eq_await hw s push extra
    rw [ht]
    exact hnext.await hkept
  · rw [PagesState.navigate_eq_build hw]
    exact hnext.build (fun p hp => (hr hw p hp).congr rfl rfl)

/-- **A path entered in role opens a page that fits.** -/
theorem enter (h : PagesKept s) (hC : StaysInRole s (.enter r)) :
    PagesKept (s.navigate r false false) := by
  refine h.navigate (fun hw p hp => ⟨hC p hp, fun hc => absurd hc ?_⟩)
  rw [Route.pageBuilder_congr hw _ .empty] at hp
  exact Route.ne_userHome r p hp

/-- **A link that leaves a page** leads to where everybody may go. -/
theorem go (h : PagesKept s) (hr : r ∈ p.goes) : PagesKept (s.navigate r false false) := by
  refine h.navigate (fun hw q hq => Fits.of_free ?_)
  rw [Route.pageBuilder_congr hw _ .empty] at hq
  exact (Screen.awaits_of_mem_goes p r hr).resolve_left hw q hq

/-- **A link opens another page for the same accounts.** -/
theorem push (h : PagesKept s) (hp : p ∈ s.pages) (hr : r ∈ p.pushes) :
    PagesKept (s.navigate r true true) := by
  refine h.navigate (fun hw q hq => ?_)
  rw [Route.pageBuilder_congr hw _ .empty] at hq
  obtain ⟨hhome, hrole⟩ := Screen.role_of_mem_pushes p r hr hw q hq
  refine ⟨fun ro hro => ?_, fun hc => absurd hc hhome⟩
  rcases hrole with hnone | hsame | ⟨rfl, happ⟩
  · exact absurd (hnone.symm.trans hro) (by simp)
  · exact (h.pages p hp).role ro (hsame.symm.trans hro)
  · obtain rfl := Option.some.inj (happ.symm.trans hro)
    exact (h.pages _ hp).home rfl

/-! ## What arrives -/

/-- What is read goes to memory. -/
theorem received (h : PagesKept s) (doc : Option Fields) : PagesKept (s.received doc) :=
  h.congr rfl rfl (fun _ hp => hp) rfl (fun _ ht => Or.inl ht)

/-- **An account is sent to its home**, an administrator's page only to an
administrator. -/
theorem sendHome (h : PagesKept s) (hadmin : s.auth.isAdmin = some true → s.Has .administrator)
    (cart : Bool) : PagesKept (s.sendHome cart) := by
  unfold PagesState.sendHome
  by_cases ha : s.auth.isAdmin = some true
  · rw [if_pos ha]
    refine h.navigate (fun _ p hp => ?_)
    obtain rfl := Option.some.inj hp
    refine ⟨fun ro hro => ?_, fun hc => absurd hc (by decide)⟩
    obtain rfl := Option.some.inj hro
    exact hadmin ha
  · rw [if_neg ha]
    cases cart with
    | true => exact h.await (fun _ => trivial)
    | false =>
      rw [if_neg Bool.false_ne_true]
      exact h.navigate (fun hw => absurd (Or.inl rfl) hw)

/-- Who is taken for an administrator is one, if the document that is missing
is the signed-in account's. -/
theorem has_administrator {uid : Option String} {doc : Option Fields}
    (hmissing : doc = none → uid.bind s.users = none) (huid : uid ≠ none)
    (hC : doc = none → s.authUser = uid ∨ s.Has .administrator)
    (ha : (s.auth.getUserData doc).fst.isAdmin = some true) : s.Has .administrator := by
  have hnone := (AuthProvider.isAdmin_getUserData _ _).mp ha
  rcases hC hnone with hsame | hhas
  · refine ⟨by rw [hsame]; exact Option.isSome_iff_ne_none.mpr huid, ?_⟩
    rw [PagesState.ownDoc, hsame]
    exact hmissing hnone
  · exact hhas

/-- Who finds the user home is an approved user, if the document that arrives
is the signed-in account's, or the user in memory is not approved. -/
theorem has_approvedUser {uid : Option String} {doc : Option Fields} {nav : ℕ} {push : Bool}
    (hread : ReadKept s.users uid (some doc) (.home nav push))
    (hmissing : doc = none → homePage s.auth = .userBlocked ∨ s.Has .approvedUser)
    (happroved : approves doc = true → s.authUser = uid ∨ s.Has .approvedUser)
    (hok : (s.auth.getUserData doc).snd = true)
    (hhome : homePage (s.auth.getUserData doc).fst = .userHome) : s.Has .approvedUser := by
  cases doc with
  | none =>
    refine (hmissing rfl).resolve_left (fun hblocked => ?_)
    have hsame : homePage s.auth = .userHome := hhome
    exact absurd (hsame.symm.trans hblocked) (by decide)
  | some doc =>
    rcases hm : UserModel.fromMap doc with _ | m
    · rw [AuthProvider.getUserData, hm] at hok
      exact absurd hok Bool.false_ne_true
    · have ha : approves (some doc) = true := by
        rw [AuthProvider.homePage_getUserData _ hm] at hhome
        rw [approves, Option.bind_some, hm]
        show m.isApproved = true
        by_contra hna
        rw [if_neg hna] at hhome
        exact absurd hhome (by decide)
      rcases happroved ha with hsame | hhas
      · have hown := hread.approved (some doc) nav push rfl rfl ha
        rw [← hsame] at hown
        exact hown
      · exact hhas

/-- **A users document that arrives in role** leads to a page for the account
signed in. -/
theorem arrive (h : PagesKept s) {uid : Option String} {doc : Option Fields} {mounted : Bool}
    {purpose : ReadFor} (hread : ReadKept s.users uid (some doc) purpose)
    (hC : ArrivesInRole s uid doc mounted purpose) : PagesKept (s.arrive doc mounted purpose) := by
  have hreceived : ∀ isLoading : Bool, PagesKept { s.received doc with isLoading := isLoading } :=
    fun isLoading => (h.received doc).with_memory _ isLoading _
  have hmissing : doc = none → uid.bind s.users = none := fun hnone =>
    hread.missing (by rw [hnone])
  cases purpose with
  | login =>
    simp only [PagesState.arrive]
    split
    · next hgo =>
      exact (hreceived false).sendHome
        (has_administrator hmissing (hread.account (Or.inl rfl)) (hC hgo.2)) false
    · exact hreceived false
  | splash =>
    simp only [PagesState.arrive]
    split
    · next hgo =>
      exact (h.received doc).sendHome
        (has_administrator hmissing (hread.account (Or.inr rfl)) (hC hgo.2)) true
    · exact h.received doc
  | home nav push =>
    simp only [PagesState.arrive]
    split
    · next hgo =>
      refine (h.received doc).build (fun p hp => ?_)
      rcases pageBuilder_homeRoute hp with rfl | ⟨rfl, hhome⟩
      · exact Fits.of_free (by decide)
      · obtain ⟨hnone, happroved⟩ := hC hgo.2
        have hhas : s.Has .approvedUser := has_approvedUser hread hnone happroved hgo.1 hhome
        exact ⟨fun _ hr => absurd hr.symm (Option.some_ne_none _), fun _ => hhas⟩
    · exact h.received doc

/-- **A sign-out** clears the pages, or leaves those that are for everybody. -/
theorem signOut (h : PagesKept s) {nav : ℕ} {push mounted : Bool}
    (hr : r = .loginRoute ∨ r = .registerRoute)
    (hC : GoesOnInRole s mounted (.signingOut nav r push))
    (hgo : s.goOn mounted (.signingOut nav r push) = some s') : PagesKept s' := by
  have hbuilds : ∀ auth : AuthProvider, ∃ q : Screen, r.pageBuilder auth false = some q ∧ q.Free := by
    rcases hr with rfl | rfl
    · exact fun _ => ⟨.loginPage, rfl, by decide⟩
    · exact fun _ => ⟨.registerPage, rfl, by decide⟩
  obtain ⟨q, hq, hfree⟩ := hbuilds s.auth
  have hout : s.authUser = none ∨ (∀ p ∈ s.pages, p.Free) →
      PagesKept { s with authUser := none } := by
    rintro (hnone | hpages)
    · rw [← hnone]
      exact h
    · exact h.withAccount hpages none
  by_cases hnav : nav = s.latest
  · simp only [PagesState.goOn, if_pos hnav, Option.some.injEq] at hgo
    rw [← hgo]
    rcases hC with hnone | ⟨-, rfl⟩ | hpages
    · exact (hout (Or.inl hnone)).build (fun p hp => Fits.of_free
        (Option.some.inj (hq.symm.trans hp) ▸ hfree))
    · -- the page takes the place of all
      rw [PagesState.build]
      simp only [hq]
      exact h.showPage_alone hfree none
    · exact (hout (Or.inr hpages)).build (fun p hp => Fits.of_free
        (Option.some.inj (hq.symm.trans hp) ▸ hfree))
  · simp only [PagesState.goOn, if_neg hnav, Option.some.injEq] at hgo
    rw [← hgo]
    have hkept := hout (hC.imp_right (fun hc => hc.resolve_left (fun hn => hnav hn.1)))
    exact hkept.congr rfl rfl (fun _ hp => hp) rfl (fun _ ht => Or.inl ht)

/-- A task that comes to nothing. -/
theorem giveUp (h : PagesKept s) (i : ℕ) (t : PagesTask) :
    PagesKept (PagesState.giveUp { s with tasks := s.tasks.eraseIdx i } t) := by
  unfold PagesState.giveUp
  split
  · exact h.eraseTask i rfl rfl rfl rfl rfl
  · exact h.eraseTask i rfl rfl rfl rfl rfl
  · exact h.eraseTask i rfl rfl rfl rfl rfl

/-- **A task that goes on in role.** -/
theorem goOn (h : PagesKept s) (ht : TaskKept s.users t) {mounted : Bool}
    (hC : GoesOnInRole s mounted t) (hgo : s.goOn mounted t = some s') : PagesKept s' := by
  cases t with
  | signingIn uid =>
    obtain rfl := Option.some.inj hgo
    have hin : PagesKept { s with authUser := some uid } := by
      rcases hC with hsame | hfree
      · rw [← hsame]
        exact h
      · exact h.withAccount hfree (some uid)
    exact hin.await (fun _ => .unanswered (fun _ => Option.some_ne_none uid))
  | reading uid answer purpose =>
    cases answer with
    | none => exact absurd hgo.symm (Option.some_ne_none _)
    | some doc =>
      obtain rfl := Option.some.inj hgo
      exact h.arrive ht hC
  | initializing =>
    cases mounted with
    | true =>
      obtain rfl := Option.some.inj hgo
      exact h.navigate (fun hw => absurd (Or.inl rfl) hw)
    | false =>
      obtain rfl := Option.some.inj hgo
      exact h.congr rfl rfl (fun _ hp => hp) rfl (fun _ ht => Or.inl ht)
  | signingOut nav r push => exact h.signOut ht hC hgo

/-- **An approval granted or withdrawn** leaves the open pages in role, unless
it is withdrawn from under them, or while it is on its way. -/
theorem setApproved (h : PagesKept s) {uid : String} {b : Bool} {doc : Fields}
    (hC : StaysInRole s (.setApproved uid b)) (hdoc : s.users uid = some doc) :
    PagesKept { s with
      users := Function.update s.users uid (some (doc.set "isApproved" (.bool b)))
      built := none } := by
  have hstill : ∀ p ∈ s.pages, p.role = some .approvedUser ∨ p = .userHome →
      s.authUser = some uid → b = true := by
    intro p hp hr hin
    cases b with
    | true => rfl
    | false =>
      obtain ⟨hrole, hhome⟩ := hC.1 hin p hp
      exact (hr.elim hrole hhome).elim
  refine ⟨fun p hp => ⟨fun ro hro => ?_, fun hh => ?_⟩,
    fun p hp => absurd hp.symm (Option.some_ne_none p), fun t ht => ?_⟩
  · have hhas := (h.pages p hp).role ro hro
    cases ro with
    | administrator => exact ⟨hhas.1, PagesState.missing_update hdoc hhas.2⟩
    | approvedUser => exact PagesState.approvedIn_update hhas (hstill p hp (Or.inl hro))
  · exact PagesState.approvedIn_update ((h.pages p hp).home hh) (hstill p hp (Or.inr hh))
  · have hkept := h.tasks t ht
    cases t with
    | reading u answer purpose =>
      refine ⟨hkept.account, fun hnone => PagesState.missing_update hdoc (hkept.missing hnone),
        fun d nav push hanswer hpurpose ha => ?_⟩
      refine PagesState.approvedIn_update (hkept.approved d nav push hanswer hpurpose ha)
        (fun hu => ?_)
      cases b with
      | true => rfl
      | false =>
        subst hanswer hpurpose
        exact absurd ⟨hu, ha⟩ (hC.2 _ ht)
    | _ => exact hkept

/-! ## Runs -/

/-- **A step in role keeps the open pages in role.** -/
theorem step (h : PagesKept s) (hC : StaysInRole s a) (hstep : pagesStep s a = some s') :
    PagesKept s' := by
  cases a with
  | enter r =>
    obtain rfl := Option.some.inj hstep
    exact h.enter hC
  | push r =>
    rw [pagesStep] at hstep
    split at hstep
    · next p ps hps =>
      obtain ⟨hr, hs⟩ := Option.ite_none_right_eq_some.mp hstep
      obtain rfl := Option.some.inj hs
      exact h.push (by rw [hps]; exact List.mem_cons_self ..) hr
    · exact absurd hstep (by simp)
  | go r =>
    rw [pagesStep] at hstep
    split at hstep
    · next p ps hps =>
      obtain ⟨hr, hs⟩ := Option.ite_none_right_eq_some.mp hstep
      obtain rfl := Option.some.inj hs
      exact h.go hr
    · exact absurd hstep (by simp)
  | pop =>
    rw [pagesStep] at hstep
    split at hstep
    · next p q ps hps =>
      obtain rfl := Option.some.inj hstep
      refine h.congr rfl rfl (fun p hp => ?_) rfl (fun _ ht => Or.inl ht)
      rw [hps]
      exact List.mem_cons_of_mem _ hp
    · exact absurd hstep (by simp)
  | signIn uid =>
    obtain ⟨-, hs⟩ := Option.ite_none_right_eq_some.mp hstep
    obtain rfl := Option.some.inj hs
    exact (h.with_memory s.auth true s.latest).await (fun _ => trivial)
  | check =>
    obtain ⟨-, hs⟩ := Option.ite_none_right_eq_some.mp hstep
    split at hs
    · obtain rfl := Option.some.inj hs
      exact h.navigate (fun hw => absurd (Or.inr (Or.inl rfl)) hw)
    · next uid _ =>
      obtain rfl := Option.some.inj hs
      exact h.await (fun _ => .unanswered (fun _ => Option.some_ne_none uid))
  | answer i =>
    rw [pagesStep] at hstep
    split at hstep
    · next uid purpose hi =>
      obtain rfl := Option.some.inj hstep
      have hkept : ReadKept s.users uid none purpose := h.tasks _ (List.mem_of_getElem? hi)
      refine h.congr rfl rfl (fun _ hp => hp) rfl (fun t ht => ?_)
      rcases List.mem_or_eq_of_mem_set ht with ht | rfl
      · exact Or.inl ht
      · -- the answer is what the store has just now
        refine Or.inr ⟨hkept.account, fun hnone => Option.some.inj hnone,
          fun d nav push hd _ ha => ?_⟩
        obtain rfl := Option.some.inj hd
        exact approvedIn_of_approves ha
    · exact absurd hstep (by simp)
  | resume i mounted =>
    rw [pagesStep] at hstep
    split at hstep
    · next t hi =>
      obtain ⟨-, hgo⟩ := Option.ite_none_right_eq_some.mp hstep
      have hover : PagesKept { s with tasks := s.tasks.eraseIdx i } :=
        ⟨fun p hp => (h.pages p hp).congr rfl rfl, h.built,
          fun t ht => h.tasks t (List.mem_of_mem_eraseIdx ht)⟩
      exact hover.goOn (h.tasks t (List.mem_of_getElem? hi)) (hC t hi) hgo
    · exact absurd hstep (by simp)
  | fail i =>
    obtain ⟨t, -, rfl⟩ := Option.map_eq_some_iff.mp hstep
    exact h.giveUp i t
  | setApproved uid b =>
    obtain ⟨users, husers, rfl⟩ := Option.map_eq_some_iff.mp hstep
    obtain ⟨doc, hdoc, rfl⟩ := Option.map_eq_some_iff.mp husers
    exact h.setApproved hC hdoc

end PagesKept

/-- What is open in role is built in role. -/
theorem PagesKept.rightRole {s : PagesState} (h : PagesKept s) : RightRole s :=
  fun p hp => (h.pages p (h.built p hp)).role

/-- The splash screen is for everybody. -/
theorem pagesKept_start (users : Collection) (authUser : Option String) :
    PagesKept (.start users authUser) := by
  refine ⟨fun p hp => ?_, fun p hp => ?_, fun t ht => absurd ht List.not_mem_nil⟩
  · rw [List.mem_singleton.mp hp]
    exact Fits.of_free (by decide)
  · rw [← Option.some.inj hp]
    exact List.mem_singleton.mpr rfl

/-- **When pages are built for the right role.** From the start of the app, in
any run of sign-ins, sign-outs, navigations and approvals granted or withdrawn,
whatever is awaited arriving at any later moment or failing, the pages for
administrators are built only while one is signed in, and those for approved
users only while one is – as long as paths, accounts, what is read and
approvals stay in role. -/
theorem right_role_of_meets (users : Collection) (authUser : Option String)
    (as : List PagesAction) (hC : Runs.Meets pagesStep StaysInRole (.start users authUser) as) :
    Runs.Along pagesStep RightRole (.start users authUser) as := by
  have hkept := Runs.along_of_meets (I := PagesKept)
    (fun s a s' h hC hstep => h.step hC hstep) (pagesKept_start users authUser) hC
  exact hkept.imp (fun s h => h.rightRole)

/-- The law at work: a customer signs in, opens the cart, and an administrator
withdraws the approval once the pages are closed and the customer is signed
out. -/
theorem right_role_of_meets_cart :
    Runs.Along pagesStep RightRole
      (.start (Function.update (fun _ => none) "c" (some (approvedUser "c").toMap)) none)
      [.check, .resume 0 true, .signIn "c", .resume 0 true, .answer 0, .resume 0 true,
        .answer 0, .resume 0 true, .push .cartRoute, .pop, .push .adminSettings,
        .go .loginRoute, .resume 0 true, .setApproved "c" false] :=
  right_role_of_meets (Function.update (fun _ => none) "c" (some (approvedUser "c").toMap)) none
    _ (by decide +kernel)

/-- **A path entered**: with nobody signed in, the address of the administrators'
orders builds their page. -/
theorem orders_for_nobody :
    ¬ ∀ (users : Collection) (authUser : Option String) (as : List PagesAction),
      Runs.Along pagesStep RightRole (.start users authUser) as := by
  intro h
  have hlaw := h (fun _ => none) none [.enter .adminOrders]
  exact absurd ((hlaw.last rfl) .adminOrders rfl .administrator rfl).1 (by decide)
