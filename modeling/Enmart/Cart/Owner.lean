import Enmart.Auth.Provider
import Enmart.Base.Runs
import Enmart.Cart.Provider

/-!
# Whose cart is on the device

`CartProvider` lives as long as the app, and nothing in it names a user. Its
list is read from the signed-in user's cart document by the splash screen
only, and only where there is a document: the login page goes to the user
home without reading it, signing out does not empty it, and a user without a
document leaves it as it is.

`ownerStep` is one device that any number of users sign in to, one after the
other, every request succeeding. What a user adds and buys keeps the list and
the document alike, and `cart_is_own_iff` says of the three moments at which
they part that there is no other: an approved user comes in through the login
page after somebody else has used the list, and the two have not the same
lines in their carts; one comes in through the splash screen without a
document after somebody with lines in the cart has used the list; and a line
is added twice, which the list shows twice and the document once. A user who
is not approved is shown another page than the user home, and changes
nothing there.
-/

open Firestore SetArray

/-- What the device shows. -/
inductive OwnerPage where
  | splash
  | login
  | adminHome
  | userHome
  | userBlocked
  deriving DecidableEq, Repr

/-- **One device and the documents of its users.** -/
structure OwnerState where
  users : Collection
  carts : Collection
  /-- The orders placed, in order. -/
  placed : List OrderCartModel
  /-- The lines added, each with the user who added it. -/
  added : List (String × OrderModel)
  authUser : Option String
  auth : AuthProvider
  products : List OrderModel
  page : OwnerPage

/-- What happens next. -/
inductive OwnerAction where
  /-- A user signs in through the login page. -/
  | login (uid : String)
  /-- The splash screen checks who is signed in. -/
  | splash
  /-- The redirect to the login page signs out. -/
  | signOut
  /-- The user adds a line to the cart. -/
  | addToCart (order : OrderModel)
  /-- The user buys what is in the list. -/
  | checkout (dt : DateTime)
  deriving DecidableEq, Repr

namespace OwnerState

/-- The lines of a user's cart document. -/
def linesOf (s : OwnerState) (uid : String) : List OrderModel :=
  ((s.carts uid).bind cartItems).getD []

/-- The state after `getUserData`, and whether it completed. -/
def fetch (s : OwnerState) (uid : String) : OwnerState × Bool :=
  ({ s with
      authUser := some uid
      auth := (s.auth.getUserData (s.users uid)).fst },
    (s.auth.getUserData (s.users uid)).snd)

/-- The home route is gone to: its redirect calls `getUserData` once more, for
the document that has just been decoded, and its page is built. -/
def enterHome (s : OwnerState) (uid : String) : OwnerState :=
  { (s.fetch uid).fst with
    page :=
      match homePage (s.fetch uid).fst.auth with
      | .userHome => .userHome
      | .userBlocked => .userBlocked }

end OwnerState

/-- **One step of the device.** -/
def ownerStep (s : OwnerState) : OwnerAction → Option OwnerState
  | .login uid =>
    if s.page = .login then
      if (s.fetch uid).snd then
        if (s.fetch uid).fst.auth.isAdmin = some true then
          some { (s.fetch uid).fst with page := .adminHome }
        -- the cart is not read here
        else some ((s.fetch uid).fst.enterHome uid)
      else some (s.fetch uid).fst
    else none
  | .splash =>
    match s.authUser with
    | none => some { s with page := .login }
    | some uid =>
      if (s.fetch uid).snd then
        if (s.fetch uid).fst.auth.isAdmin = some true then
          some { (s.fetch uid).fst with page := .adminHome }
        else (initializeCart s.products (s.carts uid)).map (fun products =>
          { (s.fetch uid).fst with products := products }.enterHome uid)
      else some { (s.fetch uid).fst with page := .splash }
  -- neither the list nor what `AuthProvider` holds is reset
  | .signOut => some { s with authUser := none, page := .login }
  | .addToCart order =>
    match s.authUser with
    | some uid =>
      if s.page = .userHome then
        some { s with
          carts := Function.update s.carts uid (some (cartAdded order (s.carts uid)))
          products := s.products ++ [order]
          added := s.added ++ [(uid, order)] }
      else none
    | none => none
  | .checkout dt =>
    match s.authUser with
    | some uid =>
      if s.page = .userHome ∧ s.products ≠ [] then
        some { s with
          placed := s.placed ++ [cartToOrder uid dt s.products]
          products := []
          carts := s.carts.delete uid }
      else none
    | none => none

/-- **The cart is the user's own**: on the user home the list is that of the
user's cart document, and every order placed under a user's name is of lines
this user added. -/
structure CartIsOwn (s : OwnerState) : Prop where
  home : s.page = .userHome → ∀ uid, s.authUser = some uid → s.products = s.linesOf uid
  placed : ∀ m ∈ s.placed, ∀ l ∈ m.items, (m.uid, l) ∈ s.added

/-- The user of an account's document. -/
def OwnerState.userOf (s : OwnerState) (uid : String) : Option UserModel :=
  (s.users uid).bind UserModel.fromMap

/-- The account is of an approved user. -/
def OwnerState.Approved (s : OwnerState) (uid : String) : Prop :=
  ∃ m, s.userOf uid = some m ∧ m.isApproved = true

/-- **Who a step uses the list for**: the splash screen reads it for a user who
has a cart document, and a user adds to it or buys it. -/
def usesList (s : OwnerState) : OwnerAction → Option String
  | .splash => s.authUser.filter (fun uid => (s.userOf uid).isSome && (s.carts uid).isSome)
  | .addToCart _ => s.authUser
  | .checkout _ => s.authUser
  | .login _ => none
  | .signOut => none

/-- Who used the list last. -/
def lastUser (past : List (OwnerState × OwnerAction)) : Option String :=
  (past.filterMap (fun e => usesList e.fst e.snd)).getLast?

/-- The lines in the cart of the one who used the list last; none at first. -/
def OwnerState.linesLeft (s : OwnerState) (user : Option String) : List OrderModel :=
  (user.map s.linesOf).getD []

/-- **Where the list goes on to fit.** An approved user who comes in through
the login page is the last who used the list, or has the same lines in the
cart as that one; so is one who comes in through the splash screen without a
cart document; and no line is added that is in the cart. -/
def FitsUser (past : List (OwnerState × OwnerAction)) (s : OwnerState) : OwnerAction → Prop
  | .login uid => s.Approved uid →
      lastUser past = some uid ∨ s.linesLeft (lastUser past) = s.linesOf uid
  | .splash => ∀ uid, s.authUser = some uid → s.Approved uid → s.carts uid = none →
      lastUser past = some uid ∨ s.linesLeft (lastUser past) = s.linesOf uid
  | .addToCart order => ∀ uid, s.authUser = some uid → order ∉ s.linesOf uid
  | .signOut => True
  | .checkout _ => True

/-- What is so between the steps. -/
structure OwnerKept (past : List (OwnerState × OwnerAction)) (s : OwnerState) : Prop where
  own : CartIsOwn s
  /-- The list is that of the one who used it last. -/
  list : s.products = s.linesLeft (lastUser past)
  /-- The cart documents are of lines. -/
  carts : ∀ uid, s.carts uid = none ∨ ∃ ls, s.carts uid = some (cartDoc ls)
  /-- A user's document is of lines the user added. -/
  added : ∀ uid, ∀ l ∈ s.linesOf uid, (uid, l) ∈ s.added

/-- The device when the app starts: some users have a cart, and one may be
signed in. -/
def OwnerState.start (users : Collection) (carts : String → Option (List OrderModel))
    (added : List (String × OrderModel)) (authUser : Option String) : OwnerState where
  users := users
  carts := fun uid => (carts uid).map cartDoc
  placed := []
  added := added
  authUser := authUser
  auth := .empty
  products := []
  page := .splash

theorem linesOf_start (users : Collection) (carts : String → Option (List OrderModel))
    (added : List (String × OrderModel)) (authUser : Option String) (uid : String) :
    (OwnerState.start users carts added authUser).linesOf uid = (carts uid).getD [] := by
  unfold OwnerState.linesOf OwnerState.start
  cases h : carts uid with
  | none => simp [h]
  | some ls => simp [h]

theorem ownerKept_start {users : Collection} {carts : String → Option (List OrderModel)}
    {added : List (String × OrderModel)} {authUser : Option String}
    (hadded : ∀ uid, ∀ l ∈ (carts uid).getD [], (uid, l) ∈ added) :
    OwnerKept [] (OwnerState.start users carts added authUser) := by
  refine ⟨⟨?_, ?_⟩, rfl, ?_, ?_⟩
  · exact fun hp => absurd hp (by simp [OwnerState.start])
  · exact fun m hm => absurd hm List.not_mem_nil
  · intro uid
    show (carts uid).map cartDoc = none ∨ ∃ ls, (carts uid).map cartDoc = _
    cases carts uid with
    | none => exact Or.inl rfl
    | some ls => exact Or.inr ⟨ls, rfl⟩
  · intro uid l hl
    rw [linesOf_start] at hl
    exact hadded uid l hl

/-- The last who used the list is the one the step used it for, if it did. -/
theorem lastUser_append (past : List (OwnerState × OwnerAction)) (s : OwnerState)
    (a : OwnerAction) : lastUser (past ++ [(s, a)]) = (usesList s a).or (lastUser past) := by
  unfold lastUser
  rw [filterMap_append_singleton, List.getLast?_append]
  cases usesList s a with
  | none => rfl
  | some uid => rfl

/-! ## What a sign-in finds -/

section Fetch

variable {s : OwnerState} {uid : String} {m : UserModel}

/-- **`getUserData` sends to the home route** exactly the accounts with a
readable users document. -/
theorem fetch_userHome (s : OwnerState) (uid : String) :
    ((s.fetch uid).snd = true ∧ ¬ (s.fetch uid).fst.auth.isAdmin = some true)
      ↔ (s.userOf uid).isSome := by
  unfold OwnerState.fetch OwnerState.userOf
  rcases hdoc : s.users uid with _ | doc
  · simp [AuthProvider.getUserData]
  · rcases hm : UserModel.fromMap doc with _ | m
    · simp [AuthProvider.getUserData, hm]
    · simp [AuthProvider.getUserData, hm]

/-- **Where `getUserData` sends an account**: one of a user to the home route, and
another elsewhere. -/
theorem fetch_cases {β : Type} {admin home failed b : β}
    (h : (if (s.fetch uid).snd then
        if (s.fetch uid).fst.auth.isAdmin = some true then admin else home
      else failed) = b) :
    ((s.userOf uid).isSome ∧ home = b) ∨ (s.userOf uid = none ∧ (admin = b ∨ failed = b)) := by
  have hhome := fetch_userHome s uid
  by_cases hok : (s.fetch uid).snd = true
  · rw [if_pos hok] at h
    by_cases hadmin : (s.fetch uid).fst.auth.isAdmin = some true
    · rw [if_pos hadmin] at h
      exact Or.inr ⟨Option.not_isSome_iff_eq_none.mp (fun hu => (hhome.mpr hu).2 hadmin),
        Or.inl h⟩
    · rw [if_neg hadmin] at h
      exact Or.inl ⟨hhome.mp ⟨hok, hadmin⟩, h⟩
  · rw [if_neg hok] at h
    exact Or.inr ⟨Option.not_isSome_iff_eq_none.mp (fun hu => hok (hhome.mpr hu).1), Or.inr h⟩

/-- The home route shows the user home to an approved user. -/
theorem enterHome_page (hm : s.userOf uid = some m) :
    (s.enterHome uid).page = if m.isApproved then .userHome else .userBlocked := by
  obtain ⟨doc, hdoc, hm⟩ := Option.bind_eq_some_iff.mp hm
  have hpage : homePage (s.fetch uid).fst.auth
      = if m.isApproved then .userHome else .userBlocked := by
    rw [OwnerState.fetch, hdoc]
    exact s.auth.homePage_getUserData hm
  rw [OwnerState.enterHome, hpage]
  cases m.isApproved with
  | true => rfl
  | false => rfl

/-- Only an approved user comes to the user home. -/
theorem approved_of_enterHome (hm : s.userOf uid = some m)
    (hpage : (s.enterHome uid).page = .userHome) : s.Approved uid := by
  rw [enterHome_page hm] at hpage
  by_cases ha : m.isApproved
  · exact ⟨m, hm, ha⟩
  · rw [if_neg ha] at hpage
    exact absurd hpage (by decide)

/-- An approved account is of a user. -/
theorem userOf_ne_none (h : s.Approved uid) : s.userOf uid ≠ none := by
  obtain ⟨m, hm, -⟩ := h
  simp [hm]

/-- An approved user comes to the user home. -/
theorem enterHome_of_approved (h : s.Approved uid) : (s.enterHome uid).page = .userHome := by
  obtain ⟨m, hm, ha⟩ := h
  rw [enterHome_page hm, if_pos ha]

end Fetch

/-! ## One step -/

namespace OwnerKept

variable {past : List (OwnerState × OwnerAction)} {s s' : OwnerState} {a : OwnerAction}
  {uid : String}

/-- The lines of a document are what is read from it. -/
theorem initializeCart_eq (h : OwnerKept past s) (products : List OrderModel) :
    initializeCart products (s.carts uid)
      = some (if s.carts uid = none then products else s.linesOf uid) := by
  unfold OwnerState.linesOf
  rcases h.carts uid with hnone | ⟨ls, hls⟩
  · rw [hnone, if_pos rfl]
    rfl
  · rw [hls, if_neg (Option.some_ne_none _)]
    show cartItems (cartDoc ls) = some ((cartItems (cartDoc ls)).getD [])
    rw [cartItems_cartDoc]
    rfl

/-- The documents are of lines when one of them is changed to such a document
or deleted. -/
theorem carts_update (h : OwnerKept past s) {doc : Option Fields}
    (hdoc : doc = none ∨ ∃ ls, doc = some (cartDoc ls)) (uid uid' : String) :
    Function.update s.carts uid doc uid' = none
      ∨ ∃ ls, Function.update s.carts uid doc uid' = some (cartDoc ls) := by
  by_cases hu : uid' = uid
  · rw [hu, Function.update_self]
    exact hdoc
  · rw [Function.update_of_ne hu]
    exact h.carts uid'

/-- The lines of the users after the document of one of them is changed. -/
theorem lines_update {doc : Option Fields} {ls : List OrderModel}
    (hdoc : (doc.bind cartItems).getD [] = ls) (uid uid' : String) :
    ((Function.update s.carts uid doc uid').bind cartItems).getD []
      = if uid' = uid then ls else s.linesOf uid' := by
  by_cases hu : uid' = uid
  · rw [if_pos hu, hu, Function.update_self]
    exact hdoc
  · rw [if_neg hu, Function.update_of_ne hu]
    rfl

/-- The lines of the users after one of them has added a line. -/
theorem lines_addToCart (h : OwnerKept past s) (order : OrderModel) (uid uid' : String) :
    ((Function.update s.carts uid (some (cartAdded order (s.carts uid))) uid').bind
        cartItems).getD []
      = if uid' = uid then union (s.linesOf uid) [order] else s.linesOf uid' := by
  refine lines_update ?_ uid uid'
  rw [cartAdded_eq order (h.carts uid)]
  show (cartItems (cartDoc _)).getD [] = _
  rw [cartItems_cartDoc]
  rfl

/-- A step that neither uses the list nor changes a document keeps what is so,
if it brings to the user home only whom the list fits. -/
theorem of_unused (h : OwnerKept past s) (hlast : usesList s a = none)
    (hcarts : s'.carts = s.carts) (hproducts : s'.products = s.products)
    (hplaced : s'.placed = s.placed) (hadded : s'.added = s.added)
    (hhome : s'.page = .userHome → ∀ uid, s'.authUser = some uid →
      s.linesLeft (lastUser past) = s.linesOf uid) :
    OwnerKept (past ++ [(s, a)]) s' := by
  have hlines : s'.linesOf = s.linesOf := by
    funext uid
    rw [OwnerState.linesOf, hcarts]
    rfl
  refine ⟨⟨fun hp uid huid => ?_, fun m hm => ?_⟩, ?_, ?_, fun uid l hl => ?_⟩
  · rw [hproducts, hlines, h.list]
    exact hhome hp uid huid
  · rw [hplaced] at hm
    rw [hadded]
    exact h.own.placed m hm
  · rw [lastUser_append, hlast, Option.none_or, hproducts, h.list]
    unfold OwnerState.linesLeft
    rw [hlines]
  · rw [hcarts]
    exact h.carts
  · rw [hlines] at hl
    rw [hadded]
    exact h.added uid l hl

/-- Where the list of the last user fits, it has the user's lines. -/
theorem fits_eq
    (hfit : lastUser past = some uid ∨ s.linesLeft (lastUser past) = s.linesOf uid) :
    s.linesLeft (lastUser past) = s.linesOf uid := by
  rcases hfit with hsame | hlines
  · rw [hsame]
    rfl
  · exact hlines

/-- **What a login does**: the account is sent to the home route, or elsewhere. -/
theorem login_eq_some (hstep : ownerStep s (.login uid) = some s') :
    ((s.userOf uid).isSome ∧ s' = (s.fetch uid).fst.enterHome uid)
      ∨ (s.userOf uid = none ∧ s'.page ≠ .userHome ∧ ∃ page,
        s' = { (s.fetch uid).fst with page := page }) := by
  by_cases hpage : s.page = .login
  · rw [ownerStep, if_pos hpage] at hstep
    rcases fetch_cases hstep with ⟨huser, hs⟩ | ⟨hnone, hs | hs⟩
    · exact Or.inl ⟨huser, (Option.some.inj hs).symm⟩
    · obtain rfl := Option.some.inj hs
      exact Or.inr ⟨hnone, by simp, _, rfl⟩
    · obtain rfl := Option.some.inj hs
      refine Or.inr ⟨hnone, ?_, s.page, rfl⟩
      show s.page ≠ .userHome
      rw [hpage]
      decide
  · simp [ownerStep, hpage] at hstep

/-- A user comes in through the login page. -/
theorem login (h : OwnerKept past s) (hC : FitsUser past s (.login uid))
    (hstep : ownerStep s (.login uid) = some s') :
    OwnerKept (past ++ [(s, .login uid)]) s' := by
  rcases login_eq_some hstep with ⟨huser, rfl⟩ | ⟨-, hpage, page, rfl⟩
  · obtain ⟨m, hm⟩ := Option.isSome_iff_exists.mp huser
    refine h.of_unused rfl rfl rfl rfl rfl (fun hp uid' huid => ?_)
    obtain rfl := Option.some.inj huid
    have happroved : s.Approved uid := approved_of_enterHome (s := (s.fetch uid).fst) hm hp
    exact fits_eq (hC happroved)
  · exact h.of_unused rfl rfl rfl rfl rfl (fun hp => absurd hp hpage)

/-- **What the splash screen does** for an account: a user's cart is read
before the user is sent to the home route. -/
theorem splash_eq_some (h : OwnerKept past s) (hauth : s.authUser = some uid)
    (hstep : ownerStep s .splash = some s') :
    ((s.userOf uid).isSome ∧ s' = { (s.fetch uid).fst with
        products := if s.carts uid = none then s.products else s.linesOf uid }.enterHome uid)
      ∨ (s.userOf uid = none ∧ s'.page ≠ .userHome ∧ ∃ page,
        s' = { (s.fetch uid).fst with page := page }) := by
  simp only [ownerStep, hauth, h.initializeCart_eq, Option.map_some] at hstep
  rcases fetch_cases hstep with ⟨huser, hs⟩ | ⟨hnone, hs | hs⟩
  · exact Or.inl ⟨huser, (Option.some.inj hs).symm⟩
  · obtain rfl := Option.some.inj hs
    exact Or.inr ⟨hnone, by simp, _, rfl⟩
  · obtain rfl := Option.some.inj hs
    exact Or.inr ⟨hnone, by simp, _, rfl⟩

/-- The splash screen reads the cart of a user who has one. -/
theorem splash (h : OwnerKept past s) (hC : FitsUser past s .splash)
    (hstep : ownerStep s .splash = some s') : OwnerKept (past ++ [(s, .splash)]) s' := by
  rcases hauth : s.authUser with _ | uid
  · simp only [ownerStep, hauth, Option.some.injEq] at hstep
    subst hstep
    exact h.of_unused (by simp [usesList, hauth]) rfl rfl rfl rfl
      (fun hp => absurd hp (by simp))
  rcases h.splash_eq_some hauth hstep with ⟨huser, rfl⟩ | ⟨hnone, hpage, page, rfl⟩
  · obtain ⟨m, hm⟩ := Option.isSome_iff_exists.mp huser
    by_cases hcart : s.carts uid = none
    · -- without a document the list stays, whoever used it last
      rw [if_pos hcart]
      refine h.of_unused (by simp [usesList, hauth, hcart]) rfl rfl rfl rfl
        (fun hp uid' huid => ?_)
      obtain rfl := Option.some.inj huid
      have happroved : s.Approved uid :=
        approved_of_enterHome (s := { (s.fetch uid).fst with products := s.products }) hm hp
      exact fits_eq (hC uid hauth happroved hcart)
    · rw [if_neg hcart]
      have huses : usesList s .splash = some uid := by
        simp [usesList, hauth, huser, Option.isSome_iff_ne_none, hcart]
      refine ⟨⟨fun _ uid' huid => ?_, h.own.placed⟩, ?_, h.carts, h.added⟩
      · obtain rfl := Option.some.inj huid
        rfl
      · rw [lastUser_append, huses]
        rfl
  · exact h.of_unused (by simp [usesList, hauth, hnone]) rfl rfl rfl rfl
      (fun hp => absurd hp hpage)

/-- **What a step of a user does** to the cart and the list. -/
theorem addToCart_eq_some {order : OrderModel}
    (hstep : ownerStep s (.addToCart order) = some s') :
    ∃ uid, s.authUser = some uid ∧ s.page = .userHome
      ∧ s' = { s with
          carts := Function.update s.carts uid (some (cartAdded order (s.carts uid)))
          products := s.products ++ [order]
          added := s.added ++ [(uid, order)] } := by
  rcases hauth : s.authUser with _ | uid
  · simp [ownerStep, hauth] at hstep
  · by_cases hpage : s.page = .userHome
    · simp only [ownerStep, hauth, if_pos hpage, Option.some.injEq] at hstep
      exact ⟨uid, rfl, hpage, hstep.symm⟩
    · simp [ownerStep, hauth, hpage] at hstep

/-- A line that is not in the cart is added to it. -/
theorem addToCart (h : OwnerKept past s) {order : OrderModel}
    (hC : FitsUser past s (.addToCart order))
    (hstep : ownerStep s (.addToCart order) = some s') :
    OwnerKept (past ++ [(s, .addToCart order)]) s' := by
  obtain ⟨uid, hauth, hpage, rfl⟩ := addToCart_eq_some hstep
  have hlines := h.lines_addToCart order uid
  have hown : s.products ++ [order]
      = ((Function.update s.carts uid (some (cartAdded order (s.carts uid))) uid).bind
          cartItems).getD [] := by
    rw [hlines uid, if_pos rfl, union_of_notMem (hC uid hauth), h.own.home hpage uid hauth]
  refine ⟨⟨fun _ uid' huid => ?_, fun m hm l hl => ?_⟩, ?_, fun uid' => ?_,
    fun uid' l hl => ?_⟩
  · obtain rfl : uid = uid' := Option.some.inj (hauth.symm.trans huid)
    exact hown
  · exact List.mem_append_left _ (h.own.placed m hm l hl)
  · rw [lastUser_append, show usesList s (.addToCart order) = some uid from hauth]
    exact hown
  · exact h.carts_update (Or.inr ⟨_, by rw [cartAdded_eq order (h.carts uid)]⟩) uid uid'
  · have hmem : l ∈ ((Function.update s.carts uid _ uid').bind cartItems).getD [] := hl
    rw [hlines uid'] at hmem
    by_cases hu : uid' = uid
    · subst hu
      rw [if_pos rfl] at hmem
      rcases mem_union_singleton.mp hmem with hmem | rfl
      · exact List.mem_append_left _ (h.added uid' l hmem)
      · exact List.mem_append_right _ (List.mem_singleton.mpr rfl)
    · rw [if_neg hu] at hmem
      exact List.mem_append_left _ (h.added uid' l hmem)

/-- **What a checkout does.** -/
theorem checkout_eq_some {dt : DateTime} (hstep : ownerStep s (.checkout dt) = some s') :
    ∃ uid, s.authUser = some uid ∧ s.page = .userHome
      ∧ s' = { s with
          placed := s.placed ++ [cartToOrder uid dt s.products]
          products := []
          carts := s.carts.delete uid } := by
  rcases hauth : s.authUser with _ | uid
  · simp [ownerStep, hauth] at hstep
  · by_cases hguard : s.page = .userHome ∧ s.products ≠ []
    · simp only [ownerStep, hauth, if_pos hguard, Option.some.injEq] at hstep
      exact ⟨uid, rfl, hguard.1, hstep.symm⟩
    · simp [ownerStep, hauth, hguard] at hstep

/-- A checkout orders the user's own lines. -/
theorem checkout (h : OwnerKept past s) {dt : DateTime}
    (hstep : ownerStep s (.checkout dt) = some s') :
    OwnerKept (past ++ [(s, .checkout dt)]) s' := by
  obtain ⟨uid, hauth, hpage, rfl⟩ := checkout_eq_some hstep
  have hown := h.own.home hpage uid hauth
  have hlines : ∀ uid', ((s.carts.delete uid uid').bind cartItems).getD []
      = if uid' = uid then [] else s.linesOf uid' := lines_update rfl uid
  refine ⟨⟨fun _ uid' huid => ?_, fun m hm l hl => ?_⟩, ?_, fun uid' => ?_,
    fun uid' l hl => ?_⟩
  · obtain rfl : uid = uid' := Option.some.inj (hauth.symm.trans huid)
    exact ((hlines uid).trans (if_pos rfl)).symm
  · rcases List.mem_append.mp hm with hm | hm
    · exact h.own.placed m hm l hl
    · -- the order just placed is of the lines in the list
      rw [List.mem_singleton.mp hm] at hl ⊢
      refine h.added uid l ?_
      rw [← hown]
      exact hl
  · rw [lastUser_append, show usesList s (.checkout dt) = some uid from hauth]
    exact ((hlines uid).trans (if_pos rfl)).symm
  · exact h.carts_update (Or.inl rfl) uid uid'
  · have hmem : l ∈ ((s.carts.delete uid uid').bind cartItems).getD [] := hl
    rw [hlines uid'] at hmem
    by_cases hu : uid' = uid
    · rw [if_pos hu] at hmem
      exact absurd hmem List.not_mem_nil
    · rw [if_neg hu] at hmem
      exact h.added uid' l hmem

/-- **A step that finds the list fit for the user keeps it so.** -/
theorem step (h : OwnerKept past s) (hC : FitsUser past s a)
    (hstep : ownerStep s a = some s') : OwnerKept (past ++ [(s, a)]) s' := by
  cases a with
  | login uid => exact h.login hC hstep
  | splash => exact h.splash hC hstep
  | signOut =>
    obtain rfl := Option.some.inj hstep
    exact h.of_unused rfl rfl rfl rfl rfl (fun hp => absurd hp (by simp))
  | addToCart order => exact h.addToCart hC hstep
  | checkout dt => exact h.checkout hstep

/-- **A step that does not** shows a user another list than the user's. -/
theorem not_cartIsOwn (h : OwnerKept past s) (hC : ¬ FitsUser past s a)
    (hstep : ownerStep s a = some s') : ¬ CartIsOwn s' := by
  intro hlaw
  cases a with
  | login uid =>
    unfold FitsUser at hC
    push Not at hC
    obtain ⟨happroved, -, hne⟩ := hC
    rcases login_eq_some hstep with ⟨-, rfl⟩ | ⟨hnone, -, -⟩
    · have hhome : s.products = s.linesOf uid :=
        hlaw.home (enterHome_of_approved (s := (s.fetch uid).fst) happroved) uid rfl
      rw [h.list] at hhome
      exact hne hhome
    · exact absurd hnone (userOf_ne_none happroved)
  | splash =>
    unfold FitsUser at hC
    push Not at hC
    obtain ⟨uid, hauth, happroved, hcart, -, hne⟩ := hC
    rcases h.splash_eq_some hauth hstep with ⟨-, rfl⟩ | ⟨hnone, -, -⟩
    · rw [if_pos hcart] at hlaw
      have hhome : s.products = s.linesOf uid := hlaw.home
        (enterHome_of_approved (s := { (s.fetch uid).fst with products := s.products })
          happroved) uid rfl
      rw [h.list] at hhome
      exact hne hhome
    · exact absurd hnone (userOf_ne_none happroved)
  | signOut => exact hC trivial
  | addToCart order =>
    unfold FitsUser at hC
    push Not at hC
    obtain ⟨uid, hauth, hmem⟩ := hC
    obtain ⟨uid', hauth', hpage, rfl⟩ := addToCart_eq_some hstep
    obtain rfl := Option.some.inj (hauth.symm.trans hauth')
    -- the list grows and the document does not
    have hhome : s.products ++ [order]
        = ((Function.update s.carts uid _ uid).bind cartItems).getD [] :=
      hlaw.home hpage uid hauth
    rw [h.lines_addToCart order uid uid, if_pos rfl, union_of_mem hmem,
      ← h.own.home hpage uid hauth] at hhome
    have hlength : (s.products ++ [order]).length = s.products.length :=
      congrArg List.length hhome
    rw [List.length_append, List.length_singleton] at hlength
    omega
  | checkout dt => exact hC trivial

end OwnerKept

/-! ## Runs -/

/-- **When the cart on the device is the user's own.** In any run of sign-ins
through the login page and the splash screen, sign-outs, additions and
checkouts by any number of users, the list on the user home is that of the
user's own cart document and orders are of their users' lines – exactly when
each approved user who signs in without having the cart read used the list
last, or has the lines of the one who did, and no line is added that is in
the cart. -/
theorem cart_is_own_iff (users : Collection) (carts : String → Option (List OrderModel))
    (added : List (String × OrderModel)) (authUser : Option String)
    (hadded : ∀ uid, ∀ l ∈ (carts uid).getD [], (uid, l) ∈ added)
    (as : List OwnerAction) :
    Runs.Along ownerStep CartIsOwn (OwnerState.start users carts added authUser) as
      ↔ Runs.MeetsAfter ownerStep FitsUser [] (OwnerState.start users carts added authUser) as :=
  Runs.along_iff_meetsAfter (fun _ _ h => h.own)
    (fun _ _ _ _ h hC hstep => h.step hC hstep)
    (fun _ _ _ _ h hC hstep => h.not_cartIsOwn hC hstep) (ownerKept_start hadded)

/-- The law at work: a user with a cart comes in through the splash screen,
buys it, and another comes in through the login page. -/
theorem cart_is_own_iff_two :
    ∃ users carts added, Runs.Along ownerStep CartIsOwn
        (OwnerState.start users carts added (some "u"))
        [.splash, .checkout ⟨0⟩, .signOut, .login "v", .addToCart (cartLine "2" 1)]
      ↔ Runs.MeetsAfter ownerStep FitsUser []
        (OwnerState.start users carts added (some "u"))
        [.splash, .checkout ⟨0⟩, .signOut, .login "v", .addToCart (cartLine "2" 1)] := by
  let user : Fields := UserModel.toMap ⟨"e", "u", "n", "a", true, ⟨0⟩⟩
  refine ⟨fun _ => some user, fun uid => if uid = "u" then some [cartLine "1" 1] else none,
    [("u", cartLine "1" 1)], ?_⟩
  refine cart_is_own_iff _ _ _ _ (fun uid l hl => ?_) _
  by_cases hu : uid = "u"
  · rw [if_pos hu] at hl
    rw [hu, List.mem_singleton.mp hl]
    exact List.mem_singleton.mpr rfl
  · rw [if_neg hu] at hl
    exact absurd hl List.not_mem_nil

/-- **One user buys what another added**: a user adds a line and signs out,
another signs in through the login page and finds it in the list. -/
theorem bought_by_another :
    ¬ ∀ (users : Collection) (carts : String → Option (List OrderModel))
      (added : List (String × OrderModel)) (authUser : Option String)
      (as : List OwnerAction),
      (∀ uid, ∀ l ∈ (carts uid).getD [], (uid, l) ∈ added) →
      Runs.Along ownerStep CartIsOwn (OwnerState.start users carts added authUser) as := by
  intro h
  let user : Fields := UserModel.toMap ⟨"e", "u", "n", "a", true, ⟨0⟩⟩
  have hlaw := (h (fun _ => some user) (fun _ => none) [] none
    [.splash, .login "u", .addToCart (cartLine "1" 1), .signOut, .login "v",
      .checkout ⟨0⟩] (fun _ _ hl => absurd hl List.not_mem_nil)).last rfl
  have hadded := hlaw.placed (cartToOrder "v" ⟨0⟩ [cartLine "1" 1])
    (List.mem_singleton.mpr rfl) (cartLine "1" 1) (List.mem_singleton.mpr rfl)
  exact absurd hadded (by decide)
