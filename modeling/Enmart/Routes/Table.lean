import Enmart.Auth.Provider

/-!
# The route table

`router` has a route for each path, and `pageBuilder` says what a route builds:
one screen, but for the user home, which is blocked for a user in memory who is
not approved. The screens have links to one another, some of which open the
next screen over the present ones and some in place of all. Most screens are
for one of the two kinds of account, and their links lead to screens for the
same kind (`Screen.role_of_mem_pushes`); nothing in the table says so.
-/

/-- **The routes**, by the names of the route table. -/
inductive Route where
  | splashRoute
  | loginRoute
  | registerRoute
  | productsRoute
  | editProduct
  | adminHome
  | usersRoute
  | adminSettings
  | adminOrders
  | adminNdpRoute
  | homeRoute
  | ordersRoute
  | userProductsRoute
  | cartRoute
  | newNDPRoute
  | ndpRoute
  deriving DecidableEq, Repr

/-- The path of a route. -/
def Route.path : Route → String
  | splashRoute => "/welcome"
  | loginRoute => "/login"
  | registerRoute => "/register"
  | productsRoute => "/products"
  | editProduct => "/products/idHere"
  | adminHome => "/admin/home"
  | usersRoute => "/admin/users"
  | adminSettings => "/admin/settings"
  | adminOrders => "/admin/orders"
  | adminNdpRoute => "/admin/ndp"
  | homeRoute => "/user/home"
  | ordersRoute => "/user/orders"
  | userProductsRoute => "/user/products"
  | cartRoute => "/user/cart"
  | newNDPRoute => "/user/ndp/new"
  | ndpRoute => "/user/ndp"

/-- No two routes have one path. -/
theorem Route.path_injective : Function.Injective Route.path := by
  intro r r' h
  cases r <;> cases r' <;> first | rfl | exact absurd h (by decide)

/-- What a route builds. -/
inductive Screen where
  | splashScreen
  | loginPage
  | registerPage
  | listProducts
  | editProduct
  | adminHome
  | usersPage
  | adminSettings
  | adminOrders
  | ndpAdminList
  | userHome
  | userBlocked
  | userOrders
  | userProducts
  | cartPage
  | userNDPScreen
  | npdUserList
  deriving DecidableEq, Repr

/-- **The `pageBuilder` of a route.** The product editor is given its product
with the navigation and cannot be built without. -/
def Route.pageBuilder (p : AuthProvider) (extra : Bool) : Route → Option Screen
  | splashRoute => some .splashScreen
  | loginRoute => some .loginPage
  | registerRoute => some .registerPage
  | productsRoute => some .listProducts
  | editProduct => if extra then some .editProduct else none
  | adminHome => some .adminHome
  | usersRoute => some .usersPage
  | adminSettings => some .adminSettings
  | adminOrders => some .adminOrders
  | adminNdpRoute => some .ndpAdminList
  | homeRoute =>
    match homePage p with
    | .userHome => some .userHome
    | .userBlocked => some .userBlocked
  | ordersRoute => some .userOrders
  | userProductsRoute => some .userProducts
  | cartRoute => some .cartPage
  | newNDPRoute => some .userNDPScreen
  | ndpRoute => some .npdUserList

/-- The links of a page that open another over it. -/
def Screen.pushes : Screen → List Route
  | loginPage => [.registerRoute]
  | adminHome => [.usersRoute, .adminOrders, .productsRoute, .adminNdpRoute, .adminSettings]
  | listProducts => [.editProduct]
  | userHome => [.cartRoute, .ordersRoute, .userProductsRoute, .ndpRoute, .adminSettings]
  | cartPage => [.userProductsRoute]
  | npdUserList => [.newNDPRoute]
  | _ => []

/-- The links of a page that open another in place of all. -/
def Screen.goes : Screen → List Route
  | adminSettings => [.loginRoute]
  | userBlocked => [.splashRoute, .loginRoute]
  | userNDPScreen => [.homeRoute]
  | _ => []

/-- Who a page may be for. -/
inductive Role where
  | administrator
  | approvedUser
  deriving DecidableEq, Repr

/-- **Who a page is for**, where it is not for everybody. -/
def Screen.role : Screen → Option Role
  | listProducts | editProduct | adminHome | usersPage | adminOrders | ndpAdminList =>
    some .administrator
  | userOrders | userProducts | cartPage | userNDPScreen | npdUserList => some .approvedUser
  | _ => none

/-- The routes whose redirect waits for something: for the users document at
the user home, for the sign-out at the login and the register page. -/
def Route.Awaits (r : Route) : Prop := r = .homeRoute ∨ r = .loginRoute ∨ r = .registerRoute

instance (r : Route) : Decidable r.Awaits :=
  inferInstanceAs (Decidable (r = .homeRoute ∨ r = .loginRoute ∨ r = .registerRoute))

/-- A screen that is for everybody, and leads to no other than such. -/
def Screen.Free (p : Screen) : Prop := p.role = none ∧ p ≠ .userHome

instance (p : Screen) : Decidable p.Free :=
  inferInstanceAs (Decidable (p.role = none ∧ p ≠ .userHome))

/-- A route whose redirect does not wait builds its page whatever is in memory. -/
theorem Route.pageBuilder_congr {r : Route} (hr : ¬ r.Awaits) (a a' : AuthProvider)
    (extra : Bool) : r.pageBuilder a extra = r.pageBuilder a' extra := by
  cases r <;> first | rfl | exact absurd (Or.inl rfl) hr

/-- With no user in memory no route builds the user home. -/
theorem Route.ne_userHome (r : Route) : ∀ p ∈ r.pageBuilder .empty false, p ≠ .userHome := by
  cases r <;> decide

/-- **The links of a page lead to pages for the same accounts**, or for
everybody; those of the user home, for approved users. -/
theorem Screen.role_of_mem_pushes : ∀ (p : Screen) (r : Route), r ∈ p.pushes → ¬ r.Awaits →
    ∀ q ∈ r.pageBuilder .empty true, q ≠ .userHome ∧
      (q.role = none ∨ q.role = p.role ∨ (p = .userHome ∧ q.role = some .approvedUser)) := by
  intro p
  cases p <;> decide

/-- The links in place of all lead to where the redirect waits, or to a page
for everybody. -/
theorem Screen.awaits_of_mem_goes : ∀ (p : Screen) (r : Route), r ∈ p.goes →
    r.Awaits ∨ ∀ q ∈ r.pageBuilder .empty false, q.Free := by
  intro p
  cases p <;> decide
