import Enmart.Base.Runs
import Enmart.Base.Amounts
import Enmart.Base.SetArray
import Enmart.Firestore.Value
import Enmart.Firestore.Write
import Enmart.Base.Dart
import Enmart.Models.Order
import Enmart.Models.User
import Enmart.Models.Product
import Enmart.Models.Ndp
import Enmart.Auth.Provider
import Enmart.Auth.Session
import Enmart.Cart.Checkout
import Enmart.Cart.Provider
import Enmart.Cart.Retry
import Enmart.Cart.Overlap
import Enmart.Orders.Dispatch
import Enmart.Orders.Ledger
import Enmart.Orders.Dialog
import Enmart.Orders.Failure
import Enmart.Orders.Concurrent
import Enmart.Orders.Status
import Enmart.Cart.Owner
import Enmart.Records.Creation
import Enmart.Cart.Adding
import Enmart.Auth.Reading
import Enmart.Routes.Table
import Enmart.Routes.Pages
import Enmart.Orders.Pricing
import Enmart.Base.LastWrite
import Enmart.Products.SpecialPrices
import Enmart.Products.Store
import Enmart.Products.References
import Enmart.Orders.Commute
import Enmart.Cart.Guard
import Enmart.Base.Ranges
import Enmart.Products.Search
import Enmart.Orders.Encoding
import Enmart.Products.ListPrice
import Enmart.Base.Decimals
import Enmart.Cart.AddFailure
import Enmart.Products.Import
import Enmart.Records.Decoding
import Enmart.Products.PriceField
import Enmart.Base.Handlers
import Enmart.Dialogs.Saving
import Enmart.Dialogs.Once
import Enmart.Base.Rounding
import Enmart.Products.Updating
import Enmart.Base.Refinement
import Enmart.Mart.Abstract
import Enmart.Mart.Run
import Enmart.Mart.Completion
import Enmart.Base.RoundingError
import Enmart.Base.Fixed
import Enmart.Mart.Figures
import Enmart.Ndp.Form
import Enmart.Base.OrderedSet
import Enmart.Firestore.ObjectValue
import Enmart.Firestore.FieldPath
import Enmart.Firestore.SetAll
import Enmart.Firestore.Mutation
import Enmart.Firestore.Overlay
import Enmart.Firestore.LocalView
import Enmart.Firestore.LocalStore
import Enmart.Firestore.Flat
import Enmart.Firestore.UserData
import Enmart.Firestore.Offline
