import LiveQuery.Json.Reader
import LiveQuery.Session.Report
import LiveQuery.Store.World
import LiveQuery.Store.Threads
import LiveQuery.Proofs.Cache.Mirror
import LiveQuery.Proofs.Cache.SingleFlight
import LiveQuery.Proofs.Store.Delivery
import LiveQuery.Proofs.Cache.Beginnings
import LiveQuery.Proofs.Service.Eviction
import LiveQuery.Proofs.Cache.Entities
import LiveQuery.Proofs.Store.Eviction
import LiveQuery.Proofs.Cache.Epochs
import LiveQuery.Proofs.Cache.Refetches
import LiveQuery.Proofs.Cache.Freshness
import LiveQuery.Proofs.Store.Arrivals
import LiveQuery.Proofs.Store.Bindings
import LiveQuery.Proofs.Store.Abandonment
import LiveQuery.Proofs.Threads.LatestCall
import LiveQuery.Proofs.Threads.Deadlines
import LiveQuery.Proofs.Threads.OneThread
import LiveQuery.Proofs.Store.Echoes
import LiveQuery.Proofs.Store.Immediacy
import LiveQuery.Proofs.Store.EitherOrder
import LiveQuery.Proofs.Store.Rejections
import LiveQuery.Proofs.Store.Leftovers
import LiveQuery.Proofs.Store.Homes
import LiveQuery.Proofs.Store.CacheFirst
import LiveQuery.Proofs.Store.Mounting
import LiveQuery.Proofs.Cache.Scanning
import LiveQuery.Proofs.Json.Numerals
import LiveQuery.Proofs.Query.Identity
import LiveQuery.Proofs.Query.Sharing
import LiveQuery.Proofs.Store.Dispatch
import LiveQuery.Proofs.Store.Visits
import LiveQuery.Proofs.Backend.Paging
import LiveQuery.Proofs.Query.Operators
import LiveQuery.Proofs.Query.Rewriting
import LiveQuery.Proofs.Query.Nulls
import LiveQuery.Proofs.Query.Splitting
import LiveQuery.Proofs.Service.Staleness
