import ForexSuite.ActionQueue
import ForexSuite.CommandWords
import ForexSuite.ConfigFiles
import ForexSuite.ConnectionLists
import ForexSuite.CopierCascade
import ForexSuite.CopierFaults
import ForexSuite.CopierHelper
import ForexSuite.CopierLogins
import ForexSuite.CopierOrders
import ForexSuite.CopierSoundness
import ForexSuite.DealLifetime
import ForexSuite.FeedSubscriptions
import ForexSuite.FixLink
import ForexSuite.FixLosses
import ForexSuite.IgnoredErases
import ForexSuite.JsonAccepted
import ForexSuite.JsonDatafeed
import ForexSuite.MessageLoop
import ForexSuite.OrderLog
import ForexSuite.PriceFrames
import ForexSuite.QuoteRequestIds
import ForexSuite.RuleRouting
import ForexSuite.SessionIds
import ForexSuite.SessionIsolation
import ForexSuite.SessionLogon
import ForexSuite.SnapshotPrices
import ForexSuite.SubscriptionCoupling
import ForexSuite.SubscriptionStream
import ForexSuite.SymbolKeys
import ForexSuite.UnsupportedRequests
import ForexSuite.XmlBatch
import ForexSuite.XmlOperands
import ForexSuite.XmlPermutations
import ForexSuite.XmlTraps
