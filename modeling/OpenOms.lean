import OpenOms.Domain.Suspension
import OpenOms.Systems.OrderWriters
import OpenOms.Systems.LiveAndRecon
import OpenOms.Systems.FillDelivery
import OpenOms.Systems.Orphans
import OpenOms.Systems.PositionWriters
import OpenOms.Systems.SubmitAndFill
import OpenOms.Systems.PositionLimit
import OpenOms.Systems.CumulativeVenue
import OpenOms.Systems.ClosingEvent
import OpenOms.Systems.Coverage
import OpenOms.Systems.BlockAllocations
import OpenOms.Systems.Reducing
import OpenOms.Systems.Rebuild
import OpenOms.Systems.OptimisticWriters
import OpenOms.Systems.ColoLink
import OpenOms.Systems.Kill
import OpenOms.Systems.ReconcileSlots
import OpenOms.Systems.FixRequests
import OpenOms.Systems.FixSessions
import OpenOms.Systems.OrderOutbox
import OpenOms.Systems.PositionOutbox
import OpenOms.Systems.RotateAndSave
import OpenOms.Reload
import OpenOms.Systems.Flatten
import OpenOms.Systems.FollowedTrades
import OpenOms.Profit
import OpenOms.Colo.Switch
import OpenOms.Systems.Rounding
import OpenOms.Systems.TwoTopics
import OpenOms.Colo.TruePosition
import OpenOms.Systems.LimitsLink
import OpenOms.Systems.NewOrders
import OpenOms.Systems.Disconnects
import OpenOms.Systems.ReportDelivery
import OpenOms.Systems.LateAcks
import OpenOms.Valuation
import OpenOms.Colo.RateWindow
import OpenOms.Fix.Redaction
import OpenOms.MarketData.Interests
import OpenOms.MarketData.FeedSession
import OpenOms.MarketData.Opra
import OpenOms.MarkRouter
import OpenOms.Colo.TradeHistory
import OpenOms.Systems.PriceNotices
import OpenOms.Setup.LoadTwice
import OpenOms.Symbology.OpenFigi
import OpenOms.Setup.Enrichment
import OpenOms.ReconPass
import OpenOms.Colo.Fight
import OpenOms.Colo.Runtime
import OpenOms.Colo.Links
import OpenOms.Systems.StatusReplies
import OpenOms.MarketData.BybitFeed
import OpenOms.Expiry
import OpenOms.Jobs.Log
import OpenOms.Systems.UniverseJobs
import OpenOms.Systems.Revocation
import OpenOms.Systems.StoredEvents
import OpenOms.InstrumentSearch
import OpenOms.Systems.HeldLoop
import OpenOms.Systems.VenuesOffered
import OpenOms.Colo.FollowStreams
