import EtranProcessing.Archive.NothingLost
import EtranProcessing.Archive.PurgeExactness
import EtranProcessing.Archive.RoundTrip
import EtranProcessing.Billing.ConfirmationOrder
import EtranProcessing.Billing.ExactlyOnce
import EtranProcessing.Capture.DegradeLoop
import EtranProcessing.Capture.RtpStream
import EtranProcessing.Deployment.AntiRollback
import EtranProcessing.Deployment.CommitExclusion
import EtranProcessing.Deployment.ConfigRecovery
import EtranProcessing.Deployment.MarkerChain
import EtranProcessing.Deployment.OutcomeHistory
import EtranProcessing.Deployment.ServiceDiscipline
import EtranProcessing.Deployment.RecoveryBudget
import EtranProcessing.Deployment.AdmissionWindows
import EtranProcessing.Feed.Progress
import EtranProcessing.Ingress.FailedStart
import EtranProcessing.Ingress.RestoreOrder
import EtranProcessing.Ledger.TrialBalance
import EtranProcessing.Metering.EverySecondOnce
import EtranProcessing.Desk.InputAuthority
import EtranProcessing.Proxy.TunnelAgreement
import EtranProcessing.Proxy.NewestRecord
import EtranProcessing.Proxy.OfflineGrace
import EtranProcessing.Ingress.FeedbackReset
import EtranProcessing.Ingress.JanusChunks
import EtranProcessing.Ingress.KeyframeRate
import EtranProcessing.Ingress.KeyframeRuns
import EtranProcessing.Ingress.LegacyRecord
import EtranProcessing.Ingress.Listing
import EtranProcessing.Ingress.RouteRoundTrip
import EtranProcessing.Ingress.Schema
import EtranProcessing.Publishing.PendingPlan
import EtranProcessing.Desk.EventReader
import EtranProcessing.Capture.DegradeLadder
import EtranProcessing.Deployment.SetupCodecs
import EtranProcessing.Deployment.CatalogRoutes
import EtranProcessing.Deployment.JournalPlans
import EtranProcessing.Metering.DailyUsage
import EtranProcessing.Billing.Forecast
import EtranProcessing.Desk.InputQueue
import EtranProcessing.Deployment.UpdateReporting
import EtranProcessing.Proxy.Endpoints
import EtranProcessing.Desk.PayloadBuffers
import EtranProcessing.Proxy.FileManagerGate
import EtranProcessing.Desk.MqttPackets
import EtranProcessing.Desk.FieldExtraction
