import Bgpd.AnnouncePolicy
import Bgpd.MessageOrder
import Bgpd.Fib
import Bgpd.NetworkStatements
import Bgpd.AllowasIn
import Bgpd.ExclusiveOptions
import Bgpd.Collision
import Bgpd.AttrExact
import Bgpd.TableRuns
import Bgpd.CommunityListRuns
import Bgpd.AttrRoundTrip
import Bgpd.TreatAsWithdraw
import Bgpd.DeterministicMed
import Bgpd.RejectedUpdate
import Bgpd.RouterIdRuns
import Bgpd.ConnectedRuns
import Bgpd.ZapiEffect
import Bgpd.StaticRuns
import Bgpd.PathTableRuns
import Bgpd.PrefixCountRuns
import Bgpd.RedistributionRuns
import Bgpd.GroupAnnounce
import Bgpd.ProcessQueue
import Bgpd.PathReconcile
import Bgpd.OrfRefresh
import Bgpd.MessageFraming
import Bgpd.DampListRuns
import Bgpd.AdjOutRuns
import Bgpd.RedistributedRoutes
import Bgpd.MetricRules
import Bgpd.RouteMapRecursion
import Bgpd.PathExclude
import Bgpd.CapabilityMessage
import Bgpd.NlriParse
import Bgpd.AggregatorMerge
import Bgpd.PathPrepend
import Bgpd.MaximumPrefix
import Bgpd.ClientClearing
import Bgpd.CommunityDeletion
import Bgpd.VpnText
import Bgpd.StableNetwork
