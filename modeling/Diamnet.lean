import Diamnet.Scp.Agreement
import Diamnet.Scp.Bumps
import Diamnet.Transactions.Brackets
import Diamnet.Herder.VersionUpgrade
import Diamnet.Bucket.Restart
import Diamnet.Herder.QueueCalls
import Diamnet.Catchup.ChainAborts
import Diamnet.Scp.ClosestVBlocking
import Diamnet.Scp.RoundLeaders
import Diamnet.Scp.CommitIntervals
import Diamnet.Scp.Completeness
import Diamnet.Scp.BumpLoop
import Diamnet.Transactions.SignatureWeight
import Diamnet.Transactions.ClaimPredicates
import Diamnet.Bucket.Composition
import Diamnet.Transactions.AdjustedOffers
import Diamnet.Nested.Delta
import Diamnet.Nested.BestOffersCache
import Diamnet.Nested.Reference
import Diamnet.Nested.InflationWinners
import Diamnet.Bucket.Applicator
import Diamnet.Bucket.SkipList
import Diamnet.Herder.Candidates
import Diamnet.Herder.ApplyOrder
import Diamnet.Scp.GeneratedQuorumSet
import Diamnet.Bucket.MergeMap
import Diamnet.Scp.StatementOrder
import Diamnet.Support.RandomEvictionCache
