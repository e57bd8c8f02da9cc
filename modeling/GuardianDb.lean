import GuardianDb.AccessControl.Grants
import GuardianDb.Cache.LevelDown
import GuardianDb.Compute.Ledger
import GuardianDb.Embedding.Service
import GuardianDb.Log.Convergence
import GuardianDb.Log.Join
import GuardianDb.Odm.Collection
import GuardianDb.P2p.BatchProcessor
import GuardianDb.P2p.Exclusive
import GuardianDb.P2p.KeyConvergence
import GuardianDb.P2p.KeyReplay
import GuardianDb.P2p.KeyVersions
import GuardianDb.P2p.OptimizedCache
import GuardianDb.Relational.Key
import GuardianDb.Sql.Ann
import GuardianDb.Sql.Arith
import GuardianDb.Sql.CatalogWrites
import GuardianDb.Sql.ChangeEvents
import GuardianDb.Sql.CommitOutcome
import GuardianDb.Sql.GuardianStorage
import GuardianDb.Sql.IndexScan
import GuardianDb.Sql.Joins
import GuardianDb.Sql.Like
import GuardianDb.Sql.Loadable
import GuardianDb.Sql.Lquery
import GuardianDb.Sql.PolicyOrder
import GuardianDb.Sql.Predicates
import GuardianDb.Sql.Returning
import GuardianDb.Sql.SetOps
import GuardianDb.Sql.StatementErrors
import GuardianDb.Sql.ViewScope
import GuardianDb.Stores.AeadCodec
import GuardianDb.Stores.LiveIndex
import GuardianDb.Stores.Restart
import GuardianDb.Stores.Snapshot
import GuardianDb.Supabase.Realtime
import GuardianDb.Supabase.Rotation
