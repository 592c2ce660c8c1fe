import ExtendDb.Expression.NormalUpdates
import ExtendDb.Engine.PagedQuery
import ExtendDb.Restore.Resume
import ExtendDb.Cassandra.RestoreFence
import ExtendDb.Backup.RowLife
import ExtendDb.Cache.Swr
import ExtendDb.Cassandra.TokenReplay
import ExtendDb.Cassandra.SnapshotRead
import ExtendDb.Auth.FailClosed
import ExtendDb.Server.LeadingKeys
import ExtendDb.Migrations.Reconverge
import ExtendDb.Cassandra.StreamRecords
import ExtendDb.Sqlite.ParallelScan
import ExtendDb.Sqlite.IndexQueue
import ExtendDb.Cassandra.CommittedReads
import ExtendDb.Cassandra.RestoreExclusion
import ExtendDb.Expression.Projection
import ExtendDb.Cassandra.IndexBackfill
import ExtendDb.Cassandra.BackfillRecovery
import ExtendDb.Engine.ImportTable
import ExtendDb.BackupFormat.HeldKeys
import ExtendDb.Expression.UnusedPlaceholders
import ExtendDb.Storage.BeginsWith
import ExtendDb.Auth.CanonicalRequest
import ExtendDb.Mongo.PushdownUpdate
import ExtendDb.Backup.Heartbeat
import ExtendDb.Throttle
import ExtendDb.Auth.Timestamp
import ExtendDb.Postgres.StreamReaders
