import TargetClickhouse.Lib.Effects
import TargetClickhouse.Lib.Text
import TargetClickhouse.Lib.Percent
import TargetClickhouse.Lib.Dict
import TargetClickhouse.Lib.Attempts
import TargetClickhouse.Lib.Runs
import TargetClickhouse.Lib.Template
import TargetClickhouse.Lib.Sql
import TargetClickhouse.Lib.Batches
import TargetClickhouse.Lib.Columns
import TargetClickhouse.Lib.TopDown
import TargetClickhouse.Lib.Merges
import TargetClickhouse.Lib.Families
import TargetClickhouse.Lib.Interference
import TargetClickhouse.Values
import TargetClickhouse.Schema
import TargetClickhouse.Config
import TargetClickhouse.Names
import TargetClickhouse.Records
import TargetClickhouse.Inserts
import TargetClickhouse.Delivery
import TargetClickhouse.ArrowBatch
import TargetClickhouse.SqlTypes
import TargetClickhouse.PreValidation
import TargetClickhouse.Timestamps
import TargetClickhouse.Engine
import TargetClickhouse.Connector
import TargetClickhouse.Cluster
import TargetClickhouse.Tables
import TargetClickhouse.Versions
import TargetClickhouse.SshTunnel
import TargetClickhouse.BatchSize
import TargetClickhouse.Columnar
import TargetClickhouse.Nullability
import TargetClickhouse.LoadOptions
import TargetClickhouse.Repairs
import TargetClickhouse.RepairEffects
import TargetClickhouse.Violations
import TargetClickhouse.RepairFootprint
import TargetClickhouse.DateFields
import TargetClickhouse.Replication
import TargetClickhouse.RetryBound
import TargetClickhouse.AcceptLoop
import TargetClickhouse.TunnelLifecycle
import TargetClickhouse.Tunnel
import TargetClickhouse.QuotedNames
import TargetClickhouse.ManifestPaths
import TargetClickhouse.ArrowColumns
import TargetClickhouse.Upserts
import TargetClickhouse.Loads
import TargetClickhouse.LoadedRows
import TargetClickhouse.ManifestRuns
import TargetClickhouse.ConnectionUrl
import TargetClickhouse.Server
import TargetClickhouse.Setups
import TargetClickhouse.Restarts
import TargetClickhouse.ConcurrentSetups
import TargetClickhouse.Clients
import TargetClickhouse.VersionRuns
