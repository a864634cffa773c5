import TurtleDb.Disk.FileIds
import TurtleDb.Buffer.Deletion
import TurtleDb.Buffer.Failures
import TurtleDb.Buffer.FreshPages
import TurtleDb.Buffer.GhostHistory
import TurtleDb.Buffer.GuardTheorems
import TurtleDb.Buffer.Victim
import TurtleDb.Page.SlotMap
import TurtleDb.Page.Accounting
import TurtleDb.Table.Codec
import TurtleDb.Table.Reopen
import TurtleDb.Table.Reuse
import TurtleDb.Table.RowSizes
import TurtleDb.Catalog.Reopen
import TurtleDb.Catalog.Truncation
import TurtleDb.Catalog.Tables
import TurtleDb.Catalog.Shutdown
import TurtleDb.Table.Lemmas.Frames
import TurtleDb.Table.Cursors
import TurtleDb.Datatype.Casts
import TurtleDb.Execution.GroupKeys
import TurtleDb.Execution.Ungrouped
import TurtleDb.Execution.Updates
import TurtleDb.Execution.EffectsTheorems
import TurtleDb.Execution.InsertSelect
import TurtleDb.Execution.QueryPlan
import TurtleDb.Execution.Limit
import TurtleDb.Execution.Restart
import TurtleDb.Execution.ThreeValued
import TurtleDb.Buffer.LruReplacer
import TurtleDb.Datatype.Copying
import TurtleDb.Datatype.TimestampOrder
import TurtleDb.Datatype.Chronology
import TurtleDb.Datatype.CastTables
import TurtleDb.Execution.ExpressionTrees
import TurtleDb.Execution.StaticTypes
import TurtleDb.Table.PinBalance
import TurtleDb.Execution.Session
