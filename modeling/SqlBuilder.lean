import SqlBuilder.Bytes.Lossy
import SqlBuilder.Client.Scripted
import SqlBuilder.Settings.Document
import SqlBuilder.Database.Connect
import SqlBuilder.Proofs.Placeholder.Finality
import SqlBuilder.Proofs.Select.Binding
import SqlBuilder.Proofs.Select.Inlining
import SqlBuilder.Proofs.Settings.Override
import SqlBuilder.Proofs.Wire.Instants
import SqlBuilder.Proofs.Wire.Integers
import SqlBuilder.Proofs.Condition.Emptiness
import SqlBuilder.Proofs.Database.Leftover
import SqlBuilder.Proofs.Select.Clauses
import SqlBuilder.Proofs.Database.UniformRecords
import SqlBuilder.Proofs.Select.Ordering
import SqlBuilder.Proofs.Database.RecordUpdates
import SqlBuilder.Proofs.Placeholder.Concatenation
import SqlBuilder.Proofs.Select.Limits
import SqlBuilder.Proofs.Select.SortText
import SqlBuilder.Proofs.Value.Document
