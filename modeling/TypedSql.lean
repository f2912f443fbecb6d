import TypedSql.Engine.Scripted
import TypedSql.Proofs.Schema.Dependencies
import TypedSql.Record
import TypedSql.Schema.Description
import TypedSql.Statement.Join
import TypedSql.Proofs.Number.Written
import TypedSql.Proofs.Sql.Phrase
import TypedSql.Proofs.Term.Phrase
import TypedSql.Proofs.Sql.Unquoted
import TypedSql.Proofs.Statement.Placeholders
import TypedSql.Proofs.Term.Grammar
import TypedSql.Proofs.Term.Regrouping
import TypedSql.Proofs.Term.Tree
import TypedSql.Proofs.Term.Reading
import TypedSql.Proofs.Term.Arithmetic
import TypedSql.Proofs.Term.ArithmeticText
import TypedSql.Proofs.Codec.RoundTrip
import TypedSql.Proofs.Codec.Literal
import TypedSql.Proofs.Query.References
import TypedSql.Proofs.Query.Sending
import TypedSql.Proofs.Statement.FromReading
import TypedSql.Schema.Builder
import TypedSql.Proofs.Schema.Builder
import TypedSql.Proofs.Term.Vocabulary
import TypedSql.Proofs.Schema.PrimaryKey
import TypedSql.Proofs.Calendar.Date
import TypedSql.Proofs.Calendar.Text
import TypedSql.Proofs.Codec.Recoverable
import TypedSql.Proofs.Schema.Identities
import TypedSql.Proofs.Statement.Assigned
import TypedSql.Proofs.Query.ReadBack
import TypedSql.Proofs.Statement.Binding
import TypedSql.Proofs.Schema.Built
import TypedSql.Proofs.Schema.Creation
import TypedSql.Proofs.Schema.TriggerBody
import TypedSql.Proofs.Schema.Stored
import TypedSql.Proofs.Schema.Refused
import TypedSql.Proofs.Schema.RowReferences
import TypedSql.Proofs.Codec.Timestamps
import TypedSql.Proofs.Statement.Missing
import TypedSql.Proofs.Schema.RowidAlias
import TypedSql.Proofs.Schema.Handles
import TypedSql.Proofs.Order.InputOrder
import TypedSql.Proofs.Schema.InputOrder
import TypedSql.Proofs.Statement.Conditions
import TypedSql.Proofs.Term.NegatedExists
import TypedSql.Proofs.Statement.Aligned
import TypedSql.Proofs.Schema.DeclaredView
import TypedSql.Proofs.Statement.ForeignKeyJoin
import TypedSql.Proofs.Codec.AcceptedTimestamps
import TypedSql.Proofs.Codec.Decoding
import TypedSql.Proofs.Schema.IndexNames
import TypedSql.Proofs.Schema.ColumnOutcome
import TypedSql.Proofs.Statement.JoinedQueries
import TypedSql.Proofs.Statement.JoinConditions
import TypedSql.Proofs.Query.Counting
import TypedSql.Proofs.Sql.Word
import TypedSql.Proofs.Schema.CollationNames
import TypedSql.Proofs.Term.Outer
import TypedSql.Proofs.Query.SelectLists
import TypedSql.Proofs.Number.Nearest
import TypedSql.Proofs.Number.NumeralText
import TypedSql.Proofs.Number.IntegerColumn
import TypedSql.Proofs.Schema.RecordAttributes
import TypedSql.Proofs.Sql.OperandText
import TypedSql.Proofs.Schema.RawDefault
