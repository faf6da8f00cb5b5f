import SemanticSql.Document.Directory
import SemanticSql.Proofs.CircleSearch
import SemanticSql.Proofs.ComponentNames
import SemanticSql.Proofs.ExpansionChains
import SemanticSql.Proofs.FanOutEdges
import SemanticSql.Proofs.FilterQuotes
import SemanticSql.Proofs.FunnelTrails
import SemanticSql.Proofs.IdentifierKeys
import SemanticSql.Proofs.KeptTables
import SemanticSql.Proofs.ListedFilters
import SemanticSql.Proofs.MappedNames
import SemanticSql.Proofs.NeededJoins
import SemanticSql.Proofs.OrderTexts
import SemanticSql.Proofs.PeriodTotals
import SemanticSql.Proofs.ReorderedRequests
import SemanticSql.Proofs.ReportedRequests
import SemanticSql.Proofs.SymmetricValues
import SemanticSql.Proofs.TierLabels
import SemanticSql.Proofs.UngroupedRows
import SemanticSql.Proofs.WeekBuckets
import SemanticSql.Proofs.WhereClause
import SemanticSql.Proofs.WindowColumns
import SemanticSql.Proofs.WrittenDocuments
