import Rebate.Book.Evaluation
import Rebate.Book.Loading
import Rebate.Proofs.Condition.Written
import Rebate.Proofs.Condition.ReadWritten
import Rebate.Proofs.Rule.ReadWritten
import Rebate.Proofs.Condition.FirstCut
import Rebate.Proofs.Condition.Scan
import Rebate.Proofs.Rule.FlatScan
import Rebate.Proofs.Book.BestDiscount
import Rebate.Proofs.Book.Loading
import Rebate.Proofs.Condition.Kinds
import Rebate.Proofs.Condition.Layers
import Rebate.Proofs.Rule.NormalForm
import Rebate.Proofs.Rule.NumericComparison
import Rebate.Proofs.Text.JoinedLines
import Rebate.Proofs.Book.Concatenation
import Rebate.Proofs.Book.RuleTexts
import Rebate.Proofs.Condition.Inquiry
import Rebate.Proofs.Condition.Rearrangement
import Rebate.Proofs.Rule.NumericEquality
import Rebate.Proofs.Condition.Depth
import Rebate.Proofs.Condition.NestingLimit
import Rebate.Proofs.Decimal.NumeralGrammar
import Rebate.Proofs.Decimal.Rounding
import Rebate.Proofs.Book.ReportBest
import Rebate.Proofs.Text.OccurrenceCount
import Rebate.Proofs.Rule.ReadErrors
import Rebate.Proofs.Decimal.ReadPrinted
import Rebate.Proofs.Condition.ReadPrinted
import Rebate.Proofs.Decimal.Monotone
import Rebate.Proofs.Rule.LiteralOrder
import Rebate.Proofs.Rule.PrintedNumber
import Rebate.Proofs.Book.PrintedReport
