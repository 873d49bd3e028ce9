import TrailingYear.Report
import TrailingYear.Main
import TrailingYear.Json.Text
import TrailingYear.Table
import TrailingYear.Import
import TrailingYear.Proofs.FirstFailure
import TrailingYear.Proofs.Months
import TrailingYear.Proofs.Decimal.Rounding
import TrailingYear.Proofs.Decimal.Nearest
import TrailingYear.Proofs.Sums
import TrailingYear.Proofs.Ledger
import TrailingYear.Proofs.Series
import TrailingYear.Proofs.Income
import TrailingYear.Proofs.Conservation
import TrailingYear.Proofs.Import.Checks
import TrailingYear.Proofs.RateTable
import TrailingYear.Proofs.ReportingCurrency
import TrailingYear.Proofs.RatesUsed
import TrailingYear.Proofs.Command.Reports
import TrailingYear.Proofs.Bars
import TrailingYear.Proofs.Text
import TrailingYear.Proofs.Table.Rows
import TrailingYear.Proofs.Import.Readers
import TrailingYear.Proofs.Decimal.Text
import TrailingYear.Proofs.Decimal.Reading
import TrailingYear.Proofs.Field
import TrailingYear.Proofs.Chart
import TrailingYear.Proofs.Table.Write
import TrailingYear.Proofs.Table.Columns
import TrailingYear.Proofs.Import.RoundTrip
import TrailingYear.Proofs.Growth
import TrailingYear.Proofs.Toml.Strings
import TrailingYear.Proofs.Toml.Range
import TrailingYear.Proofs.Toml.Document
import TrailingYear.Proofs.Command.Files
import TrailingYear.Proofs.Settings
import TrailingYear.Proofs.Json.Text
import TrailingYear.Proofs.Json.Codec
import TrailingYear.Proofs.Command.Output
import TrailingYear.Proofs.Numeral
import TrailingYear.Proofs.Counts
import TrailingYear.Proofs.Date.Spelling
import TrailingYear.Proofs.Table.Layout
import TrailingYear.Proofs.Import.Lines
import TrailingYear.Proofs.Import.Dates
import TrailingYear.Proofs.Conversion
import TrailingYear.Proofs.Totals
