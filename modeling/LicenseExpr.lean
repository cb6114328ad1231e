import LicenseExpr.Text.Blank
import LicenseExpr.Text.Case
import LicenseExpr.Text.Utf8
import LicenseExpr.Text.GraphemeExtend
import LicenseExpr.Text.Printable
import LicenseExpr.Text.Quoted
import LicenseExpr.Token.Scanner
import LicenseExpr.Expression
import LicenseExpr.Expression.Json
import LicenseExpr.Expression.Outline
import LicenseExpr.Expression.Constructor
import LicenseExpr.RightNested
import LicenseExpr.Precedence
import LicenseExpr.Reader
import LicenseExpr.Search.Coordinates
import LicenseExpr.Search.Query
import LicenseExpr.Batch
import LicenseExpr.Main
import LicenseExpr.Expression.Symbols
import LicenseExpr.Proofs.RightNested.Reading
import LicenseExpr.Proofs.RightNested.Strictness
import LicenseExpr.Proofs.Precedence.Reading
import LicenseExpr.Proofs.Dialects
import LicenseExpr.Proofs.Agreement
import LicenseExpr.Proofs.RightNested.Turns
import LicenseExpr.Proofs.RightNested.Recursion
import LicenseExpr.Proofs.Legible
import LicenseExpr.Proofs.RightNested.Repaired
import LicenseExpr.Proofs.Earliest
import LicenseExpr.Proofs.Parentheses
import LicenseExpr.Proofs.RightNested.CommonFront
import LicenseExpr.Proofs.RightNested.Salvage
import LicenseExpr.Proofs.RightNested.Mended
import LicenseExpr.Proofs.Nesting
import LicenseExpr.Proofs.Retouch
import LicenseExpr.Proofs.Classes
import LicenseExpr.Proofs.Scan.Classes
import LicenseExpr.Proofs.RightNested.Classes
import LicenseExpr.Proofs.Segmentation
import LicenseExpr.Proofs.Cursor
import LicenseExpr.Proofs.LetterCase
import LicenseExpr.Proofs.Json
import LicenseExpr.Proofs.CommandLine.Execution
import LicenseExpr.Proofs.Batch.BlankLines
import LicenseExpr.Proofs.RightNested.Kept
import LicenseExpr.Proofs.Search.Query
import LicenseExpr.Proofs.Outline
import LicenseExpr.Proofs.Search.Coordinates
import LicenseExpr.Proofs.Height
import LicenseExpr.Proofs.Scanner
import LicenseExpr.Proofs.RightNested.Discards
import LicenseExpr.Proofs.RightNested.Consistency
import LicenseExpr.Proofs.Search.Address
import LicenseExpr.Proofs.Precedence.Calls
