import ThemedSheets.Main
import ThemedSheets.Proofs.Command.Dependencies
import ThemedSheets.Proofs.Command.Output
import ThemedSheets.Proofs.Command.Reading
import ThemedSheets.Proofs.Command.Spelling
import ThemedSheets.Proofs.Compile.FanOut
import ThemedSheets.Proofs.Compile.Joined
import ThemedSheets.Proofs.Compile.Lines
import ThemedSheets.Proofs.Compile.Origins
import ThemedSheets.Proofs.Compile.Results
import ThemedSheets.Proofs.Disk.Beside
import ThemedSheets.Proofs.Disk.Directories
import ThemedSheets.Proofs.Disk.Places
import ThemedSheets.Proofs.Json.Fields
import ThemedSheets.Proofs.Json.Numbers
import ThemedSheets.Proofs.Json.RoundTrip
import ThemedSheets.Proofs.Json.Strings
import ThemedSheets.Proofs.Log.Delivery
import ThemedSheets.Proofs.Merge.Appended
import ThemedSheets.Proofs.Merge.Enclosing
import ThemedSheets.Proofs.Merge.Isolation
import ThemedSheets.Proofs.Merge.Matching
import ThemedSheets.Proofs.Number.Decimal
import ThemedSheets.Proofs.Number.Digits
import ThemedSheets.Proofs.Number.Rounding
import ThemedSheets.Proofs.Number.Shortest
import ThemedSheets.Proofs.Outcome
import ThemedSheets.Proofs.Path.Normal
import ThemedSheets.Proofs.Path.Tidy
import ThemedSheets.Proofs.Request.Dropped
import ThemedSheets.Proofs.Request.Failures
import ThemedSheets.Proofs.Request.Faults
import ThemedSheets.Proofs.Request.Isolation
import ThemedSheets.Proofs.Request.Stages
import ThemedSheets.Proofs.Request.Unscoped
import ThemedSheets.Proofs.Sass.Imports
import ThemedSheets.Proofs.Sass.Layout
import ThemedSheets.Proofs.Sass.Located
import ThemedSheets.Proofs.Sass.Mapped
import ThemedSheets.Proofs.Sass.Places
import ThemedSheets.Proofs.Sass.Refusal
import ThemedSheets.Proofs.Sass.Search
import ThemedSheets.Proofs.Scope.Entries
import ThemedSheets.Proofs.Scope.Fileless
import ThemedSheets.Proofs.Scope.Files
import ThemedSheets.Proofs.Scope.Marks
import ThemedSheets.Proofs.Scope.Reports
import ThemedSheets.Proofs.Settings.Placing
import ThemedSheets.Proofs.Settings.Sections
import ThemedSheets.Proofs.Settings.Usable
import ThemedSheets.Proofs.Sheet.Flat
import ThemedSheets.Proofs.Sheet.Passes
import ThemedSheets.Proofs.Sheet.Selectors
import ThemedSheets.Proofs.Sheet.Spans
import ThemedSheets.Proofs.Sheet.Trimmed
import ThemedSheets.Proofs.SourceMap.Anchor
import ThemedSheets.Proofs.SourceMap.Normal
import ThemedSheets.Proofs.SourceMap.Placed
import ThemedSheets.Proofs.Text.Ends
import ThemedSheets.Proofs.Text.Letters
import ThemedSheets.Proofs.Text.Removal
import ThemedSheets.Proofs.Text.Replace
import ThemedSheets.Proofs.Text.Split
import ThemedSheets.SourceMap.Held
