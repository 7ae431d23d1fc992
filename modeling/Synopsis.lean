import Synopsis.Text.CaseFold
import Synopsis.Text.Letter
import Synopsis.Text.Alphanumeric
import Synopsis.Text.Blank
import Synopsis.Text.Line
import Synopsis.Text.Cut
import Synopsis.Text.Quoted
import Synopsis.Fault
import Synopsis.OptionDef
import Synopsis.Section
import Synopsis.Lexeme
import Synopsis.Usage
import Synopsis.Description
import Synopsis.Pattern
import Synopsis.Pattern.Reader
import Synopsis.Grammar
import Synopsis.Cursor
import Synopsis.Node
import Synopsis.Matching
import Synopsis.Action
import Synopsis.Bindings
import Synopsis.Decimal
import Synopsis.Decimal.Shortest
import Synopsis.Name
import Synopsis.Text.CommandText
import Synopsis.CommandLine
import Synopsis.Arguments
import Synopsis.Config
import Synopsis.Interface
import Synopsis.Store
import Synopsis.Recency
import Synopsis.GrammarCache
import Synopsis.Launch
import Synopsis.Json
import Synopsis.Text.Newline
import Synopsis.Tool
import Synopsis.Main
import Synopsis.Proofs.Answers
import Synopsis.Proofs.Firsts
import Synopsis.Proofs.Consumption
import Synopsis.Proofs.Enumeration
import Synopsis.Proofs.NodeIdentity
import Synopsis.Proofs.Backtracking
import Synopsis.Proofs.MatcherUse
import Synopsis.Proofs.Derivation
import Synopsis.Proofs.Transcript
import Synopsis.Proofs.Reduction
import Synopsis.Proofs.Binding
import Synopsis.Proofs.Rearrangement
import Synopsis.Proofs.PositionIndependence
import Synopsis.Proofs.UsageLines
import Synopsis.Proofs.Success
import Synopsis.Proofs.Lookup
import Synopsis.Proofs.Reading
import Synopsis.Proofs.Rebuild
import Synopsis.Proofs.Meaning
import Synopsis.Proofs.Locality
import Synopsis.Proofs.Respelling
import Synopsis.Proofs.InStep
import Synopsis.Proofs.OwnSpelling
import Synopsis.Proofs.UsageWord
import Synopsis.Proofs.UsageGrammar
import Synopsis.Proofs.Alternation
import Synopsis.Proofs.OptionGrowth
import Synopsis.Proofs.Consistency
import Synopsis.Proofs.Spreading
import Synopsis.Proofs.LexemePlaces
import Synopsis.Proofs.UsagePlaces
import Synopsis.Proofs.Safety
import Synopsis.Proofs.Serving
import Synopsis.Proofs.OutputSteps
import Synopsis.Proofs.Capture
import Synopsis.Proofs.CacheHistory
import Synopsis.Proofs.Isolation
import Synopsis.Proofs.LineScan
import Synopsis.Proofs.ToolGrammar
import Synopsis.Proofs.Preference
import Synopsis.Proofs.ToolRequest
import Synopsis.Proofs.Forwarding
import Synopsis.Proofs.OutcomeOrder
import Synopsis.Proofs.LiteralMode
import Synopsis.Proofs.Repeatability
import Synopsis.Proofs.Correspondence
import Synopsis.Proofs.Grouping
import Synopsis.Proofs.Overlooking
import Synopsis.Proofs.Neighbours
import Synopsis.Proofs.Shortcuts
import Synopsis.Proofs.UsageFaults
import Synopsis.Proofs.FaultyArgument
import Synopsis.Proofs.OwnOptions
import Synopsis.Proofs.Coverage
import Synopsis.Proofs.BestAttempt
import Synopsis.Proofs.Lines
import Synopsis.Proofs.Trimming
import Synopsis.Proofs.SameLetters
import Synopsis.Proofs.SectionBlocks
import Synopsis.Proofs.OptionEntries
import Synopsis.Proofs.WrittenOption
import Synopsis.Proofs.LexemeBreaks
import Synopsis.Proofs.UsageBlock
import Synopsis.Proofs.WrappedUsage
import Synopsis.Proofs.EditScripts
import Synopsis.Proofs.NestedNamespaces
import Synopsis.Proofs.NameLookup
import Synopsis.Proofs.MatchOrder
import Synopsis.Proofs.TokenAccounts
import Synopsis.Proofs.CountedPlace
import Synopsis.Proofs.TableGrowth
import Synopsis.Proofs.CommandWords
import Synopsis.Proofs.ShortestDecimal
