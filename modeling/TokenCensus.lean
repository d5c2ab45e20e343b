import TokenCensus.Main
import TokenCensus.Proofs.Newline
import TokenCensus.Proofs.Reprint
import TokenCensus.Proofs.Tiling
import TokenCensus.Proofs.Trivia
import TokenCensus.Proofs.Lookahead
import TokenCensus.Proofs.LineEnding
import TokenCensus.Proofs.InPlace
import TokenCensus.Proofs.SelfDelimiting
import TokenCensus.Proofs.TokenText
import TokenCensus.Proofs.CountReport
import TokenCensus.Proofs.TokenReport
import TokenCensus.Proofs.Line
import TokenCensus.Proofs.ReportLines
import TokenCensus.Proofs.Caret
import TokenCensus.Proofs.RunOutput
import TokenCensus.Proofs.Occurrence
import TokenCensus.Proofs.TableEquality
import TokenCensus.Proofs.Pattern
import TokenCensus.Proofs.MaximalMunch
import TokenCensus.Proofs.BreakingOff
import TokenCensus.Proofs.WordBoundary
import TokenCensus.Proofs.ClosingMark
import TokenCensus.Proofs.OpenEnd
import TokenCensus.Proofs.StrayCharacter
import TokenCensus.Proofs.LineLookup
import TokenCensus.Proofs.DamagedBytes
import TokenCensus.Proofs.CommandLine
