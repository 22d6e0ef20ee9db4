import MiniSql.RejectedInserts
import MiniSql.History
import MiniSql.PathBuffers
import MiniSql.Library.PrefixParsing
import MiniSql.Parser
import MiniSql.Grammar
import MiniSql.Printing
import MiniSql.FailedAppends
import MiniSql.EarlyStop
import MiniSql.Backups
import MiniSql.IntegerComparisons
import MiniSql.LineEditor
import MiniSql.CommandHistory
import MiniSql.RangeScans
import MiniSql.InsertAcceptance
import MiniSql.ScriptTexts
import MiniSql.InteractiveMode
import MiniSql.ParserBounds
import MiniSql.TokenizerBounds
import MiniSql.CommandLine
import MiniSql.ExistingTables
import MiniSql.Database
import MiniSql.DatabaseRuns
import MiniSql.DatabaseGuarantees
import MiniSql.Library.TextTables
import MiniSql.ResultPrinting
import MiniSql.ScriptStatements
import MiniSql.ErrorHints
import MiniSql.ReportedErrors
import MiniSql.MainProgram
import MiniSql.Processes
import MiniSql.JoinedScripts
