import NetdataPlugins.LogRotation
import NetdataPlugins.WarnAddress
import NetdataPlugins.ItemVector
import NetdataPlugins.ElapsedTime
import NetdataPlugins.Svstat
import NetdataPlugins.RuleNames
import NetdataPlugins.SmtpAccounting
import NetdataPlugins.LimitAccounting
import NetdataPlugins.LimitTiming
import NetdataPlugins.LimitDimensions
import NetdataPlugins.SendOutcome
import NetdataPlugins.SessionAverage
import NetdataPlugins.QueueWalk
import NetdataPlugins.ScannerCharts
import NetdataPlugins.DetailsFormat
import NetdataPlugins.DetailsAccounting
import NetdataPlugins.WarningPrefix
import NetdataPlugins.WarningDimensions
import NetdataPlugins.DimensionIds
import NetdataPlugins.Parser
import NetdataPlugins.PluginLoop
import NetdataPlugins.PluginAccounting
import NetdataPlugins.PluginRuns
import NetdataPlugins.ParserPlugin
import NetdataPlugins.ScannerdCounts
import NetdataPlugins.ScannerPlugin
import NetdataPlugins.QmailLoop
import NetdataPlugins.PluginHandover
import NetdataPlugins.QmailHandover
import NetdataPlugins.QmailRefinement
import NetdataPlugins.CollectorFrame
import NetdataPlugins.PluginAudience
import NetdataPlugins.ScannerAudience
import NetdataPlugins.QmailAudience
import NetdataPlugins.InotifyQueue
import NetdataPlugins.PrintedText
import NetdataPlugins.PluginText
import NetdataPlugins.QmailText
import NetdataPlugins.ScannerText
