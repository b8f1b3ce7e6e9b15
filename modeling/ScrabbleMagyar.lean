import ScrabbleMagyar.Words.Explain
import ScrabbleMagyar.Words.Inflection
import ScrabbleMagyar.Words.NeedAffix
import ScrabbleMagyar.Words.Attested
import ScrabbleMagyar.Engine.Tokenize
import ScrabbleMagyar.Words.RackJudge
import ScrabbleMagyar.Words.ShortCache
import ScrabbleMagyar.Words.Suggestions
import ScrabbleMagyar.Engine.Shape
import ScrabbleMagyar.Engine.Progress
import ScrabbleMagyar.Engine.Ledger
import ScrabbleMagyar.Engine.Secrecy
import ScrabbleMagyar.Engine.VotedPath
import ScrabbleMagyar.Engine.RoundTrip
import ScrabbleMagyar.Words.AffixLanguage
import ScrabbleMagyar.Words.WordReview
import ScrabbleMagyar.Server.Tokens
import ScrabbleMagyar.Server.AdminRights
import ScrabbleMagyar.Db.Friends
import ScrabbleMagyar.Db.Codes
import ScrabbleMagyar.Server.Saving
import ScrabbleMagyar.Db.Renaming
import ScrabbleMagyar.Db.Voiding
import ScrabbleMagyar.Server.Grace
import ScrabbleMagyar.Server.SavedSeats
import ScrabbleMagyar.Services.RateLimit
import ScrabbleMagyar.Engine.Answers
import ScrabbleMagyar.Engine.FormedWords
import ScrabbleMagyar.Engine.TurnOrder
import ScrabbleMagyar.Engine.Voters
import ScrabbleMagyar.Robot.Retries
import ScrabbleMagyar.Robot.Packed
import ScrabbleMagyar.Accounts.Elo
import ScrabbleMagyar.Db.DailyScores
import ScrabbleMagyar.Accounts.SocketAuth
import ScrabbleMagyar.Admin.Moderation
import ScrabbleMagyar.Admin.Dict
import ScrabbleMagyar.Server.Clock
import ScrabbleMagyar.Server.Persisting
import ScrabbleMagyar.Robot.Generator
import ScrabbleMagyar.Foundations.Groups
import ScrabbleMagyar.Engine.Positions
import ScrabbleMagyar.Robot.Analysis
import ScrabbleMagyar.Foundations.Gather
import ScrabbleMagyar.Robot.Walks
import ScrabbleMagyar.Robot.CrossWords
import ScrabbleMagyar.Robot.Exactness
import ScrabbleMagyar.Robot.Hints
import ScrabbleMagyar.Foundations.Interrupt
import ScrabbleMagyar.Robot.Budget
import ScrabbleMagyar.Engine.Supply
import ScrabbleMagyar.Robot.Decision
import ScrabbleMagyar.Server.RobotTurns
import ScrabbleMagyar.Foundations.Since
import ScrabbleMagyar.Accounts.Password
import ScrabbleMagyar.Accounts.Site
import ScrabbleMagyar.Accounts.Sessions
import ScrabbleMagyar.Accounts.Access
import ScrabbleMagyar.Accounts.Addresses
