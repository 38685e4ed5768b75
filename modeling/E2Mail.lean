import E2Mail.Lib.Interleave
import E2Mail.Backend.World
import E2Mail.Backend.Calls
import E2Mail.Backend.Login
import E2Mail.Backend.PasswordChange
import E2Mail.Backend.Accounts
import E2Mail.Backend.Footprint
import E2Mail.Backend.SecondFactor
import E2Mail.Backend.LoginPaths
import E2Mail.Backend.BackupCode
import E2Mail.Backend.PasswordAtomic
import E2Mail.Backend.PasswordRace
import E2Mail.Backend.AccountPaths
import E2Mail.Backend.DefaultAccount
import E2Mail.Imap.Server
import E2Mail.Imap.Client
import E2Mail.Imap.Conservation
import E2Mail.Imap.ThreadIndex
import E2Mail.Imap.ThreadRefresh
import E2Mail.Imap.Search
import E2Mail.Imap.ThreadFilter
import E2Mail.Imap.ThreadGroups
import E2Mail.Imap.ThreadList
import E2Mail.Frontend.MessageList
import E2Mail.Imap.Pool
import E2Mail.Imap.PoolWait
import E2Mail.Backend.AccountRouting
import E2Mail.Lib.Lexer
import E2Mail.Sieve.Tokenizer
import E2Mail.Sieve.Generator
import E2Mail.Sieve.Syntax
import E2Mail.Sieve.Pieces
import E2Mail.Sieve.Generated
import E2Mail.Sieve.Injection
import E2Mail.Sieve.Parser
import E2Mail.Sieve.Complete
import E2Mail.Sieve.RoundTrip
import E2Mail.Sieve.Sound
import E2Mail.Sieve.Commands
import E2Mail.Backend.FactorGuard
import E2Mail.Backend.FactorRace
import E2Mail.Backend.FirstLogin
import E2Mail.Backend.FolderOrder
import E2Mail.Lib.NetAddr
import E2Mail.Backend.AttemptLimit
import E2Mail.Lib.Effect
import E2Mail.Sieve.Client
import E2Mail.Sieve.Handshake
import E2Mail.Frontend.MailStyles
import E2Mail.Backend.Connections
import E2Mail.Backend.Lifetimes
import E2Mail.Backend.PoolFreshness
import E2Mail.Backend.EditPaths
import E2Mail.Backend.LostUpdate
import E2Mail.Sieve.AllOrNothing
import E2Mail.Imap.ThreadClasses
import E2Mail.Imap.Attachments
import E2Mail.Backend.Keyrings
import E2Mail.Frontend.Composer
import E2Mail.Lib.Lines
import E2Mail.Sieve.Framing
import E2Mail.Sieve.Lockstep
import E2Mail.Sieve.ScriptList
import E2Mail.Sieve.ScriptNames
import E2Mail.Sieve.ScriptReply
import E2Mail.Backend.Challenge
import E2Mail.Backend.AddressBook
import E2Mail.Backend.ColdDatabase
import E2Mail.Lib.Regex
import E2Mail.Frontend.MimeText
import E2Mail.Lib.RegexLanguage
import E2Mail.Frontend.CidImages
import E2Mail.Frontend.Linkify
import E2Mail.Frontend.LocalQuery
import E2Mail.Frontend.PgpService
import E2Mail.Imap.Encrypted
import E2Mail.Imap.LocalFilter
import E2Mail.Imap.ThreadSums
import E2Mail.Imap.SearchWords
import E2Mail.Lib.Int64
import E2Mail.Imap.PageArithmetic
import E2Mail.Imap.PagedLists
import E2Mail.Imap.References
import E2Mail.Lib.Rounds
import E2Mail.Imap.SubjectKeys
import E2Mail.Frontend.TextEncodings
import E2Mail.Lib.Separator
import E2Mail.Lib.Failure
import E2Mail.Smtp.Sender
import E2Mail.Backend.SlidingWindow
import E2Mail.Lib.KeyMap
import E2Mail.Lib.FixedWindow
import E2Mail.Backend.RateLimit
import E2Mail.Backend.ContactPages
import E2Mail.Backend.AvatarFiles
import E2Mail.Backend.Mailboxes
import E2Mail.Lib.Admission
import E2Mail.Backend.ImportRoom
import E2Mail.Lib.DistinguishedName
import E2Mail.Backend.UserDN
import E2Mail.Lib.Calendar
import E2Mail.Backend.Snapshots
import E2Mail.Lib.BoundedQueue
import E2Mail.Lib.Csv
import E2Mail.Lib.Escapes
import E2Mail.Lib.Stamp
import E2Mail.Lib.Rotation
import E2Mail.Smtp.PostOutgoing
import E2Mail.Backend.Events
import E2Mail.Backend.ContactFiles
import E2Mail.Backend.ContactCards
import E2Mail.Backend.ContactRestore
import E2Mail.Backend.Passkeys
import E2Mail.Backend.Ceremonies
import E2Mail.Backend.PasskeyPaths
import E2Mail.Backend.PasskeyShelf
import E2Mail.Backend.Enrolment
import E2Mail.Backend.PasskeyLogin
