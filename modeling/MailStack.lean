import MailStack.Machinery.Bytes
import MailStack.Machinery.Rank
import MailStack.Machinery.Replay
import MailStack.Machinery.Run
import MailStack.Machinery.Search
import MailStack.Machinery.Table
import MailStack.Machinery.Owner
import MailStack.Machinery.Prog
import MailStack.Machinery.Words
import MailStack.Machinery.Clients
import MailStack.Machinery.Faults
import MailStack.Machinery.Handler
import MailStack.Machinery.Locking
import MailStack.Machinery.Path
import MailStack.Machinery.Transaction
import MailStack.Machinery.Traced
import MailStack.Machinery.Brackets
import MailStack.Machinery.Lines
import MailStack.Machinery.Calendar
import MailStack.Machinery.Trace
import MailStack.Base64.Codec
import MailStack.Base64.RoundTrip
import MailStack.Base64.Stream
import MailStack.Base64.Format
import MailStack.Base64.StreamDecoder
import MailStack.Base64.File
import MailStack.Store.Schema
import MailStack.Store.Listing
import MailStack.Store.Repository
import MailStack.Store.Accounts
import MailStack.Store.Flags
import MailStack.Store.Tenant
import MailStack.Store.Uid
import MailStack.Store.Deliveries
import MailStack.Store.FlagAlgebra
import MailStack.Store.FolderNames
import MailStack.Store.Ledger
import MailStack.Store.Statements
import MailStack.Store.AllOrNothing
import MailStack.Mime.StringUtils
import MailStack.Mime.Decoder
import MailStack.Mime.Utf8
import MailStack.Mime.Encoder
import MailStack.Mime.Parser
import MailStack.Mime.Builder
import MailStack.Mime.Fields
import MailStack.Mime.Multipart
import MailStack.Mime.Message
import MailStack.Mime.Structure
import MailStack.Mime.RoundTrip
import MailStack.Mime.Subject
import MailStack.Mime.Termination
import MailStack.Mime.TextBody
import MailStack.Mime.EncodedWords
import MailStack.Mime.AddressList
import MailStack.Mime.Recipients
import MailStack.Mime.HeaderChunks
import MailStack.Mime.Wrapping
import MailStack.Mime.QuotedPrintable
import MailStack.Mime.Headers
import MailStack.Smtp.Parser
import MailStack.Smtp.Session
import MailStack.Smtp.Server
import MailStack.Smtp.Auth
import MailStack.Smtp.Data
import MailStack.Smtp.BeforeHelo
import MailStack.Smtp.SaveMessage
import MailStack.Smtp.Delivery
import MailStack.Smtp.EndOfData
import MailStack.Smtp.Refusal
import MailStack.Smtp.MailDir
import MailStack.Imap.Parser
import MailStack.Imap.Termination
import MailStack.Imap.Utils
import MailStack.Imap.Dispatcher
import MailStack.Imap.SeqSet
import MailStack.Imap.Triple
import MailStack.Imap.BodySection
import MailStack.Imap.Copy
import MailStack.Imap.Alone
import MailStack.Imap.Tenant
import MailStack.Imap.Handlers
import MailStack.Imap.Walk
import MailStack.Imap.Serve
import MailStack.Imap.Create
import MailStack.Imap.FetchLine
import MailStack.Imap.Isolation
import MailStack.Imap.Envelope
import MailStack.Imap.Weekday
import MailStack.Imap.Expunge
import MailStack.Imap.Inbox
import MailStack.Imap.UidSets
import MailStack.Imap.Counts
import MailStack.Imap.StoreFlags
import MailStack.Imap.Addressed
import MailStack.Imap.UidReport
import MailStack.Imap.Items
import MailStack.Imap.Spelling
import MailStack.Imap.Arguments
import MailStack.Imap.Hierarchy
import MailStack.Imap.Session
import MailStack.Imap.PartSize
import MailStack.Proto.SecureChannel
import MailStack.Proto.Ordering
import MailStack.Proto.Handshake
import MailStack.Proto.Socket
import MailStack.Client.Quote
import MailStack.Client.Exchange
import MailStack.Client.SendMail
import MailStack.Client.Move
import MailStack.Client.Payload
import MailStack.Client.Summaries
import MailStack.Client.Worker
import MailStack.Client.Selected
import MailStack.Client.Starred
import MailStack.Client.AttachmentSize
import MailStack.Client.Addresses
import MailStack.Client.SmtpReply
import MailStack.Config.JsonParser
import MailStack.Config.Json
import MailStack.Logger.FileStrategy
import MailStack.Logger.Rotation
import MailStack.Api.Handler
import MailStack.Api.Passwords
import MailStack.Api.Login
import MailStack.Imap.Lasting
import MailStack.Store.ConnectionPool
import MailStack.Client.CommandQueue
import MailStack.Server.ThreadPool
import MailStack.Server.Main
import MailStack.Machinery.Endings
import MailStack.Mime.Endings
import MailStack.Client.Submission
import MailStack.Client.Submitted
