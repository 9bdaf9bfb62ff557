import EltSummer.Framework.Interleaving
import EltSummer.Arrays.MagicSums
import EltSummer.Arrays.MagicSafety
import EltSummer.PhoneBook.Growth
import EltSummer.PhoneBook.Persistence
import EltSummer.PhoneBook.Views
import EltSummer.PhoneBook.Adding
import EltSummer.PhoneBook.Removing
import EltSummer.PhoneBook.Overruns
import EltSummer.PhoneBook.Directory
import EltSummer.Threads.Shops
import EltSummer.Threads.Accounts
import EltSummer.HighloadServers.Descriptors
import EltSummer.HighloadServers.PoolHandOff
import EltSummer.HighloadServers.PoolSlots
import EltSummer.HighloadServers.PoolClosing
import EltSummer.QueueChat.Machine
import EltSummer.QueueChat.Moves
import EltSummer.QueueChat.Order
import EltSummer.QueueChat.Handling
import EltSummer.QueueChat.Sessions
import EltSummer.QueueChat.Broadcast
import EltSummer.QueueChat.Receipts
import EltSummer.QueueChat.Keyboard
import EltSummer.Framework.Semaphore
import EltSummer.ShmemChat.Exclusion
import EltSummer.Framework.Mailbox
import EltSummer.ShmemChat.Mailboxes
import EltSummer.ShmemChat.Delivery
import EltSummer.Framework.Terminal
import EltSummer.TextEditor.Editor
import EltSummer.TextEditor.Editing
import EltSummer.TextEditor.RoundTrip
import EltSummer.HighloadServers.ClientSession
import EltSummer.HighloadServers.PoolOwners
import EltSummer.HighloadServers.PoolReplies
import EltSummer.QueueChat.Framing
import EltSummer.ShmemChat.Commands
import EltSummer.Arrays.Spiral
import EltSummer.HighloadServers.LoadClient
import EltSummer.HighloadServers.ThreadPerClient
import EltSummer.ComInter.Tokenizer
import EltSummer.Framework.Layout
import EltSummer.Framework.Scanf
import EltSummer.HighloadServers.LoadCleanup
import EltSummer.PhoneBook.Dialogue
import EltSummer.PhoneBook.TypedActions
import EltSummer.PhoneBook.Program
import EltSummer.PhoneBook.TypedSessions
import EltSummer.PluginCalc.Record
import EltSummer.PluginCalc.Scan
import EltSummer.ShmemChat.Names
import EltSummer.SocketServers.Answer
import EltSummer.TextEditor.Cursor
import EltSummer.Calculator.Session
import EltSummer.HighloadServers.IndexMessages
import EltSummer.HighloadServers.TextQueue
import EltSummer.ForkExec.ForkTree
import EltSummer.Pipes.TwoPipes
import EltSummer.Threads.Progress
import EltSummer.HighloadServers.EchoShutdown
import EltSummer.HighloadServers.CleanUp
import EltSummer.ComInter.Interpreter
import EltSummer.Calculator.Libraries
import EltSummer.QueueChat.Progress
import EltSummer.ShmemChat.Progress
import EltSummer.HighloadServers.PoolEnd
import EltSummer.Signals.Counting
import EltSummer.HighloadServers.ClientExit
import EltSummer.HighloadServers.ClientShutdown
