import VleoNotebook.Lib.Proc
import VleoNotebook.Lib.Runs
import VleoNotebook.Lib.WaitFor
import VleoNotebook.Mess.RoundTrip
import VleoNotebook.Mess.Stream
import VleoNotebook.Mess.Server
import VleoNotebook.Mess.Survival
import VleoNotebook.Mess.Receiving
import VleoNotebook.Mess.AtMostOnce
import VleoNotebook.Mess.Ends
import VleoNotebook.Mess.Complete
import VleoNotebook.Mess.Network
import VleoNotebook.Mess.Flooding
import VleoNotebook.Mess.NoLoss
import VleoNotebook.Mess.Ping
import VleoNotebook.Mess.TcLink
import VleoNotebook.Mess.Replies
import VleoNotebook.Mess.Loop
import VleoNotebook.Mess.Identity
import VleoNotebook.Mess.Consistency
import VleoNotebook.Mess.AutoLink
import VleoNotebook.Mess.Truncation
import VleoNotebook.Mess.TcServer
import VleoNotebook.Ledger.Pipeline
import VleoNotebook.Ledger.Reconcile
import VleoNotebook.Ledger.Seam
import VleoNotebook.Ledger.Balance
import VleoNotebook.Ledger.Balances
import VleoNotebook.Ledger.CommandLine
import VleoNotebook.Pcap.Checksum
import VleoNotebook.Pcap.StoredChecksum
import VleoNotebook.Pcap.UDPchecksum
import VleoNotebook.Raid.CopyWBadBlocks
import VleoNotebook.Raid.FindBlock
import VleoNotebook.Ledger.MatchCsv
import VleoNotebook.Ledger.Amounts
import VleoNotebook.Ledger.Periods
import VleoNotebook.Ledger.DateFormats
import VleoNotebook.Mess.WellFormed
import VleoNotebook.Mess.Addressed
import VleoNotebook.Life.Runs
import VleoNotebook.Lepm.Lepm
import VleoNotebook.Strings.ReverseString
import VleoNotebook.Sieve.SimpleSieve
import VleoNotebook.Sieve.SeiveP5
import VleoNotebook.Sieve.Agreement
import VleoNotebook.Game.World
import VleoNotebook.Mess.StartCode
import VleoNotebook.KernelTools.CalcProcBuddyinfo
import VleoNotebook.Protobuf.RoundTrip
import VleoNotebook.Tetris.Unattended
import VleoNotebook.SemShm.Runs
