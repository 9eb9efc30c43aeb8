import DnsServer.Foundation.CString
import DnsServer.Foundation.Memory
import DnsServer.Foundation.KeyedTable
import DnsServer.Foundation.Runs
import DnsServer.Foundation.Interleaving
import DnsServer.Foundation.Locking
import DnsServer.Foundation.Serving
import DnsServer.Foundation.Turns
import DnsServer.Foundation.SharedTokens
import DnsServer.Foundation.Prefixes
import DnsServer.Foundation.Heap
import DnsServer.Foundation.LinkedList
import DnsServer.Foundation.Scanning
import DnsServer.Wire.Name
import DnsServer.Wire.Message
import DnsServer.Wire.Records
import DnsServer.Model.Parser
import DnsServer.Model.Json
import DnsServer.Model.JsonText
import DnsServer.Model.JsonPrinting
import DnsServer.Model.Records
import DnsServer.Model.Loader
import DnsServer.Model.Query
import DnsServer.Model.Listing
import DnsServer.Model.Management
import DnsServer.Model.InMemory
import DnsServer.Model.Lifetime
import DnsServer.Model.Uthash
import DnsServer.Model.Threads
import DnsServer.Store.Loading
import DnsServer.Store.Insertions
import DnsServer.Store.Commands
import DnsServer.Store.Listing
import DnsServer.Store.Reload
import DnsServer.Store.Requests
import DnsServer.Store.Exclusivity
import DnsServer.Store.Triples
import DnsServer.Store.Faithful
import DnsServer.Store.Building
import DnsServer.Store.Reporting
import DnsServer.Parsing.DomainFormat
import DnsServer.Parsing.Question
import DnsServer.Parsing.Grammar
import DnsServer.Parsing.RoundTrip
import DnsServer.Parsing.JsonSafety
import DnsServer.Parsing.JsonTokens
import DnsServer.Parsing.JsonGrammar
import DnsServer.Parsing.JsonPrinting
import DnsServer.Resolution.Lookup
import DnsServer.Answering.Values
import DnsServer.Answering.Response
import DnsServer.Answering.Buffers
import DnsServer.Answering.Reading
import DnsServer.Answering.WellFormed
import DnsServer.Answering.Delivery
import DnsServer.Answering.Exchange
import DnsServer.Answering.MailExchange
import DnsServer.Answering.FromFile
import DnsServer.Answering.ReadBack
import DnsServer.Resolution.Existence
import DnsServer.Resolution.Agreement
import DnsServer.Resolution.Reference
import DnsServer.Store.Lifetime
import DnsServer.Store.Respelling
import DnsServer.Answering.LetterCase
import DnsServer.Concurrency.Atomicity
import DnsServer.Concurrency.Tokenising
import DnsServer.Concurrency.Sections
import DnsServer.Concurrency.Queries
import DnsServer.Concurrency.TwoThreads
import DnsServer.Hashing.Buckets
import DnsServer.Hashing.Expanding
import DnsServer.Hashing.Order
import DnsServer.Hashing.Refinement
import DnsServer.Hashing.Server
